import HaybarnHttpfs.FullDownload
import HaybarnHttpfs.BufferedRead

/-!
A full download that fails. `FullDownload` installs the handle of the cached file, which owns
the lock of the file, before the request, and no failure takes it out again.
-/

namespace HaybarnHttpfs.FailedDownload

open HaybarnHttpfs.Foundation.TransitionRuns HaybarnHttpfs.HttpState
open HaybarnHttpfs.FullDownload HaybarnHttpfs.BufferedRead

universe u

variable {α : Type u}

/-- Where `FullDownload` of a handle can fail. -/
inductive Failure (α : Type u) where
  | requestThrows
  | notOk (a : Attempt α) (hstatus : a.status ≠ 200)
  | bodyCut (a : Attempt α) (hcut : a.completed = false)

def Failure.labels (h : Nat) : Failure α → List (Label α)
  | requestThrows => [.fail h]
  | notOk a _ => [.attempt h a, .fail h]
  | bodyCut a _ => [.attempt h a, .fail h]

/-- The handle still has the file that it failed to download, and the lock of it. -/
structure Trapped (s : HTTPState α) (h file : Nat) : Prop where
  holds : (s.handles h).phase = .failed file
  uninitialized : (s.files file).initialized = false
  locked : s.locks file = some h

variable {s t u : HTTPState α} {h file : Nat} {labels : List (Label α)}

theorem trapped_of_failed (hlocked : Locked s) (hphase : (s.handles h).phase = .failed file) :
    Trapped s h file := by
  obtain ⟨howner, hopen⟩ := hlocked h file (.inr hphase)
  exact ⟨hphase, hopen, howner⟩

theorem locked_of_run {ok : HTTPState α → Label α → Prop} (hlocked : Locked s)
    (hrun : Run step ok s labels t) : Locked t := by
  refine hrun.invariant Locked ?_ hlocked
  intro s l t hlocked _ hstep
  exact hlocked.step hstep

theorem failed_of_fail (hstep : step s (.fail h) = some t) :
    ∃ file, (t.handles h).phase = .failed file := by
  simp only [step] at hstep
  split at hstep
  · rename_i file hphase
    cases hstep
    exact ⟨file, by simp [HTTPState.setHandle]⟩
  · cases hstep

theorem failed_of_failure {failure : Failure α}
    (hrun : Run step Unrestricted s (failure.labels h) t) :
    ∃ file, (t.handles h).phase = .failed file := by
  have hlast : ∃ first, failure.labels h = first ++ [.fail h] := by
    cases failure with
    | requestThrows => exact ⟨[], rfl⟩
    | notOk a hstatus => exact ⟨[.attempt h a], rfl⟩
    | bodyCut a hcut => exact ⟨[.attempt h a], rfl⟩
  obtain ⟨first, hlabels⟩ := hlast
  rw [hlabels] at hrun
  obtain ⟨m, -, hfail⟩ := hrun.split
  cases hfail with
  | cons _ hstep hrest =>
      cases hrest
      exact failed_of_fail hstep

theorem not_finishes {a : Attempt α} (hfails : a.status ≠ 200 ∨ a.completed = false) :
    a.finishes = false := by
  unfold Attempt.finishes
  rcases hfails with hstatus | hcut
  · rw [decide_eq_false hstatus, Bool.false_and]
  · rw [hcut, Bool.and_false]

theorem run_fail (hphase : (s.handles h).phase = .downloading file) :
    ∃ t, Run step Unrestricted s [.fail h] t := by
  refine ⟨s.setHandle h { length := (s.handles h).length, phase := .failed file },
    .single trivial ?_⟩
  simp only [step, hphase]

theorem failure_happens (failure : Failure α) (hphase : (s.handles h).phase = .downloading file) :
    ∃ t, Run step Unrestricted s (failure.labels h) t := by
  have hattempt : ∀ a : Attempt α, a.finishes = false →
      ∃ t, Run step Unrestricted s [.attempt h a, .fail h] t := by
    intro a hfails
    have hstep : step s (.attempt h a) = some (receiveAttempt s h file a) := by
      simp only [step, hphase]
    have hnext : ((receiveAttempt s h file a).handles h).phase = .downloading file := by
      simp [receiveAttempt, hfails, HTTPState.setHandle]
    obtain ⟨t, hfail⟩ := run_fail hnext
    exact ⟨t, .cons trivial hstep hfail⟩
  cases failure with
  | requestThrows => exact run_fail hphase
  | notOk a hstatus => exact hattempt a (not_finishes (.inl hstatus))
  | bodyCut a hcut => exact hattempt a (not_finishes (.inr hcut))

theorem failed_step {l : Label α} (hphase : (s.handles h).phase = .failed file)
    (halive : l ≠ .drop h) (hstep : step s l = some t) : (t.handles h).phase = .failed file := by
  by_cases hactor : actor l = some h
  · cases l with
    | drop h' =>
        cases hactor
        exact absurd rfl halive
    | erase => cases hactor
    | _ =>
        cases hactor
        simp [step, hphase] at hstep
  · rw [handles_step hactor hstep]
    exact hphase

theorem read_of_trapped (htrapped : Trapped s h file) (serve : Nat → Nat → RangeReply α)
    (download : Download α) (reader : HTTPFileHandle α) (nrBytes location : Nat) :
    ∃ reader', read serve download { reader with cachedFileHandle := some (s.files file) } nrBytes
      location = some (reader', .error .cachedFileNotInitialized) := by
  simp only [BufferedRead.read, readInternal, readCached, htrapped.uninitialized, Bool.not_false,
    if_true]
  exact ⟨_, rfl⟩

theorem start_of_trapped (htrapped : Trapped s h file) (hregistered : s.cachedFile = some file)
    (h' length : Nat) : step s (.start h' length) = none := by
  have hfile : getCachedFile s = file := by
    unfold getCachedFile
    rw [hregistered]
    rfl
  simp only [step, registerFile_files, registerFile_locks, hfile, htrapped.uninitialized,
    htrapped.locked]
  split
  · rfl
  · rfl

/-- Whatever fails in whatever run of downloads, while the handle lives it has a file that is
not initialized and the lock of it: its reads throw, and the other opens of the path wait. -/
theorem failed_download_traps (hrun : Run step Unrestricted {} labels s) (failure : Failure α)
    (hfailure : Run step Unrestricted s (failure.labels h) t) {later : List (Label α)}
    (hlater : Run step (fun _ l => l ≠ .drop h) t later u) :
    ∃ file, Trapped u h file ∧
      (∀ serve download (reader : HTTPFileHandle α) nrBytes location, ∃ reader',
        read serve download { reader with cachedFileHandle := some (u.files file) } nrBytes
          location = some (reader', .error .cachedFileNotInitialized)) ∧
      (u.cachedFile = some file → ∀ h' length, step u (.start h' length) = none) := by
  obtain ⟨file, hphase⟩ := failed_of_failure hfailure
  have hfailed : (u.handles h).phase = .failed file := by
    refine hlater.invariant (fun s => (s.handles h).phase = .failed file) ?_ hphase
    intro s l t hphase halive hstep
    exact failed_step hphase halive hstep
  have hlocked : Locked u :=
    locked_of_run (locked_of_run (locked_of_run downloadsExact_init.locked hrun) hfailure) hlater
  have htrapped := trapped_of_failed hlocked hfailed
  exact ⟨file, htrapped, read_of_trapped htrapped, start_of_trapped htrapped⟩

/-- One handle takes hold of the file. -/
def oneStart : List (Label UInt8) := [.start 0 3]

/-- The server answers the download with 500. -/
def serverError : Failure UInt8 :=
  .notOk { client := .httplib, status := 500, chunks := [] } (by decide)

theorem failed_download_traps_server_error :
    ∃ s t, Run step Unrestricted {} oneStart s ∧
      Run step Unrestricted s (serverError.labels 0) t ∧ ∃ file, Trapped t 0 file := by
  have hexec : ((exec step {} oneStart).map fun s => (s.handles 0).phase) =
      some (.downloading 0) :=
    rfl
  obtain ⟨s, hs, hphase⟩ := Option.map_eq_some_iff.mp hexec
  have hstart := run_of_exec hs
  obtain ⟨t, hfailure⟩ := failure_happens serverError hphase
  obtain ⟨file, htrapped, -, -⟩ := failed_download_traps hstart serverError hfailure (.nil t)
  exact ⟨s, t, hstart, hfailure, file, htrapped⟩

/-- After the failed download the lock is held, a second open of the path waits, and a read
throws. -/
theorem server_error_leaves_lock :
    ∃ s, Run step Unrestricted {} (oneStart ++ serverError.labels 0) s ∧
      s.locks 0 = some 0 ∧ (s.files 0).initialized = false ∧ step s (.start 1 3) = none ∧
      ∃ reader', readInternal
          (fun _ _ => { written := fun _ => none, result := .threw .connection })
        { length := 3, cachedFileHandle := some (s.files 0) } 1 0 =
          some (reader', .threw .cachedFileNotInitialized) :=
  ⟨_, .cons trivial rfl (.cons trivial rfl (.single trivial rfl)), rfl, rfl, rfl, _, rfl⟩

end HaybarnHttpfs.FailedDownload
