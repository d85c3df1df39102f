import HaybarnHttpfs.Foundation.TransitionRuns
import HaybarnHttpfs.HttpState
import Mathlib.Logic.Function.Basic

/-!
`HTTPFileHandle::FullDownload` of one path by the handles that share an HTTP
state. All attempts of a download go through the same content handler, which
appends at the length of the handle; nothing resets the length or the file
between attempts, nor when another handle takes over a download that failed.
-/

namespace HaybarnHttpfs.FullDownload

open HaybarnHttpfs.Foundation.Memory HaybarnHttpfs.Foundation.TransitionRuns
open HaybarnHttpfs.HttpState

universe u

variable {α : Type u}

/-- httplib hands over the body as it arrives, curl all at once in the end. -/
inductive Client where
  | httplib
  | curl
  deriving DecidableEq, Repr

structure Attempt (α : Type u) where
  client : Client
  status : Nat
  chunks : List (List α)
  completed : Bool := true
  deriving Repr

def Attempt.body (a : Attempt α) : List α := a.chunks.flatten

/-- The pieces that reach the content handler. -/
def Attempt.delivered (a : Attempt α) : List (List α) :=
  if a.status ≥ 400 then []
  else
    match a.client with
    | .httplib => a.chunks
    | .curl => if a.completed then [a.chunks.flatten] else []

def Attempt.finishes (a : Attempt α) : Bool := a.status = 200 && a.completed

theorem Attempt.flatten_delivered {a : Attempt α} (hfinishes : a.finishes) :
    a.delivered.flatten = a.body := by
  simp only [finishes, Bool.and_eq_true, decide_eq_true_eq] at hfinishes
  obtain ⟨hstatus, hcompleted⟩ := hfinishes
  unfold delivered body
  rw [if_neg (by omega)]
  cases a.client with
  | _ => simp [hcompleted]

/-- What `cached_file_handle` of a handle refers to. After a failed download it
keeps the file, and its lock, until the handle goes away. -/
inductive Phase where
  | idle
  | downloading (file : Nat)
  | attached (file : Nat)
  | failed (file : Nat)
  deriving DecidableEq, Repr

structure Handle where
  length : Nat := 0
  phase : Phase := .idle
  deriving DecidableEq, Repr

/-- `cachedFile` is the entry of the path in `cached_files`; files that the map
no longer holds live on in the handles. `bodies` records the body of the
response that completed each file. -/
structure HTTPState (α : Type u) where
  files : Nat → CachedFile α := fun _ => {}
  locks : Nat → Option Nat := fun _ => none
  nextFile : Nat := 0
  cachedFile : Option Nat := none
  handles : Nat → Handle := fun _ => {}
  bodies : Nat → List α := fun _ => []

/-- The file that `GetCachedFile` finds or creates for the path. -/
def getCachedFile (s : HTTPState α) : Nat := s.cachedFile.getD s.nextFile

def registerFile (s : HTTPState α) : HTTPState α :=
  match s.cachedFile with
  | some _ => s
  | none => { s with cachedFile := some s.nextFile, nextFile := s.nextFile + 1 }

def HTTPState.setHandle (s : HTTPState α) (h : Nat) (handle : Handle) : HTTPState α :=
  { s with handles := Function.update s.handles h handle }

def HTTPState.setLock (s : HTTPState α) (file : Nat) (owner : Option Nat) : HTTPState α :=
  { s with locks := Function.update s.locks file owner }

def HTTPState.setFile (s : HTTPState α) (file : Nat) (cached : CachedFile α) : HTTPState α :=
  { s with files := Function.update s.files file cached }

def HTTPState.setBody (s : HTTPState α) (file : Nat) (body : List α) : HTTPState α :=
  { s with bodies := Function.update s.bodies file body }

inductive Label (α : Type u) where
  /-- `FullDownload` takes hold of the file; `length` is what the handle has so
  far, from a `HEAD`, from the file information or from an earlier download. -/
  | start (h length : Nat)
  | attempt (h : Nat) (a : Attempt α)
  | fail (h : Nat)
  | drop (h : Nat)
  | erase

def receiveAttempt (s : HTTPState α) (h file : Nat) (a : Attempt α) : HTTPState α :=
  let (length, cached) := receiveChunks a.delivered (s.handles h).length (s.files file)
  if a.finishes then
    (((s.setFile file (setInitialized cached length)).setBody file a.body).setLock file
      none).setHandle h { length, phase := .attached file }
  else (s.setFile file cached).setHandle h { length, phase := .downloading file }

def step (s : HTTPState α) : Label α → Option (HTTPState α)
  | .start h length =>
      if (s.handles h).phase ≠ .idle then none
      else
        let file := getCachedFile s
        let s := registerFile s
        -- the file was downloaded while this handle waited, or before
        if (s.files file).initialized then
          some (s.setHandle h { length := (s.files file).size, phase := .attached file })
        else if s.locks file = none then
          some ((s.setLock file (some h)).setHandle h { length, phase := .downloading file })
        else none
  | .attempt h a =>
      match (s.handles h).phase with
      | .downloading file => some (receiveAttempt s h file a)
      | _ => none
  | .fail h =>
      match (s.handles h).phase with
      | .downloading file =>
          some (s.setHandle h { length := (s.handles h).length, phase := .failed file })
      | _ => none
  | .drop h =>
      match (s.handles h).phase with
      | .idle => none
      | .attached _ => some (s.setHandle h { (s.handles h) with phase := .idle })
      | .downloading file | .failed file =>
          some ((s.setLock file none).setHandle h { (s.handles h) with phase := .idle })
  | .erase => some { s with cachedFile := none }

/-- Every initialized file is the body of the response that completed it. -/
def FilesExact (s : HTTPState α) : Prop :=
  ∀ file, (s.files file).initialized →
    (s.files file).size = (s.bodies file).length ∧
      Holds (s.files file).data (s.bodies file)

/-- The attempt that completes a download starts with length zero, or with a
file that has no buffer yet and a body that reaches the content handler. -/
def CompletesFromStart (s : HTTPState α) : Label α → Prop
  | .attempt h a => ∀ file, (s.handles h).phase = .downloading file → a.finishes →
      (s.handles h).length = 0 ∨ ((s.files file).capacity = 0 ∧ a.delivered ≠ [])
  | _ => True

def HoldsLock (s : HTTPState α) (h file : Nat) : Prop :=
  (s.handles h).phase = .downloading file ∨ (s.handles h).phase = .failed file

/-- A handle that downloads or has failed to owns the lock of a file that is not
initialized. -/
def Locked (s : HTTPState α) : Prop :=
  ∀ h file, HoldsLock s h file →
    s.locks file = some h ∧ (s.files file).initialized = false

theorem Locked.alone {s : HTTPState α} {h h' file : Nat} (hlocked : Locked s)
    (hholds : HoldsLock s h file) (hne : h' ≠ h) : ¬ HoldsLock s h' file := by
  intro hholds'
  have howner := (hlocked h file hholds).1
  rw [(hlocked h' file hholds').1] at howner
  exact hne (Option.some.inj howner)

/-- Frame rule: a step of one handle on a file that no other handle holds. -/
theorem Locked.frame {s s' : HTTPState α} (h file : Nat) (hlocked : Locked s)
    (halone : ∀ h' ≠ h, ¬ HoldsLock s h' file)
    (hhandles : ∀ h' ≠ h, s'.handles h' = s.handles h')
    (hlocks : ∀ f ≠ file, s'.locks f = s.locks f)
    (hfiles : ∀ f ≠ file, s'.files f = s.files f)
    (hself : ∀ f, HoldsLock s' h f →
      s'.locks f = some h ∧ (s'.files f).initialized = false) : Locked s' := by
  intro h' f hholds
  by_cases hh : h' = h
  · subst hh
    exact hself f hholds
  · have hholds' : HoldsLock s h' f := by
      unfold HoldsLock at hholds ⊢
      rwa [hhandles h' hh] at hholds
    have hf : f ≠ file := by
      rintro rfl
      exact halone h' hh hholds'
    rw [hlocks f hf, hfiles f hf]
    exact hlocked h' f hholds'

structure DownloadsExact (s : HTTPState α) : Prop where
  exact : FilesExact s
  locked : Locked s

theorem FilesExact.frame {s s' : HTTPState α} (file : Nat) (hexact : FilesExact s)
    (hfiles : ∀ f ≠ file, s'.files f = s.files f ∧ s'.bodies f = s.bodies f)
    (hself : (s'.files file).initialized →
      (s'.files file).size = (s'.bodies file).length ∧
        Holds (s'.files file).data (s'.bodies file)) : FilesExact s' := by
  intro f hinitialized
  by_cases hf : f = file
  · subst hf
    exact hself hinitialized
  · rw [(hfiles f hf).1] at hinitialized ⊢
    rw [(hfiles f hf).2]
    exact hexact f hinitialized

@[simp] theorem registerFile_files (s : HTTPState α) : (registerFile s).files = s.files := by
  unfold registerFile
  split
  · rfl
  · rfl

@[simp] theorem registerFile_locks (s : HTTPState α) : (registerFile s).locks = s.locks := by
  unfold registerFile
  split
  · rfl
  · rfl

@[simp] theorem registerFile_handles (s : HTTPState α) :
    (registerFile s).handles = s.handles := by
  unfold registerFile
  split
  · rfl
  · rfl

@[simp] theorem registerFile_bodies (s : HTTPState α) :
    (registerFile s).bodies = s.bodies := by
  unfold registerFile
  split
  · rfl
  · rfl

theorem FilesExact.of_same {s s' : HTTPState α} (hexact : FilesExact s)
    (hfiles : s'.files = s.files) (hbodies : s'.bodies = s.bodies) : FilesExact s' := by
  unfold FilesExact
  rw [hfiles, hbodies]
  exact hexact

theorem Locked.detach {s : HTTPState α} {h : Nat} (hlocked : Locked s) (handle : Handle)
    (hphase : ∀ file, handle.phase ≠ .downloading file ∧ handle.phase ≠ .failed file) :
    Locked (s.setHandle h handle) := by
  intro h' file hholds
  have hh : h' ≠ h := by
    rintro rfl
    rcases hholds with hdownloading | hfailed
    · exact (hphase file).1 (by simpa [HTTPState.setHandle] using hdownloading)
    · exact (hphase file).2 (by simpa [HTTPState.setHandle] using hfailed)
  have hholds' : HoldsLock s h' file := by
    simpa [HoldsLock, HTTPState.setHandle, hh] using hholds
  simpa [HTTPState.setHandle] using hlocked h' file hholds'

theorem Locked.start {s s' : HTTPState α} {h length : Nat} (hlocked : Locked s)
    (hstep : step s (.start h length) = some s') : Locked s' := by
  simp only [step, registerFile_files, registerFile_locks] at hstep
  have hregistered : Locked (registerFile s) := by
    simpa [Locked, HoldsLock] using hlocked
  split at hstep
  · cases hstep
  · split at hstep
    · cases hstep
      apply hregistered.detach
      intro file
      exact ⟨nofun, nofun⟩
    · rename_i huninitialized
      split at hstep
      · cases hstep
        rename_i hfree
        apply hlocked.frame h (getCachedFile s)
        · intro h' _ hholds
          have howner := (hlocked h' _ hholds).1
          rw [hfree] at howner
          cases howner
        · intro h' hh
          simp [HTTPState.setHandle, HTTPState.setLock, hh]
        · intro f hf
          simp [HTTPState.setHandle, HTTPState.setLock, hf]
        · intro f hf
          simp [HTTPState.setHandle, HTTPState.setLock]
        · intro f hholds
          have hf : f = getCachedFile s := by
            simpa [HoldsLock, HTTPState.setHandle, eq_comm] using hholds
          subst hf
          simpa [HTTPState.setHandle, HTTPState.setLock] using huninitialized
      · cases hstep

theorem Locked.attempt {s : HTTPState α} {h file : Nat} (hlocked : Locked s)
    (hphase : (s.handles h).phase = .downloading file) (a : Attempt α) :
    Locked (receiveAttempt s h file a) := by
  have hholds : HoldsLock s h file := .inl hphase
  obtain ⟨howner, hopen⟩ := hlocked h file hholds
  have halone : ∀ h' ≠ h, ¬ HoldsLock s h' file := fun h' hh => hlocked.alone hholds hh
  unfold receiveAttempt
  simp only
  split
  · apply hlocked.frame h file halone
    · intro h' hh
      simp [HTTPState.setHandle, HTTPState.setLock, HTTPState.setBody, HTTPState.setFile, hh]
    · intro f hf
      simp [HTTPState.setHandle, HTTPState.setLock, HTTPState.setBody, HTTPState.setFile, hf]
    · intro f hf
      simp [HTTPState.setHandle, HTTPState.setLock, HTTPState.setBody, HTTPState.setFile, hf]
    · intro f hholds'
      simp [HoldsLock, HTTPState.setHandle] at hholds'
  · have hopen' := receiveChunks_initialized a.delivered (s.handles h).length (s.files file)
    rw [hopen] at hopen'
    apply hlocked.frame h file halone
    · intro h' hh
      simp [HTTPState.setHandle, HTTPState.setFile, hh]
    · intro f hf
      simp [HTTPState.setHandle, HTTPState.setFile]
    · intro f hf
      simp [HTTPState.setHandle, HTTPState.setFile, hf]
    · intro f hholds'
      have hf : f = file := by
        simpa [HoldsLock, HTTPState.setHandle, eq_comm] using hholds'
      subst hf
      simp [HTTPState.setHandle, HTTPState.setFile, hopen', howner]

theorem Locked.fail {s : HTTPState α} {h file : Nat} (hlocked : Locked s)
    (hphase : (s.handles h).phase = .downloading file) :
    Locked (s.setHandle h { length := (s.handles h).length, phase := .failed file }) := by
  have hholds : HoldsLock s h file := .inl hphase
  apply hlocked.frame h file (fun h' hh => hlocked.alone hholds hh)
  · intro h' hh
    simp [HTTPState.setHandle, hh]
  · intro f _
    rfl
  · intro f _
    rfl
  · intro f hholds'
    have hf : f = file := by
      simpa [HoldsLock, HTTPState.setHandle, eq_comm] using hholds'
    subst hf
    exact hlocked h f hholds

theorem Locked.release {s : HTTPState α} {h file : Nat} (hlocked : Locked s)
    (hholds : HoldsLock s h file) :
    Locked ((s.setLock file none).setHandle h { (s.handles h) with phase := .idle }) := by
  apply hlocked.frame h file (fun h' hh => hlocked.alone hholds hh)
  · intro h' hh
    simp [HTTPState.setHandle, HTTPState.setLock, hh]
  · intro f hf
    simp [HTTPState.setHandle, HTTPState.setLock, hf]
  · intro f _
    rfl
  · intro f hholds'
    simp [HoldsLock, HTTPState.setHandle] at hholds'

theorem Locked.step {s s' : HTTPState α} {l : Label α} (hlocked : Locked s)
    (hstep : step s l = some s') : Locked s' := by
  cases l with
  | start h length => exact hlocked.start hstep
  | attempt h a =>
      simp only [FullDownload.step] at hstep
      split at hstep
      · cases hstep
        rename_i hphase
        exact hlocked.attempt hphase a
      · cases hstep
  | fail h =>
      simp only [FullDownload.step] at hstep
      split at hstep
      · cases hstep
        rename_i hphase
        exact hlocked.fail hphase
      · cases hstep
  | drop h =>
      simp only [FullDownload.step] at hstep
      split at hstep
      · cases hstep
      · cases hstep
        apply hlocked.detach
        intro file
        exact ⟨nofun, nofun⟩
      · cases hstep
        rename_i hphase
        exact hlocked.release (.inl hphase)
      · cases hstep
        rename_i hphase
        exact hlocked.release (.inr hphase)
  | erase =>
      cases hstep
      exact hlocked

theorem FilesExact.attempt {s : HTTPState α} {h file : Nat} {a : Attempt α}
    (hexact : FilesExact s) (hopen : (s.files file).initialized = false)
    (hstart : a.finishes → (s.handles h).length = 0 ∨
      ((s.files file).capacity = 0 ∧ a.delivered ≠ [])) :
    FilesExact (receiveAttempt s h file a) := by
  by_cases hfinishes : a.finishes
  · have hreceived := receiveChunks_exact (hstart hfinishes)
    rw [Attempt.flatten_delivered hfinishes] at hreceived
    simp only [receiveAttempt, hfinishes, if_true]
    apply hexact.frame file
    · intro f hf
      simp [HTTPState.setHandle, HTTPState.setLock, HTTPState.setBody, HTTPState.setFile, hf]
    · intro _
      simp only [HTTPState.setHandle, HTTPState.setLock, HTTPState.setBody,
        HTTPState.setFile, Function.update_self, setInitialized]
      exact ⟨hreceived.counted, hreceived.holds⟩
  · have hopen' := receiveChunks_initialized a.delivered (s.handles h).length (s.files file)
    rw [hopen] at hopen'
    simp only [receiveAttempt, hfinishes]
    apply hexact.frame file
    · intro f hf
      simp [HTTPState.setHandle, HTTPState.setFile, hf]
    · intro hinitialized
      simp [HTTPState.setHandle, HTTPState.setFile, hopen'] at hinitialized

theorem step_files {s s' : HTTPState α} {l : Label α} (hstep : step s l = some s') :
    (∃ h a file, l = .attempt h a ∧ (s.handles h).phase = .downloading file ∧
      s' = receiveAttempt s h file a) ∨
    (s'.files = s.files ∧ s'.bodies = s.bodies) := by
  cases l with
  | attempt h a =>
      simp only [step] at hstep
      split at hstep
      · cases hstep
        rename_i file hphase
        exact .inl ⟨h, a, file, rfl, hphase, rfl⟩
      · cases hstep
  | start h length =>
      right
      simp only [step] at hstep
      split at hstep
      · cases hstep
      · split at hstep
        · cases hstep
          simp [HTTPState.setHandle]
        · split at hstep
          · cases hstep
            simp [HTTPState.setHandle, HTTPState.setLock]
          · cases hstep
  | fail h =>
      right
      simp only [step] at hstep
      split at hstep
      · cases hstep
        exact ⟨rfl, rfl⟩
      · cases hstep
  | drop h =>
      right
      simp only [step] at hstep
      split at hstep
      · cases hstep
      · cases hstep
        exact ⟨rfl, rfl⟩
      · cases hstep
        exact ⟨rfl, rfl⟩
      · cases hstep
        exact ⟨rfl, rfl⟩
  | erase =>
      cases hstep
      exact .inr ⟨rfl, rfl⟩

/-- The handle that a step belongs to. -/
def actor : Label α → Option Nat
  | .start h _ | .attempt h _ | .fail h | .drop h => some h
  | .erase => none

/-- Frame rule: the steps of others leave a handle alone. -/
theorem handles_step {s t : HTTPState α} {l : Label α} {h : Nat} (hother : actor l ≠ some h)
    (hstep : step s l = some t) :
    t.handles h = s.handles h := by
  cases l with
  | start h' length =>
      have hne : h ≠ h' := fun heq => hother (congrArg some heq.symm)
      simp only [step] at hstep
      split at hstep
      · cases hstep
      · split at hstep
        · cases hstep
          simp [HTTPState.setHandle, hne]
        · split at hstep
          · cases hstep
            simp [HTTPState.setHandle, HTTPState.setLock, hne]
          · cases hstep
  | attempt h' a =>
      have hne : h ≠ h' := fun heq => hother (congrArg some heq.symm)
      simp only [step] at hstep
      split at hstep
      · cases hstep
        unfold receiveAttempt
        simp only
        split
        · simp [HTTPState.setHandle, HTTPState.setLock, HTTPState.setBody, HTTPState.setFile, hne]
        · simp [HTTPState.setHandle, HTTPState.setFile, hne]
      · cases hstep
  | fail h' =>
      have hne : h ≠ h' := fun heq => hother (congrArg some heq.symm)
      simp only [step] at hstep
      split at hstep
      · cases hstep
        simp [HTTPState.setHandle, hne]
      · cases hstep
  | drop h' =>
      have hne : h ≠ h' := fun heq => hother (congrArg some heq.symm)
      simp only [step] at hstep
      split at hstep
      · cases hstep
      · cases hstep
        simp [HTTPState.setHandle, hne]
      · cases hstep
        simp [HTTPState.setHandle, HTTPState.setLock, hne]
      · cases hstep
        simp [HTTPState.setHandle, HTTPState.setLock, hne]
  | erase =>
      cases hstep
      rfl

theorem step_attached {s s' : HTTPState α} {l : Label α} {h file : Nat}
    (hstep : step s l = some s') (hattached : (s'.handles h).phase = .attached file) :
    (s.handles h).phase = .attached file ∨
      (∃ length, l = .start h length ∧ file = getCachedFile s ∧
        (s.files file).initialized) ∨
      ∃ a, l = .attempt h a ∧ a.finishes ∧ (s.handles h).phase = .downloading file := by
  by_cases hactor : actor l = some h
  · cases l with
    | start h' length =>
        cases hactor
        simp only [step, registerFile_files, registerFile_locks] at hstep
        split at hstep
        · cases hstep
        · split at hstep
          · rename_i hinitialized
            cases hstep
            have hfile : getCachedFile s = file := by
              simpa [HTTPState.setHandle] using hattached
            subst hfile
            exact .inr (.inl ⟨length, rfl, rfl, hinitialized⟩)
          · split at hstep
            · cases hstep
              simp [HTTPState.setHandle] at hattached
            · cases hstep
    | attempt h' a =>
        cases hactor
        simp only [step] at hstep
        split at hstep
        · cases hstep
          rename_i file' hphase
          unfold receiveAttempt at hattached
          simp only at hattached
          split at hattached
          · rename_i hfinishes
            have hfile : file' = file := by
              simpa [HTTPState.setHandle] using hattached
            subst hfile
            exact .inr (.inr ⟨a, rfl, hfinishes, hphase⟩)
          · simp [HTTPState.setHandle] at hattached
        · cases hstep
    | fail h' =>
        cases hactor
        simp only [step] at hstep
        split at hstep
        · cases hstep
          simp [HTTPState.setHandle] at hattached
        · cases hstep
    | drop h' =>
        cases hactor
        simp only [step] at hstep
        split at hstep
        · cases hstep
        · cases hstep
          simp [HTTPState.setHandle] at hattached
        · cases hstep
          simp [HTTPState.setHandle] at hattached
        · cases hstep
          simp [HTTPState.setHandle] at hattached
    | erase => cases hactor
  · rw [handles_step hactor hstep] at hattached
    exact .inl hattached

theorem DownloadsExact.step {s s' : HTTPState α} {l : Label α} (hs : DownloadsExact s)
    (hok : CompletesFromStart s l) (hstep : step s l = some s') : DownloadsExact s' := by
  refine ⟨?_, hs.locked.step hstep⟩
  rcases step_files hstep with ⟨h, a, file, rfl, hphase, rfl⟩ | ⟨hfiles, hbodies⟩
  · exact hs.exact.attempt (hs.locked h file (.inl hphase)).2 (hok file hphase)
  · exact hs.exact.of_same hfiles hbodies

theorem completesFromStart_of_exact {s s' : HTTPState α} {l : Label α}
    (hstep : step s l = some s') (hexact : FilesExact s') : CompletesFromStart s l := by
  cases l with
  | start h length => trivial
  | fail h => trivial
  | drop h => trivial
  | erase => trivial
  | attempt h a =>
      intro file hphase hfinishes
      simp only [step, hphase, receiveAttempt, hfinishes, if_true] at hstep
      cases hstep
      by_contra hstart
      have hinexact := receiveChunks_inexact hstart
      rw [Attempt.flatten_delivered hfinishes] at hinexact
      obtain ⟨hsize, -⟩ := hexact file (by
        simp [HTTPState.setHandle, HTTPState.setLock, HTTPState.setBody, HTTPState.setFile,
          setInitialized])
      simp only [HTTPState.setHandle, HTTPState.setLock, HTTPState.setBody,
        HTTPState.setFile, Function.update_self, setInitialized] at hsize
      exact hinexact hsize

theorem downloadsExact_init : DownloadsExact ({} : HTTPState α) := by
  refine ⟨?_, ?_⟩
  · intro file hinitialized
    cases hinitialized
  · rintro h file (hphase | hphase)
    · cases hphase
    · cases hphase

/-- Every file initialized in a run is the body that completed it exactly if each
completing attempt of the run starts clean. -/
theorem filesExact_iff_completesFromStart (labels : List (Label α)) (s : HTTPState α)
    (hrun : Run step Unrestricted {} labels s) :
    Run step CompletesFromStart {} labels s ↔
      ∀ first second m, labels = first ++ second → Run step Unrestricted {} first m →
        FilesExact m := by
  apply hrun.restricted_iff_safe DownloadsExact FilesExact
  · intro s l s' hs hok hstep
    exact hs.step hok hstep
  · intro s hs
    exact hs.exact
  · intro s l s' _ hstep hexact
    exact completesFromStart_of_exact hstep hexact
  · exact downloadsExact_init

/-- A body of three bytes whose transfer breaks after two, then the retry. -/
def cutThenRetried : List (Label UInt8) :=
  [.start 0 0,
    .attempt 0 { client := .httplib, status := 200, chunks := [[1, 2]], completed := false },
    .attempt 0 { client := .httplib, status := 200, chunks := [[1, 2, 3]] }]

theorem filesExact_iff_completesFromStart_cut :
    ∃ s, Run step Unrestricted {} cutThenRetried s ∧
      (Run step CompletesFromStart {} cutThenRetried s ↔
        ∀ first second m, cutThenRetried = first ++ second →
          Run step Unrestricted {} first m → FilesExact m) := by
  have hexec : (exec step {} cutThenRetried).isSome := by decide
  obtain ⟨s, hs⟩ := Option.isSome_iff_exists.mp hexec
  have hrun := run_of_exec hs
  exact ⟨s, hrun, filesExact_iff_completesFromStart cutThenRetried s hrun⟩

theorem retried_download_keeps_cut_prefix :
    ∃ s, Run step Unrestricted {} cutThenRetried s ∧ (s.files 0).initialized ∧
      s.bodies 0 = [1, 2, 3] ∧ (s.files 0).size = 5 ∧
      load (s.files 0).data 0 5 = [some 1, some 2, some 1, some 2, some 3] ∧
      ¬ FilesExact s := by
  have hexec : (exec step {} cutThenRetried).map (fun s =>
      ((s.files 0).initialized, s.bodies 0, (s.files 0).size, load (s.files 0).data 0 5)) =
      some (true, [1, 2, 3], 5, [some 1, some 2, some 1, some 2, some 3]) := by
    decide
  obtain ⟨s, hs, hstate⟩ := Option.map_eq_some_iff.mp hexec
  simp only [Prod.mk.injEq] at hstate
  obtain ⟨hinitialized, hbody, hsize, hdata⟩ := hstate
  refine ⟨s, run_of_exec hs, hinitialized, hbody, hsize, hdata, ?_⟩
  intro hexact
  have hlength := (hexact 0 hinitialized).1
  rw [hsize, hbody] at hlength
  contradiction

end HaybarnHttpfs.FullDownload
