import HaybarnHttpfs.UploadProgress

/-!
No truncated multipart commit: what holds when `FinalizeMultipartUpload` sends
the list of parts, and what a failed part does to `Finalize`.
-/

namespace HaybarnHttpfs.MultipartCommit

open HaybarnHttpfs.Foundation.TransitionRuns
open HaybarnHttpfs.S3MultiPartUpload HaybarnHttpfs.UploadThreads
open HaybarnHttpfs.UploadProgress

universe u

variable {β : Type u} {c : S3ConfigParams} {s : Upload β}

/-- A part whose upload started before the first `Finalize` was over has failed. -/
def EarlyFailure (s : Upload β) : Prop := ∃ t ∈ s.threads, t.early ∧ t.failed

/-- The running call comes to an end: some thread, the writer or the server can
always move, and every such move lowers the work that is left. -/
structure Ending (c : S3ConfigParams) (s : Upload β) : Prop where
  enabled : ∃ l s', Internal l ∧ step c s l = some s'
  lowered : ∀ l s', Internal l → step c s l = some s' → work c s' < work c s

theorem unsettled_of_earlyFailure (hs : UploadsSound c s) (hfailure : EarlyFailure s) :
    s.uploadFinalized = false ∧ s.commits = [] := by
  obtain ⟨t, ht, hearly, hfailed⟩ := hfailure
  have hunsettled : ¬ Settled s := by
    intro hsettled
    have hsucceeded := (hs.early hsettled t ht hearly).2
    rw [hfailed] at hsucceeded
    cases hsucceeded
  unfold Settled at hunsettled
  rw [not_or, Bool.not_eq_true, not_not] at hunsettled
  exact hunsettled

theorem ending_of_finalizing (hs : UploadKept c s) (hunfinalized : s.uploadFinalized = false)
    (hthreads : s.threads ≠ []) (hfinalizing : Finalizing s.pc) : Ending c s := by
  have hcounted := hs.counted hunfinalized
  have hserved : 0 < c.maxUploadThreads := by
    by_contra hnone
    exact hthreads (hs.served (by omega)).1
  have hbusy : s.pc ≠ .idle := by
    intro hidle
    rw [hidle] at hfinalizing
    exact hfinalizing
  refine ⟨exists_step hcounted hbusy hserved, ?_⟩
  intro l s' hinternal hstep
  have halive : s'.pc ≠ .terminated := by
    rcases writerMove_or_threadMove hstep with hmove | ⟨k, t, t', hmove⟩
    · exact hmove.alive
    · exact (hcounted.threadMove hmove).alive
  apply work_lt_of_step hinternal hstep halive
  intro _ location data bytesWritten hwriting
  rw [hwriting] at hfinalizing
  exact absurd hfinalizing id

/-- Whatever the interleaving: a list of parts that is sent is complete and no
part has failed; and once an early part has failed no `Finalize` has returned,
none ever returns, and one that is running comes to an end. -/
theorem multipart_commit_sound {labels : List (Label β)} (hpartSize : 0 < c.partSize)
    (hrun : Run (step c) (FewParts c) {} labels s) :
    (∀ parts transientRetries, s.pc = .completing parts transientRetries →
        CompleteSound s parts) ∧
      (EarlyFailure s → s.commits = [] ∧ (Finalizing s.pc → Ending c s)) := by
  have hkept := uploadKept_of_run hpartSize hrun
  constructor
  · intro parts transientRetries hpc
    exact (hkept.sound.completing parts transientRetries hpc).2
  · intro hfailure
    obtain ⟨hunfinalized, hcommits⟩ := unsettled_of_earlyFailure hkept.sound hfailure
    refine ⟨hcommits, ending_of_finalizing hkept hunfinalized ?_⟩
    obtain ⟨t, ht, -⟩ := hfailure
    exact List.ne_nil_of_mem ht

def smallParts : S3ConfigParams := { partSize := 1, maxUploadThreads := 2 }

/-- Two parts, of which the first fails while the writer waits in `Finalize`. -/
def failingUpload : List (Label Nat) :=
  [.write 0 [7, 8], .writer, .writer, .initialized true, .writer, .writer, .writer,
    .finalize [], .writer, .partUploaded 1 (.uploaded [1]), .partUploaded 0 (.failed none)]

theorem multipart_commit_sound_failing :
    ∃ s, Run (step smallParts) (FewParts smallParts) ({} : Upload Nat) failingUpload s ∧
      EarlyFailure s ∧ s.commits = [] ∧ Finalizing s.pc ∧ Ending smallParts s := by
  have hexec : (exec (guarded (step smallParts)
      fun s _ => currentPart smallParts s + 1 < uint16Limit) {} failingUpload).map
        (fun s => (s.threads.any fun t => t.early && t.failed,
          decide (s.pc matches .waitingForUploads))) = some (true, true) := by
    decide
  obtain ⟨s, hexec, hstate⟩ := Option.map_eq_some_iff.mp hexec
  have hrun : Run (step smallParts) (FewParts smallParts) {} failingUpload s := by
    refine (run_of_exec_guarded hexec).mono ?_
    intro s l hfew
    cases l with
    | _ => first | trivial | exact fun _ _ _ _ _ => hfew
  rw [Prod.mk.injEq] at hstate
  have hfailure : EarlyFailure s := by simpa [EarlyFailure] using hstate.1
  have hfinalizing : Finalizing s.pc := by
    have hpc := hstate.2
    revert hpc
    cases s.pc with
    | _ => simp [Finalizing]
  obtain ⟨-, hthrows⟩ := multipart_commit_sound (by decide) hrun
  obtain ⟨hcommits, hending⟩ := hthrows hfailure
  exact ⟨s, hrun, hfailure, hcommits, hfinalizing, hending hfinalizing⟩

end HaybarnHttpfs.MultipartCommit
