import HaybarnHttpfs.UploadCommit

/-!
Multipart partitioning: sequential writes and one `Finalize` without a failing
request. The parts share out the data, and the object is the data.
-/

namespace HaybarnHttpfs.Partitioning

open HaybarnHttpfs.Foundation
open HaybarnHttpfs.Foundation.Memory HaybarnHttpfs.Foundation.TransitionRuns
open HaybarnHttpfs.BufferedRead (idxSub idxSub_of_le)
open HaybarnHttpfs.S3MultiPartUpload HaybarnHttpfs.UploadThreads
open HaybarnHttpfs.UploadData HaybarnHttpfs.UploadProgress HaybarnHttpfs.UploadCommit

universe u

variable {β : Type u} {c : S3ConfigParams} {s s' : Upload β} {l : Label β}

/-- Sequential writes of fewer than 2^16 parts, then a `Finalize` of at least one
part, and no request fails. -/
def Smooth (c : S3ConfigParams) (s : Upload β) : Label β → Prop
  | .write location _ => location = s.fileOffset ∧ s.finalizeEnded = false
  | .finalize _ => 0 < s.fileOffset ∧ s.finalizeEnded = false
  | .initialized ok => ok = true
  | .singleUploaded reply => reply = .ok
  | .completed reply => reply = .completed
  | .partUploaded _ reply => ∃ etag, reply = .uploaded etag
  | l => FewParts c s l

/-- The data that a step is asked to write. -/
def requested : Label β → List β
  | .write _ data => data
  | _ => []

/-- The data of the calls of `Write` so far, the running one included. -/
def promised (s : Upload β) : List β :=
  s.written ++ match s.pc with
    | .writing _ data _ | .waitingForSlot _ (.write _ data _ _)
    | .initializing _ (.write _ data _ _) => data
    | _ => []

/-- The running `Write` is where `file_offset` is. -/
def OnCourse (s : Upload β) : Prop :=
  match s.pc with
  | .writing location _ bytesWritten | .waitingForSlot _ (.write location _ bytesWritten _)
  | .initializing _ (.write location _ bytesWritten _) =>
      location + bytesWritten = s.fileOffset
  | .initializingAll _ => 0 < s.fileOffset
  | _ => True

structure Partitioned (c : S3ConfigParams) (s : Upload β) : Prop where
  sound : CommitSound c s
  error : s.hasError = false
  threads : ∀ t ∈ s.threads, t.stage ≠ .pushingError
  refused : s.completeRefused = false
  course : OnCourse s
  accesses : ∀ a ∈ s.accesses, a.1 + a.2 ≤ c.partSize
  full : s.uploadFinalized → ∀ t ∈ s.threads, t.partNo + 1 < s.threads.length →
    t.body.length = c.partSize
  ended : s.finalizeEnded → s.pc = .idle ∧ s.uploadFinalized
  alive : s.pc ≠ .terminated

theorem partitioned_init : Partitioned c ({} : Upload β) :=
  ⟨commitSound_init, rfl, nofun, rfl, trivial, nofun, nofun, nofun, nofun⟩

/-- What a smooth step keeps that does not finalize the upload. -/
structure SmoothMove (l : Label β) (s s' : Upload β) : Prop where
  error : s'.hasError = false
  threads : ∀ t ∈ s'.threads, t.stage ≠ .pushingError
  refused : s'.completeRefused = false
  course : OnCourse s'
  ended : s'.finalizeEnded = false
  finalized : s'.uploadFinalized = false
  promised : promised s' = promised s ++ requested l

theorem Partitioned.commitsKept (hs : Partitioned c s) (hsmooth : Smooth c s l)
    (hstep : step c s l = some s') : CommitsKept c s l := by
  cases l with
  | write location data =>
      intro hfinalized
      simp only [step] at hstep
      split at hstep
      · cases hstep
        rename_i hpc
        rcases hs.sound.uploads.ended (.inl hfinalized) with hended | hcompleting
        · rw [hsmooth.2] at hended
          cases hended
        · exact absurd hcompleting (not_completing hpc (by simp))
      · cases hstep
  | finalize toFlush => exact hs.refused
  | initialized ok =>
      have hok : ok = true := hsmooth
      refine ⟨fun _ _ _ _ _ _ => .inl hok, fun toFlush hpc _ => ?_⟩
      simpa [OnCourse, hpc] using hs.course
  | writer => exact hsmooth
  | singleUploaded | completed | partUploaded | thread => trivial

theorem smoothMove_flushBuffer {s₀ s : Upload β} (b : S3WriteBuffer β) (caller : Caller β)
    (herror : s.hasError = false) (hthreads : ∀ t ∈ s.threads, t.stage ≠ .pushingError)
    (hrefused : s.completeRefused = false) (hended : s.finalizeEnded = false)
    (hfinalized : s.uploadFinalized = false)
    (hcourse : OnCourse { s with pc := .waitingForSlot b caller })
    (hpromised : promised { s with pc := .waitingForSlot b caller } = promised s₀) :
    SmoothMove .writer s₀ (flushBuffer s b caller) := by
  have hresumed : SmoothMove .writer s₀ (resume s caller) := by
    cases caller with
    | write location data bytesWritten bytesToWrite =>
        refine ⟨herror, hthreads, hrefused, ?_, hended, hfinalized, ?_⟩
        · have hplace : location + bytesWritten = s.fileOffset := hcourse
          show location + (bytesWritten + bytesToWrite) = s.fileOffset + bytesToWrite
          omega
        · exact hpromised.trans (List.append_nil _).symm
    | flushAll toFlush =>
        exact ⟨herror, hthreads, hrefused, trivial, hended, hfinalized,
          hpromised.trans (List.append_nil _).symm⟩
  unfold flushBuffer
  split
  · exact hresumed
  · split
    · exact hresumed
    · simp only [herror, Bool.false_eq_true, if_false]
      refine ⟨rfl, hthreads, hrefused, ?_, hended, hfinalized, ?_⟩
      · cases caller with
        | _ => exact hcourse
      · refine Eq.trans ?_ (hpromised.trans (List.append_nil _).symm)
        cases caller with
        | _ => rfl

theorem Partitioned.unended (hs : Partitioned c s) (hunfinalized : s.uploadFinalized = false) :
    s.finalizeEnded = false := by
  by_contra hended
  have hfinalized := (hs.ended (by simpa using hended)).2
  rw [hunfinalized] at hfinalized
  cases hfinalized

theorem smoothMove_of_writerStep (hs : Partitioned c s) (hunfinalized : s.uploadFinalized = false)
    (hunflushed : s.pc ≠ .flushed) (hstep : writerStep c s = some s') :
    SmoothMove .writer s s' := by
  have hunended := hs.unended hunfinalized
  have hcourse := hs.course
  unfold OnCourse at hcourse
  -- a step that only moves the program counter
  have hmove : ∀ pc : Pc β, OnCourse { s with pc } → promised { s with pc } = promised s →
      SmoothMove .writer s { s with pc } := by
    intro pc hcourse' hpromised
    exact ⟨hs.error, hs.threads, hs.refused, hcourse', hunended, hunfinalized,
      hpromised.trans (List.append_nil _).symm⟩
  cases hpc : s.pc with
  | writing location data bytesWritten =>
      rw [hpc] at hcourse
      have hpromised : promised s = s.written ++ data := by simp [promised, hpc]
      simp only [writerStep, hpc] at hstep
      split at hstep
      · cases hstep
        unfold writeChunk
        simp only [hcourse, ne_eq, not_true_eq_false, if_false]
        split
        · exact smoothMove_flushBuffer _ _ hs.error hs.threads hs.refused hunended hunfinalized
            hcourse hpromised.symm
        · refine ⟨hs.error, hs.threads, hs.refused, ?_, hunended, hunfinalized, ?_⟩
          · simp only [OnCourse, resume]
            omega
          · exact hpromised.symm.trans (List.append_nil _).symm
      · cases hstep
        refine ⟨hs.error, hs.threads, hs.refused, trivial, hunended, hunfinalized, ?_⟩
        rw [hpromised]
        rfl
  | waitingForSlot b caller =>
      rw [hpc] at hcourse
      simp only [writerStep, hpc] at hstep
      split at hstep
      · cases hstep
      cases hstep
      unfold acquireSlot
      simp only
      split
      · have hspawned : ∀ t ∈ s.threads ++ [uploadThread s b], t.stage ≠ .pushingError := by
          intro t ht
          rcases List.mem_append.mp ht with hbefore | hnew
          · exact hs.threads t hbefore
          · rw [List.mem_singleton] at hnew
            subst hnew
            simp [uploadThread]
        cases caller with
        | write location data bytesWritten bytesToWrite =>
            refine ⟨hs.error, hspawned, hs.refused, ?_, hunended, hunfinalized, ?_⟩
            · simp only [OnCourse, spawnUpload, resume] at hcourse ⊢
              omega
            · simp [promised, hpc, spawnUpload, resume, requested]
        | flushAll toFlush =>
            refine ⟨hs.error, hspawned, hs.refused, trivial, hunended, hunfinalized, ?_⟩
            simp [promised, hpc, spawnUpload, resume, requested]
      · refine ⟨hs.error, hs.threads, hs.refused, ?_, hunended, hunfinalized, ?_⟩
        · cases caller with
          | _ => exact hcourse
        · cases caller with
          | _ => simp [promised, hpc, requested]
  | flushingAll toFlush =>
      cases toFlush with
      | nil =>
          simp only [writerStep, hpc] at hstep
          cases hstep
          exact hmove _ trivial (by simp [promised, hpc])
      | cons partNo toFlush =>
          simp only [writerStep, hpc] at hstep
          split at hstep
          · cases hstep
            exact hmove _ trivial (by simp [promised, hpc])
          · split at hstep
            · cases hstep
              exact hmove _ trivial (by simp [promised, hpc])
            · cases hstep
              exact smoothMove_flushBuffer _ _ hs.error hs.threads hs.refused hunended
                hunfinalized trivial (by simp [promised, hpc])
  | waitingForUploads =>
      simp only [writerStep, hpc] at hstep
      split at hstep
      · cases hstep
      -- no thread has failed, so nothing is thrown here
      · rw [if_neg (by simp [hs.error])] at hstep
        cases hstep
        exact hmove _ trivial (by simp [promised, hpc])
  | flushed => exact absurd hpc hunflushed
  | idle | initializing b caller | initializingAll toFlush | uploadingSingle b
  | completing parts transientRetries | terminated =>
      simp [writerStep, hpc] at hstep

theorem smoothMove_of_finalize {toFlush : List Nat} (hs : Partitioned c s)
    (hunfinalized : s.uploadFinalized = false) (hbegun : 0 < s.fileOffset) (hpc : s.pc = .idle)
    (hstep : finalize c s toFlush = some s') : SmoothMove (.finalize toFlush) s s' := by
  have hunended := hs.unended hunfinalized
  have hpromised : promised s = s.written := by simp [promised, hpc]
  unfold finalize at hstep
  rw [if_neg (by simp [hunfinalized])] at hstep
  split at hstep
  · split at hstep
    · cases hstep
      exact ⟨hs.error, hs.threads, hs.refused, trivial, hunended, hunfinalized, by
        rw [hpromised]; rfl⟩
    · split at hstep
      · split at hstep
        · cases hstep
          exact ⟨hs.error, hs.threads, hs.refused, trivial, hunended, hunfinalized, by
            rw [hpromised]; rfl⟩
        · cases hstep
          exact ⟨hs.error, hs.threads, hs.refused, hbegun, hunended, hunfinalized, by
            rw [hpromised]; rfl⟩
      · cases hstep
        exact ⟨hs.error, hs.threads, hs.refused, hbegun, hunended, hunfinalized, by
          rw [hpromised]; rfl⟩
  · cases hstep

theorem smoothMove_of_initialized (hs : Partitioned c s)
    (hunfinalized : s.uploadFinalized = false) (hstep : initialized s true = some s') :
    SmoothMove (.initialized true) s s' := by
  have hunended := hs.unended hunfinalized
  have hcourse := hs.course
  unfold OnCourse at hcourse
  unfold initialized at hstep
  split at hstep
  · rename_i b caller hpc
    have hspawned : ∀ t ∈ s.threads ++ [uploadThread s b], t.stage ≠ .pushingError := by
      intro t ht
      rcases List.mem_append.mp ht with hbefore | hnew
      · exact hs.threads t hbefore
      · rw [List.mem_singleton] at hnew
        subst hnew
        nofun
    rw [hpc] at hcourse
    cases hstep
    cases caller with
    | write location data bytesWritten bytesToWrite =>
        refine ⟨hs.error, hspawned, hs.refused, ?_, hunended, hunfinalized, ?_⟩
        · simp only [OnCourse, spawnUpload, resume] at hcourse ⊢
          omega
        · simp [promised, hpc, spawnUpload, resume, requested]
    | flushAll toFlush =>
        refine ⟨hs.error, hspawned, hs.refused, trivial, hunended, hunfinalized, ?_⟩
        simp [promised, hpc, spawnUpload, resume, requested]
  · rename_i toFlush hpc
    cases hstep
    refine ⟨hs.error, hs.threads, hs.refused, trivial, hunended, hunfinalized, ?_⟩
    simp [promised, hpc, requested]
  · cases hstep

theorem smoothMove_of_threadMove {k : Nat} {t t' : UploadThread β} (hs : Partitioned c s)
    (hunfinalized : s.uploadFinalized = false) (hrequested : requested l = [])
    (hmove : ThreadMove s s' k t t') (herror : s'.hasError = false)
    (hthreads : ∀ t ∈ s'.threads, t.stage ≠ .pushingError) : SmoothMove l s s' := by
  have hlive := hs.sound.uploads.live hs.error hunfinalized
  have hpc := hlive.pc_eq hmove
  refine ⟨herror, hthreads, ?_, ?_, ?_, ?_, ?_⟩
  · rw [hmove.rest]
    exact hs.refused
  · have hoffset : s'.fileOffset = s.fileOffset := by rw [hmove.rest]
    unfold OnCourse
    rw [hpc, hoffset]
    exact hs.course
  · rw [hmove.rest]
    exact hs.unended hunfinalized
  · rw [hmove.rest]
    exact hunfinalized
  · have hwritten : s'.written = s.written := by rw [hmove.rest]
    rw [hrequested, List.append_nil, promised, promised, hpc, hwritten]

theorem smoothMove_of_partUploaded {k : Nat} {etag : ByteStrings.Bytes} (hs : Partitioned c s)
    (hunfinalized : s.uploadFinalized = false)
    (hstep : partUploaded s k (.uploaded etag) = some s') :
    SmoothMove (.partUploaded k (.uploaded etag)) s s' := by
  obtain ⟨t, t', hmove⟩ := threadMove_of_partUploaded hstep
  unfold partUploaded at hstep
  split at hstep
  · cases hstep
  · split at hstep
    · cases hstep
    cases hstep
    exact smoothMove_of_threadMove hs hunfinalized rfl hmove hs.error
      (forall_mem_setThread hs.threads nofun)

theorem smoothMove_of_threadStep {k : Nat} (hs : Partitioned c s)
    (hunfinalized : s.uploadFinalized = false) (hstep : threadStep s k = some s') :
    SmoothMove (.thread k) s s' := by
  obtain ⟨t, t', hmove⟩ := threadMove_of_threadStep hstep
  have hmoved := smoothMove_of_threadMove (l := .thread k) hs hunfinalized rfl hmove
  unfold threadStep at hstep
  split at hstep
  · cases hstep
  · rename_i u hu
    simp only at hstep
    split at hstep
    · cases hstep
    · cases hstep
      exact hmoved hs.error (forall_mem_setThread hs.threads nofun)
    · cases hstep
      exact hmoved hs.error (forall_mem_setThread hs.threads nofun)
    · rename_i hstage
      exact absurd hstage (hs.threads u (List.mem_of_getElem? hu))
    · split at hstep
      · cases hstep
        exact hmoved hs.error hs.threads
      · cases hstep
        exact hmoved hs.error (forall_mem_setThread hs.threads nofun)
    · cases hstep

theorem Partitioned.moves (hs : Partitioned c s) (hunfinalized : s.uploadFinalized = false)
    (hsmooth : Smooth c s l) (hstep : step c s l = some s') :
    SmoothMove l s s' ∨
      (∃ b, s.pc = .uploadingSingle b ∧ l = .singleUploaded .ok ∧ s' = returnFinalize
        { s with object := some (load b.buffer 0 b.idx), uploadFinalized := true }) ∨
      ∃ parts, s.pc = .flushed ∧ l = .writer ∧
        s' = { s with uploadFinalized := true, pc := .completing parts 0 } := by
  cases l with
  | write location data =>
      left
      simp only [step] at hstep
      split at hstep
      · cases hstep
        rename_i hpc
        refine ⟨hs.error, hs.threads, hs.refused, hsmooth.1, hsmooth.2, hunfinalized, ?_⟩
        simp [promised, hpc, requested]
      · cases hstep
  | finalize toFlush =>
      left
      simp only [step] at hstep
      split at hstep
      · rename_i hpc
        exact smoothMove_of_finalize hs hunfinalized hsmooth.1 hpc hstep
      · cases hstep
  | writer =>
      by_cases hpc : s.pc = .flushed
      · obtain ⟨parts, rfl, -⟩ := hs.sound.sends hpc hstep
        exact .inr (.inr ⟨parts, hpc, rfl, rfl⟩)
      · exact .inl (smoothMove_of_writerStep hs hunfinalized hpc hstep)
  | initialized ok =>
      left
      cases hsmooth
      exact smoothMove_of_initialized hs hunfinalized hstep
  | singleUploaded reply =>
      right
      left
      cases hsmooth
      simp only [step, singleUploaded] at hstep
      split at hstep
      · rename_i b hpc
        cases hstep
        exact ⟨b, hpc, rfl, rfl⟩
      · cases hstep
  | completed reply =>
      simp only [step, completed] at hstep
      split at hstep
      · rename_i parts transientRetries hpc
        have hfinalized := (hs.sound.uploads.completing parts transientRetries hpc).1
        rw [hunfinalized] at hfinalized
        cases hfinalized
      · cases hstep
  | partUploaded k reply =>
      left
      obtain ⟨etag, rfl⟩ := hsmooth
      exact smoothMove_of_partUploaded hs hunfinalized hstep
  | thread k => exact .inl (smoothMove_of_threadStep hs hunfinalized hstep)

theorem Partitioned.completes (hs : Partitioned c s) (hfinalized : s.uploadFinalized)
    (hsmooth : Smooth c s l) (hstep : step c s l = some s') :
    l = .completed .completed ∧ ∃ object, s' = returnFinalize { s with object } := by
  have hclosed : s.finalizeEnded ∨ Completing s.pc := hs.sound.uploads.ended (.inl hfinalized)
  have hidle : s.finalizeEnded → s.pc = .idle := fun hended => (hs.ended hended).1
  have hplace : s.pc = .idle ∧ s.finalizeEnded ∨ Completing s.pc := by
    rcases hclosed with hended | hcompleting
    · exact .inl ⟨hidle hended, hended⟩
    · exact .inr hcompleting
  have hfinished : ∀ (k : Nat) (t : UploadThread β), s.threads[k]? = some t →
      t.stage = .finished :=
    fun k t ht => (hs.sound.quiet hfinalized t (List.mem_of_getElem? ht)).1
  cases l with
  | write location data =>
      rcases hplace with ⟨-, hended⟩ | ⟨parts, transientRetries, hpc⟩
      · rw [hsmooth.2] at hended
        cases hended
      · simp [step, hpc] at hstep
  | finalize toFlush =>
      rcases hplace with ⟨-, hended⟩ | ⟨parts, transientRetries, hpc⟩
      · rw [hsmooth.2] at hended
        cases hended
      · simp [step, hpc] at hstep
  | writer =>
      rcases hplace with ⟨hpc, -⟩ | ⟨parts, transientRetries, hpc⟩
      · simp [step, writerStep, hpc] at hstep
      · simp [step, writerStep, hpc] at hstep
  | initialized ok =>
      rcases hplace with ⟨hpc, -⟩ | ⟨parts, transientRetries, hpc⟩
      · simp [step, initialized, hpc] at hstep
      · simp [step, initialized, hpc] at hstep
  | singleUploaded reply =>
      rcases hplace with ⟨hpc, -⟩ | ⟨parts, transientRetries, hpc⟩
      · simp [step, singleUploaded, hpc] at hstep
      · simp [step, singleUploaded, hpc] at hstep
  | completed reply =>
      cases hsmooth
      refine ⟨rfl, ?_⟩
      rcases hplace with ⟨hpc, -⟩ | ⟨parts, transientRetries, hpc⟩
      · simp [step, completed, hpc] at hstep
      · have hassembled := hs.sound.completing parts transientRetries hpc
        simp only [step, completed, hpc, hassembled, Option.some.injEq] at hstep
        exact ⟨_, hstep.symm⟩
  | partUploaded k reply =>
      simp only [step, partUploaded] at hstep
      split at hstep
      · cases hstep
      · rename_i t ht
        rw [if_pos (by simp [hfinished k t ht])] at hstep
        cases hstep
  | thread k =>
      simp only [step, threadStep] at hstep
      split at hstep
      · cases hstep
      · rename_i t ht
        simp [hfinished k t ht] at hstep

theorem Partitioned.step (hs : Partitioned c s) (hpartSize : 0 < c.partSize)
    (hsmooth : Smooth c s l) (hstep : step c s l = some s') :
    Partitioned c s' ∧ promised s' = promised s ++ requested l := by
  have hsound := hs.sound.step hpartSize (hs.commitsKept hsmooth hstep) hstep
  by_cases hfinalized : s.uploadFinalized
  · obtain ⟨rfl, object, rfl⟩ := hs.completes hfinalized hsmooth hstep
    have hpc : promised s = s.written := by
      rcases hs.sound.closed hfinalized with hpc | ⟨parts, transientRetries, hpc⟩ | hwriting
      · simp [promised, hpc]
      · simp [promised, hpc]
      · obtain ⟨location, data, hpc, -⟩ := hwriting
        simp [S3MultiPartUpload.step, completed, hpc] at hstep
    refine ⟨⟨hsound, hs.error, hs.threads, hs.refused, trivial, hs.accesses, hs.full,
      fun _ => ⟨rfl, hfinalized⟩, ne_terminated rfl⟩, ?_⟩
    rw [hpc]
    rfl
  · have hunfinalized : s.uploadFinalized = false := by simpa using hfinalized
    have hstored := hs.sound.stored hs.error hunfinalized
    rcases hs.moves hunfinalized hsmooth hstep with
      hmove | ⟨b, hpc, rfl, rfl⟩ | ⟨parts, hpc, rfl, rfl⟩
    · have hstored' := hsound.stored hmove.error hmove.finalized
      refine ⟨⟨hsound, hmove.error, hmove.threads, hmove.refused, hmove.course,
        hstored'.accesses, ?_, ?_, ?_⟩, hmove.promised⟩
      · rw [hmove.finalized]
        simp
      · rw [hmove.ended]
        simp
      · rcases writerMove_or_threadMove hstep with hwriter | ⟨k, t, t', hthread⟩
        · exact hwriter.alive
        · rw [(hs.sound.uploads.live hs.error hunfinalized).pc_eq hthread]
          exact hs.alive
    · have hthreads : s.threads = [] := hs.sound.uploads.single b hpc
      refine ⟨⟨hsound, hs.error, hs.threads, hs.refused, trivial, hstored.accesses, ?_,
        fun _ => ⟨rfl, rfl⟩, ne_terminated rfl⟩, ?_⟩
      · intro _ t ht
        rw [show _ = [] from hthreads] at ht
        cases ht
      · simp [promised, hpc, returnFinalize, endFinalize, requested]
    · have hlive := hs.sound.uploads.live hs.error hunfinalized
      refine ⟨⟨hsound, hs.error, hs.threads, hs.refused, trivial, hstored.accesses, ?_, ?_,
        ne_terminated rfl⟩, ?_⟩
      · exact fun _ t ht hnext => length_body hstored hlive ht hnext
      · intro hended
        rw [show _ = false from hs.unended hunfinalized] at hended
        cases hended
      · simp [promised, hpc, requested]

theorem work_writeChunk_lt {location : Nat} {data : List β} {bytesWritten : Nat}
    (hs : Partitioned c s) (hpartSize : 0 < c.partSize) (hunfinalized : s.uploadFinalized = false)
    (hpc : s.pc = .writing location data bytesWritten) (hmore : bytesWritten < data.length)
    (hfew : currentPart c s + 1 < uint16Limit) :
    work c (writeChunk c s location data bytesWritten) < work c s := by
  have hlive := hs.sound.uploads.live hs.error hunfinalized
  have hoffset : AtOffset c s := by
    simpa [Position, hpc] using hlive.position
  have hcourse : location + bytesWritten = s.fileOffset := by
    simpa [OnCourse, hpc] using hs.course
  have hpart : s.fileOffset / c.partSize % uint16Limit = currentPart c s :=
    Nat.mod_eq_of_lt (Nat.lt_of_succ_lt hfew)
  obtain ⟨-, hstart, -⟩ := getBuffer_current hlive hoffset
  have hle : currentPart c s * c.partSize ≤ s.fileOffset := Nat.div_mul_le_self _ _
  have hwithin : s.fileOffset < currentPart c s * c.partSize + c.partSize :=
    Nat.lt_div_mul_add hpartSize
  -- the chunk takes in at least one byte
  have hto : idxSub s.fileOffset (currentPart c s * c.partSize) =
      s.fileOffset - currentPart c s * c.partSize := idxSub_of_le hle
  unfold writeChunk
  simp only [hcourse, ne_eq, not_true_eq_false, if_false, hpart, hstart, hto]
  rw [idxSub_of_le (by omega)]
  split
  · refine Nat.lt_of_le_of_lt (work_flushBuffer _ _ _) ?_
    simp only [callerWork, work, hpc, writerWork]
    omega
  · simp only [work, resume, hpc, writerWork]
    omega

/-- A call that runs comes to its end, as long as there are part numbers left for
it: some smooth step can always be taken, and each one lowers the work. -/
structure Proceeds (c : S3ConfigParams) (s : Upload β) : Prop where
  enabled : ∃ l s', Internal l ∧ step c s l = some s' ∧ (FewParts c s l → Smooth c s l)
  lowered : ∀ l s', Internal l → Smooth c s l → step c s l = some s' → work c s' < work c s

theorem Partitioned.proceeds (hs : Partitioned c s) (hpartSize : 0 < c.partSize)
    (hbusy : s.pc ≠ .idle) (hserved : 0 < c.maxUploadThreads) : Proceeds c s := by
  constructor
  · by_cases hfinalized : s.uploadFinalized
    · obtain ⟨parts, transientRetries, hpc⟩ : Completing s.pc := by
        rcases hs.sound.uploads.ended (.inl hfinalized) with hended | hcompleting
        · exact absurd (hs.ended hended).1 hbusy
        · exact hcompleting
      have hassembled := hs.sound.completing parts transientRetries hpc
      refine ⟨.completed .completed, ?_⟩
      simp [Internal, S3MultiPartUpload.step, completed, hpc, hassembled, Smooth]
    · have hlive := hs.sound.uploads.live hs.error (by simpa using hfinalized)
      rcases writer_enabled (Live.counted hlive hs.alive) hbusy hserved with
        ⟨s', hstep⟩ | hawaiting | ⟨t, ht, hrunning⟩
      · exact ⟨.writer, s', trivial, hstep, id⟩
      · cases hpc : s.pc with
        | initializing b caller =>
            refine ⟨.initialized true, ?_⟩
            simp [Internal, S3MultiPartUpload.step, initialized, hpc, Smooth]
        | initializingAll toFlush =>
            refine ⟨.initialized true, ?_⟩
            simp [Internal, S3MultiPartUpload.step, initialized, hpc, Smooth]
        | uploadingSingle b =>
            refine ⟨.singleUploaded .ok, ?_⟩
            simp [Internal, S3MultiPartUpload.step, singleUploaded, hpc, Smooth]
        | completing parts transientRetries =>
            exact absurd (hs.sound.uploads.completing parts transientRetries hpc).1 hfinalized
        | _ =>
            rw [hpc] at hawaiting
            exact absurd hawaiting id
      · obtain ⟨k, hk, hputting | ⟨s', hstep⟩⟩ := exists_threadStep ht hrunning
        · refine ⟨.partUploaded k (.uploaded []), ?_⟩
          simp [Internal, S3MultiPartUpload.step, partUploaded, hk, hputting, Smooth]
        · exact ⟨.thread k, s', trivial, hstep, fun _ => trivial⟩
  · intro l s' hinternal hsmooth hstep
    have halive' := (hs.step hpartSize hsmooth hstep).1.alive
    apply work_lt_of_step hinternal hstep halive'
    rintro rfl location data bytesWritten hpc hmore
    have hunfinalized : s.uploadFinalized = false := by
      by_contra hfinalized
      cases (hs.completes (by simpa using hfinalized) hsmooth hstep).1
    exact work_writeChunk_lt hs hpartSize hunfinalized hpc hmore (hsmooth _ _ _ hpc hmore)

/-- Sequential writes and one `Finalize` without a failing request: the object is
the data, every part but the last is full, and no access leaves its buffer. -/
theorem partitioning {labels : List (Label β)} (hpartSize : 0 < c.partSize)
    (hrun : Run (step c) (Smooth c) {} labels s) :
    (∀ a ∈ s.accesses, a.1 + a.2 ≤ c.partSize) ∧
      (s.finalizeEnded → s.object = some ((labels.flatMap requested).map some) ∧
        ∀ t ∈ s.threads, t.partNo + 1 < s.threads.length → t.body.length = c.partSize) ∧
      (s.pc ≠ .idle → 0 < c.maxUploadThreads → Proceeds c s) := by
  obtain ⟨hs, hpromised⟩ := hrun.accumulates (Partitioned c) promised requested
    (fun s l s' hs hsmooth hstep => hs.step hpartSize hsmooth hstep) partitioned_init
  refine ⟨hs.accesses, ?_, hs.proceeds hpartSize⟩
  intro hended
  obtain ⟨hpc, hfinalized⟩ := hs.ended hended
  have hwritten : s.written = labels.flatMap requested := by
    simpa [promised, hpc] using hpromised
  rw [← hwritten]
  exact ⟨hs.sound.committed hfinalized hs.refused (not_completing hpc nofun),
    hs.full hfinalized⟩

def twoByteParts : S3ConfigParams := { partSize := 2, maxUploadThreads := 1 }

/-- Three bytes in two calls; the second part waits for the first one's slot. -/
def uploadTwoParts : List (Label Nat) :=
  [.write 0 [5], .writer, .writer, .write 1 [6, 7], .writer, .writer, .initialized true,
    .writer, .writer, .finalize [1], .writer, .partUploaded 0 (.uploaded [1]), .thread 0,
    .thread 0, .thread 0, .writer, .writer, .partUploaded 1 (.uploaded [2]), .thread 1,
    .thread 1, .thread 1, .writer, .writer, .completed .completed]

/-- `Smooth` as a check that runs. -/
def isSmooth (c : S3ConfigParams) (s : Upload β) : Label β → Bool
  | .write location _ => location = s.fileOffset && !s.finalizeEnded
  | .finalize _ => decide (0 < s.fileOffset) && !s.finalizeEnded
  | .initialized ok => ok
  | .singleUploaded reply => reply = .ok
  | .completed reply => reply = .completed
  | .partUploaded _ reply => (reply matches .uploaded _)
  | .writer | .thread _ => currentPart c s + 1 < uint16Limit

theorem smooth_of_isSmooth (hsmooth : isSmooth c s l) : Smooth c s l := by
  cases l with
  | write | finalize => simpa [isSmooth, Smooth] using hsmooth
  | initialized | singleUploaded | completed => simpa [isSmooth, Smooth] using hsmooth
  | partUploaded k reply =>
      cases reply with
      | uploaded etag => exact ⟨etag, rfl⟩
      | failed stored => cases hsmooth
  | writer =>
      have hfew : currentPart c s + 1 < uint16Limit := by simpa [isSmooth] using hsmooth
      exact fun _ _ _ _ _ => hfew
  | thread k => trivial

theorem partitioning_twoParts :
    ∃ s, Run (step twoByteParts) (Smooth twoByteParts) ({} : Upload Nat) uploadTwoParts s ∧
      s.object = some [some 5, some 6, some 7] ∧
      ∀ t ∈ s.threads, t.partNo + 1 < s.threads.length → t.body.length = 2 := by
  have hexec : (exec (guarded (step twoByteParts) fun s l => isSmooth twoByteParts s l) {}
      uploadTwoParts).map (·.finalizeEnded) = some true := by
    decide
  obtain ⟨s, hexec, hended⟩ := Option.map_eq_some_iff.mp hexec
  have hrun : Run (step twoByteParts) (Smooth twoByteParts) {} uploadTwoParts s :=
    (run_of_exec_guarded hexec).mono fun _ _ => smooth_of_isSmooth
  obtain ⟨-, hcommitted, -⟩ := partitioning (by decide) hrun
  exact ⟨s, hrun, hcommitted hended⟩

end HaybarnHttpfs.Partitioning
