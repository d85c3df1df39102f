import HaybarnHttpfs.UploadData
import HaybarnHttpfs.UploadProgress

/-!
The commit law of the writer: when `Finalize` returns, the object is what the
calls of `Write` that returned have written.
-/

namespace HaybarnHttpfs.UploadCommit

open HaybarnHttpfs.Foundation.Blocks HaybarnHttpfs.Foundation.ByteStrings
open HaybarnHttpfs.Foundation.Memory HaybarnHttpfs.Foundation.Numbering
open HaybarnHttpfs.Foundation.TransitionRuns
open HaybarnHttpfs.S3MultiPartUpload HaybarnHttpfs.UploadThreads
open HaybarnHttpfs.UploadData HaybarnHttpfs.UploadProgress

universe u

variable {β : Type u} {c : S3ConfigParams} {s : Upload β}

theorem body_of_single {b : S3WriteBuffer β} (hs : Stored c s) (hlive : Live c s)
    (hpc : s.pc = .uploadingSingle b) (hthreads : s.threads = [])
    (hbuffers : s.writeBuffers = [b]) : load b.buffer 0 b.idx = s.written.map some := by
  have hnumbers : numbers s = [b.partNo] := by
    simp [numbers, hthreads, hbuffers, hpc, held, partNumbers]
  have hfirst : b.partNo = 0 := by
    have hlt := hlive.numbered.lt b.partNo
    simp only [hnumbers, List.mem_singleton, List.length_singleton, true_implies] at hlt
    omega
  have hcovered := hs.covered
  rw [hnumbers, List.length_singleton, Nat.one_mul] at hcovered
  have hload := (hs.buffers b (by simp [hbuffers])).1
  rw [hload, hfirst, part, block_zero_of_le hcovered]
  simp [accepted, inFlight, hpc]

theorem assemble_of_complete {parts : List (Nat × Bytes)} (hs : Stored c s)
    (hflushing : Flushing c s []) (hpc : s.pc = .flushed) (hsound : CompleteSound s parts) :
    assemble s.parts parts = some (s.written.map some) := by
  have haccepted : accepted s = s.written := by simp [accepted, inFlight, hpc]
  have hassembled : assemble s.parts parts =
      some (parts.map fun p => (part c s (p.1 - 1)).map some).flatten := by
    refine congrArg (Option.map List.flatten) (mapM_eq_some_map ?_)
    intro p hp
    obtain ⟨t, ht, hnumber, hetag⟩ := hsound.answered p hp
    have hserver := hs.server t ht (hsound.succeeded t ht).2 p.2 hetag
    simp only [hnumber, Nat.add_sub_cancel, hserver, hs.bodies t ht, if_true]
  have hcovered := hs.covered
  rw [numbers_of_flushed hpc hflushing, List.length_map] at hcovered
  rw [hassembled]
  congr 1
  calc (parts.map fun p => (part c s (p.1 - 1)).map some).flatten
      = ((parts.map Prod.fst).map fun n => (part c s (n - 1)).map some).flatten := by
        rw [List.map_map]
        rfl
    _ = ((List.range s.threads.length).map fun k => (part c s k).map some).flatten := by
        rw [hsound.ascending, List.map_map]
        rfl
    _ = ((List.range s.threads.length).flatMap (part c s)).map some := by
        rw [List.map_flatMap]
        rfl
    _ = s.written.map some := by
        unfold part
        rw [flatMap_block_of_le hcovered, haccepted]

theorem length_body {t : UploadThread β} (hs : Stored c s) (hlive : Live c s)
    (ht : t ∈ s.threads) (hnext : t.partNo + 1 < s.threads.length) :
    t.body.length = c.partSize := by
  rw [hs.bodies t ht, List.length_map]
  apply length_block_of_full
  apply Nat.le_of_lt
  apply hs.nonempty
  rw [hlive.numbered.mem_iff, length_numbers]
  omega

/-- The writer can put no more bytes into a finalized upload. -/
def Closed (s : Upload β) : Prop :=
  s.pc = .idle ∨ Completing s.pc ∨
    ∃ location data, s.pc = .writing location data 0 ∧ (data = [] ∨ location ≠ s.fileOffset)

/-- The invariant behind the commit law. -/
structure CommitSound (c : S3ConfigParams) (s : Upload β) : Prop where
  uploads : UploadsSound c s
  stored : s.hasError = false → s.uploadFinalized = false → Stored c s
  errors : s.initializedMultipartUpload = false → s.hasError = false
  begun : s.hasError = false → s.uploadFinalized = false → s.initializedMultipartUpload →
    0 < s.fileOffset
  single : ∀ b, s.pc = .uploadingSingle b →
    s.writeBuffers = [b] ∧ s.initializedMultipartUpload = false
  quiet : s.uploadFinalized → AllSucceeded s
  closed : s.uploadFinalized → Closed s
  completing : ∀ parts transientRetries, s.pc = .completing parts transientRetries →
    assemble s.parts parts = some (s.written.map some)
  committed : s.uploadFinalized → s.completeRefused = false → ¬ Completing s.pc →
    s.object = some (s.written.map some)
  commits : ∀ p ∈ s.commits, p.1 = some (p.2.map some)

/-- The steps after which the commit law can be relied on. -/
def CommitsKept (c : S3ConfigParams) (s : Upload β) : Label β → Prop
  | .write location data => s.uploadFinalized → data = [] ∨ location ≠ s.fileOffset
  | .finalize _ => s.completeRefused = false
  | .initialized ok => InitiateKept s (.initialized ok : Label β) ∧
      ∀ toFlush, s.pc = .initializingAll toFlush → ok → 0 < s.fileOffset
  | l => FewParts c s l

theorem commitSound_init : CommitSound c ({} : Upload β) := by
  refine ⟨uploadsSound_init, fun _ _ => ?_, fun _ => rfl, nofun, nofun, nofun, nofun, nofun,
    nofun, nofun⟩
  exact ⟨rfl, trivial, nofun, fun _ => nofun, nofun, nofun, nofun, Nat.zero_le _, nofun, nofun⟩

/-- What a step keeps that neither finalizes the upload nor initializes it. -/
structure Onward (s s' : Upload β) : Prop where
  error : s.hasError → s'.hasError
  noError : s.initializedMultipartUpload = false → s'.hasError = s.hasError
  initialized : s'.initializedMultipartUpload = s.initializedMultipartUpload
  finalized : s'.uploadFinalized = s.uploadFinalized
  offset : s.fileOffset ≤ s'.fileOffset
  commits : s'.commits = s.commits
  single : ∀ b, s'.pc = .uploadingSingle b →
    s'.writeBuffers = [b] ∧ s'.initializedMultipartUpload = false

theorem CommitSound.onward {s s' : Upload β} (hs : CommitSound c s) (honward : Onward s s')
    (huploads : UploadsSound c s') (hunfinalized : s.uploadFinalized = false)
    (hstored : s'.hasError = false → Stored c s') : CommitSound c s' := by
  have hopen : ∀ {P : Prop}, s'.uploadFinalized → P := by
    intro P hfinalized
    rw [honward.finalized, hunfinalized] at hfinalized
    cases hfinalized
  refine ⟨huploads, fun herror _ => hstored herror, ?_, ?_, honward.single, hopen, hopen, ?_,
    hopen, ?_⟩
  · rw [honward.initialized]
    intro huninitialized
    rw [honward.noError huninitialized]
    exact hs.errors huninitialized
  · rw [honward.initialized]
    intro herror' _ hinitialized
    have herror : s.hasError = false := by
      by_contra herror
      rw [honward.error (by simpa using herror)] at herror'
      cases herror'
    exact Nat.lt_of_lt_of_le (hs.begun herror hunfinalized hinitialized) honward.offset
  · intro parts transientRetries hpc
    exact hopen (huploads.completing parts transientRetries hpc).1
  · rw [honward.commits]
    exact hs.commits

theorem onward_of_threadMove {s s' : Upload β} {k : Nat} {t t' : UploadThread β}
    (huploads : UploadsSound c s) (hmove : ThreadMove s s' k t t') : Onward s s' := by
  have hinitialized : s.initializedMultipartUpload := by
    by_contra huninitialized
    have hmem := hmove.mem
    rw [huploads.uninitialized (by simpa using huninitialized)] at hmem
    cases hmem
  have hnone : ∀ b, s.pc ≠ .uploadingSingle b := by
    intro b hpc
    have hmem := hmove.mem
    rw [huploads.single b hpc] at hmem
    cases hmem
  refine ⟨hmove.error, ?_, ?_, ?_, ?_, ?_, ?_⟩
  · intro huninitialized
    rw [huninitialized] at hinitialized
    cases hinitialized
  · rw [hmove.rest]
  · rw [hmove.rest]
  · rw [hmove.rest]
  · rw [hmove.rest]
  · intro b hpc'
    rcases hmove.moved with ⟨hpc, -⟩ | ⟨-, -, -, hpc⟩
    · exact absurd (hpc.symm.trans hpc') (hnone b)
    · rw [hpc] at hpc'
      cases hpc'

theorem onward_flushBuffer {s₀ s : Upload β} (b : S3WriteBuffer β) (caller : Caller β)
    (herror : s.hasError = s₀.hasError)
    (hinitialized : s.initializedMultipartUpload = s₀.initializedMultipartUpload)
    (hfinalized : s.uploadFinalized = s₀.uploadFinalized)
    (hoffset : s.fileOffset = s₀.fileOffset) (hcommits : s.commits = s₀.commits) :
    Onward s₀ (flushBuffer s b caller) := by
  have hkept : s₀.hasError → s.hasError := by
    rw [herror]
    exact id
  have hle : s₀.fileOffset ≤ s.fileOffset := Nat.le_of_eq hoffset.symm
  unfold flushBuffer
  split
  · cases caller
    · exact ⟨hkept, fun _ => herror, hinitialized, hfinalized, Nat.le_add_right_of_le hle,
        hcommits, nofun⟩
    · exact ⟨hkept, fun _ => herror, hinitialized, hfinalized, hle, hcommits, nofun⟩
  · split
    · cases caller
      · exact ⟨hkept, fun _ => herror, hinitialized, hfinalized, Nat.le_add_right_of_le hle,
          hcommits, nofun⟩
      · exact ⟨hkept, fun _ => herror, hinitialized, hfinalized, hle, hcommits, nofun⟩
    · simp only
      split
      · cases caller with
        | _ => exact ⟨hkept, fun _ => herror, hinitialized, hfinalized, hle, hcommits, nofun⟩
      · exact ⟨hkept, fun _ => herror, hinitialized, hfinalized, hle, hcommits, nofun⟩

theorem onward_of_writerStep {s s' : Upload β} (hstep : writerStep c s = some s')
    (hunflushed : s.pc ≠ .flushed) : Onward s s' := by
  unfold writerStep at hstep
  split at hstep
  · split at hstep
    · cases hstep
      unfold writeChunk
      simp only
      split
      · exact ⟨id, fun _ => rfl, rfl, rfl, Nat.le_refl _, rfl, nofun⟩
      · split
        · exact onward_flushBuffer _ _ rfl rfl rfl rfl rfl
        · exact ⟨id, fun _ => rfl, rfl, rfl, Nat.le_add_right _ _, rfl, nofun⟩
    · cases hstep
      exact ⟨id, fun _ => rfl, rfl, rfl, Nat.le_refl _, rfl, nofun⟩
  · split at hstep
    · cases hstep
    cases hstep
    unfold acquireSlot
    simp only
    split
    · rename_i b caller hpc hfree hinitialized
      cases caller
      · exact ⟨id, fun _ => rfl, rfl, rfl, Nat.le_add_right _ _, rfl, nofun⟩
      · exact ⟨id, fun _ => rfl, rfl, rfl, Nat.le_refl _, rfl, nofun⟩
    · exact ⟨id, fun _ => rfl, rfl, rfl, Nat.le_refl _, rfl, nofun⟩
  · cases hstep
    exact ⟨id, fun _ => rfl, rfl, rfl, Nat.le_refl _, rfl, nofun⟩
  · split at hstep
    · cases hstep
      exact ⟨id, fun _ => rfl, rfl, rfl, Nat.le_refl _, rfl, nofun⟩
    · split at hstep
      · cases hstep
        exact ⟨id, fun _ => rfl, rfl, rfl, Nat.le_refl _, rfl, nofun⟩
      · cases hstep
        exact onward_flushBuffer _ _ rfl rfl rfl rfl rfl
  · split at hstep
    · cases hstep
    · split at hstep
      · cases hstep
        exact ⟨id, fun _ => rfl, rfl, rfl, Nat.le_refl _, rfl, nofun⟩
      · cases hstep
        exact ⟨id, fun _ => rfl, rfl, rfl, Nat.le_refl _, rfl, nofun⟩
  · rename_i hpc
    exact absurd hpc hunflushed
  · cases hstep

theorem onward_of_finalize {s s' : Upload β} {toFlush : List Nat}
    (hunfinalized : s.uploadFinalized = false) (hstep : finalize c s toFlush = some s') :
    Onward s s' := by
  unfold finalize at hstep
  rw [if_neg (by simp [hunfinalized])] at hstep
  split at hstep
  · split at hstep
    · cases hstep
      exact ⟨id, fun _ => rfl, rfl, rfl, Nat.le_refl _, rfl, nofun⟩
    · rename_i huninitialized
      split at hstep
      · rename_i b hbuffers
        split at hstep
        · cases hstep
          refine ⟨id, fun _ => rfl, rfl, rfl, Nat.le_refl _, rfl, ?_⟩
          rintro _ ⟨⟩
          exact ⟨hbuffers, by simpa using huninitialized⟩
        · cases hstep
          exact ⟨id, fun _ => rfl, rfl, rfl, Nat.le_refl _, rfl, nofun⟩
      · cases hstep
        exact ⟨id, fun _ => rfl, rfl, rfl, Nat.le_refl _, rfl, nofun⟩
  · cases hstep

theorem CommitSound.initialized {s s' : Upload β} {ok : Bool} (hs : CommitSound c s)
    (hpartSize : 0 < c.partSize) (hunfinalized : s.uploadFinalized = false)
    (hkept : CommitsKept c s (.initialized ok)) (hstep : initialized s ok = some s') :
    CommitSound c s' := by
  have hstep' : step c s (.initialized ok) = some s' := hstep
  have hfew : FewParts c s (.initialized ok) := trivial
  have huploads := hs.uploads.step hpartSize hfew hstep'
  have hstored : s'.hasError = s.hasError → s'.uploadFinalized = false →
      s'.hasError = false → Stored c s' := by
    intro herror hunfinalized' herror'
    rw [herror] at herror'
    exact (hs.stored herror' hunfinalized).step hs.uploads hpartSize herror' hunfinalized hfew
      hkept.1 hstep' hunfinalized'
  -- the upload is started and still open
  have hstarted : s'.hasError = s.hasError → s'.uploadFinalized = false →
      s'.initializedMultipartUpload → s'.commits = s.commits →
      (∀ b, s'.pc ≠ .uploadingSingle b) → (s.hasError = false → 0 < s'.fileOffset) →
      CommitSound c s' := by
    intro herror hunfinalized' hinitialized hcommits hsingle hbegun
    have hopen : ∀ {P : Prop}, s'.uploadFinalized → P := by
      intro P hfinalized
      rw [hunfinalized'] at hfinalized
      cases hfinalized
    refine ⟨huploads, fun herror' _ => hstored herror hunfinalized' herror', ?_, ?_,
      fun b hpc => absurd hpc (hsingle b), hopen, hopen, ?_, hopen, ?_⟩
    · rw [hinitialized]
      nofun
    · rw [herror]
      exact fun herror _ _ => hbegun herror
    · intro parts transientRetries hpc
      exact hopen (huploads.completing parts transientRetries hpc).1
    · rw [hcommits]
      exact hs.commits
  unfold S3MultiPartUpload.initialized at hstep
  split at hstep
  · rename_i b caller hpc
    cases ok with
    | false =>
        cases hstep
        cases caller with
        | _ =>
            exact hs.onward ⟨id, fun _ => rfl, rfl, rfl, Nat.le_refl _, rfl, nofun⟩
              huploads hunfinalized (hstored rfl hunfinalized)
    | true =>
        cases hstep
        cases caller with
        | write location data bytesWritten bytesToWrite =>
            refine hstarted rfl hunfinalized rfl rfl nofun ?_
            intro herror
            -- a write starts an upload for a full part, so it has taken bytes in
            have hposition := (hs.uploads.live herror hunfinalized).position
            unfold Position at hposition
            rw [hpc] at hposition
            have hreached : s.fileOffset + bytesToWrite = (currentPart c s + 1) * c.partSize :=
              hposition.reached
            show 0 < s.fileOffset + bytesToWrite
            rw [hreached]
            exact Nat.mul_pos (Nat.succ_pos _) hpartSize
        | flushAll toFlush =>
            refine hstarted rfl hunfinalized rfl rfl nofun ?_
            intro herror
            have hposition := (hs.uploads.live herror hunfinalized).position
            unfold Position at hposition
            rw [hpc] at hposition
            exact absurd hposition id
  · rename_i toFlush hpc
    cases ok with
    | false =>
        cases hstep
        exact hs.onward ⟨id, fun _ => rfl, rfl, rfl, Nat.le_refl _, rfl, nofun⟩ huploads
          hunfinalized (hstored rfl hunfinalized)
    | true =>
        cases hstep
        exact hstarted rfl hunfinalized rfl rfl nofun fun _ => hkept.2 toFlush hpc rfl
  · cases hstep

theorem CommitSound.singleUploaded {s : Upload β} {b : S3WriteBuffer β} (hs : CommitSound c s)
    (hpc : s.pc = .uploadingSingle b) (hunfinalized : s.uploadFinalized = false)
    (huploads : UploadsSound c (returnFinalize
      { s with object := some (load b.buffer 0 b.idx), uploadFinalized := true })) :
    CommitSound c (returnFinalize
      { s with object := some (load b.buffer 0 b.idx), uploadFinalized := true }) := by
  have hthreads := hs.uploads.single b hpc
  obtain ⟨hbuffers, huninitialized⟩ := hs.single b hpc
  have herror := hs.errors huninitialized
  have hbody := body_of_single (hs.stored herror hunfinalized)
    (hs.uploads.live herror hunfinalized) hpc hthreads hbuffers
  refine ⟨huploads, nofun, hs.errors, nofun, nofun, ?_, fun _ => .inl rfl, nofun, ?_, ?_⟩
  · intro _ t ht
    rw [show _ = [] from hthreads] at ht
    cases ht
  · exact fun _ _ _ => congrArg some hbody
  · intro p hp
    rcases List.mem_append.mp hp with hbefore | hnew
    · exact hs.commits p hbefore
    · rw [List.mem_singleton] at hnew
      subst hnew
      exact congrArg some hbody

/-- The flush is over: the list of parts that is sent is complete and names the
data. -/
theorem CommitSound.sends {s s' : Upload β} (hs : CommitSound c s) (hpc : s.pc = .flushed)
    (hstep : writerStep c s = some s') :
    ∃ parts, s' = { s with uploadFinalized := true, pc := .completing parts 0 } ∧
      AllSucceeded s ∧ assemble s.parts parts = some (s.written.map some) := by
  obtain ⟨herror, hsucceeded⟩ := hs.uploads.flushed hpc
  have hunfinalized : s.uploadFinalized = false := by
    apply hs.uploads.finalizing
    rw [hpc]
    trivial
  have hlive := hs.uploads.live herror hunfinalized
  have hstored := hs.stored herror hunfinalized
  have hflushing : Flushing c s [] := by
    simpa [Position, hpc] using hlive.position
  have hbegun := hs.begun herror hunfinalized hflushing.initialized
  have hsome : s.partsUploaded ≠ 0 := by
    intro hnone
    obtain ⟨hthreads, -⟩ := hlive.nothingUploaded hpc hsucceeded hnone
    have hcovered := hstored.covered
    rw [numbers_of_flushed hpc hflushing, hthreads] at hcovered
    have hlength := hstored.length
    simp only [List.map_nil, List.length_nil, Nat.zero_mul] at hcovered
    omega
  obtain ⟨parts, hbody, hcomplete⟩ := hlive.completeBody hpc hsucceeded
  simp only [writerStep, hpc, hsome, if_false, finalizeMultipartUpload, hunfinalized,
    Bool.false_eq_true, hbody, Option.some.injEq] at hstep
  exact ⟨parts, hstep.symm, hsucceeded, assemble_of_complete hstored hflushing hpc hcomplete⟩

theorem CommitSound.flushed {s s' : Upload β} (hs : CommitSound c s) (hpc : s.pc = .flushed)
    (hstep : writerStep c s = some s') (huploads : UploadsSound c s') : CommitSound c s' := by
  obtain ⟨parts, rfl, hsucceeded, hassembled⟩ := hs.sends hpc hstep
  refine ⟨huploads, nofun, hs.errors, nofun, nofun, fun _ => hsucceeded, ?_, ?_, ?_, hs.commits⟩
  · exact fun _ => .inr (.inl ⟨parts, 0, rfl⟩)
  · rintro _ _ ⟨⟩
    exact hassembled
  · exact fun _ _ hcompleting => absurd ⟨parts, 0, rfl⟩ hcompleting

theorem CommitSound.settled {s s' : Upload β} (hs : CommitSound c s)
    (huploads : UploadsSound c s') (hfinalized : s.uploadFinalized)
    (hfinalized' : s'.uploadFinalized) (hthreads : s'.threads = s.threads)
    (herror : s'.hasError = s.hasError)
    (hinitialized : s'.initializedMultipartUpload = s.initializedMultipartUpload)
    (hclosed : Closed s')
    (hcompleting : ∀ parts transientRetries, s'.pc = .completing parts transientRetries →
      assemble s'.parts parts = some (s'.written.map some))
    (hcommitted : s'.completeRefused = false → ¬ Completing s'.pc →
      s'.object = some (s'.written.map some))
    (hcommits : ∀ p ∈ s'.commits, p.1 = some (p.2.map some)) : CommitSound c s' := by
  have hnever : s'.uploadFinalized = false → False := by
    rw [hfinalized']
    nofun
  refine ⟨huploads, fun _ hopen => (hnever hopen).elim, ?_, fun _ hopen => (hnever hopen).elim,
    ?_, ?_, fun _ => hclosed, hcompleting, fun _ => hcommitted, hcommits⟩
  · rw [herror, hinitialized]
    exact hs.errors
  · intro b hpc
    rcases hclosed with hidle | ⟨parts, transientRetries, hbusy⟩ | ⟨location, data, hbusy, -⟩
    · rw [hidle] at hpc
      cases hpc
    · rw [hbusy] at hpc
      cases hpc
    · rw [hbusy] at hpc
      cases hpc
  · intro _
    unfold AllSucceeded
    rw [hthreads]
    exact hs.quiet hfinalized

theorem CommitSound.rests {s s' : Upload β} (hs : CommitSound c s)
    (huploads : UploadsSound c s') (hfinalized : s.uploadFinalized)
    (hfinalized' : s'.uploadFinalized) (hthreads : s'.threads = s.threads)
    (herror : s'.hasError = s.hasError)
    (hinitialized : s'.initializedMultipartUpload = s.initializedMultipartUpload)
    (hidle : s'.pc = .idle)
    (hcommitted : s'.completeRefused = false → s'.object = some (s'.written.map some))
    (hcommits : ∀ p ∈ s'.commits, p.1 = some (p.2.map some)) : CommitSound c s' := by
  refine hs.settled huploads hfinalized hfinalized' hthreads herror hinitialized (.inl hidle) ?_
    (fun hrefused _ => hcommitted hrefused) hcommits
  intro parts transientRetries hbusy
  rw [hidle] at hbusy
  cases hbusy

section Settled

variable {s s' : Upload β} (hs : CommitSound c s) (hfinalized : s.uploadFinalized)
  (huploads : UploadsSound c s')

include hs hfinalized

theorem CommitSound.object_of_idle (hpc : s.pc = .idle) (hrefused : s.completeRefused = false) :
    s.object = some (s.written.map some) :=
  hs.committed hfinalized hrefused (not_completing hpc (by simp))

theorem CommitSound.finished {k : Nat} {t : UploadThread β} (ht : s.threads[k]? = some t) :
    t.stage = .finished :=
  (hs.quiet hfinalized t (List.mem_of_getElem? ht)).1

include huploads

theorem CommitSound.settledFinalize {toFlush : List Nat} (hkept : s.completeRefused = false)
    (hstep : step c s (.finalize toFlush) = some s') : CommitSound c s' := by
  simp only [step] at hstep
  split at hstep
  · rename_i hpc
    have hobject := hs.object_of_idle hfinalized hpc hkept
    rw [finalize, if_pos hfinalized] at hstep
    cases hstep
    refine hs.rests huploads hfinalized hfinalized rfl rfl rfl rfl ?_ ?_
    · exact fun _ => hobject
    · intro p hp
      rcases List.mem_append.mp hp with hbefore | hnew
      · exact hs.commits p hbefore
      · rw [List.mem_singleton] at hnew
        subst hnew
        exact hobject
  · cases hstep

theorem CommitSound.settledWriter (hstep : step c s (.writer : Label β) = some s') :
    CommitSound c s' := by
  rcases hs.closed hfinalized with
    hpc | ⟨parts, transientRetries, hpc⟩ | ⟨location, data, hpc, hnothing⟩
  · simp [step, writerStep, hpc] at hstep
  · simp [step, writerStep, hpc] at hstep
  · have hobject : s.completeRefused = false → s.object = some (s.written.map some) :=
      fun hrefused => hs.committed hfinalized hrefused (not_completing hpc (by simp))
    simp only [step, writerStep, hpc] at hstep
    split at hstep
    · rename_i hmore
      cases hstep
      have hlocation : location + 0 ≠ s.fileOffset := by
        rcases hnothing with rfl | hlocation
        · exact absurd hmore (Nat.lt_irrefl 0)
        · exact hlocation
      simp only [writeChunk, if_pos hlocation] at huploads ⊢
      exact hs.rests huploads hfinalized hfinalized rfl rfl rfl rfl hobject hs.commits
    · rename_i hdone
      cases hstep
      have hempty : data = [] := List.eq_nil_of_length_eq_zero (by omega)
      subst hempty
      simp only [List.append_nil] at huploads ⊢
      exact hs.rests huploads hfinalized hfinalized rfl rfl rfl rfl hobject hs.commits

theorem CommitSound.settledRefused (hs' : s' = refuseCompletion s) : CommitSound c s' := by
  subst hs'
  refine hs.rests huploads hfinalized hfinalized rfl rfl rfl rfl ?_ hs.commits
  rintro ⟨⟩

theorem CommitSound.settledCompleted {reply : CompleteReply}
    (hstep : step c s (.completed reply : Label β) = some s') : CommitSound c s' := by
  simp only [step, completed] at hstep
  split at hstep
  · rename_i parts transientRetries hpc
    have hassembled := hs.completing parts transientRetries hpc
    rw [hassembled] at hstep
    cases reply with
    | completed =>
        cases hstep
        refine hs.rests huploads hfinalized hfinalized rfl rfl rfl rfl ?_ ?_
        · exact fun _ => rfl
        · intro p hp
          rcases List.mem_append.mp hp with hbefore | hnew
          · exact hs.commits p hbefore
          · rw [List.mem_singleton] at hnew
            subst hnew
            rfl
    | internalError =>
        simp only at hstep
        split at hstep
        · cases hstep
          refine hs.settled huploads hfinalized hfinalized rfl rfl rfl ?_ ?_ ?_ hs.commits
          · exact .inr (.inl ⟨parts, transientRetries + 1, rfl⟩)
          · rintro _ _ ⟨⟩
            exact hassembled
          · exact fun _ hover => absurd ⟨parts, transientRetries + 1, rfl⟩ hover
        · cases hstep
          exact hs.settledRefused hfinalized huploads rfl
    | failed tookEffect =>
        cases tookEffect with
        | true =>
            cases hstep
            exact hs.rests huploads hfinalized hfinalized rfl rfl rfl rfl
              (fun _ => rfl) hs.commits
        | false =>
            cases hstep
            exact hs.settledRefused hfinalized huploads rfl
  · cases hstep

theorem CommitSound.stepSettled {l : Label β} (hkept : CommitsKept c s l)
    (hstep : step c s l = some s') : CommitSound c s' := by
  have hclosed := hs.closed hfinalized
  cases l with
  | write location data =>
      simp only [step] at hstep
      split at hstep
      · rename_i hpc
        cases hstep
        refine hs.settled huploads hfinalized hfinalized rfl rfl rfl ?_ (by simp) ?_ hs.commits
        · exact .inr (.inr ⟨location, data, rfl, hkept hfinalized⟩)
        · exact fun hrefused _ => hs.object_of_idle hfinalized hpc hrefused
      · cases hstep
  | finalize toFlush => exact hs.settledFinalize hfinalized huploads hkept hstep
  | writer => exact hs.settledWriter hfinalized huploads hstep
  | initialized ok =>
      rcases hclosed with hpc | ⟨parts, transientRetries, hpc⟩ | ⟨location, data, hpc, -⟩
      · simp [step, S3MultiPartUpload.initialized, hpc] at hstep
      · simp [step, S3MultiPartUpload.initialized, hpc] at hstep
      · simp [step, S3MultiPartUpload.initialized, hpc] at hstep
  | singleUploaded reply =>
      rcases hclosed with hpc | ⟨parts, transientRetries, hpc⟩ | ⟨location, data, hpc, -⟩
      · simp [step, S3MultiPartUpload.singleUploaded, hpc] at hstep
      · simp [step, S3MultiPartUpload.singleUploaded, hpc] at hstep
      · simp [step, S3MultiPartUpload.singleUploaded, hpc] at hstep
  | completed reply => exact hs.settledCompleted hfinalized huploads hstep
  | partUploaded k reply =>
      simp only [step, partUploaded] at hstep
      split at hstep
      · cases hstep
      · rename_i t ht
        rw [if_pos (by simp [hs.finished hfinalized ht])] at hstep
        cases hstep
  | thread k =>
      simp only [step, threadStep] at hstep
      split at hstep
      · cases hstep
      · rename_i t ht
        simp [hs.finished hfinalized ht] at hstep

end Settled

theorem CommitSound.stepOpen {s s' : Upload β} {l : Label β} (hs : CommitSound c s)
    (hpartSize : 0 < c.partSize) (hunfinalized : s.uploadFinalized = false)
    (hkept : CommitsKept c s l) (hfew : FewParts c s l) (hinitiate : InitiateKept s l)
    (hstep : step c s l = some s') (huploads : UploadsSound c s') : CommitSound c s' := by
  have honward : Onward s s' → CommitSound c s' := by
    intro honward
    apply hs.onward honward huploads hunfinalized
    intro herror'
    have herror : s.hasError = false := by
      by_contra herror
      rw [honward.error (by simpa using herror)] at herror'
      cases herror'
    exact (hs.stored herror hunfinalized).step hs.uploads hpartSize herror hunfinalized hfew
      hinitiate hstep (honward.finalized.trans hunfinalized)
  have hmoved : ∀ k t t', ThreadMove s s' k t t' → CommitSound c s' := by
    intro k t t' hmove
    exact honward (onward_of_threadMove hs.uploads hmove)
  cases l with
  | write location data =>
      simp only [step] at hstep
      split at hstep
      · cases hstep
        exact honward ⟨id, fun _ => rfl, rfl, rfl, Nat.le_refl _, rfl, by simp⟩
      · cases hstep
  | finalize toFlush =>
      simp only [step] at hstep
      split at hstep
      · exact honward (onward_of_finalize hunfinalized hstep)
      · cases hstep
  | writer =>
      by_cases hpc : s.pc = .flushed
      · exact hs.flushed hpc hstep huploads
      · exact honward (onward_of_writerStep hstep hpc)
  | initialized ok => exact hs.initialized hpartSize hunfinalized hkept hstep
  | singleUploaded reply =>
      simp only [step, S3MultiPartUpload.singleUploaded] at hstep
      split at hstep
      · rename_i b hpc
        cases reply with
        | ok =>
            cases hstep
            exact hs.singleUploaded hpc hunfinalized huploads
        | failed tookEffect =>
            cases hstep
            refine honward ⟨id, fun _ => rfl, rfl, rfl, Nat.le_refl _, rfl, ?_⟩
            simp [endFinalize]
      · cases hstep
  | completed reply =>
      simp only [step, completed] at hstep
      split at hstep
      · rename_i parts transientRetries hpc
        have hfinalized := (hs.uploads.completing parts transientRetries hpc).1
        rw [hunfinalized] at hfinalized
        cases hfinalized
      · cases hstep
  | partUploaded k reply =>
      obtain ⟨t, t', hmove⟩ := threadMove_of_partUploaded hstep
      exact hmoved k t t' hmove
  | thread k =>
      obtain ⟨t, t', hmove⟩ := threadMove_of_threadStep hstep
      exact hmoved k t t' hmove

theorem CommitSound.step {s s' : Upload β} {l : Label β} (hs : CommitSound c s)
    (hpartSize : 0 < c.partSize) (hkept : CommitsKept c s l) (hstep : step c s l = some s') :
    CommitSound c s' := by
  have hfew : FewParts c s l := by
    cases l with
    | _ => trivial
  have hinitiate : InitiateKept s l := by
    cases l with
    | _ => first | trivial | exact hkept.1
  have huploads := hs.uploads.step hpartSize hfew hstep
  by_cases hfinalized : s.uploadFinalized
  · exact hs.stepSettled hfinalized huploads hkept hstep
  · exact hs.stepOpen hpartSize (by simpa using hfinalized) hkept hfew hinitiate hstep huploads

/-- Each `Finalize` that returned left the object equal to the bytes of the
`Write` calls that returned before it. -/
def CommitLaw (s : Upload β) : Prop := ∀ p ∈ s.commits, p.1 = some (p.2.map some)

theorem commitLaw_of_commitsKept {labels : List (Label β)} (hpartSize : 0 < c.partSize)
    (hrun : Run (step c) (CommitsKept c) {} labels s) : CommitLaw s := by
  have hsound : CommitSound c s := by
    apply hrun.invariant (CommitSound c) _ commitSound_init
    intro s l s' hs hkept hstep
    exact hs.step hpartSize hkept hstep
  exact hsound.commits

def oneByteParts : S3ConfigParams := { partSize := 1, maxUploadThreads := 2 }

/-- Two parts are written, the second one is uploaded first, and `Finalize` sends the list. -/
def uploadTwoParts : List (Label Nat) :=
  [.write 0 [7, 8], .writer, .writer, .initialized true, .writer, .writer, .writer,
    .partUploaded 1 (.uploaded [2]), .thread 1, .thread 1, .thread 1,
    .partUploaded 0 (.uploaded [1]), .thread 0, .thread 0, .thread 0,
    .finalize [], .writer, .writer, .writer, .completed .completed]

/-- Enough for `CommitsKept`, and it can be run. -/
def keepsCommits (c : S3ConfigParams) (s : Upload β) : Label β → Bool
  | .write _ _ => !s.uploadFinalized
  | .finalize _ => !s.completeRefused
  | .initialized ok => ok && !(held s.pc).isEmpty
  | _ => decide (currentPart c s + 1 < uint16Limit)

theorem commitsKept_of_keepsCommits {l : Label β} (hkeeps : keepsCommits c s l) :
    CommitsKept c s l := by
  cases l with
  | write location data =>
      intro hfinalized
      simp [keepsCommits, hfinalized] at hkeeps
  | finalize toFlush => simpa [keepsCommits, CommitsKept] using hkeeps
  | writer => exact fun _ _ _ _ _ => of_decide_eq_true hkeeps
  | initialized ok =>
      rw [keepsCommits, Bool.and_eq_true] at hkeeps
      refine ⟨fun _ _ _ _ _ _ => .inl hkeeps.1, fun toFlush hpc => ?_⟩
      simp [hpc, held] at hkeeps
  | singleUploaded | completed | partUploaded | thread => trivial

theorem commitLaw_of_commitsKept_two :
    ∃ s, Run (step oneByteParts) (CommitsKept oneByteParts) ({} : Upload Nat) uploadTwoParts s ∧
      s.commits = [(some [some 7, some 8], [7, 8])] ∧ CommitLaw s := by
  have hexec : (exec (guarded (step oneByteParts) fun s l => keepsCommits oneByteParts s l) {}
      uploadTwoParts).map (·.commits) = some [(some [some 7, some 8], [7, 8])] := by
    decide
  obtain ⟨s, hexec, hcommits⟩ := Option.map_eq_some_iff.mp hexec
  have hrun : Run (step oneByteParts) (CommitsKept oneByteParts) {} uploadTwoParts s :=
    (run_of_exec_guarded hexec).mono fun _ _ => commitsKept_of_keepsCommits
  exact ⟨s, hrun, hcommits, commitLaw_of_commitsKept (by decide) hrun⟩

/-- The least part size of S3; with a key even one byte is a multipart upload. -/
def keyedParts : S3ConfigParams where
  partSize := 5242880
  maxUploadThreads := 50
  kmsKeyId := bytes "key"

/-- The completion of an upload of one byte is refused. -/
def refusedUpload : List (Label Nat) :=
  [.write 0 [7], .writer, .writer, .finalize [0], .initialized true, .writer, .writer, .writer,
    .partUploaded 0 (.uploaded [1]), .thread 0, .thread 0, .thread 0, .writer, .writer,
    .completed (.failed false)]

/-- The next `Finalize` returns without an object. -/
theorem finalize_returns_after_refused_completion :
    ∃ labels s, Run (step keyedParts) Unrestricted ({} : Upload Nat) labels s ∧
      ¬ CommitLaw s := by
  have hexec : (exec (step keyedParts) ({} : Upload Nat)
      (refusedUpload ++ [.finalize []])).map (·.commits) = some [(none, [7])] := by
    decide
  obtain ⟨s, hexec, hcommits⟩ := Option.map_eq_some_iff.mp hexec
  refine ⟨_, s, run_of_exec hexec, ?_⟩
  intro hlaw
  have hlost := hlaw (none, [7]) (by simp [hcommits])
  cases hlost

end HaybarnHttpfs.UploadCommit
