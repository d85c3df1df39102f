import HaybarnHttpfs.UploadThreads

/-!
Progress of an upload: the writer and the upload threads never wait for each
other for good, and every step that is not a new call lowers the work left.
-/

namespace HaybarnHttpfs.UploadProgress

open HaybarnHttpfs.Foundation.Memory HaybarnHttpfs.Foundation.Numbering
open HaybarnHttpfs.Foundation.TransitionRuns
open HaybarnHttpfs.S3MultiPartUpload
open HaybarnHttpfs.UploadThreads

universe u

variable {β : Type u} {c : S3ConfigParams}

/-- The steps that are not calls of the user. -/
def Internal : Label β → Prop
  | .write _ _ | .finalize _ => False
  | _ => True

def threadsWork (threads : List (UploadThread β)) : Nat :=
  (threads.map fun t => stageWork t.stage).sum

def callerWork (c : S3ConfigParams) : Caller β → Nat
  | .write _ data bytesWritten bytesToWrite =>
      8 * (data.length - (bytesWritten + bytesToWrite)) + 1
  | .flushAll toFlush => 8 * toFlush.length + 5 + c.retries

def writerWork (c : S3ConfigParams) : Pc β → Nat
  | .idle | .terminated => 0
  | .writing _ data bytesWritten => 8 * (data.length - bytesWritten) + 1
  | .waitingForSlot _ caller => callerWork c caller + 6
  | .initializing _ caller => callerWork c caller + 5
  | .initializingAll toFlush => 8 * toFlush.length + 6 + c.retries
  | .uploadingSingle _ => 1
  | .flushingAll toFlush => 8 * toFlush.length + 5 + c.retries
  | .waitingForUploads => 4 + c.retries
  | .flushed => 3 + c.retries
  | .completing _ transientRetries => 1 + (c.retries - transientRetries)

/-- A bound on the steps that are left until the writer is idle and every thread
is finished. -/
def work (c : S3ConfigParams) (s : Upload β) : Nat := writerWork c s.pc + threadsWork s.threads

theorem threadsWork_set {threads : List (UploadThread β)} {k : Nat} {t : UploadThread β}
    (t' : UploadThread β) (ht : threads[k]? = some t) :
    threadsWork (threads.set k t') + stageWork t.stage =
      threadsWork threads + stageWork t'.stage := by
  induction threads generalizing k with
  | nil => simp at ht
  | cons u threads ih =>
      cases k with
      | zero =>
          rw [List.getElem?_cons_zero, Option.some.injEq] at ht
          subst ht
          simp only [threadsWork, List.set_cons_zero, List.map_cons, List.sum_cons]
          omega
      | succ k =>
          rw [List.getElem?_cons_succ] at ht
          have hrest := ih ht
          simp only [threadsWork, List.set_cons_succ, List.map_cons, List.sum_cons] at hrest ⊢
          omega

theorem work_spawnUpload (s : Upload β) (b : S3WriteBuffer β) (caller : Caller β) :
    work c (spawnUpload s b caller) = callerWork c caller + threadsWork s.threads + 4 := by
  cases caller with
  | _ =>
      simp [work, spawnUpload, uploadThread, resume, writerWork, callerWork, threadsWork,
        stageWork]
      omega

theorem work_flushBuffer (s : Upload β) (b : S3WriteBuffer β) (caller : Caller β) :
    work c (flushBuffer s b caller) ≤ callerWork c caller + 6 + threadsWork s.threads := by
  unfold flushBuffer
  split
  · cases caller with
    | _ => simp [work, resume, writerWork, callerWork]
  · split
    · cases caller with
      | _ => simp [work, resume, writerWork, callerWork]
    · simp only
      split
      · cases caller with
        | _ => simp [work, throwTo, endFinalize, writerWork]
      · simp [work, writerWork]

theorem work_lt_of_threadMove {s s' : Upload β} {k : Nat} {t t' : UploadThread β}
    (hmove : ThreadMove s s' k t t') (hpc : s'.pc ≠ .terminated) : work c s' < work c s := by
  have hthreads := threadsWork_set t' hmove.before
  rcases hmove.moved with ⟨hsame, hless, -⟩ | ⟨-, -, -, hterminated⟩
  · unfold work
    rw [hsame, hmove.threads]
    omega
  · exact absurd hterminated hpc

theorem work_lt_of_writerStep {s s' : Upload β} (hstep : writerStep c s = some s')
    (hchunk : ∀ location data bytesWritten, s.pc = .writing location data bytesWritten →
      bytesWritten < data.length →
      work c (writeChunk c s location data bytesWritten) < work c s) :
    work c s' < work c s := by
  cases hpc : s.pc with
  | writing location data bytesWritten =>
      simp only [writerStep, hpc] at hstep
      split at hstep
      · cases hstep
        rename_i hmore
        exact hchunk location data bytesWritten hpc hmore
      · cases hstep
        simp [work, hpc, writerWork]
  | waitingForSlot b caller =>
      simp only [writerStep, hpc] at hstep
      split at hstep
      · cases hstep
      cases hstep
      unfold acquireSlot
      simp only
      split
      · rw [work_spawnUpload]
        simp only [work, hpc, writerWork]
        omega
      · simp only [work, hpc, writerWork]
        omega
  | flushingAll toFlush =>
      cases toFlush with
      | nil =>
          simp only [writerStep, hpc] at hstep
          cases hstep
          simp only [work, hpc, writerWork, List.length_nil]
          omega
      | cons partNo toFlush =>
          -- the part number taken off the list pays for the flush of its buffer
          have hflush : ∀ b, work c (flushBuffer s b (.flushAll toFlush)) < work c s := by
            intro b
            have hbound : work c _ ≤ _ := work_flushBuffer s b (.flushAll toFlush)
            simp only [callerWork] at hbound
            simp only [work, hpc, writerWork, List.length_cons] at hbound ⊢
            omega
          have hskip : work c { s with pc := .flushingAll toFlush } < work c s := by
            simp only [work, hpc, writerWork, List.length_cons]
            omega
          simp only [writerStep, hpc] at hstep
          split at hstep
          · cases hstep
            exact hskip
          · split at hstep
            · cases hstep
              exact hskip
            · cases hstep
              exact hflush _
  | waitingForUploads =>
      simp only [writerStep, hpc] at hstep
      split at hstep
      · cases hstep
      · split at hstep
        · cases hstep
          simp only [work, endFinalize, hpc, writerWork]
          omega
        · cases hstep
          simp only [work, hpc, writerWork]
          omega
  | flushed =>
      simp only [writerStep, hpc] at hstep
      split at hstep
      · cases hstep
        simp only [work, returnFinalize, endFinalize, hpc, writerWork]
        omega
      · cases hstep
        unfold finalizeMultipartUpload
        split
        · simp only [work, returnFinalize, endFinalize, hpc, writerWork]
          omega
        · simp only
          split
          · simp only [work, endFinalize, hpc, writerWork]
            omega
          · simp only [work, hpc, writerWork]
            omega
  | idle | initializing b caller | initializingAll toFlush | uploadingSingle b
  | completing parts transientRetries | terminated =>
      simp [writerStep, hpc] at hstep

theorem work_lt_of_initialized {s s' : Upload β} {ok : Bool}
    (hstep : initialized s ok = some s') : work c s' < work c s := by
  unfold initialized at hstep
  split at hstep
  · rename_i b caller hpc
    split at hstep
    · cases hstep
      rw [work_spawnUpload]
      simp only [work, hpc, writerWork]
      omega
    · cases hstep
      cases caller with
      | _ =>
          simp only [work, throwTo, endFinalize, notifyUploadsInProgress, hpc, writerWork]
          omega
  · rename_i toFlush hpc
    split at hstep
    · cases hstep
      simp only [work, hpc, writerWork]
      omega
    · cases hstep
      simp only [work, endFinalize, hpc, writerWork]
      omega
  · cases hstep

theorem work_lt_of_singleUploaded {s s' : Upload β} {reply : Reply}
    (hstep : singleUploaded s reply = some s') : work c s' < work c s := by
  unfold singleUploaded at hstep
  split at hstep
  · rename_i b hpc
    cases reply with
    | _ =>
        cases hstep
        simp [work, returnFinalize, endFinalize, hpc, writerWork]
  · cases hstep

theorem work_lt_of_completed {s s' : Upload β} {reply : CompleteReply}
    (hstep : completed c s reply = some s') : work c s' < work c s := by
  unfold completed at hstep
  split at hstep
  · rename_i parts transientRetries hpc
    split at hstep
    · cases hstep
      simp only [work, returnFinalize, endFinalize, hpc, writerWork]
      omega
    · cases hstep
    · split at hstep
      · cases hstep
        simp only [work, hpc, writerWork]
        omega
      · cases hstep
        simp only [work, refuseCompletion, endFinalize, hpc, writerWork]
        omega
    all_goals
      cases hstep
      simp only [work, refuseCompletion, endFinalize, hpc, writerWork]
      omega
  · cases hstep

theorem work_lt_of_step {s s' : Upload β} {l : Label β} (hinternal : Internal l)
    (hstep : step c s l = some s') (hpc : s'.pc ≠ .terminated)
    (hchunk : l = .writer → ∀ location data bytesWritten,
      s.pc = .writing location data bytesWritten → bytesWritten < data.length →
        work c (writeChunk c s location data bytesWritten) < work c s) :
    work c s' < work c s := by
  cases l with
  | write location data => exact absurd hinternal id
  | finalize toFlush => exact absurd hinternal id
  | writer => exact work_lt_of_writerStep hstep (hchunk rfl)
  | initialized ok => exact work_lt_of_initialized hstep
  | singleUploaded reply => exact work_lt_of_singleUploaded hstep
  | completed reply => exact work_lt_of_completed hstep
  | partUploaded k reply =>
      obtain ⟨t, t', hmove⟩ := threadMove_of_partUploaded hstep
      exact work_lt_of_threadMove hmove hpc
  | thread k =>
      obtain ⟨t, t', hmove⟩ := threadMove_of_threadStep hstep
      exact work_lt_of_threadMove hmove hpc

def alive : Pc β → Bool
  | .terminated => false
  | _ => true

theorem ne_terminated {pc : Pc β} (halive : alive pc = true) : pc ≠ .terminated := by
  rintro rfl
  cases halive

/-- The slots in use are those of the running threads and of the writer, also
once an error was pushed. -/
structure Counted (s : Upload β) : Prop where
  inProgress : s.uploadsInProgress = s.threads.countP running + slots s.pc
  few : s.threads.length + (held s.pc).length < uint16Limit
  alive : s.pc ≠ .terminated

theorem Live.counted {s : Upload β} (hs : Live c s) (halive : s.pc ≠ .terminated) :
    Counted s := by
  refine ⟨hs.accounted.inProgress, ?_, halive⟩
  have hfew := hs.few
  unfold Few at hfew
  rw [length_numbers] at hfew
  omega

theorem Counted.threadMove {s s' : Upload β} {k : Nat} {t t' : UploadThread β}
    (hs : Counted s) (hmove : ThreadMove s s' k t t') : Counted s' := by
  have hpositive : 0 < s.threads.countP running :=
    List.countP_pos_iff.mpr ⟨t, hmove.mem, by simp [running, hmove.unfinished]⟩
  have hprogress := hs.inProgress
  have hcount := countP_set_add running t' hmove.before
  rcases hmove.moved with ⟨hpc, -, hslot⟩ | ⟨hnone, -⟩
  · refine ⟨?_, ?_, ?_⟩
    · rw [hmove.threads, hpc]
      omega
    · rw [hmove.threads, hpc, List.length_set]
      exact hs.few
    · rw [hpc]
      exact hs.alive
  · omega

theorem Counted.moveTo {s s' : Upload β} (hs : Counted s) (hthreads : s'.threads = s.threads)
    (hprogress : s'.uploadsInProgress + slots s.pc = s.uploadsInProgress + slots s'.pc)
    (hheld : (held s'.pc).length ≤ (held s.pc).length) (halive : s'.pc ≠ .terminated) :
    Counted s' := by
  have hbefore := hs.inProgress
  have hfew := hs.few
  refine ⟨?_, ?_, halive⟩
  · rw [hthreads]
    omega
  · rw [hthreads]
    omega

theorem Counted.goTo {s s' : Upload β} (hs : Counted s) (hslots : slots s.pc = 0)
    (hthreads : s'.threads = s.threads) (hprogress : s'.uploadsInProgress = s.uploadsInProgress)
    (hslots' : slots s'.pc = 0) (hheld : held s'.pc = []) (halive : s'.pc ≠ .terminated) :
    Counted s' := by
  refine hs.moveTo hthreads ?_ ?_ halive
  · rw [hprogress, hslots, hslots']
  · rw [hheld]
    exact Nat.zero_le _

theorem Counted.spawnUpload {s₀ s : Upload β} {b : S3WriteBuffer β} (hs : Counted s₀)
    (hheld : held s₀.pc = [b]) (caller : Caller β) (hthreads : s.threads = s₀.threads)
    (hprogress : s.uploadsInProgress + slots s₀.pc = s₀.uploadsInProgress + 1) :
    Counted (S3MultiPartUpload.spawnUpload s b caller) := by
  have hbefore := hs.inProgress
  have hfew := hs.few
  rw [hheld, List.length_singleton] at hfew
  cases caller with
  | write | flushAll =>
      refine ⟨?_, ?_, ne_terminated rfl⟩
      · simp only [S3MultiPartUpload.spawnUpload, resume, slots, hthreads, List.countP_append]
        have hnew : [uploadThread s b].countP running = 1 := rfl
        omega
      · simp only [S3MultiPartUpload.spawnUpload, resume, held, hthreads, List.length_append,
          List.length_singleton, List.length_nil]
        omega

theorem held_flushBuffer {s : Upload β} (herror : s.hasError) (b : S3WriteBuffer β)
    (caller : Caller β) :
    held (flushBuffer s b caller).pc = [] ∧ slots (flushBuffer s b caller).pc = 0 ∧
      (flushBuffer s b caller).pc ≠ .terminated ∧
      (flushBuffer s b caller).threads = s.threads ∧
      (flushBuffer s b caller).uploadsInProgress = s.uploadsInProgress := by
  unfold flushBuffer
  split
  · cases caller with
    | _ => exact ⟨rfl, rfl, ne_terminated rfl, rfl, rfl⟩
  · split
    · cases caller with
      | _ => exact ⟨rfl, rfl, ne_terminated rfl, rfl, rfl⟩
    · simp only [herror]
      cases caller with
      | _ => exact ⟨rfl, rfl, ne_terminated rfl, rfl, rfl⟩

theorem Counted.flushBuffer {s₀ : Upload β} (hs : Counted s₀) (s : Upload β)
    (herror : s.hasError)
    (hslots : slots s₀.pc = 0) (hthreads : s.threads = s₀.threads)
    (hprogress : s.uploadsInProgress = s₀.uploadsInProgress) (b : S3WriteBuffer β)
    (caller : Caller β) : Counted (S3MultiPartUpload.flushBuffer s b caller) := by
  obtain ⟨hheld, hslots', halive, hthreads', hprogress'⟩ := held_flushBuffer herror b caller
  exact hs.goTo hslots (hthreads'.trans hthreads) (hprogress'.trans hprogress) hslots' hheld
    halive

theorem Counted.writerStep {s s' : Upload β} (hs : Counted s) (herror : s.hasError)
    (hstep : writerStep c s = some s') : Counted s' := by
  cases hpc : s.pc with
  | writing location data bytesWritten =>
      have hslots : slots s.pc = 0 := by simp [slots, hpc]
      simp only [S3MultiPartUpload.writerStep, hpc] at hstep
      split at hstep
      · cases hstep
        unfold writeChunk
        simp only
        split
        · exact hs.goTo hslots rfl rfl rfl rfl (ne_terminated rfl)
        · split
          · refine hs.flushBuffer _ ?_ hslots ?_ ?_ _ _
            · exact herror
            · rfl
            · rfl
          · exact hs.goTo hslots rfl rfl rfl rfl (ne_terminated rfl)
      · cases hstep
        exact hs.goTo hslots rfl rfl rfl rfl (ne_terminated rfl)
  | waitingForSlot b caller =>
      have hheld : held s.pc = [b] := by simp [held, hpc]
      have hslots : slots s.pc = 0 := by simp [slots, hpc]
      have hlt : s.uploadsInProgress + 1 < uint16Limit := by
        have hprogress := hs.inProgress
        have hfew := hs.few
        have hle : s.threads.countP running ≤ s.threads.length := List.countP_le_length
        rw [hheld, List.length_singleton] at hfew
        omega
      simp only [S3MultiPartUpload.writerStep, hpc] at hstep
      split at hstep
      · cases hstep
      cases hstep
      unfold acquireSlot
      simp only [Nat.mod_eq_of_lt hlt]
      split
      · exact hs.spawnUpload hheld caller rfl (by simp [hslots])
      · refine hs.moveTo rfl ?_ ?_ (ne_terminated rfl)
        · rw [hslots]
          rfl
        · rw [hheld]
          exact Nat.le_refl 1
  | flushingAll toFlush =>
      have hslots : slots s.pc = 0 := by simp [slots, hpc]
      cases toFlush with
      | nil =>
          simp only [S3MultiPartUpload.writerStep, hpc] at hstep
          cases hstep
          exact hs.goTo hslots rfl rfl rfl rfl (ne_terminated rfl)
      | cons partNo toFlush =>
          simp only [S3MultiPartUpload.writerStep, hpc] at hstep
          split at hstep
          · cases hstep
            exact hs.goTo hslots rfl rfl rfl rfl (ne_terminated rfl)
          · split at hstep
            · cases hstep
              exact hs.goTo hslots rfl rfl rfl rfl (ne_terminated rfl)
            · cases hstep
              exact hs.flushBuffer _ herror hslots rfl rfl _ _
  | waitingForUploads =>
      have hslots : slots s.pc = 0 := by simp [slots, hpc]
      simp only [S3MultiPartUpload.writerStep, hpc] at hstep
      split at hstep
      · cases hstep
      · cases hstep
        exact hs.goTo hslots rfl rfl rfl rfl (ne_terminated rfl)
  | flushed =>
      have hslots : slots s.pc = 0 := by simp [slots, hpc]
      simp only [S3MultiPartUpload.writerStep, hpc] at hstep
      split at hstep
      · cases hstep
        exact hs.goTo hslots rfl rfl rfl rfl (ne_terminated rfl)
      · cases hstep
        unfold finalizeMultipartUpload
        split
        · exact hs.goTo hslots rfl rfl rfl rfl (ne_terminated rfl)
        · simp only
          split
          · exact hs.goTo hslots rfl rfl rfl rfl (ne_terminated rfl)
          · exact hs.goTo hslots rfl rfl rfl rfl (ne_terminated rfl)
  | idle | initializing b caller | initializingAll toFlush | uploadingSingle b
  | completing parts transientRetries | terminated =>
      simp [S3MultiPartUpload.writerStep, hpc] at hstep

theorem Counted.initialized {s s' : Upload β} {ok : Bool} (hs : Counted s)
    (hstep : initialized s ok = some s') : Counted s' := by
  unfold S3MultiPartUpload.initialized at hstep
  split at hstep
  · rename_i b caller hpc
    have hheld : held s.pc = [b] := by simp [held, hpc]
    have hslots : slots s.pc = 1 := by simp [slots, hpc]
    have hprogress := hs.inProgress
    rw [hslots] at hprogress
    split at hstep
    · cases hstep
      exact hs.spawnUpload hheld caller rfl (by simp [hslots])
    · cases hstep
      have hnotify : s.uploadsInProgress - 1 + slots s.pc = s.uploadsInProgress := by
        rw [hslots]
        omega
      cases caller with
      | _ => exact hs.moveTo rfl hnotify (Nat.zero_le _) (ne_terminated rfl)
  · rename_i toFlush hpc
    have hslots : slots s.pc = 0 := by simp [slots, hpc]
    split at hstep
    · cases hstep
      exact hs.goTo hslots rfl rfl rfl rfl (ne_terminated rfl)
    · cases hstep
      exact hs.goTo hslots rfl rfl rfl rfl (ne_terminated rfl)
  · cases hstep

theorem Counted.finalize {s s' : Upload β} {toFlush : List Nat} (hs : Counted s)
    (hpc : s.pc = .idle) (hstep : finalize c s toFlush = some s') : Counted s' := by
  have hslots : slots s.pc = 0 := by simp [slots, hpc]
  unfold S3MultiPartUpload.finalize at hstep
  split at hstep
  · cases hstep
    exact hs.goTo hslots rfl rfl rfl rfl (ne_terminated rfl)
  · split at hstep
    · split at hstep
      · cases hstep
        exact hs.goTo hslots rfl rfl rfl rfl (ne_terminated rfl)
      · split at hstep
        · split at hstep
          · cases hstep
            exact hs.goTo hslots rfl rfl rfl rfl (ne_terminated rfl)
          · cases hstep
            exact hs.goTo hslots rfl rfl rfl rfl (ne_terminated rfl)
        · cases hstep
          exact hs.goTo hslots rfl rfl rfl rfl (ne_terminated rfl)
    · cases hstep

theorem Counted.stepWithError {s s' : Upload β} {l : Label β} (hs : Counted s)
    (herror : s.hasError) (hstep : step c s l = some s') : Counted s' := by
  cases l with
  | write location data =>
      simp only [step] at hstep
      split at hstep
      · cases hstep
        rename_i hpc
        exact hs.goTo (by simp [slots, hpc]) rfl rfl rfl rfl (ne_terminated rfl)
      · cases hstep
  | finalize toFlush =>
      simp only [step] at hstep
      split at hstep
      · rename_i hpc
        exact hs.finalize hpc hstep
      · cases hstep
  | writer => exact hs.writerStep herror hstep
  | initialized ok => exact hs.initialized hstep
  | singleUploaded reply =>
      simp only [step, singleUploaded] at hstep
      split at hstep
      · rename_i b hpc
        cases reply with
        | _ =>
            cases hstep
            exact hs.goTo (by simp [slots, hpc]) rfl rfl rfl rfl (ne_terminated rfl)
      · cases hstep
  | completed reply =>
      simp only [step, completed] at hstep
      split at hstep
      · rename_i parts transientRetries hpc
        have hslots : slots s.pc = 0 := by simp [slots, hpc]
        have hidle : ∀ s₁ : Upload β, s₁.threads = s.threads →
            s₁.uploadsInProgress = s.uploadsInProgress → s₁.pc = .idle → Counted s₁ := by
          intro s₁ hthreads hprogress hpc₁
          refine hs.goTo hslots hthreads hprogress ?_ ?_ ?_
          · rw [hpc₁]
            rfl
          · rw [hpc₁]
            rfl
          · rw [hpc₁]
            exact ne_terminated rfl
        split at hstep
        · cases hstep
          exact hidle _ rfl rfl rfl
        · cases hstep
        · split at hstep
          · cases hstep
            exact hs.goTo hslots rfl rfl rfl rfl (ne_terminated rfl)
          · cases hstep
            exact hidle _ rfl rfl rfl
        all_goals
          cases hstep
          exact hidle _ rfl rfl rfl
      · cases hstep
  | partUploaded k reply =>
      obtain ⟨t, t', hmove⟩ := threadMove_of_partUploaded hstep
      exact hs.threadMove hmove
  | thread k =>
      obtain ⟨t, t', hmove⟩ := threadMove_of_threadStep hstep
      exact hs.threadMove hmove


/-- A step of the writer or of the server's answer to it. -/
structure WriterMove (c : S3ConfigParams) (s s' : Upload β) : Prop where
  alive : s'.pc ≠ .terminated
  error : s'.hasError = s.hasError
  finalized : s.uploadFinalized → s'.uploadFinalized
  initialized : s.initializedMultipartUpload → s'.initializedMultipartUpload
  spawned : (s'.threads = s.threads ∧ slots s'.pc = 0) ∨ 0 < slots s.pc ∨
    0 < c.maxUploadThreads

theorem writerMove_flushBuffer {s₀ s : Upload β} (b : S3WriteBuffer β) (caller : Caller β)
    (herror : s.hasError = s₀.hasError)
    (hfinalized : s.uploadFinalized = s₀.uploadFinalized)
    (hinitialized : s.initializedMultipartUpload = s₀.initializedMultipartUpload)
    (hthreads : s.threads = s₀.threads) :
    WriterMove c s₀ (flushBuffer s b caller) := by
  have hstill : s₀.uploadFinalized → s.uploadFinalized := by
    rw [hfinalized]
    exact id
  have hbegun : s₀.initializedMultipartUpload → s.initializedMultipartUpload := by
    rw [hinitialized]
    exact id
  unfold flushBuffer
  split
  · cases caller with
    | _ => exact ⟨ne_terminated rfl, herror, hstill, hbegun, .inl ⟨hthreads, rfl⟩⟩
  · split
    · cases caller with
      | _ => exact ⟨ne_terminated rfl, herror, hstill, hbegun, .inl ⟨hthreads, rfl⟩⟩
    · simp only
      split
      · cases caller with
        | _ => exact ⟨ne_terminated rfl, herror, hstill, hbegun, .inl ⟨hthreads, rfl⟩⟩
      · exact ⟨ne_terminated rfl, herror, hstill, hbegun, .inl ⟨hthreads, rfl⟩⟩

theorem writerMove_of_writerStep {s s' : Upload β} (hstep : writerStep c s = some s') :
    WriterMove c s s' := by
  unfold writerStep at hstep
  split at hstep
  · split at hstep
    · cases hstep
      unfold writeChunk
      simp only
      split
      · exact ⟨ne_terminated rfl, rfl, id, id, .inl ⟨rfl, rfl⟩⟩
      · split
        · exact writerMove_flushBuffer _ _ rfl rfl rfl rfl
        · exact ⟨ne_terminated rfl, rfl, id, id, .inl ⟨rfl, rfl⟩⟩
    · cases hstep
      exact ⟨ne_terminated rfl, rfl, id, id, .inl ⟨rfl, rfl⟩⟩
  · rename_i b caller hpc
    split at hstep
    · cases hstep
    cases hstep
    rename_i hfree
    have hserved : 0 < c.maxUploadThreads := by omega
    unfold acquireSlot
    simp only
    split
    · cases caller with
      | _ => exact ⟨ne_terminated rfl, rfl, id, id, .inr (.inr hserved)⟩
    · exact ⟨ne_terminated rfl, rfl, id, id, .inr (.inr hserved)⟩
  · cases hstep
    exact ⟨ne_terminated rfl, rfl, id, id, .inl ⟨rfl, rfl⟩⟩
  · split at hstep
    · cases hstep
      exact ⟨ne_terminated rfl, rfl, id, id, .inl ⟨rfl, rfl⟩⟩
    · split at hstep
      · cases hstep
        exact ⟨ne_terminated rfl, rfl, id, id, .inl ⟨rfl, rfl⟩⟩
      · cases hstep
        exact writerMove_flushBuffer _ _ rfl rfl rfl rfl
  · split at hstep
    · cases hstep
    · split at hstep
      · cases hstep
        exact ⟨ne_terminated rfl, rfl, id, id, .inl ⟨rfl, rfl⟩⟩
      · cases hstep
        exact ⟨ne_terminated rfl, rfl, id, id, .inl ⟨rfl, rfl⟩⟩
  · split at hstep
    · cases hstep
      exact ⟨ne_terminated rfl, rfl, id, id, .inl ⟨rfl, rfl⟩⟩
    · cases hstep
      unfold finalizeMultipartUpload
      split
      · exact ⟨ne_terminated rfl, rfl, id, id, .inl ⟨rfl, rfl⟩⟩
      · simp only
        split
        · exact ⟨ne_terminated rfl, rfl, fun _ => rfl, id, .inl ⟨rfl, rfl⟩⟩
        · exact ⟨ne_terminated rfl, rfl, fun _ => rfl, id, .inl ⟨rfl, rfl⟩⟩
  · cases hstep

theorem writerMove_of_finalize {s s' : Upload β} {toFlush : List Nat}
    (hstep : finalize c s toFlush = some s') : WriterMove c s s' := by
  unfold finalize at hstep
  split at hstep
  · cases hstep
    exact ⟨ne_terminated rfl, rfl, id, id, .inl ⟨rfl, rfl⟩⟩
  · split at hstep
    · split at hstep
      · cases hstep
        exact ⟨ne_terminated rfl, rfl, id, id, .inl ⟨rfl, rfl⟩⟩
      · split at hstep
        · split at hstep
          · cases hstep
            exact ⟨ne_terminated rfl, rfl, id, id, .inl ⟨rfl, rfl⟩⟩
          · cases hstep
            exact ⟨ne_terminated rfl, rfl, id, id, .inl ⟨rfl, rfl⟩⟩
        · cases hstep
          exact ⟨ne_terminated rfl, rfl, id, id, .inl ⟨rfl, rfl⟩⟩
    · cases hstep

theorem writerMove_of_completed {s s' : Upload β} {reply : CompleteReply}
    (hstep : completed c s reply = some s') : WriterMove c s s' := by
  unfold completed at hstep
  split at hstep
  · split at hstep
    · cases hstep
      exact ⟨ne_terminated rfl, rfl, id, id, .inl ⟨rfl, rfl⟩⟩
    · cases hstep
    · split at hstep
      · cases hstep
        exact ⟨ne_terminated rfl, rfl, id, id, .inl ⟨rfl, rfl⟩⟩
      · cases hstep
        exact ⟨ne_terminated rfl, rfl, id, id, .inl ⟨rfl, rfl⟩⟩
    all_goals
      cases hstep
      exact ⟨ne_terminated rfl, rfl, id, id, .inl ⟨rfl, rfl⟩⟩
  · cases hstep

theorem writerMove_or_threadMove {s s' : Upload β} {l : Label β}
    (hstep : step c s l = some s') :
    WriterMove c s s' ∨ ∃ k t t', ThreadMove s s' k t t' := by
  cases l with
  | write location data =>
      left
      simp only [step] at hstep
      split at hstep
      · cases hstep
        exact ⟨ne_terminated rfl, rfl, id, id, .inl ⟨rfl, rfl⟩⟩
      · cases hstep
  | finalize toFlush =>
      left
      simp only [step] at hstep
      split at hstep
      · exact writerMove_of_finalize hstep
      · cases hstep
  | writer => exact .inl (writerMove_of_writerStep hstep)
  | initialized ok =>
      left
      simp only [step, S3MultiPartUpload.initialized] at hstep
      split at hstep
      · rename_i b caller hpc
        have hslots : 0 < slots s.pc := by simp [slots, hpc]
        split at hstep
        · cases hstep
          cases caller
          · exact ⟨ne_terminated rfl, rfl, id, fun _ => rfl, .inr (.inl hslots)⟩
          · exact ⟨ne_terminated rfl, rfl, id, fun _ => rfl, .inr (.inl hslots)⟩
        · cases hstep
          cases caller
          · exact ⟨ne_terminated rfl, rfl, id, id, .inr (.inl hslots)⟩
          · exact ⟨ne_terminated rfl, rfl, id, id, .inr (.inl hslots)⟩
      · split at hstep
        · cases hstep
          exact ⟨ne_terminated rfl, rfl, id, fun _ => rfl, .inl ⟨rfl, rfl⟩⟩
        · cases hstep
          exact ⟨ne_terminated rfl, rfl, id, id, .inl ⟨rfl, rfl⟩⟩
      · cases hstep
  | singleUploaded reply =>
      left
      simp only [step, singleUploaded] at hstep
      split at hstep
      · cases reply
        · cases hstep
          exact ⟨ne_terminated rfl, rfl, fun _ => rfl, id, .inl ⟨rfl, rfl⟩⟩
        · cases hstep
          exact ⟨ne_terminated rfl, rfl, id, id, .inl ⟨rfl, rfl⟩⟩
      · cases hstep
  | completed reply => exact .inl (writerMove_of_completed hstep)
  | partUploaded k reply => exact .inr ⟨k, threadMove_of_partUploaded hstep⟩
  | thread k => exact .inr ⟨k, threadMove_of_threadStep hstep⟩

theorem counted_of_step {s s' : Upload β} {l : Label β}
    (hs : s.uploadFinalized = false → Counted s) (hsound' : UploadsSound c s')
    (hstep : step c s l = some s') (hunfinalized' : s'.uploadFinalized = false) :
    Counted s' := by
  rcases writerMove_or_threadMove hstep with hmove | ⟨k, t, t', hmove⟩
  · have hunfinalized : s.uploadFinalized = false := by
      by_contra hfinalized
      rw [hmove.finalized (by simpa using hfinalized)] at hunfinalized'
      cases hunfinalized'
    by_cases herror : s.hasError
    · exact (hs hunfinalized).stepWithError herror hstep
    · have herror' : s'.hasError = false := by
        rw [hmove.error]
        simpa using herror
      exact Live.counted (hsound'.live herror' hunfinalized') hmove.alive
  · have hfinalized : s'.uploadFinalized = s.uploadFinalized := by rw [hmove.rest]
    exact (hs (hfinalized.symm.trans hunfinalized')).threadMove hmove

/-- Without a slot to give nothing is ever handed to a thread. -/
def Served (c : S3ConfigParams) (s : Upload β) : Prop :=
  c.maxUploadThreads = 0 → s.threads = [] ∧ slots s.pc = 0

theorem served_of_step {s s' : Upload β} {l : Label β} (hs : Served c s)
    (hstep : step c s l = some s') : Served c s' := by
  intro hnone
  obtain ⟨hthreads, hslots⟩ := hs hnone
  rcases writerMove_or_threadMove hstep with hmove | ⟨k, t, t', hmove⟩
  · rcases hmove.spawned with ⟨hsame, hslots'⟩ | hslot | hserved
    · exact ⟨hsame.trans hthreads, hslots'⟩
    · omega
    · omega
  · have hmem := hmove.mem
    rw [hthreads] at hmem
    cases hmem

/-- What every run keeps. -/
structure UploadKept (c : S3ConfigParams) (s : Upload β) : Prop where
  sound : UploadsSound c s
  counted : s.uploadFinalized = false → Counted s
  served : Served c s

theorem uploadKept_of_run {labels : List (Label β)} {s : Upload β}
    (hpartSize : 0 < c.partSize) (hrun : Run (step c) (FewParts c) {} labels s) :
    UploadKept c s := by
  refine hrun.invariant (UploadKept c) ?_ ⟨uploadsSound_init, ?_, fun _ => ⟨rfl, rfl⟩⟩
  · intro s l s' hs hfew hstep
    have hsound := hs.sound.step hpartSize hfew hstep
    exact ⟨hsound, counted_of_step hs.counted hsound hstep, served_of_step hs.served hstep⟩
  · intro _
    refine ⟨rfl, ?_, nofun⟩
    show 0 < uint16Limit
    decide

theorem exists_threadStep {s : Upload β} {t : UploadThread β} (ht : t ∈ s.threads)
    (hrunning : running t) :
    ∃ k, s.threads[k]? = some t ∧ (t.stage = .putting ∨ ∃ s', threadStep s k = some s') := by
  obtain ⟨k, hk⟩ := List.mem_iff_getElem?.mp ht
  refine ⟨k, hk, ?_⟩
  cases hstage : t.stage with
  | putting => exact .inl rfl
  | insertingEtag | counting | pushingError =>
      right
      simp [threadStep, hk, hstage]
  | notifying =>
      right
      simp only [threadStep, hk, hstage]
      split
      · exact ⟨_, rfl⟩
      · exact ⟨_, rfl⟩
  | finished => simp [running, hstage] at hrunning

/-- The writer waits for the server. -/
def Awaiting : Pc β → Prop
  | .initializing _ _ | .initializingAll _ | .uploadingSingle _ | .completing _ _ => True
  | _ => False

theorem writer_enabled {s : Upload β} (hs : Counted s) (hbusy : s.pc ≠ .idle)
    (hserved : 0 < c.maxUploadThreads) :
    (∃ s', writerStep c s = some s') ∨ Awaiting s.pc ∨ ∃ t ∈ s.threads, running t := by
  have hprogress := hs.inProgress
  have hrunning : slots s.pc = 0 → s.uploadsInProgress ≠ 0 → ∃ t ∈ s.threads, running t := by
    intro hslots hsome
    apply List.countP_pos_iff.mp
    omega
  unfold writerStep
  cases hpc : s.pc with
  | idle => exact absurd hpc hbusy
  | terminated => exact absurd hpc hs.alive
  | writing location data bytesWritten =>
      left
      simp only
      split
      · exact ⟨_, rfl⟩
      · exact ⟨_, rfl⟩
  | waitingForSlot b caller =>
      simp only
      split
      · right
        right
        apply hrunning
        · simp [slots, hpc]
        · omega
      · exact .inl ⟨_, rfl⟩
  | flushingAll toFlush =>
      left
      cases toFlush with
      | nil => exact ⟨_, rfl⟩
      | cons partNo toFlush =>
          simp only
          split
          · exact ⟨_, rfl⟩
          · split
            · exact ⟨_, rfl⟩
            · exact ⟨_, rfl⟩
  | waitingForUploads =>
      simp only
      split
      · rename_i hsome
        right
        right
        apply hrunning _ hsome
        simp [slots, hpc]
      · left
        split
        · exact ⟨_, rfl⟩
        · exact ⟨_, rfl⟩
  | flushed =>
      left
      simp only
      split
      · exact ⟨_, rfl⟩
      · exact ⟨_, rfl⟩
  | initializing | initializingAll | uploadingSingle | completing =>
      exact .inr (.inl trivial)

/-- The writer and the threads never wait for each other for good. -/
theorem exists_step {s : Upload β} (hs : Counted s) (hbusy : s.pc ≠ .idle)
    (hserved : 0 < c.maxUploadThreads) : ∃ l s', Internal l ∧ step c s l = some s' := by
  rcases writer_enabled hs hbusy hserved with ⟨s', hstep⟩ | hawaiting | ⟨t, ht, hrunning⟩
  · exact ⟨.writer, s', trivial, hstep⟩
  · cases hpc : s.pc with
    | initializing b caller =>
        refine ⟨.initialized false, ?_⟩
        simp [Internal, step, initialized, hpc]
    | initializingAll toFlush =>
        refine ⟨.initialized false, ?_⟩
        simp [Internal, step, initialized, hpc]
    | uploadingSingle b =>
        refine ⟨.singleUploaded .ok, ?_⟩
        simp [Internal, step, singleUploaded, hpc]
    | completing parts transientRetries =>
        refine ⟨.completed (.failed false), ?_⟩
        simp [Internal, step, completed, hpc]
    | _ =>
        rw [hpc] at hawaiting
        exact absurd hawaiting id
  · obtain ⟨k, hk, hputting | ⟨s', hstep⟩⟩ := exists_threadStep ht hrunning
    · refine ⟨.partUploaded k (.failed none), ?_⟩
      simp [Internal, step, partUploaded, hk, hputting]
    · exact ⟨.thread k, s', trivial, hstep⟩

end HaybarnHttpfs.UploadProgress
