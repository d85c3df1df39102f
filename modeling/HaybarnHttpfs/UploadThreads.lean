import HaybarnHttpfs.Foundation.Numbering
import HaybarnHttpfs.Foundation.TransitionRuns
import HaybarnHttpfs.S3MultiPartUpload

/-!
The upload threads of `S3MultiPartUpload` and the completion of the upload: what
`uploads_in_progress`, `parts_uploaded` and `part_etags` say about the threads,
and which part numbers the buffers and the threads share out.
-/

namespace HaybarnHttpfs.UploadThreads

open HaybarnHttpfs.Foundation.ByteStrings HaybarnHttpfs.Foundation.Numbering
open HaybarnHttpfs.Foundation.Memory HaybarnHttpfs.Foundation.TransitionRuns
open HaybarnHttpfs.BufferedRead (idxSub idxSub_of_le)
open HaybarnHttpfs.S3MultiPartUpload

universe u

variable {β : Type u} {c : S3ConfigParams}

def running (t : UploadThread β) : Bool := t.stage ≠ .finished

/-- The thread has counted its part into `parts_uploaded`. -/
def counted (t : UploadThread β) : Bool :=
  !t.failed && (t.stage = .notifying || t.stage = .finished)

/-- The thread has put its ETag into `part_etags`. -/
def tagged (t : UploadThread β) : Bool := counted t || t.stage = .counting

/-- The buffer that the writer is about to hand to a thread. -/
def held : Pc β → List (S3WriteBuffer β)
  | .waitingForSlot b _ | .initializing b _ => [b]
  | _ => []

/-- The slots that the writer has acquired for a thread not yet started. -/
def slots : Pc β → Nat
  | .initializing _ _ => 1
  | _ => 0

def partNumbers (buffers : List (S3WriteBuffer β)) : List Nat := buffers.map (·.partNo)

/-- Every part number in use: of the threads, of the buffer in hand, of the map. -/
def numbers (s : Upload β) : List Nat :=
  s.threads.map (·.partNo) ++ (partNumbers (held s.pc) ++ partNumbers s.writeBuffers)

/-- What the shared counters say about the threads while no error was pushed. -/
structure Accounted (s : Upload β) : Prop where
  inProgress : s.uploadsInProgress = s.threads.countP running + slots s.pc
  uploaded : s.partsUploaded = s.threads.countP counted
  failing : ∀ t ∈ s.threads, t.failed → t.stage = .pushingError
  inserting : ∀ t ∈ s.threads, ∀ etag, t.stage = .insertingEtag etag → t.etag = some etag
  etags : ∀ t ∈ s.threads, tagged t → t.etag.isSome ∧ s.partEtags t.partNo = t.etag
  owned : ∀ k, s.partEtags k ≠ none → ∃ t ∈ s.threads, t.partNo = k ∧ tagged t

theorem Accounted.of_same {s s' : Upload β} (hs : Accounted s)
    (hthreads : s'.threads = s.threads)
    (hprogress : s'.uploadsInProgress + slots s.pc = s.uploadsInProgress + slots s'.pc)
    (huploaded : s'.partsUploaded = s.partsUploaded)
    (hetags : s'.partEtags = s.partEtags) : Accounted s' := by
  refine ⟨?_, ?_, ?_, ?_, ?_, ?_⟩
  · rw [hthreads]
    have hbefore := hs.inProgress
    omega
  · rw [hthreads, huploaded]
    exact hs.uploaded
  · rw [hthreads]
    exact hs.failing
  · rw [hthreads]
    exact hs.inserting
  · rw [hthreads, hetags]
    exact hs.etags
  · rw [hthreads, hetags]
    exact hs.owned

theorem length_numbers (s : Upload β) :
    (numbers s).length =
      s.threads.length + ((held s.pc).length + s.writeBuffers.length) := by
  simp [numbers, partNumbers]

theorem nodup_threads {s : Upload β} (hnumbered : Numbered (numbers s)) :
    (s.threads.map (·.partNo)).Nodup :=
  (List.nodup_append.mp hnumbered.nodup).1

theorem thread_eq_of_partNo {s : Upload β} (hnumbered : Numbered (numbers s))
    {t t' : UploadThread β} (ht : t ∈ s.threads) (ht' : t' ∈ s.threads)
    (hpartNo : t.partNo = t'.partNo) : t = t' :=
  List.inj_on_of_nodup_map (nodup_threads hnumbered) ht ht' hpartNo

theorem forall_mem_setThread {s : Upload β} {k : Nat} {t' : UploadThread β}
    {P : UploadThread β → Prop} (hothers : ∀ u ∈ s.threads, P u) (hself : P t') :
    ∀ u ∈ (setThread s k t').threads, P u := by
  intro u hu
  rcases List.mem_or_eq_of_mem_set hu with hbefore | rfl
  · exact hothers u hbefore
  · exact hself

theorem exists_mem_setThread {s : Upload β} {k : Nat} {t t' : UploadThread β}
    {P : UploadThread β → Prop} (ht : s.threads[k]? = some t) (hself : P t → P t')
    (hbefore : ∃ u ∈ s.threads, P u) : ∃ u ∈ (setThread s k t').threads, P u := by
  obtain ⟨u, hu, hP⟩ := hbefore
  have hset : u = t ∨ u ∈ s.threads.set k t' := mem_set_of_mem ht hu
  rcases hset with rfl | hu'
  · exact ⟨t', mem_set_self ht, hself hP⟩
  · exact ⟨u, hu', hP⟩

theorem Accounted.moveOn {s s' : Upload β} {k : Nat} {t : UploadThread β}
    (hs : Accounted s) (ht : s.threads[k]? = some t) (t' : UploadThread β)
    (hthreads : s'.threads = s.threads.set k t') (hpc : s'.pc = s.pc)
    (hpartEtags : s'.partEtags = s.partEtags)
    (hrunning : s'.uploadsInProgress + (if running t then 1 else 0) =
      s.uploadsInProgress + if running t' then 1 else 0)
    (hcounted : s'.partsUploaded + (if counted t then 1 else 0) =
      s.partsUploaded + if counted t' then 1 else 0)
    (htagged : tagged t' = tagged t) (hpartNo : t'.partNo = t.partNo)
    (hfailing : t'.failed → t'.stage = .pushingError)
    (hinserting : ∀ etag, t'.stage = .insertingEtag etag → t'.etag = some etag)
    (hetag : tagged t → t'.etag = t.etag) : Accounted s' := by
  have hmem : t ∈ s.threads := List.mem_of_getElem? ht
  refine ⟨?_, ?_, ?_, ?_, ?_, ?_⟩
  · have hcount := countP_set_add running t' ht
    have hbefore := hs.inProgress
    rw [hthreads, hpc]
    omega
  · have hcount := countP_set_add counted t' ht
    have hbefore := hs.uploaded
    rw [hthreads]
    omega
  · rw [hthreads]
    exact forall_mem_setThread hs.failing hfailing
  · rw [hthreads]
    exact forall_mem_setThread hs.inserting hinserting
  · rw [hthreads, hpartEtags]
    apply forall_mem_setThread hs.etags
    intro htag
    rw [htagged] at htag
    rw [hpartNo, hetag htag]
    exact hs.etags t hmem htag
  · intro n hn
    rw [hpartEtags] at hn
    rw [hthreads]
    apply exists_mem_setThread ht _ (hs.owned n hn)
    rintro ⟨hnumber, htag⟩
    exact ⟨hpartNo.trans hnumber, htagged.trans htag⟩

theorem Accounted.insertEtag {s : Upload β} {k : Nat} {t : UploadThread β} {etag : Bytes}
    (hs : Accounted s) (hnumbered : Numbered (numbers s)) (ht : s.threads[k]? = some t)
    (hstage : t.stage = .insertingEtag etag) :
    s.partEtags t.partNo = none ∧
      Accounted (setThread
        { s with partEtags := Function.update s.partEtags t.partNo (some etag) } k
        { t with stage := .counting }) := by
  have hmem : t ∈ s.threads := List.mem_of_getElem? ht
  have hfailed : t.failed = false := by
    by_contra hfailed
    have hpushing := hs.failing t hmem (by simpa using hfailed)
    rw [hstage] at hpushing
    cases hpushing
  have huntagged : tagged t = false := by
    simp [tagged, counted, hstage]
  -- the part number belongs to this thread alone, and it has not inserted yet
  have hfresh : ∀ u ∈ s.threads, tagged u → u.partNo ≠ t.partNo := by
    intro u hu htag hpartNo
    rw [thread_eq_of_partNo hnumbered hu hmem hpartNo, huntagged] at htag
    cases htag
  refine ⟨?_, ?_, ?_, ?_, ?_, ?_, ?_⟩
  · by_contra hsome
    obtain ⟨u, hu, hpartNo, htag⟩ := hs.owned t.partNo hsome
    exact hfresh u hu htag hpartNo
  · have hcount := countP_set_add running { t with stage := .counting } ht
    simp only [running, hstage] at hcount
    have hbefore := hs.inProgress
    simp only [setThread]
    simpa [running, hbefore] using hcount.symm
  · have hcount := countP_set_add counted { t with stage := .counting } ht
    simp only [counted, hstage] at hcount
    have hbefore := hs.uploaded
    simp only [setThread]
    simpa [counted, hbefore] using hcount.symm
  · apply forall_mem_setThread hs.failing
    intro hfailed'
    rw [hfailed] at hfailed'
    cases hfailed'
  · exact forall_mem_setThread hs.inserting nofun
  · have hinserted := hs.inserting t hmem etag hstage
    apply forall_mem_setThread
    · intro u hu htag
      simp only [setThread]
      rw [Function.update_of_ne (hfresh u hu htag)]
      exact hs.etags u hu htag
    · intro _
      simp [setThread, hinserted]
  · intro n hn
    by_cases hnumber : n = t.partNo
    · exact ⟨_, mem_set_self ht, hnumber.symm, by simp [tagged]⟩
    · simp only [setThread, Function.update_of_ne hnumber] at hn
      obtain ⟨u, hu, hpartNo, htag⟩ := hs.owned n hn
      have hset : u = t ∨ u ∈ s.threads.set k { t with stage := .counting } :=
        mem_set_of_mem ht hu
      rcases hset with rfl | hu'
      · exact absurd hpartNo.symm hnumber
      · exact ⟨u, hu', hpartNo, htag⟩

theorem Accounted.not_failed {s : Upload β} {t : UploadThread β} (hs : Accounted s)
    (ht : t ∈ s.threads) (hstage : t.stage ≠ .pushingError) : t.failed = false := by
  by_contra hfailed
  exact hstage (hs.failing t ht (by simpa using hfailed))

/-- The threads are fewer than a 16-bit counter can hold. -/
def Few (s : Upload β) : Prop := (numbers s).length < uint16Limit

theorem countP_lt_of_few {s : Upload β} (hfew : Few s) (p : UploadThread β → Bool)
    {t : UploadThread β} (ht : t ∈ s.threads) (hp : p t = false) :
    s.threads.countP p + 1 < uint16Limit := by
  have hlt : s.threads.countP p < s.threads.length := by
    apply Nat.lt_of_le_of_ne List.countP_le_length
    intro hall
    rw [List.countP_eq_length.mp hall t ht] at hp
    cases hp
  unfold Few at hfew
  rw [length_numbers] at hfew
  omega

theorem Accounted.partUploaded {s s' : Upload β} {k : Nat} {reply : PartReply}
    (hs : Accounted s) (hstep : partUploaded s k reply = some s') : Accounted s' := by
  unfold S3MultiPartUpload.partUploaded at hstep
  split at hstep
  · cases hstep
  · rename_i t ht
    have hmem : t ∈ s.threads := List.mem_of_getElem? ht
    split at hstep
    · cases hstep
    · rename_i hstage
      rw [ne_eq, not_not] at hstage
      have hfailed := hs.not_failed hmem (by simp [hstage])
      cases reply with
      | uploaded etag =>
          cases hstep
          apply hs.moveOn ht { t with stage := .insertingEtag etag, etag := some etag }
          all_goals simp [setThread, storePart, running, counted, tagged, hstage, hfailed]
      | failed stored =>
          cases stored with
          | _ =>
              cases hstep
              apply hs.moveOn ht { t with stage := .pushingError, failed := true }
              all_goals simp [setThread, storePart, running, counted, tagged, hstage]

theorem Accounted.threadStep {s s' : Upload β} {k : Nat} (hs : Accounted s)
    (hnumbered : Numbered (numbers s)) (hfew : Few s) (hstep : threadStep s k = some s')
    (herror : s'.hasError = false) : Accounted s' := by
  unfold S3MultiPartUpload.threadStep at hstep
  split at hstep
  · cases hstep
  · rename_i t ht
    have hmem : t ∈ s.threads := List.mem_of_getElem? ht
    simp only at hstep
    split at hstep
    · cases hstep
    · rename_i etag hstage
      obtain ⟨hnone, hinserted⟩ := hs.insertEtag hnumbered ht hstage
      cases hstep
      simpa [hnone] using hinserted
    · rename_i hstage
      have hfailed := hs.not_failed hmem (by simp [hstage])
      have hlt := countP_lt_of_few hfew counted hmem (by simp [counted, hstage])
      rw [← hs.uploaded] at hlt
      cases hstep
      apply hs.moveOn ht { t with stage := .notifying }
      all_goals simp [setThread, running, counted, tagged, hstage, hfailed, Nat.mod_eq_of_lt hlt]
    · cases hstep
      cases herror
    · rename_i hstage
      have hfailed := hs.not_failed hmem (by simp [hstage])
      have hpositive : 0 < s.threads.countP running :=
        List.countP_pos_iff.mpr ⟨t, hmem, by simp [running, hstage]⟩
      have hprogress := hs.inProgress
      split at hstep
      · omega
      · cases hstep
        apply hs.moveOn ht { t with stage := .finished }
        all_goals
          simp [setThread, notifyUploadsInProgress, running, counted, tagged, hstage, hfailed]
        omega
    · cases hstep

theorem Accounted.spawn {s s' : Upload β} {t : UploadThread β} (hs : Accounted s)
    (hthreads : s'.threads = s.threads ++ [t]) (hstage : t.stage = .putting)
    (hfailed : t.failed = false)
    (hprogress : s'.uploadsInProgress + slots s.pc = s.uploadsInProgress + slots s'.pc + 1)
    (huploaded : s'.partsUploaded = s.partsUploaded)
    (hetags : s'.partEtags = s.partEtags) : Accounted s' := by
  have hsame : ∀ {P : UploadThread β → Prop}, (∀ u ∈ s.threads, P u) → P t →
      ∀ u ∈ s'.threads, P u := by
    intro P hothers hself u hu
    rw [hthreads, List.mem_append, List.mem_singleton] at hu
    rcases hu with hbefore | rfl
    · exact hothers u hbefore
    · exact hself
  refine ⟨?_, ?_, ?_, ?_, ?_, ?_⟩
  · have hbefore := hs.inProgress
    rw [hthreads, List.countP_append]
    have hnew : List.countP running [t] = 1 := by
      simp [running, hstage]
    omega
  · rw [hthreads, List.countP_append, huploaded, hs.uploaded]
    simp [counted, hstage]
  · apply hsame hs.failing
    simp [hfailed]
  · apply hsame hs.inserting
    simp [hstage]
  · rw [hetags]
    apply hsame hs.etags
    simp [tagged, counted, hstage]
  · intro n hn
    rw [hetags] at hn
    obtain ⟨u, hu, howner⟩ := hs.owned n hn
    exact ⟨u, by simp [hthreads, hu], howner⟩

theorem mem_eraseBuffer {buffers : List (S3WriteBuffer β)} {partNo : Nat}
    {b : S3WriteBuffer β} (hb : b ∈ eraseBuffer buffers partNo) :
    b ∈ buffers ∧ b.partNo ≠ partNo := by
  simpa [eraseBuffer] using hb

theorem partNumbers_eraseBuffer (buffers : List (S3WriteBuffer β)) (partNo : Nat) :
    partNumbers (eraseBuffer buffers partNo) =
      (partNumbers buffers).filter (· ≠ partNo) := by
  simp [partNumbers, eraseBuffer, List.filter_map, Function.comp_def]

theorem eraseBuffer_of_not_mem {buffers : List (S3WriteBuffer β)} {partNo : Nat}
    (hnot : partNo ∉ partNumbers buffers) : eraseBuffer buffers partNo = buffers := by
  unfold eraseBuffer
  rw [List.filter_eq_self]
  intro b hb
  simp only [ne_eq, decide_eq_true_eq]
  rintro rfl
  exact hnot (List.mem_map.mpr ⟨b, hb, rfl⟩)

theorem perm_eraseBuffer {buffers : List (S3WriteBuffer β)} {partNo : Nat}
    (hnodup : (partNumbers buffers).Nodup) (hmem : partNo ∈ partNumbers buffers) :
    (partNumbers buffers).Perm (partNo :: partNumbers (eraseBuffer buffers partNo)) := by
  have herase := hnodup.erase_eq_filter partNo
  have hfilter : (partNumbers buffers).filter (· ≠ partNo) =
      (partNumbers buffers).erase partNo := by
    rw [herase]
    apply List.filter_congr
    intro k _
    by_cases hk : k = partNo
    · simp [hk]
    · simp [hk]
  rw [partNumbers_eraseBuffer, hfilter]
  exact List.perm_cons_erase hmem

theorem partNumbers_putBuffer (buffers : List (S3WriteBuffer β)) (b : S3WriteBuffer β) :
    partNumbers (putBuffer buffers b) =
      b.partNo :: partNumbers (eraseBuffer buffers b.partNo) :=
  rfl

theorem findBuffer_eq_some {buffers : List (S3WriteBuffer β)} {partNo : Nat}
    {b : S3WriteBuffer β} (hfind : findBuffer buffers partNo = some b) :
    b ∈ buffers ∧ b.partNo = partNo := by
  unfold findBuffer at hfind
  exact ⟨List.mem_of_find?_eq_some hfind, by simpa using List.find?_some hfind⟩

theorem findBuffer_eq_none {buffers : List (S3WriteBuffer β)} {partNo : Nat}
    (hfind : findBuffer buffers partNo = none) : partNo ∉ partNumbers buffers := by
  intro hmem
  obtain ⟨b, hb, hpartNo⟩ := List.mem_map.mp hmem
  have hnone := List.find?_eq_none.mp hfind b hb
  simp [hpartNo] at hnone

/-- The part that `file_offset` lies in. -/
def currentPart (c : S3ConfigParams) (s : Upload β) : Nat := s.fileOffset / c.partSize

/-- A buffer of the map, while no error was pushed. -/
structure Ready (c : S3ConfigParams) (b : S3WriteBuffer β) : Prop where
  start : b.bufferStart = b.partNo * c.partSize
  nonempty : 0 < b.idx
  waiting : b.uploading = false

/-- Between two chunks of `Write`: the numbers run up to the current part, which
is in use exactly if the map has its buffer. -/
structure AtOffset (c : S3ConfigParams) (s : Upload β) : Prop where
  count : (numbers s).length =
    currentPart c s + if currentPart c s ∈ partNumbers s.writeBuffers then 1 else 0
  behind : ∀ b ∈ s.writeBuffers, b.partNo = currentPart c s →
    currentPart c s * c.partSize + b.idx ≤ s.fileOffset

/-- `FlushAllBuffers` will come to every buffer of the map. -/
structure Flushing (c : S3ConfigParams) (s : Upload β) (toFlush : List Nat) : Prop where
  initialized : s.initializedMultipartUpload
  passed : currentPart c s ≤ (numbers s).length
  covers : ∀ b ∈ s.writeBuffers, b.partNo ∈ toFlush

/-- `FlushBuffer` has taken the buffer of the current part, which is full. -/
structure FullPart (c : S3ConfigParams) (s : Upload β) (b : S3WriteBuffer β)
    (bytesToWrite : Nat) : Prop where
  current : b.partNo = currentPart c s
  count : (numbers s).length = currentPart c s + 1
  reached : s.fileOffset + bytesToWrite = (currentPart c s + 1) * c.partSize

/-- Where `FlushBuffer` stands with the buffer in hand. -/
def InHand (c : S3ConfigParams) (s : Upload β) (b : S3WriteBuffer β) : Caller β → Prop
  | .write _ _ _ bytesToWrite => FullPart c s b bytesToWrite
  | .flushAll toFlush => Flushing c s toFlush

def Position (c : S3ConfigParams) (s : Upload β) : Prop :=
  match s.pc with
  | .idle | .writing _ _ _ | .uploadingSingle _ => AtOffset c s
  | .initializingAll toFlush =>
      AtOffset c s ∧ ∀ b ∈ s.writeBuffers, b.partNo ∈ toFlush
  | .waitingForSlot b caller => InHand c s b caller
  | .initializing b (.write _ _ _ bytesToWrite) => FullPart c s b bytesToWrite
  | .initializing _ (.flushAll _) => False
  | .flushingAll toFlush => Flushing c s toFlush
  | .waitingForUploads | .flushed => Flushing c s []
  | .completing _ _ | .terminated => True

/-- The invariant of an upload without an error and not yet finalized. -/
structure Live (c : S3ConfigParams) (s : Upload β) : Prop where
  accounted : Accounted s
  numbered : Numbered (numbers s)
  few : Few s
  ready : ∀ b ∈ s.writeBuffers, Ready c b
  position : Position c s

theorem Live.nodup_buffers {s : Upload β} (hs : Live c s) :
    (partNumbers s.writeBuffers).Nodup :=
  (List.nodup_append.mp (List.nodup_append.mp hs.numbered.nodup).2.1).2.1

theorem AtOffset.of_same {s s' : Upload β} (hs : AtOffset c s)
    (hnumbers : numbers s' = numbers s) (hoffset : s'.fileOffset = s.fileOffset)
    (hbuffers : s'.writeBuffers = s.writeBuffers) : AtOffset c s' := by
  refine ⟨?_, ?_⟩
  · rw [hnumbers, hbuffers, currentPart, hoffset]
    exact hs.count
  · rw [hbuffers, currentPart, hoffset]
    exact hs.behind

theorem Live.moveTo {s s' : Upload β} (hs : Live c s) (hthreads : s'.threads = s.threads)
    (hbuffers : s'.writeBuffers = s.writeBuffers) (hheld : held s'.pc = held s.pc)
    (hprogress : s'.uploadsInProgress + slots s.pc = s.uploadsInProgress + slots s'.pc)
    (huploaded : s'.partsUploaded = s.partsUploaded) (hetags : s'.partEtags = s.partEtags)
    (hposition : numbers s' = numbers s → Position c s') : Live c s' := by
  have hnumbers : numbers s' = numbers s := by
    unfold numbers
    rw [hthreads, hbuffers, hheld]
  refine ⟨hs.accounted.of_same hthreads hprogress huploaded hetags, ?_, ?_, ?_,
    hposition hnumbers⟩
  · rw [hnumbers]
    exact hs.numbered
  · unfold Few
    rw [hnumbers]
    exact hs.few
  · rw [hbuffers]
    exact hs.ready

theorem Live.write {s : Upload β} (hs : Live c s) (hpc : s.pc = .idle) (location : Nat)
    (data : List β) : Live c { s with pc := .writing location data 0 } := by
  have hoffset : AtOffset c s := by
    simpa [Position, hpc] using hs.position
  refine hs.moveTo rfl rfl (by simp [held, hpc]) (by simp [slots, hpc]) rfl rfl ?_
  intro hnumbers
  exact hoffset.of_same hnumbers rfl rfl

theorem getBuffer_current {s : Upload β} (hs : Live c s) (hoffset : AtOffset c s) :
    let b := getBuffer c s (currentPart c s)
    b.partNo = currentPart c s ∧ b.bufferStart = currentPart c s * c.partSize ∧
      b.uploading = false ∧ currentPart c s * c.partSize + b.idx ≤ s.fileOffset := by
  have hle : currentPart c s * c.partSize ≤ s.fileOffset := Nat.div_mul_le_self _ _
  unfold getBuffer
  cases hfind : findBuffer s.writeBuffers (currentPart c s) with
  | none => exact ⟨rfl, rfl, rfl, hle⟩
  | some b =>
      obtain ⟨hmem, hpartNo⟩ := findBuffer_eq_some hfind
      have hready := hs.ready b hmem
      refine ⟨hpartNo, ?_, hready.waiting, hoffset.behind b hmem hpartNo⟩
      rw [Option.getD_some, hready.start, hpartNo]

theorem perm_putBuffer {s : Upload β} (hs : Live c s) (hoffset : AtOffset c s)
    {b : S3WriteBuffer β} (hpartNo : b.partNo = currentPart c s) :
    let numbers' := s.threads.map (·.partNo) ++
      (partNumbers (held s.pc) ++ partNumbers (putBuffer s.writeBuffers b))
    Numbered numbers' ∧ numbers'.length = currentPart c s + 1 := by
  have hcount := hoffset.count
  rw [partNumbers_putBuffer, hpartNo]
  by_cases hmem : currentPart c s ∈ partNumbers s.writeBuffers
  · have hperm := (perm_eraseBuffer hs.nodup_buffers hmem).append_left (partNumbers (held s.pc))
    have hperm' := hperm.append_left (s.threads.map (·.partNo))
    refine ⟨hs.numbered.perm hperm', ?_⟩
    rw [← hperm'.length_eq]
    simpa [hmem, numbers] using hcount
  · rw [eraseBuffer_of_not_mem hmem]
    have hnext : currentPart c s = (numbers s).length := by
      simpa [hmem] using hcount.symm
    have hperm : (currentPart c s :: numbers s).Perm
        (s.threads.map (·.partNo) ++ (partNumbers (held s.pc) ++
          currentPart c s :: partNumbers s.writeBuffers)) := by
      simp only [numbers, ← List.append_assoc]
      exact List.perm_middle.symm
    refine ⟨(hs.numbered.cons hnext).perm hperm, ?_⟩
    rw [← hperm.length_eq, List.length_cons, ← hnext]

theorem accounted_of_idle {s s' : Upload β} (hs : Accounted s) (hslots : slots s.pc = 0)
    (hslots' : slots s'.pc = 0) (hthreads : s'.threads = s.threads)
    (hprogress : s'.uploadsInProgress = s.uploadsInProgress)
    (huploaded : s'.partsUploaded = s.partsUploaded)
    (hetags : s'.partEtags = s.partEtags) : Accounted s' :=
  hs.of_same hthreads (by omega) huploaded hetags

theorem Live.growPart {s s' : Upload β} {location : Nat} {data : List β}
    {bytesWritten bytesWritten' bytesToWrite : Nat} (hs : Live c s) (b : S3WriteBuffer β)
    (hpc : s.pc = .writing location data bytesWritten) (hoffset : AtOffset c s)
    (hfew : currentPart c s + 1 < uint16Limit) (hpartNo : b.partNo = currentPart c s)
    (hready : Ready c b)
    (hreached : s.fileOffset + bytesToWrite ≤ (currentPart c s + 1) * c.partSize)
    (hbehind : currentPart c s * c.partSize + b.idx ≤ s.fileOffset + bytesToWrite)
    (hthreads : s'.threads = s.threads) (hbuffers : s'.writeBuffers = putBuffer s.writeBuffers b)
    (hoffset' : s'.fileOffset = s.fileOffset + bytesToWrite)
    (hpc' : s'.pc = .writing location data bytesWritten')
    (hprogress : s'.uploadsInProgress = s.uploadsInProgress)
    (huploaded : s'.partsUploaded = s.partsUploaded)
    (hetags : s'.partEtags = s.partEtags) : Live c s' := by
  obtain ⟨hnumbered, hlength⟩ := perm_putBuffer hs hoffset hpartNo
  have hnumbers : numbers s' = s.threads.map (·.partNo) ++
      (partNumbers (held s.pc) ++ partNumbers (putBuffer s.writeBuffers b)) := by
    unfold numbers
    rw [hthreads, hbuffers, hpc', hpc]
    rfl
  rw [← hnumbers] at hnumbered hlength
  have hle : currentPart c s ≤ currentPart c s' := by
    unfold currentPart
    rw [hoffset']
    exact Nat.div_le_div_right (by omega)
  -- a chunk goes to the end of the current part at most
  have hle' : currentPart c s' ≤ currentPart c s + 1 := by
    apply Nat.div_le_of_le_mul
    rw [hoffset', Nat.mul_comm]
    exact hreached
  have hhead : currentPart c s ∈ partNumbers (putBuffer s.writeBuffers b) := by
    rw [partNumbers_putBuffer, hpartNo]
    exact List.mem_cons_self
  refine ⟨accounted_of_idle hs.accounted (by simp [slots, hpc]) (by simp [slots, hpc'])
    hthreads hprogress huploaded hetags, hnumbered, ?_, ?_, ?_⟩
  · unfold Few
    omega
  · rw [hbuffers]
    intro b' hb'
    rcases List.mem_cons.mp hb' with rfl | hb'
    · exact hready
    · exact hs.ready b' (mem_eraseBuffer hb').1
  · simp only [Position, hpc']
    refine ⟨?_, ?_⟩
    · rw [hlength, hbuffers]
      by_cases hsame : currentPart c s' = currentPart c s
      · rw [hsame, if_pos hhead]
      · have hnext : currentPart c s' ∉ partNumbers (putBuffer s.writeBuffers b) := by
          intro hmem
          have hlt := hnumbered.lt (currentPart c s') (by
            rw [hnumbers]
            simp [hmem])
          omega
        rw [if_neg hnext]
        omega
    · rw [hbuffers, hoffset']
      intro b' hb' hcurrent
      rcases List.mem_cons.mp hb' with rfl | hb'
      · have hsame : currentPart c s' = currentPart c s := hcurrent.symm.trans hpartNo
        rw [hsame]
        exact hbehind
      · obtain ⟨hmem, hne⟩ := mem_eraseBuffer hb'
        rw [hpartNo] at hne
        -- the part after the current one has no buffer yet
        have hlt := hnumbered.lt b'.partNo (by
          rw [hnumbers]
          simp only [List.mem_append]
          exact .inr (.inr (List.mem_map.mpr ⟨b', List.mem_cons_of_mem _ hb', rfl⟩)))
        omega

/-- A chunk that fills the current part: its buffer leaves the map. -/
theorem Live.fillPart {s s' : Upload β} {b : S3WriteBuffer β} {location : Nat}
    {data : List β} {bytesWritten bytesToWrite : Nat} (hs : Live c s)
    (hpc : s.pc = .writing location data bytesWritten) (hoffset : AtOffset c s)
    (hfew : currentPart c s + 1 < uint16Limit) (hpartNo : b.partNo = currentPart c s)
    (hreached : s.fileOffset + bytesToWrite = (currentPart c s + 1) * c.partSize)
    (hthreads : s'.threads = s.threads)
    (hbuffers : s'.writeBuffers = eraseBuffer s.writeBuffers (currentPart c s))
    (hoffset' : s'.fileOffset = s.fileOffset)
    (hpc' : s'.pc = .waitingForSlot b (.write location data bytesWritten bytesToWrite))
    (hprogress : s'.uploadsInProgress = s.uploadsInProgress)
    (huploaded : s'.partsUploaded = s.partsUploaded)
    (hetags : s'.partEtags = s.partEtags) : Live c s' := by
  obtain ⟨hnumbered, hlength⟩ := perm_putBuffer hs hoffset hpartNo
  have hnumbers : numbers s' = s.threads.map (·.partNo) ++
      (partNumbers (held s.pc) ++ partNumbers (putBuffer s.writeBuffers b)) := by
    unfold numbers
    rw [hthreads, hbuffers, hpc', hpc, partNumbers_putBuffer, hpartNo]
    simp [held, partNumbers, hpartNo]
  rw [← hnumbers] at hnumbered hlength
  have hsame : currentPart c s' = currentPart c s := by
    unfold currentPart
    rw [hoffset']
  refine ⟨accounted_of_idle hs.accounted (by simp [slots, hpc]) (by simp [slots, hpc'])
    hthreads hprogress huploaded hetags, hnumbered, ?_, ?_, ?_⟩
  · unfold Few
    omega
  · rw [hbuffers]
    intro b' hb'
    exact hs.ready b' (mem_eraseBuffer hb').1
  · simp only [Position, hpc']
    refine ⟨hpartNo.trans hsame.symm, ?_, ?_⟩
    · rw [hsame]
      exact hlength
    · rw [hsame, hoffset']
      exact hreached

theorem Live.writeChunk {s : Upload β} {location : Nat} {data : List β} {bytesWritten : Nat}
    (hs : Live c s) (hpartSize : 0 < c.partSize) (herror : s.hasError = false)
    (hpc : s.pc = .writing location data bytesWritten) (hmore : bytesWritten < data.length)
    (hfew : currentPart c s + 1 < uint16Limit) :
    Live c (S3MultiPartUpload.writeChunk c s location data bytesWritten) := by
  have hoffset : AtOffset c s := by
    simpa [Position, hpc] using hs.position
  have hheld : held s.pc = [] := by simp [held, hpc]
  unfold S3MultiPartUpload.writeChunk
  simp only
  split
  · refine hs.moveTo rfl rfl hheld.symm (by simp [slots, hpc]) rfl rfl ?_
    intro hnumbers
    exact hoffset.of_same hnumbers rfl rfl
  · rename_i hlocation
    rw [ne_eq, not_not] at hlocation
    have hpart : (location + bytesWritten) / c.partSize % uint16Limit = currentPart c s := by
      rw [hlocation]
      exact Nat.mod_eq_of_lt (by unfold currentPart at hfew; omega)
    obtain ⟨hpartNo, hstart, hwaiting, hbehind⟩ := getBuffer_current hs hoffset
    have hwithin : s.fileOffset < currentPart c s * c.partSize + c.partSize :=
      Nat.lt_div_mul_add hpartSize
    have hend : (currentPart c s + 1) * c.partSize =
        currentPart c s * c.partSize + c.partSize := by
      rw [Nat.add_mul, Nat.one_mul]
    rw [hpart, hlocation]
    generalize getBuffer c s (currentPart c s) = b at *
    have hidx : idxSub s.fileOffset (currentPart c s * c.partSize) =
        s.fileOffset - currentPart c s * c.partSize := idxSub_of_le (by omega)
    have hroom : idxSub c.partSize (s.fileOffset - currentPart c s * c.partSize) =
        c.partSize - (s.fileOffset - currentPart c s * c.partSize) := idxSub_of_le (by omega)
    rw [hstart, hidx, hroom]
    generalize hchunk : min (data.length - bytesWritten)
      (c.partSize - (s.fileOffset - currentPart c s * c.partSize)) = bytesToWrite
    have hnonempty : b.idx + bytesToWrite ≠ 0 := by omega
    split
    · simp only [flushBuffer, hnonempty, hwaiting, herror, Bool.false_eq_true, if_false]
      refine hs.fillPart hpc hoffset hfew ?_ ?_ rfl ?_ rfl rfl rfl rfl rfl
      · exact hpartNo
      · omega
      · simp [putBuffer, eraseBuffer, hpartNo]
    · refine hs.growPart { b with
          bufferStart := currentPart c s * c.partSize
          buffer := store b.buffer (s.fileOffset - currentPart c s * c.partSize)
            (slice data bytesWritten bytesToWrite)
          idx := b.idx + bytesToWrite }
        hpc hoffset hfew hpartNo ⟨?_, ?_, hwaiting⟩ ?_ ?_ rfl rfl rfl rfl rfl rfl rfl
      · rw [hpartNo]
      · simp only
        omega
      · omega
      · simp only
        omega

theorem FullPart.numbers_eq {s : Upload β} {b : S3WriteBuffer β} (hheld : held s.pc = [b]) :
    (b.partNo :: (s.threads.map (·.partNo) ++ partNumbers s.writeBuffers)).Perm (numbers s) := by
  unfold numbers
  rw [hheld]
  exact List.perm_middle.symm

theorem FullPart.currentPart_add {s : Upload β} {b : S3WriteBuffer β} {bytesToWrite : Nat}
    (hfull : FullPart c s b bytesToWrite) (hpartSize : 0 < c.partSize) :
    (s.fileOffset + bytesToWrite) / c.partSize = currentPart c s + 1 := by
  rw [hfull.reached, Nat.mul_div_cancel _ hpartSize]

theorem numbers_spawnUpload {s : Upload β} {b : S3WriteBuffer β} (hheld : held s.pc = [b])
    (caller : Caller β) : numbers (spawnUpload s b caller) = numbers s := by
  unfold numbers
  rw [hheld]
  cases caller with
  | _ => simp [spawnUpload, uploadThread, resume, held, partNumbers]

theorem Live.spawnUpload {s : Upload β} {b : S3WriteBuffer β} {caller : Caller β}
    (hnumbered : Numbered (numbers s)) (hfew : Few s)
    (hready : ∀ b ∈ s.writeBuffers, Ready c b) (hpartSize : 0 < c.partSize)
    (hheld : held s.pc = [b])
    (haccounted : Accounted (S3MultiPartUpload.spawnUpload s b caller))
    (hcaller : InHand c s b caller) :
    Live c (S3MultiPartUpload.spawnUpload s b caller) := by
  have hnumbers := numbers_spawnUpload hheld caller
  refine ⟨haccounted, ?_, ?_, ?_, ?_⟩
  · rw [hnumbers]
    exact hnumbered
  · unfold Few
    rw [hnumbers]
    exact hfew
  · cases caller with
    | _ => exact hready
  · cases caller with
    | write location data bytesWritten bytesToWrite =>
        have hfull : FullPart c s b bytesToWrite := hcaller
        have hcurrent : currentPart c (S3MultiPartUpload.spawnUpload s b
            (.write location data bytesWritten bytesToWrite)) = currentPart c s + 1 :=
          hfull.currentPart_add hpartSize
        have hlt : ∀ k ∈ partNumbers s.writeBuffers, k < currentPart c s + 1 := by
          intro k hk
          rw [← hfull.count]
          exact hnumbered.lt k (by simp [numbers, hk])
        refine ⟨?_, ?_⟩
        · have hnext : currentPart c s + 1 ∉ partNumbers s.writeBuffers := by
            intro hmem
            exact Nat.lt_irrefl _ (hlt _ hmem)
          rw [hnumbers, hcurrent, hfull.count]
          exact (Nat.add_zero _).symm.trans (congrArg _ (if_neg hnext).symm)
        · intro b' hb' hpartNo
          have hltb := hlt b'.partNo (List.mem_map.mpr ⟨b', hb', rfl⟩)
          omega
    | flushAll toFlush =>
        have hflushing : Flushing c s toFlush := hcaller
        refine ⟨hflushing.initialized, ?_, hflushing.covers⟩
        rw [hnumbers]
        exact hflushing.passed

theorem Live.acquireSlot {s : Upload β} {b : S3WriteBuffer β} {caller : Caller β}
    (hs : Live c s) (hpartSize : 0 < c.partSize) (hpc : s.pc = .waitingForSlot b caller) :
    Live c (S3MultiPartUpload.acquireSlot s b caller) := by
  have hheld : held s.pc = [b] := by simp [held, hpc]
  have hslots : slots s.pc = 0 := by simp [slots, hpc]
  have hprogress := hs.accounted.inProgress
  have hfew := hs.few
  have hlt : s.uploadsInProgress + 1 < uint16Limit := by
    have hle : s.threads.countP running ≤ s.threads.length := List.countP_le_length
    unfold Few at hfew
    rw [length_numbers, hheld, List.length_singleton] at hfew
    omega
  unfold S3MultiPartUpload.acquireSlot
  simp only [Nat.mod_eq_of_lt hlt]
  have hposition := hs.position
  unfold Position at hposition
  rw [hpc] at hposition
  split
  · refine Live.spawnUpload hs.numbered hs.few hs.ready hpartSize hheld ?_ ?_
    · cases caller with
      | _ =>
          refine hs.accounted.spawn rfl rfl rfl ?_ rfl rfl
          simp [S3MultiPartUpload.spawnUpload, resume, slots, hpc]
    · cases caller with
      | write location data bytesWritten bytesToWrite =>
          exact ⟨hposition.current, hposition.count, hposition.reached⟩
      | flushAll toFlush =>
          exact ⟨hposition.initialized, hposition.passed, hposition.covers⟩
  · rename_i huninitialized
    cases caller with
    | write location data bytesWritten bytesToWrite =>
        refine hs.moveTo rfl rfl hheld.symm ?_ rfl rfl ?_
        · simp [slots, hpc]
        · intro hnumbers
          exact ⟨hposition.current, hnumbers ▸ hposition.count, hposition.reached⟩
    | flushAll toFlush => exact absurd hposition.initialized huninitialized

theorem Live.initialized {s s' : Upload β} {ok : Bool} (hs : Live c s)
    (hpartSize : 0 < c.partSize) (hstep : initialized s ok = some s') : Live c s' := by
  unfold S3MultiPartUpload.initialized at hstep
  split at hstep
  · rename_i b caller hpc
    have hheld : held s.pc = [b] := by simp [held, hpc]
    have hposition := hs.position
    unfold Position at hposition
    rw [hpc] at hposition
    cases caller with
    | flushAll toFlush => exact absurd hposition id
    | write location data bytesWritten bytesToWrite =>
        cases ok with
        | true =>
            cases hstep
            refine Live.spawnUpload hs.numbered hs.few hs.ready hpartSize hheld ?_ ?_
            · refine hs.accounted.spawn rfl rfl rfl ?_ rfl rfl
              simp [S3MultiPartUpload.spawnUpload, resume, slots, hpc]
            · exact ⟨hposition.current, hposition.count, hposition.reached⟩
        | false =>
            cases hstep
            -- the buffer in hand is lost, and its part number with it
            have hperm := FullPart.numbers_eq hheld
            have hlength := hperm.length_eq
            rw [hposition.count, List.length_cons, Nat.add_right_cancel_iff] at hlength
            have hnumbered := (hs.numbered.perm hperm.symm).of_cons
              (hposition.current.trans hlength.symm)
            have hprogress := hs.accounted.inProgress
            have hfew := hs.few
            unfold Few at hfew
            rw [← hperm.length_eq, List.length_cons] at hfew
            refine ⟨?_, hnumbered, Nat.lt_of_succ_lt hfew, hs.ready, ?_, ?_⟩
            · refine hs.accounted.of_same rfl ?_ rfl rfl
              simp only [throwTo, notifyUploadsInProgress, slots, hpc] at hprogress ⊢
              omega
            · have hgone : currentPart c s ∉ partNumbers s.writeBuffers := by
                intro hmem
                have hnodup := (hs.numbered.perm hperm.symm).nodup
                rw [List.nodup_cons] at hnodup
                apply hnodup.1
                rw [hposition.current]
                exact List.mem_append_right _ hmem
              show _ = currentPart c s +
                if currentPart c s ∈ partNumbers s.writeBuffers then 1 else 0
              rw [if_neg hgone]
              exact hlength
            · intro b' hb' hpartNo
              have hlt := hnumbered.lt b'.partNo
                (List.mem_append_right _ (List.mem_map.mpr ⟨b', hb', rfl⟩))
              have hcurrent : b'.partNo = currentPart c s := hpartNo
              omega
  · rename_i toFlush hpc
    have hposition := hs.position
    unfold Position at hposition
    rw [hpc] at hposition
    obtain ⟨hoffset, hcovers⟩ := hposition
    split at hstep
    · cases hstep
      refine hs.moveTo rfl rfl (by simp [held, hpc]) (by simp [slots, hpc]) rfl rfl ?_
      intro hnumbers
      have hcount := hoffset.count
      refine ⟨rfl, ?_, hcovers⟩
      rw [hnumbers]
      exact Nat.le.intro hcount.symm
    · cases hstep
      refine hs.moveTo rfl rfl (by simp [held, hpc, endFinalize])
        (by simp [slots, hpc, endFinalize]) rfl rfl ?_
      intro hnumbers
      exact hoffset.of_same hnumbers rfl rfl
  · cases hstep

theorem perm_takeBuffer {s s' : Upload β} {b b' : S3WriteBuffer β} {toFlush : List Nat}
    (hs : Live c s) (hpc : s.pc = .flushingAll (b.partNo :: toFlush))
    (hb : b ∈ s.writeBuffers) (hpartNo : b'.partNo = b.partNo)
    (hthreads : s'.threads = s.threads)
    (hbuffers : s'.writeBuffers = eraseBuffer s.writeBuffers b.partNo)
    (hpc' : s'.pc = .waitingForSlot b' (.flushAll toFlush)) :
    (numbers s).Perm (numbers s') := by
  have hmem : b.partNo ∈ partNumbers s.writeBuffers := List.mem_map.mpr ⟨b, hb, rfl⟩
  unfold numbers
  rw [hthreads, hbuffers, hpc', hpc]
  apply List.Perm.append_left
  have hheld : partNumbers (held (Pc.waitingForSlot b' (.flushAll toFlush))) = [b.partNo] := by
    simp [held, partNumbers, hpartNo]
  rw [hheld]
  exact perm_eraseBuffer hs.nodup_buffers hmem

theorem Live.takeBuffer {s s' : Upload β} {b : S3WriteBuffer β} {toFlush : List Nat}
    (hs : Live c s) (b' : S3WriteBuffer β) (hpc : s.pc = .flushingAll (b.partNo :: toFlush))
    (hb : b ∈ s.writeBuffers) (hpartNo : b'.partNo = b.partNo)
    (hthreads : s'.threads = s.threads)
    (hbuffers : s'.writeBuffers = eraseBuffer s.writeBuffers b.partNo)
    (hoffset : s'.fileOffset = s.fileOffset)
    (hpc' : s'.pc = .waitingForSlot b' (.flushAll toFlush))
    (hinitialized : s'.initializedMultipartUpload = s.initializedMultipartUpload)
    (hprogress : s'.uploadsInProgress = s.uploadsInProgress)
    (huploaded : s'.partsUploaded = s.partsUploaded)
    (hetags : s'.partEtags = s.partEtags) : Live c s' := by
  have hflushing : Flushing c s (b.partNo :: toFlush) := by
    simpa [Position, hpc] using hs.position
  have hperm := perm_takeBuffer hs hpc hb hpartNo hthreads hbuffers hpc'
  refine ⟨accounted_of_idle hs.accounted (by simp [slots, hpc]) (by simp [slots, hpc'])
    hthreads hprogress huploaded hetags, hs.numbered.perm hperm, ?_, ?_, ?_⟩
  · unfold Few
    rw [← hperm.length_eq]
    exact hs.few
  · rw [hbuffers]
    intro b hb
    exact hs.ready b (mem_eraseBuffer hb).1
  · simp only [Position, hpc']
    refine ⟨hinitialized.trans hflushing.initialized, ?_, ?_⟩
    · rw [← hperm.length_eq, currentPart, hoffset]
      exact hflushing.passed
    · rw [hbuffers]
      intro b' hb'
      obtain ⟨hmem', hne⟩ := mem_eraseBuffer hb'
      exact (List.mem_cons.mp (hflushing.covers b' hmem')).resolve_left hne

theorem Flushing.of_same {s s' : Upload β} {toFlush : List Nat}
    (hs : Flushing c s toFlush) (hnumbers : numbers s' = numbers s)
    (hinitialized : s'.initializedMultipartUpload = s.initializedMultipartUpload)
    (hoffset : s'.fileOffset = s.fileOffset) (hbuffers : s'.writeBuffers = s.writeBuffers) :
    Flushing c s' toFlush := by
  refine ⟨hinitialized.trans hs.initialized, ?_, ?_⟩
  · rw [hnumbers, currentPart, hoffset]
    exact hs.passed
  · rw [hbuffers]
    exact hs.covers

theorem Live.flushNext {s : Upload β} {partNo : Nat} {toFlush : List Nat} (hs : Live c s)
    (herror : s.hasError = false) (hpc : s.pc = .flushingAll (partNo :: toFlush)) :
    ∃ s', writerStep c s = some s' ∧ Live c s' := by
  have hflushing : Flushing c s (partNo :: toFlush) := by
    simpa [Position, hpc] using hs.position
  unfold writerStep
  rw [hpc]
  simp only
  cases hfind : findBuffer s.writeBuffers partNo with
  | none =>
      refine ⟨_, rfl, hs.moveTo rfl rfl (by simp [held, hpc]) (by simp [slots, hpc]) rfl rfl ?_⟩
      intro hnumbers
      refine ⟨hflushing.initialized, ?_, ?_⟩
      · rw [hnumbers]
        exact hflushing.passed
      · intro b hb
        rcases List.mem_cons.mp (hflushing.covers b hb) with hpartNo | hcovered
        · exact absurd (List.mem_map.mpr ⟨b, hb, hpartNo⟩) (findBuffer_eq_none hfind)
        · exact hcovered
  | some b =>
      obtain ⟨hb, rfl⟩ := findBuffer_eq_some hfind
      have hready := hs.ready b hb
      have hnonempty : b.idx ≠ 0 := Nat.ne_of_gt hready.nonempty
      simp only [hready.waiting, Bool.false_eq_true, if_false]
      refine ⟨_, rfl, ?_⟩
      simp only [flushBuffer, hnonempty, hready.waiting, herror, Bool.false_eq_true, if_false]
      exact hs.takeBuffer { b with uploading := true } hpc hb rfl rfl rfl rfl rfl rfl rfl rfl rfl

theorem Live.waitForUploads {s : Upload β} (hs : Live c s) (hpc : s.pc = .flushingAll []) :
    Live c { s with pc := .waitingForUploads } := by
  have hflushing : Flushing c s [] := by
    simpa [Position, hpc] using hs.position
  refine hs.moveTo rfl rfl (by simp [held, hpc]) (by simp [slots, hpc]) rfl rfl ?_
  intro hnumbers
  exact hflushing.of_same hnumbers rfl rfl rfl

theorem Live.flushed {s : Upload β} (hs : Live c s) (hpc : s.pc = .waitingForUploads) :
    Live c { s with pc := .flushed } := by
  have hflushing : Flushing c s [] := by
    simpa [Position, hpc] using hs.position
  refine hs.moveTo rfl rfl (by simp [held, hpc]) (by simp [slots, hpc]) rfl rfl ?_
  intro hnumbers
  exact hflushing.of_same hnumbers rfl rfl rfl

theorem Live.finishWrite {s : Upload β} {location : Nat} {data : List β} {bytesWritten : Nat}
    (hs : Live c s) (hpc : s.pc = .writing location data bytesWritten) :
    Live c { s with pc := .idle, written := s.written ++ data } := by
  have hoffset : AtOffset c s := by
    simpa [Position, hpc] using hs.position
  refine hs.moveTo rfl rfl (by simp [held, hpc]) (by simp [slots, hpc]) rfl rfl ?_
  intro hnumbers
  exact hoffset.of_same hnumbers rfl rfl

theorem Flushing.no_buffers {s : Upload β} (hs : Flushing c s []) : s.writeBuffers = [] := by
  apply List.eq_nil_iff_forall_not_mem.mpr
  intro b hb
  cases hs.covers b hb

theorem numbers_of_flushed {s : Upload β} (hpc : s.pc = .flushed) (hflushing : Flushing c s []) :
    numbers s = s.threads.map (·.partNo) := by
  simp [numbers, hpc, held, partNumbers, hflushing.no_buffers]

theorem Live.nothingUploaded {s : Upload β} (hs : Live c s) (hpc : s.pc = .flushed)
    (hfinished : ∀ t ∈ s.threads, t.stage = .finished ∧ t.failed = false)
    (hnone : s.partsUploaded = 0) : s.threads = [] ∧ Live c (returnFinalize s) := by
  have hflushing : Flushing c s [] := by
    simpa [Position, hpc] using hs.position
  have hthreads : s.threads = [] := by
    have huploaded := hs.accounted.uploaded
    rw [hnone] at huploaded
    apply List.eq_nil_iff_forall_not_mem.mpr
    intro t ht
    have hnot := List.countP_eq_zero.mp huploaded.symm t ht
    obtain ⟨hstage, hfailed⟩ := hfinished t ht
    simp [counted, hstage, hfailed] at hnot
  refine ⟨hthreads, hs.moveTo rfl rfl (by simp [held, hpc, returnFinalize, endFinalize])
    (by simp [slots, hpc, returnFinalize, endFinalize]) rfl rfl ?_⟩
  intro hnumbers
  have hempty : numbers s = [] := by
    rw [numbers_of_flushed hpc hflushing, hthreads]
    rfl
  have hpassed := hflushing.passed
  rw [hempty, List.length_nil, Nat.le_zero] at hpassed
  have hcurrent : currentPart c (returnFinalize s) = 0 := hpassed
  have hbuffers : (returnFinalize s).writeBuffers = [] := hflushing.no_buffers
  refine ⟨?_, ?_⟩
  · rw [hnumbers, hempty, hcurrent, hbuffers]
    rfl
  · rw [hbuffers]
    nofun

theorem Live.finalize {s s' : Upload β} {toFlush : List Nat} (hs : Live c s)
    (hpc : s.pc = .idle) (hunfinalized : s.uploadFinalized = false)
    (hstep : finalize c s toFlush = some s') : Live c s' := by
  have hoffset : AtOffset c s := by
    simpa [Position, hpc] using hs.position
  unfold S3MultiPartUpload.finalize at hstep
  rw [if_neg (by simp [hunfinalized])] at hstep
  split at hstep
  · rename_i hperm
    have hcovers : ∀ b ∈ s.writeBuffers, b.partNo ∈ toFlush := by
      intro b hb
      exact hperm.mem_iff.mpr (List.mem_map.mpr ⟨b, hb, rfl⟩)
    have hinitializing : Live c { s with pc := .initializingAll toFlush } := by
      refine hs.moveTo rfl rfl (by simp [held, hpc]) (by simp [slots, hpc]) rfl rfl ?_
      intro hnumbers
      exact ⟨hoffset.of_same hnumbers rfl rfl, hcovers⟩
    split at hstep
    · rename_i hinitialized
      cases hstep
      refine hs.moveTo rfl rfl (by simp [held, hpc]) (by simp [slots, hpc]) rfl rfl ?_
      intro hnumbers
      refine ⟨hinitialized, ?_, hcovers⟩
      rw [hnumbers]
      exact Nat.le.intro hoffset.count.symm
    · split at hstep
      · split at hstep
        · cases hstep
          refine hs.moveTo rfl rfl (by simp [held, hpc]) (by simp [slots, hpc]) rfl rfl ?_
          intro hnumbers
          exact hoffset.of_same hnumbers rfl rfl
        · cases hstep
          exact hinitializing
      · cases hstep
        exact hinitializing
  · cases hstep

theorem Live.singleFailed {s : Upload β} {b : S3WriteBuffer β}
    (hs : Live c s) (hpc : s.pc = .uploadingSingle b) (object : Option (List (Option β))) :
    Live c (endFinalize { s with object }) := by
  have hoffset : AtOffset c s := by
    simpa [Position, hpc] using hs.position
  refine hs.moveTo rfl rfl (by simp [held, hpc, endFinalize])
    (by simp [slots, hpc, endFinalize]) rfl rfl ?_
  intro hnumbers
  exact hoffset.of_same hnumbers rfl rfl

/-- Fewer parts than a 16-bit index can number: every part that `Write` comes to
has a successor. -/
def FewParts (c : S3ConfigParams) (s : Upload β) : Label β → Prop
  | .writer => ∀ location data bytesWritten, s.pc = .writing location data bytesWritten →
      bytesWritten < data.length → currentPart c s + 1 < uint16Limit
  | _ => True

def AllSucceeded (s : Upload β) : Prop :=
  ∀ t ∈ s.threads, t.stage = .finished ∧ t.failed = false

theorem Live.writerStep {s s' : Upload β} (hs : Live c s) (hpartSize : 0 < c.partSize)
    (herror : s.hasError = false) (hfew : FewParts c s (.writer : Label β))
    (hflushed : s.pc = .flushed → AllSucceeded s)
    (hstep : writerStep c s = some s') (hunfinalized : s'.uploadFinalized = false) :
    Live c s' := by
  cases hpc : s.pc with
  | writing location data bytesWritten =>
      simp only [S3MultiPartUpload.writerStep, hpc] at hstep
      split at hstep
      · cases hstep
        rename_i hmore
        exact hs.writeChunk hpartSize herror hpc hmore (hfew _ _ _ hpc hmore)
      · cases hstep
        exact hs.finishWrite hpc
  | waitingForSlot b caller =>
      simp only [S3MultiPartUpload.writerStep, hpc] at hstep
      split at hstep
      · cases hstep
      cases hstep
      exact hs.acquireSlot hpartSize hpc
  | flushingAll toFlush =>
      cases toFlush with
      | nil =>
          simp only [S3MultiPartUpload.writerStep, hpc] at hstep
          cases hstep
          exact hs.waitForUploads hpc
      | cons partNo toFlush =>
          obtain ⟨s'', hnext, hlive⟩ := hs.flushNext herror hpc
          rw [hstep] at hnext
          cases hnext
          exact hlive
  | waitingForUploads =>
      simp only [S3MultiPartUpload.writerStep, hpc] at hstep
      split at hstep
      · cases hstep
      · rw [if_neg (by simp [herror])] at hstep
        cases hstep
        exact hs.flushed hpc
  | flushed =>
      simp only [S3MultiPartUpload.writerStep, hpc] at hstep
      split at hstep
      · cases hstep
        rename_i hnone
        exact (hs.nothingUploaded hpc (hflushed hpc) hnone).2
      · cases hstep
        unfold finalizeMultipartUpload at hunfinalized ⊢
        split
        · rename_i hfinalized
          rw [if_pos hfinalized] at hunfinalized
          exact absurd hfinalized (by simpa [returnFinalize, endFinalize] using hunfinalized)
        · rename_i hopen
          rw [if_neg hopen] at hunfinalized
          simp only at hunfinalized
          split at hunfinalized
          · cases hunfinalized
          · cases hunfinalized
  | idle | initializing b caller | initializingAll toFlush | uploadingSingle b
  | completing parts transientRetries | terminated =>
      simp [S3MultiPartUpload.writerStep, hpc] at hstep

/-- The steps that a thread has left. -/
def stageWork : Stage → Nat
  | .putting => 4
  | .insertingEtag _ => 3
  | .counting | .pushingError => 2
  | .notifying => 1
  | .finished => 0

/-- What an upload thread can do to the upload. -/
structure ThreadMove (s s' : Upload β) (k : Nat) (t t' : UploadThread β) : Prop where
  before : s.threads[k]? = some t
  unfinished : t.stage ≠ .finished
  partNo : t'.partNo = t.partNo
  body : t'.body = t.body
  early : t'.early = t.early
  threads : s'.threads = s.threads.set k t'
  moved : (s'.pc = s.pc ∧ stageWork t'.stage < stageWork t.stage ∧
      s'.uploadsInProgress + (if running t then 1 else 0) =
        s.uploadsInProgress + if running t' then 1 else 0) ∨
    (s.uploadsInProgress = 0 ∧ s'.uploadsInProgress = 0 ∧ t' = t ∧ s'.pc = .terminated)
  error : s.hasError → s'.hasError
  rest : s' = { s with
    threads := s'.threads
    pc := s'.pc
    partEtags := s'.partEtags
    partsUploaded := s'.partsUploaded
    uploadsInProgress := s'.uploadsInProgress
    hasError := s'.hasError
    parts := s'.parts }

theorem threadMove_of_threadStep {s s' : Upload β} {k : Nat}
    (hstep : threadStep s k = some s') : ∃ t t', ThreadMove s s' k t t' := by
  unfold threadStep at hstep
  split at hstep
  · cases hstep
  · rename_i t ht
    simp only at hstep
    split at hstep
    · cases hstep
    · rename_i hstage
      cases hstep
      refine ⟨t, { t with stage := .counting }, ht, by simp [hstage], rfl, rfl, rfl, rfl,
        .inl ⟨rfl, by simp [stageWork, hstage], ?_⟩, id, rfl⟩
      simp [setThread, running, hstage]
    · rename_i hstage
      cases hstep
      refine ⟨t, { t with stage := .notifying }, ht, by simp [hstage], rfl, rfl, rfl, rfl,
        .inl ⟨rfl, by simp [stageWork, hstage], ?_⟩, id, rfl⟩
      simp [setThread, running, hstage]
    · rename_i hstage
      cases hstep
      refine ⟨t, { t with stage := .notifying }, ht, by simp [hstage], rfl, rfl, rfl, rfl,
        .inl ⟨rfl, by simp [stageWork, hstage], ?_⟩, fun _ => rfl, rfl⟩
      simp [setThread, running, hstage]
    · rename_i hstage
      split at hstep
      · cases hstep
        rename_i hnone
        exact ⟨t, t, ht, by simp [hstage], rfl, rfl, rfl, (set_of_getElem? ht).symm,
          .inr ⟨hnone, hnone, rfl, rfl⟩, id, rfl⟩
      · cases hstep
        rename_i hsome
        refine ⟨t, { t with stage := .finished }, ht, by simp [hstage], rfl, rfl, rfl, rfl,
          .inl ⟨rfl, by simp [stageWork, hstage], ?_⟩, id, rfl⟩
        simp only [setThread, notifyUploadsInProgress, running, hstage]
        simp
        omega
    · cases hstep

theorem threadMove_of_partUploaded {s s' : Upload β} {k : Nat} {reply : PartReply}
    (hstep : partUploaded s k reply = some s') : ∃ t t', ThreadMove s s' k t t' := by
  unfold partUploaded at hstep
  split at hstep
  · cases hstep
  · rename_i t ht
    split at hstep
    · cases hstep
    · rename_i hstage
      rw [ne_eq, not_not] at hstage
      split at hstep
      · rename_i etag
        cases hstep
        refine ⟨t, { t with stage := .insertingEtag etag, etag := some etag }, ht,
          by simp [hstage], rfl, rfl, rfl, rfl, .inl ⟨rfl, by simp [stageWork, hstage], ?_⟩,
          id, rfl⟩
        simp [setThread, storePart, running, hstage]
      · rename_i stored
        cases stored with
        | _ =>
            cases hstep
            refine ⟨t, { t with stage := .pushingError, failed := true }, ht,
              by simp [hstage], rfl, rfl, rfl, rfl, .inl ⟨rfl, by simp [stageWork, hstage], ?_⟩,
              id, rfl⟩
            simp [setThread, storePart, running, hstage]

theorem ThreadMove.mem {s s' : Upload β} {k : Nat} {t t' : UploadThread β}
    (hmove : ThreadMove s s' k t t') : t ∈ s.threads :=
  List.mem_of_getElem? hmove.before

theorem ThreadMove.numbers {s s' : Upload β} {k : Nat} {t t' : UploadThread β}
    (hmove : ThreadMove s s' k t t') (hpc : s'.pc = s.pc) :
    UploadThreads.numbers s' = UploadThreads.numbers s := by
  have hbuffers : s'.writeBuffers = s.writeBuffers := by rw [hmove.rest]
  unfold UploadThreads.numbers
  rw [hbuffers, hpc, hmove.threads, map_set_of_eq _ hmove.before hmove.partNo]

/-- A thread that runs holds a slot, so that none finds the counter at zero. -/
theorem Live.pc_eq {s s' : Upload β} {k : Nat} {t t' : UploadThread β} (hs : Live c s)
    (hmove : ThreadMove s s' k t t') : s'.pc = s.pc := by
  have hpositive : 0 < s.threads.countP running :=
    List.countP_pos_iff.mpr ⟨t, hmove.mem, by simp [running, hmove.unfinished]⟩
  have hprogress := hs.accounted.inProgress
  rcases hmove.moved with ⟨hpc, -⟩ | ⟨hnone, -⟩
  · exact hpc
  · omega

theorem Live.threadMove {s s' : Upload β} {k : Nat} {t t' : UploadThread β} (hs : Live c s)
    (hmove : ThreadMove s s' k t t') (haccounted : Accounted s') : Live c s' := by
  have hpc := hs.pc_eq hmove
  have hnumbers := hmove.numbers hpc
  have hbuffers : s'.writeBuffers = s.writeBuffers := by rw [hmove.rest]
  have hoffset : s'.fileOffset = s.fileOffset := by rw [hmove.rest]
  have hinitialized : s'.initializedMultipartUpload = s.initializedMultipartUpload := by
    rw [hmove.rest]
  refine ⟨haccounted, ?_, ?_, ?_, ?_⟩
  · rw [hnumbers]
    exact hs.numbered
  · unfold Few
    rw [hnumbers]
    exact hs.few
  · rw [hbuffers]
    exact hs.ready
  · have hposition := hs.position
    unfold Position at hposition ⊢
    rw [hpc]
    have hsame : ∀ {toFlush}, Flushing c s toFlush → Flushing c s' toFlush :=
      fun hflushing => hflushing.of_same hnumbers hinitialized hoffset hbuffers
    have hfull : ∀ {b bytesToWrite}, FullPart c s b bytesToWrite →
        FullPart c s' b bytesToWrite := by
      intro b bytesToWrite hfull
      refine ⟨?_, ?_, ?_⟩
      · rw [hfull.current, currentPart, currentPart, hoffset]
      · rw [hnumbers, hfull.count, currentPart, currentPart, hoffset]
      · rw [hoffset, hfull.reached, currentPart, currentPart, hoffset]
    cases hcase : s.pc with
    | idle | writing location data bytesWritten | uploadingSingle b =>
        rw [hcase] at hposition
        exact hposition.of_same hnumbers hoffset hbuffers
    | initializingAll toFlush =>
        rw [hcase] at hposition
        refine ⟨hposition.1.of_same hnumbers hoffset hbuffers, ?_⟩
        rw [hbuffers]
        exact hposition.2
    | waitingForSlot b caller =>
        rw [hcase] at hposition
        cases caller with
        | write => exact hfull hposition
        | flushAll => exact hsame hposition
    | initializing b caller =>
        rw [hcase] at hposition
        cases caller with
        | write => exact hfull hposition
        | flushAll => exact hposition
    | flushingAll toFlush | waitingForUploads | flushed =>
        rw [hcase] at hposition
        exact hsame hposition
    | completing parts transientRetries | terminated => trivial

/-- What the claim of `FinalizeMultipartUpload` to be complete rests on when it
sends the list of parts. -/
structure CompleteSound (s : Upload β) (parts : List (Nat × Bytes)) : Prop where
  succeeded : AllSucceeded s
  noneInProgress : s.uploadsInProgress = 0
  ascending : parts.map Prod.fst = (List.range s.threads.length).map (· + 1)
  listed : ∀ t ∈ s.threads, ∃ etag, t.etag = some etag ∧ (t.partNo + 1, etag) ∈ parts
  answered : ∀ p ∈ parts, ∃ t ∈ s.threads, p.1 = t.partNo + 1 ∧ t.etag = some p.2

theorem Live.allSucceeded {s : Upload β} (hs : Live c s) (hnone : s.uploadsInProgress = 0) :
    AllSucceeded s := by
  have hprogress := hs.accounted.inProgress
  rw [hnone] at hprogress
  have hidle : s.threads.countP running = 0 := by omega
  intro t ht
  have hfinished : t.stage = .finished := by
    simpa [running] using List.countP_eq_zero.mp hidle t ht
  exact ⟨hfinished, hs.accounted.not_failed ht (by simp [hfinished])⟩

theorem Live.completeBody {s : Upload β} (hs : Live c s) (hpc : s.pc = .flushed)
    (hsucceeded : AllSucceeded s) :
    ∃ parts, completeBody s.partEtags s.partsUploaded = some parts ∧
      CompleteSound s parts := by
  have hflushing : Flushing c s [] := by
    simpa [Position, hpc] using hs.position
  have htagged : ∀ t ∈ s.threads, tagged t := by
    intro t ht
    obtain ⟨hstage, hfailed⟩ := hsucceeded t ht
    simp [tagged, counted, hstage, hfailed]
  have hcounted : s.partsUploaded = s.threads.length := by
    rw [hs.accounted.uploaded, List.countP_eq_length]
    intro t ht
    obtain ⟨hstage, hfailed⟩ := hsucceeded t ht
    simp [counted, hstage, hfailed]
  have hnumbers := numbers_of_flushed hpc hflushing
  have hnumbered := hs.numbered
  rw [hnumbers] at hnumbered
  have howner : ∀ i < s.threads.length, ∃ t ∈ s.threads, t.partNo = i := by
    intro i hi
    have hmem : i ∈ s.threads.map (·.partNo) := hnumbered.mem_iff.mpr (by simpa using hi)
    obtain ⟨t, ht, hpartNo⟩ := List.mem_map.mp hmem
    exact ⟨t, ht, hpartNo⟩
  have hetag : ∀ i ∈ List.range s.threads.length,
      (s.partEtags i).map (fun etag => (i + 1, etag)) =
        some (i + 1, (s.partEtags i).getD []) := by
    intro i hi
    obtain ⟨t, ht, rfl⟩ := howner i (List.mem_range.mp hi)
    obtain ⟨hsome, hstored⟩ := hs.accounted.etags t ht (htagged t ht)
    rw [hstored]
    obtain ⟨etag, hetag⟩ := Option.isSome_iff_exists.mp hsome
    rw [hetag]
    rfl
  have hbody : S3MultiPartUpload.completeBody s.partEtags s.partsUploaded =
      some ((List.range s.threads.length).map fun i => (i + 1, (s.partEtags i).getD [])) := by
    unfold S3MultiPartUpload.completeBody
    rw [hcounted]
    exact mapM_eq_some_map hetag
  refine ⟨_, hbody, hsucceeded, ?_, ?_, ?_, ?_⟩
  · have hprogress := hs.accounted.inProgress
    have hidle : s.threads.countP running = 0 := by
      rw [List.countP_eq_zero]
      intro t ht
      simp [running, (hsucceeded t ht).1]
    have hslots : slots s.pc = 0 := by simp [slots, hpc]
    omega
  · simp
  · intro t ht
    obtain ⟨hsome, hstored⟩ := hs.accounted.etags t ht (htagged t ht)
    obtain ⟨etag, hetag⟩ := Option.isSome_iff_exists.mp hsome
    have hlt : t.partNo < s.threads.length := by
      have hlt := hnumbered.lt t.partNo (List.mem_map.mpr ⟨t, ht, rfl⟩)
      simpa using hlt
    refine ⟨etag, hetag, List.mem_map.mpr ⟨t.partNo, List.mem_range.mpr hlt, ?_⟩⟩
    rw [hstored, hetag]
    rfl
  · intro p hp
    obtain ⟨i, hi, rfl⟩ := List.mem_map.mp hp
    obtain ⟨t, ht, rfl⟩ := howner i (List.mem_range.mp hi)
    obtain ⟨hsome, hstored⟩ := hs.accounted.etags t ht (htagged t ht)
    obtain ⟨etag, hetag⟩ := Option.isSome_iff_exists.mp hsome
    exact ⟨t, ht, rfl, by rw [hstored, hetag]; rfl⟩

def Completing (pc : Pc β) : Prop :=
    ∃ parts transientRetries, pc = .completing parts transientRetries

/-- The writer is within `Finalize`, before the list of parts is sent. -/
def Finalizing : Pc β → Prop
  | .initializingAll _ | .uploadingSingle _ | .flushingAll _ | .waitingForUploads | .flushed
  | .waitingForSlot _ (.flushAll _) | .initializing _ (.flushAll _) => True
  | _ => False

/-- No upload that started before the first `Finalize` was over has failed or is
still to fail. -/
def EarlySucceeded (s : Upload β) : Prop :=
  ∀ t ∈ s.threads, t.early → t.stage = .finished ∧ t.failed = false

/-- The upload is finalized, or a `Finalize` has returned normally. -/
def Settled (s : Upload β) : Prop := s.uploadFinalized ∨ s.commits ≠ []

structure UploadsSound (c : S3ConfigParams) (s : Upload β) : Prop where
  live : s.hasError = false → s.uploadFinalized = false → Live c s
  uninitialized : s.initializedMultipartUpload = false → s.threads = []
  finalizing : Finalizing s.pc → s.uploadFinalized = false
  single : ∀ b, s.pc = .uploadingSingle b → s.threads = []
  flushed : s.pc = .flushed → s.hasError = false ∧ AllSucceeded s
  completing : ∀ parts transientRetries, s.pc = .completing parts transientRetries →
    s.uploadFinalized ∧ CompleteSound s parts
  early : Settled s → EarlySucceeded s
  ended : Settled s → s.finalizeEnded ∨ Completing s.pc

theorem uploadsSound_init : UploadsSound c ({} : Upload β) := by
  refine ⟨fun _ _ => ?_, fun _ => rfl, nofun, nofun, nofun, nofun, ?_, ?_⟩
  · refine ⟨⟨rfl, rfl, nofun, nofun, nofun, fun k hk => absurd rfl hk⟩, numbered_nil,
      ?_, nofun, ?_⟩
    · show 0 < uint16Limit
      decide
    · refine ⟨?_, nofun⟩
      simp [numbers, held, partNumbers, currentPart]
  · rintro (hfinalized | hcommits)
    · cases hfinalized
    · exact absurd rfl hcommits
  · rintro (hfinalized | hcommits)
    · cases hfinalized
    · exact absurd rfl hcommits

/-- A step of the writer that starts no upload and commits nothing. -/
structure Quiet (s s' : Upload β) : Prop where
  threads : s'.threads = s.threads
  error : s'.hasError = s.hasError
  finalized : s'.uploadFinalized = s.uploadFinalized
  commits : s'.commits = s.commits
  initialized : s.initializedMultipartUpload → s'.initializedMultipartUpload
  ended : s.finalizeEnded → s'.finalizeEnded
  left : Completing s.pc → s'.finalizeEnded ∨ Completing s'.pc
  finalizing : Finalizing s'.pc → s.uploadFinalized = false
  single : ∀ b, s'.pc = .uploadingSingle b → s.threads = []
  flushed : s'.pc = .flushed → s.hasError = false ∧ AllSucceeded s
  completing : ∀ parts transientRetries, s'.pc = .completing parts transientRetries →
    s'.uploadFinalized ∧ CompleteSound s' parts

theorem Settled.of_quiet {s s' : Upload β} (hsettled : Settled s') (hquiet : Quiet s s') :
    Settled s := by
  unfold Settled at hsettled ⊢
  rwa [hquiet.finalized, hquiet.commits] at hsettled

theorem UploadsSound.quiet {s s' : Upload β} (hs : UploadsSound c s) (hquiet : Quiet s s')
    (hlive : s'.hasError = false → s'.uploadFinalized = false → Live c s') :
    UploadsSound c s' := by
  refine ⟨hlive, ?_, ?_, ?_, ?_, hquiet.completing, ?_, ?_⟩
  · intro huninitialized
    rw [hquiet.threads]
    apply hs.uninitialized
    by_contra hinitialized
    rw [hquiet.initialized (by simpa using hinitialized)] at huninitialized
    cases huninitialized
  · rw [hquiet.finalized]
    exact hquiet.finalizing
  · rw [hquiet.threads]
    exact hquiet.single
  · intro hpc
    unfold AllSucceeded
    rw [hquiet.error, hquiet.threads]
    exact hquiet.flushed hpc
  · intro hsettled
    unfold EarlySucceeded
    rw [hquiet.threads]
    exact hs.early (hsettled.of_quiet hquiet)
  · intro hsettled
    rcases hs.ended (hsettled.of_quiet hquiet) with hended | hcompleting
    · exact .inl (hquiet.ended hended)
    · exact hquiet.left hcompleting

/-- The places that say nothing about the threads. -/
def Plain : Pc β → Prop
  | .uploadingSingle _ | .flushed | .completing _ _ => False
  | _ => True

theorem Quiet.of_plain {s s' : Upload β} (hthreads : s'.threads = s.threads)
    (herror : s'.hasError = s.hasError) (hfinalized : s'.uploadFinalized = s.uploadFinalized)
    (hcommits : s'.commits = s.commits)
    (hinitialized : s.initializedMultipartUpload → s'.initializedMultipartUpload)
    (hended : s.finalizeEnded → s'.finalizeEnded)
    (hleft : ¬ Completing s.pc) (hplain : Plain s'.pc)
    (hfinalizing : Finalizing s'.pc → s.uploadFinalized = false) : Quiet s s' := by
  refine ⟨hthreads, herror, hfinalized, hcommits, hinitialized, hended,
    fun h => absurd h hleft, hfinalizing, ?_, ?_, ?_⟩
  all_goals
    intros
    rename_i hpc
    rw [hpc] at hplain
    exact absurd hplain id

theorem not_completing {s : Upload β} {pc : Pc β} (hpc : s.pc = pc)
    (hne : ∀ parts transientRetries, pc ≠ .completing parts transientRetries) :
    ¬ Completing s.pc := by
  rintro ⟨parts, transientRetries, hcompleting⟩
  exact hne parts transientRetries (hpc.symm.trans hcompleting)

theorem quiet_flushBuffer {s₀ s : Upload β} (b : S3WriteBuffer β) (caller : Caller β)
    (hthreads : s.threads = s₀.threads) (herror : s.hasError = s₀.hasError)
    (hfinalized : s.uploadFinalized = s₀.uploadFinalized) (hcommits : s.commits = s₀.commits)
    (hinitialized : s.initializedMultipartUpload = s₀.initializedMultipartUpload)
    (hended : s.finalizeEnded = s₀.finalizeEnded) (hleft : ¬ Completing s₀.pc)
    (hcaller : ∀ toFlush, caller = .flushAll toFlush → s₀.uploadFinalized = false) :
    Quiet s₀ (flushBuffer s b caller) := by
  have hstill : s₀.initializedMultipartUpload → s.initializedMultipartUpload := by
    rw [hinitialized]
    exact id
  have hover : s₀.finalizeEnded → s.finalizeEnded := by
    rw [hended]
    exact id
  have hresume : Quiet s₀ (resume s caller) := by
    cases caller with
    | write =>
        exact .of_plain hthreads herror hfinalized hcommits hstill hover hleft trivial nofun
    | flushAll toFlush =>
        exact .of_plain hthreads herror hfinalized hcommits hstill hover hleft trivial
          fun _ => hcaller toFlush rfl
  unfold flushBuffer
  split
  · exact hresume
  · split
    · exact hresume
    · simp only
      split
      · cases caller with
        | write =>
            exact .of_plain hthreads herror hfinalized hcommits hstill hover hleft trivial nofun
        | flushAll =>
            exact .of_plain hthreads herror hfinalized hcommits hstill (fun _ => rfl) hleft
              trivial nofun
      · refine .of_plain hthreads herror hfinalized hcommits hstill hover hleft trivial ?_
        cases caller with
        | write => exact nofun
        | flushAll toFlush => exact fun _ => hcaller toFlush rfl

theorem quiet_writeChunk {s : Upload β} {location : Nat} {data : List β} {bytesWritten : Nat}
    (hpc : s.pc = .writing location data bytesWritten) :
    Quiet s (writeChunk c s location data bytesWritten) := by
  have hleft : ¬ Completing s.pc := not_completing hpc nofun
  unfold writeChunk
  simp only
  split
  · exact .of_plain rfl rfl rfl rfl id id hleft trivial nofun
  · split
    · exact quiet_flushBuffer _ _ rfl rfl rfl rfl rfl rfl hleft nofun
    · exact .of_plain rfl rfl rfl rfl id id hleft trivial nofun

theorem earlySucceeded_append {s : Upload β} {t : UploadThread β} (hs : UploadsSound c s)
    (hsettled : Settled s) (hleft : ¬ Completing s.pc) (hearly : t.early = !s.finalizeEnded) :
    ∀ u ∈ s.threads ++ [t], u.early → u.stage = .finished ∧ u.failed = false := by
  intro u hu huearly
  rcases List.mem_append.mp hu with hbefore | hnew
  · exact hs.early hsettled u hbefore huearly
  · rw [List.mem_singleton] at hnew
    subst hnew
    have hended := (hs.ended hsettled).resolve_right hleft
    rw [hearly, hended] at huearly
    cases huearly

theorem UploadsSound.spawnUpload {s₀ s : Upload β} {b : S3WriteBuffer β} {caller : Caller β}
    (hs : UploadsSound c s₀) (hthreads : s.threads = s₀.threads)
    (hfinalized : s.uploadFinalized = s₀.uploadFinalized) (hcommits : s.commits = s₀.commits)
    (hended : s.finalizeEnded = s₀.finalizeEnded) (hinitialized : s.initializedMultipartUpload)
    (hleft : ¬ Completing s₀.pc)
    (hcaller : ∀ toFlush, caller = .flushAll toFlush → s₀.uploadFinalized = false)
    (hlive : s.hasError = false → s.uploadFinalized = false →
      Live c (S3MultiPartUpload.spawnUpload s b caller)) :
    UploadsSound c (S3MultiPartUpload.spawnUpload s b caller) := by
  have hsame : ∀ {P : Upload β → Prop},
      P { s with
        threads := s.threads ++ [uploadThread s b]
        accesses := s.accesses ++ [(0, b.idx)]
        fileOffset := (S3MultiPartUpload.spawnUpload s b caller).fileOffset
        pc := (S3MultiPartUpload.spawnUpload s b caller).pc } →
      P (S3MultiPartUpload.spawnUpload s b caller) := by
    intro P hP
    cases caller with
    | _ => exact hP
  have hpc : Plain (S3MultiPartUpload.spawnUpload s b caller).pc := by
    cases caller with
    | _ => trivial
  apply hsame
  refine ⟨?_, ?_, ?_, ?_, ?_, ?_, ?_, ?_⟩
  · intro herror hunfinalized
    cases caller with
    | _ => exact hlive herror hunfinalized
  · intro huninitialized
    rw [hinitialized] at huninitialized
    cases huninitialized
  · intro hfinalizing
    cases caller with
    | write => exact absurd hfinalizing id
    | flushAll toFlush => exact hfinalized.trans (hcaller toFlush rfl)
  · intro b' hpc'
    rw [hpc'] at hpc
    exact absurd hpc id
  · intro hpc'
    rw [hpc'] at hpc
    exact absurd hpc id
  · intro parts transientRetries hpc'
    rw [hpc'] at hpc
    exact absurd hpc id
  · intro hsettled
    have hsettled₀ : Settled s₀ := by
      unfold Settled at hsettled ⊢
      rwa [← hfinalized, ← hcommits]
    unfold EarlySucceeded
    simp only [hthreads]
    apply earlySucceeded_append hs hsettled₀ hleft
    simp only [uploadThread, hended]
  · intro hsettled
    left
    have hsettled₀ : Settled s₀ := by
      unfold Settled at hsettled ⊢
      rwa [← hfinalized, ← hcommits]
    exact hended.trans ((hs.ended hsettled₀).resolve_right hleft)

theorem uploadsSound_of_returned {s : Upload β} (hpc : s.pc = .idle) (hended : s.finalizeEnded)
    (huninitialized : s.initializedMultipartUpload = false → s.threads = [])
    (hearly : EarlySucceeded s)
    (hlive : s.hasError = false → s.uploadFinalized = false → Live c s) :
    UploadsSound c s := by
  refine ⟨hlive, huninitialized, ?_, ?_, ?_, ?_, fun _ => hearly, fun _ => .inl hended⟩
  all_goals
    rw [hpc]
    exact nofun

theorem UploadsSound.finalize {s s' : Upload β} {toFlush : List Nat} (hs : UploadsSound c s)
    (hpc : s.pc = .idle) (hstep : finalize c s toFlush = some s') : UploadsSound c s' := by
  by_cases hfinalized : s.uploadFinalized
  · simp only [S3MultiPartUpload.finalize, hfinalized, if_true, Option.some.injEq] at hstep
    subst hstep
    refine uploadsSound_of_returned rfl rfl hs.uninitialized (hs.early (.inl hfinalized)) ?_
    intro _ hunfinalized
    have hopen : s.uploadFinalized = false := hunfinalized
    rw [hfinalized] at hopen
    cases hopen
  · have hunfinalized : s.uploadFinalized = false := by simpa using hfinalized
    have hlive : s.hasError = false → Live c s' :=
      fun herror => (hs.live herror hunfinalized).finalize hpc hunfinalized hstep
    have hleft : ¬ Completing s.pc := not_completing hpc nofun
    unfold S3MultiPartUpload.finalize at hstep
    rw [if_neg hfinalized] at hstep
    split at hstep
    · have hflushing : Quiet s { s with pc := .flushingAll toFlush } :=
        .of_plain rfl rfl rfl rfl id id hleft trivial fun _ => hunfinalized
      have hinitializing : Quiet s { s with pc := .initializingAll toFlush } :=
        .of_plain rfl rfl rfl rfl id id hleft trivial fun _ => hunfinalized
      split at hstep
      · cases hstep
        exact hs.quiet hflushing fun herror _ => hlive herror
      · rename_i huninitialized
        split at hstep
        · split at hstep
          · cases hstep
            refine hs.quiet ⟨rfl, rfl, rfl, rfl, id, id, fun h => absurd h hleft,
              fun _ => hunfinalized, ?_, nofun, nofun⟩ fun herror _ => hlive herror
            intro _ _
            exact hs.uninitialized (by simpa using huninitialized)
          · cases hstep
            exact hs.quiet hinitializing fun herror _ => hlive herror
        · cases hstep
          exact hs.quiet hinitializing fun herror _ => hlive herror
    · cases hstep

theorem UploadsSound.initialized {s s' : Upload β} {ok : Bool} (hs : UploadsSound c s)
    (hpartSize : 0 < c.partSize) (hstep : initialized s ok = some s') : UploadsSound c s' := by
  have hlive : s.hasError = false → s.uploadFinalized = false → Live c s' :=
    fun herror hunfinalized => (hs.live herror hunfinalized).initialized hpartSize hstep
  unfold S3MultiPartUpload.initialized at hstep
  split at hstep
  · rename_i b caller hpc
    have hleft : ¬ Completing s.pc := not_completing hpc nofun
    have hcaller : ∀ toFlush, caller = .flushAll toFlush → s.uploadFinalized = false := by
      rintro toFlush rfl
      apply hs.finalizing
      rw [hpc]
      trivial
    cases ok with
    | true =>
        cases hstep
        exact hs.spawnUpload rfl rfl rfl rfl rfl hleft hcaller hlive
    | false =>
        cases hstep
        refine hs.quiet ?_ ?_
        · cases caller with
          | write => exact .of_plain rfl rfl rfl rfl id id hleft trivial nofun
          | flushAll => exact .of_plain rfl rfl rfl rfl id (fun _ => rfl) hleft trivial nofun
        · cases caller with
          | _ => exact hlive
  · rename_i toFlush hpc
    have hleft : ¬ Completing s.pc := not_completing hpc nofun
    have hunfinalized : s.uploadFinalized = false := by
      apply hs.finalizing
      rw [hpc]
      trivial
    split at hstep
    · cases hstep
      exact hs.quiet (.of_plain rfl rfl rfl rfl (fun _ => rfl) id hleft trivial
        fun _ => hunfinalized) hlive
    · cases hstep
      exact hs.quiet (.of_plain rfl rfl rfl rfl id (fun _ => rfl) hleft trivial nofun) hlive
  · cases hstep

theorem UploadsSound.singleUploaded {s s' : Upload β} {reply : Reply} (hs : UploadsSound c s)
    (hstep : singleUploaded s reply = some s') : UploadsSound c s' := by
  unfold S3MultiPartUpload.singleUploaded at hstep
  split at hstep
  · rename_i b hpc
    have hleft : ¬ Completing s.pc := not_completing hpc nofun
    have hthreads := hs.single b hpc
    cases reply with
    | ok =>
        cases hstep
        refine uploadsSound_of_returned rfl rfl (fun _ => hthreads) ?_ nofun
        intro t ht
        have hmem : t ∈ s.threads := ht
        rw [hthreads] at hmem
        cases hmem
    | failed tookEffect =>
        cases hstep
        refine hs.quiet (.of_plain rfl rfl rfl rfl id (fun _ => rfl) hleft trivial nofun) ?_
        intro herror hunfinalized
        exact (hs.live herror hunfinalized).singleFailed hpc _
  · cases hstep

theorem UploadsSound.endCompletion {s s' : Upload β} (hs : UploadsSound c s)
    {parts : List (Nat × Bytes)} {transientRetries : Nat}
    (hpc : s.pc = .completing parts transientRetries) (hpc' : s'.pc = .idle)
    (hended : s'.finalizeEnded) (hthreads : s'.threads = s.threads)
    (hinitialized : s'.initializedMultipartUpload = s.initializedMultipartUpload)
    (hfinalized : s'.uploadFinalized = s.uploadFinalized) : UploadsSound c s' := by
  refine uploadsSound_of_returned hpc' hended ?_ ?_ ?_
  · rw [hinitialized, hthreads]
    exact hs.uninitialized
  · intro t ht _
    rw [hthreads] at ht
    exact (hs.completing parts transientRetries hpc).2.succeeded t ht
  · intro _ hunfinalized
    rw [hfinalized, (hs.completing parts transientRetries hpc).1] at hunfinalized
    cases hunfinalized

theorem UploadsSound.completed {s s' : Upload β} {reply : CompleteReply}
    (hs : UploadsSound c s) (hstep : completed c s reply = some s') : UploadsSound c s' := by
  unfold S3MultiPartUpload.completed at hstep
  split at hstep
  · rename_i parts transientRetries hpc
    obtain ⟨hfinalized, hsound⟩ := hs.completing parts transientRetries hpc
    split at hstep
    · cases hstep
      exact hs.endCompletion hpc rfl rfl rfl rfl rfl
    · cases hstep
    · split at hstep
      · cases hstep
        refine hs.quiet ⟨rfl, rfl, rfl, rfl, id, id, ?_, nofun, nofun, nofun, ?_⟩ ?_
        · intro _
          exact .inr ⟨parts, transientRetries + 1, rfl⟩
        · intro parts' transientRetries' hpc'
          cases hpc'
          exact ⟨hfinalized, hsound.succeeded, hsound.noneInProgress, hsound.ascending,
            hsound.listed, hsound.answered⟩
        · intro _ hunfinalized
          rw [hfinalized] at hunfinalized
          cases hunfinalized
      · cases hstep
        exact hs.endCompletion hpc rfl rfl rfl rfl rfl
    · cases hstep
      exact hs.endCompletion hpc rfl rfl rfl rfl rfl
    · cases hstep
      exact hs.endCompletion hpc rfl rfl rfl rfl rfl
  · cases hstep

theorem UploadsSound.threadMove {s s' : Upload β} {k : Nat} {t t' : UploadThread β}
    (hs : UploadsSound c s) (hmove : ThreadMove s s' k t t')
    (haccounted : Accounted s → Numbered (numbers s) → Few s → s'.hasError = false →
      Accounted s') : UploadsSound c s' := by
  have hnotSucceeded : ¬ AllSucceeded s := by
    intro hsucceeded
    exact hmove.unfinished (hsucceeded t hmove.mem).1
  have hpc : ∀ pc, pc ≠ .terminated → s'.pc = pc → s.pc = pc := by
    intro pc hne hpc
    rcases hmove.moved with ⟨hsame, -⟩ | ⟨-, -, -, hterminated⟩
    · exact hsame.symm.trans hpc
    · exact absurd (hpc.symm.trans hterminated) hne
  have hfinalized : s'.uploadFinalized = s.uploadFinalized := by rw [hmove.rest]
  have hcommits : s'.commits = s.commits := by rw [hmove.rest]
  have hended : s'.finalizeEnded = s.finalizeEnded := by rw [hmove.rest]
  have hinitialized : s'.initializedMultipartUpload = s.initializedMultipartUpload := by
    rw [hmove.rest]
  have hsettled : Settled s' → Settled s := by
    unfold Settled
    rw [hfinalized, hcommits]
    exact id
  refine ⟨?_, ?_, ?_, ?_, ?_, ?_, ?_, ?_⟩
  · intro herror hunfinalized
    rw [hfinalized] at hunfinalized
    have hbefore : s.hasError = false := by
      by_contra hbefore
      rw [hmove.error (by simpa using hbefore)] at herror
      cases herror
    have hlive := hs.live hbefore hunfinalized
    exact hlive.threadMove hmove (haccounted hlive.accounted hlive.numbered hlive.few herror)
  · rw [hinitialized]
    intro huninitialized
    have hmem := hmove.mem
    rw [hs.uninitialized huninitialized] at hmem
    cases hmem
  · rw [hfinalized]
    intro hfinalizing
    apply hs.finalizing
    rcases hmove.moved with ⟨hsame, -⟩ | ⟨-, -, -, hterminated⟩
    · rwa [hsame] at hfinalizing
    · rw [hterminated] at hfinalizing
      exact absurd hfinalizing id
  · intro b hb
    have hmem := hmove.mem
    rw [hs.single b (hpc _ nofun hb)] at hmem
    cases hmem
  · intro hflushed
    exact absurd (hs.flushed (hpc _ nofun hflushed)).2 hnotSucceeded
  · intro parts transientRetries hcompleting
    exact absurd (hs.completing parts transientRetries
      (hpc _ nofun hcompleting)).2.succeeded hnotSucceeded
  · intro hsettled'
    have hearly := hs.early (hsettled hsettled')
    unfold EarlySucceeded
    rw [hmove.threads]
    apply forall_mem_setThread hearly
    intro hearly'
    rw [hmove.early] at hearly'
    exact absurd (hearly t hmove.mem hearly').1 hmove.unfinished
  · intro hsettled'
    rw [hended]
    rcases hs.ended (hsettled hsettled') with hover | ⟨parts, transientRetries, hcompleting⟩
    · exact .inl hover
    · exact absurd (hs.completing parts transientRetries hcompleting).2.succeeded hnotSucceeded

section WriterStep

variable {s s' : Upload β}

/-- The uploads are sound as long as nothing has failed and the upload is not finalized. -/
abbrev LiveOn (c : S3ConfigParams) (s s' : Upload β) : Prop :=
  s.hasError = false → s.uploadFinalized = false → s'.uploadFinalized = false → Live c s'

theorem UploadsSound.stepWriting {location : Nat} {data : List β} {bytesWritten : Nat}
    (hs : UploadsSound c s)
    (hpc : s.pc = .writing location data bytesWritten) (hlive : LiveOn c s s')
    (hstep : writerStep c s = some s') : UploadsSound c s' := by
  simp only [S3MultiPartUpload.writerStep, hpc] at hstep
  have hquiet : Quiet s s' := by
    split at hstep
    · cases hstep
      exact quiet_writeChunk hpc
    · cases hstep
      exact .of_plain rfl rfl rfl rfl id id (not_completing hpc nofun) trivial nofun
  apply hs.quiet hquiet
  rw [hquiet.error, hquiet.finalized]
  exact fun herror hunfinalized =>
    hlive herror hunfinalized (hquiet.finalized.trans hunfinalized)

theorem UploadsSound.stepWaitingForSlot {b : S3WriteBuffer β} {caller : Caller β}
    (hs : UploadsSound c s) (hpc : s.pc = .waitingForSlot b caller) (hlive : LiveOn c s s')
    (hstep : writerStep c s = some s') : UploadsSound c s' := by
  simp only [S3MultiPartUpload.writerStep, hpc] at hstep
  have hleft : ¬ Completing s.pc := not_completing hpc nofun
  have hcaller : ∀ toFlush, caller = .flushAll toFlush → s.uploadFinalized = false := by
    rintro toFlush rfl
    apply hs.finalizing
    rw [hpc]
    trivial
  split at hstep
  · cases hstep
  cases hstep
  unfold acquireSlot at hlive ⊢
  simp only at hlive ⊢
  split at hlive
  · rename_i hinitialized
    rw [if_pos hinitialized]
    refine hs.spawnUpload rfl rfl rfl rfl hinitialized hleft hcaller ?_
    intro herror hunfinalized
    refine hlive herror hunfinalized ?_
    cases caller with
    | _ => exact hunfinalized
  · rename_i huninitialized
    rw [if_neg huninitialized]
    refine hs.quiet (.of_plain rfl rfl rfl rfl id id hleft trivial ?_) ?_
    · intro hfinalizing
      cases caller with
      | write => exact absurd hfinalizing id
      | flushAll toFlush => exact hcaller toFlush rfl
    · exact fun herror hunfinalized => hlive herror hunfinalized hunfinalized

theorem UploadsSound.stepFlushingAll {toFlush : List Nat} (hs : UploadsSound c s)
    (hpc : s.pc = .flushingAll toFlush) (hlive : LiveOn c s s')
    (hstep : writerStep c s = some s') : UploadsSound c s' := by
  have hleft : ¬ Completing s.pc := not_completing hpc nofun
  have hunfinalized : s.uploadFinalized = false := by
    apply hs.finalizing
    rw [hpc]
    trivial
  have hquiet : Quiet s s' := by
    cases toFlush with
    | nil =>
        simp only [S3MultiPartUpload.writerStep, hpc] at hstep
        cases hstep
        exact .of_plain rfl rfl rfl rfl id id hleft trivial fun _ => hunfinalized
    | cons partNo toFlush =>
        simp only [S3MultiPartUpload.writerStep, hpc] at hstep
        split at hstep
        · cases hstep
          exact .of_plain rfl rfl rfl rfl id id hleft trivial fun _ => hunfinalized
        · split at hstep
          · cases hstep
            exact .of_plain rfl rfl rfl rfl id id hleft trivial fun _ => hunfinalized
          · cases hstep
            exact quiet_flushBuffer _ _ rfl rfl rfl rfl rfl rfl hleft
              fun _ _ => hunfinalized
  apply hs.quiet hquiet
  rw [hquiet.error, hquiet.finalized]
  exact fun herror hunfinalized =>
    hlive herror hunfinalized (hquiet.finalized.trans hunfinalized)

theorem UploadsSound.stepWaitingForUploads (hs : UploadsSound c s)
    (hpc : s.pc = .waitingForUploads) (hlive : LiveOn c s s')
    (hstep : writerStep c s = some s') : UploadsSound c s' := by
  have hleft : ¬ Completing s.pc := not_completing hpc nofun
  have hunfinalized : s.uploadFinalized = false := by
    apply hs.finalizing
    rw [hpc]
    trivial
  simp only [S3MultiPartUpload.writerStep, hpc] at hstep
  split at hstep
  · cases hstep
  · rename_i hnone
    rw [ne_eq, not_not] at hnone
    split at hstep
    · cases hstep
      rename_i herror
      refine hs.quiet (.of_plain rfl rfl rfl rfl id (fun _ => rfl) hleft trivial nofun) ?_
      intro herror'
      have hfalse : s.hasError = false := herror'
      rw [herror] at hfalse
      cases hfalse
    · cases hstep
      rename_i herror
      have hfalse : s.hasError = false := by simpa using herror
      have hsucceeded := (hs.live hfalse hunfinalized).allSucceeded hnone
      refine hs.quiet ⟨rfl, rfl, rfl, rfl, id, id, fun h => absurd h hleft,
        fun _ => hunfinalized, nofun, fun _ => ⟨hfalse, hsucceeded⟩, nofun⟩ ?_
      exact fun herror hunfinalized => hlive herror hunfinalized hunfinalized

theorem UploadsSound.stepFlushed (hs : UploadsSound c s)
    (hpc : s.pc = .flushed)
    (hstep : writerStep c s = some s') : UploadsSound c s' := by
  obtain ⟨herror, hsucceeded⟩ := hs.flushed hpc
  have hunfinalized : s.uploadFinalized = false := by
    apply hs.finalizing
    rw [hpc]
    trivial
  have hbefore := hs.live herror hunfinalized
  simp only [S3MultiPartUpload.writerStep, hpc] at hstep
  split at hstep
  · rename_i hnone
    cases hstep
    refine uploadsSound_of_returned rfl rfl hs.uninitialized ?_ ?_
    · exact fun t ht _ => hsucceeded t ht
    · exact fun _ _ => (hbefore.nothingUploaded hpc hsucceeded hnone).2
  · cases hstep
    obtain ⟨parts, hbody, hsound⟩ := hbefore.completeBody hpc hsucceeded
    unfold finalizeMultipartUpload
    rw [if_neg (by simp [hunfinalized])]
    simp only [hbody]
    refine ⟨nofun, hs.uninitialized, nofun, nofun, nofun, ?_, ?_, ?_⟩
    · intro parts' transientRetries' hpc'
      cases hpc'
      exact ⟨rfl, hsound.succeeded, hsound.noneInProgress, hsound.ascending,
        hsound.listed, hsound.answered⟩
    · exact fun _ t ht _ => hsucceeded t ht
    · exact fun _ => .inr ⟨parts, 0, rfl⟩

end WriterStep

theorem UploadsSound.writerStep {s s' : Upload β} (hs : UploadsSound c s)
    (hpartSize : 0 < c.partSize) (hfew : FewParts c s (.writer : Label β))
    (hstep : writerStep c s = some s') : UploadsSound c s' := by
  have hlive : LiveOn c s s' := fun herror hunfinalized hunfinalized' =>
    (hs.live herror hunfinalized).writerStep hpartSize herror hfew
      (fun hpc => (hs.flushed hpc).2) hstep hunfinalized'
  cases hpc : s.pc with
  | writing location data bytesWritten => exact hs.stepWriting hpc hlive hstep
  | waitingForSlot b caller => exact hs.stepWaitingForSlot hpc hlive hstep
  | flushingAll toFlush => exact hs.stepFlushingAll hpc hlive hstep
  | waitingForUploads => exact hs.stepWaitingForUploads hpc hlive hstep
  | flushed => exact hs.stepFlushed hpc hstep
  | idle | initializing b caller | initializingAll toFlush | uploadingSingle b
  | completing parts transientRetries | terminated =>
      simp [S3MultiPartUpload.writerStep, hpc] at hstep

theorem UploadsSound.step {s s' : Upload β} {l : Label β} (hs : UploadsSound c s)
    (hpartSize : 0 < c.partSize) (hfew : FewParts c s l) (hstep : step c s l = some s') :
    UploadsSound c s' := by
  cases l with
  | write location data =>
      simp only [S3MultiPartUpload.step] at hstep
      split at hstep
      · cases hstep
        rename_i hpc
        refine hs.quiet (.of_plain rfl rfl rfl rfl id id (not_completing hpc nofun) trivial
          nofun) ?_
        exact fun herror hunfinalized => (hs.live herror hunfinalized).write hpc location data
      · cases hstep
  | finalize toFlush =>
      simp only [S3MultiPartUpload.step] at hstep
      split at hstep
      · rename_i hpc
        exact hs.finalize hpc hstep
      · cases hstep
  | writer => exact hs.writerStep hpartSize hfew hstep
  | initialized ok => exact hs.initialized hpartSize hstep
  | singleUploaded reply => exact hs.singleUploaded hstep
  | completed reply => exact hs.completed hstep
  | partUploaded k reply =>
      obtain ⟨t, t', hmove⟩ := threadMove_of_partUploaded hstep
      exact hs.threadMove hmove fun haccounted _ _ _ => haccounted.partUploaded hstep
  | thread k =>
      obtain ⟨t, t', hmove⟩ := threadMove_of_threadStep hstep
      exact hs.threadMove hmove fun haccounted hnumbered hfew herror =>
        haccounted.threadStep hnumbered hfew hstep herror

end HaybarnHttpfs.UploadThreads
