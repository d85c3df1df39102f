import HaybarnHttpfs.Foundation.Blocks
import HaybarnHttpfs.UploadThreads

/-!
The bytes of an upload: which block of the data written each buffer and each
part holds, from `Write` to the parts that the server has.
-/

namespace HaybarnHttpfs.UploadData

open HaybarnHttpfs.Foundation.Blocks HaybarnHttpfs.Foundation.ByteStrings
open HaybarnHttpfs.Foundation.Memory HaybarnHttpfs.Foundation.Numbering
open HaybarnHttpfs.BufferedRead (idxSub idxSub_of_le)
open HaybarnHttpfs.S3MultiPartUpload HaybarnHttpfs.UploadThreads

universe u

variable {β : Type u} {c : S3ConfigParams}

/-- What the running `Write` has put into buffers. -/
def inFlight : Pc β → List β
  | .writing _ data bytesWritten => data.take bytesWritten
  | .waitingForSlot _ (.write _ data bytesWritten bytesToWrite)
  | .initializing _ (.write _ data bytesWritten bytesToWrite) =>
      data.take (bytesWritten + bytesToWrite)
  | _ => []

/-- The bytes in buffers that `file_offset` does not count yet. -/
def pending : Pc β → Nat
  | .waitingForSlot _ (.write _ _ _ bytesToWrite)
  | .initializing _ (.write _ _ _ bytesToWrite) => bytesToWrite
  | _ => 0

def accepted (s : Upload β) : List β := s.written ++ inFlight s.pc

def part (c : S3ConfigParams) (s : Upload β) (k : Nat) : List β :=
  block c.partSize (accepted s) k

/-- Where the running `Write` stands in its data and in the file. -/
def Aligned (s : Upload β) : Prop :=
  match s.pc with
  | .writing location data bytesWritten =>
      bytesWritten ≤ data.length ∧ (0 < bytesWritten → location + bytesWritten = s.fileOffset)
  | .waitingForSlot _ (.write location data bytesWritten bytesToWrite)
  | .initializing _ (.write location data bytesWritten bytesToWrite) =>
      bytesWritten + bytesToWrite ≤ data.length ∧ location + bytesWritten = s.fileOffset
  | _ => True

/-- More data can still come. -/
def Growing : Pc β → Prop
  | .idle | .writing _ _ _ | .waitingForSlot _ (.write _ _ _ _)
  | .initializing _ (.write _ _ _ _) | .initializingAll _ | .uploadingSingle _ => True
  | _ => False

/-- The bytes of an upload without an error: every buffer and every part holds
the block of the data that its number says. -/
structure Stored (c : S3ConfigParams) (s : Upload β) : Prop where
  length : s.fileOffset + pending s.pc = (accepted s).length
  aligned : Aligned s
  bodies : ∀ t ∈ s.threads, t.body = (part c s t.partNo).map some
  full : Growing s.pc → ∀ t ∈ s.threads, (t.partNo + 1) * c.partSize ≤ (accepted s).length
  buffers : ∀ b ∈ s.writeBuffers,
    load b.buffer 0 b.idx = (part c s b.partNo).map some ∧ b.idx < c.partSize
  inHand : ∀ b ∈ held s.pc, load b.buffer 0 b.idx = (part c s b.partNo).map some
  nonempty : ∀ k ∈ numbers s, k * c.partSize < (accepted s).length
  covered : (accepted s).length ≤ (numbers s).length * c.partSize
  server : ∀ t ∈ s.threads, t.failed = false → ∀ etag, t.etag = some etag →
    s.parts t.partNo = some (etag, t.body)
  accesses : ∀ a ∈ s.accesses, a.1 + a.2 ≤ c.partSize

theorem Stored.moveTo {s s' : Upload β} (hs : Stored c s) (hthreads : s'.threads = s.threads)
    (hbuffers : s'.writeBuffers = s.writeBuffers) (hheld : held s'.pc = held s.pc)
    (hoffset : s'.fileOffset + pending s'.pc = s.fileOffset + pending s.pc)
    (haccepted : accepted s' = accepted s) (hparts : s'.parts = s.parts)
    (haccesses : ∀ a ∈ s'.accesses, a.1 + a.2 ≤ c.partSize)
    (hgrowing : Growing s'.pc → Growing s.pc ∨ s.threads = []) (haligned : Aligned s') :
    Stored c s' := by
  have hnumbers : numbers s' = numbers s := by
    unfold numbers
    rw [hthreads, hbuffers, hheld]
  have hpart : part c s' = part c s := by
    funext k
    unfold part
    rw [haccepted]
  refine ⟨?_, haligned, ?_, ?_, ?_, ?_, ?_, ?_, ?_, haccesses⟩
  · rw [hoffset, haccepted]
    exact hs.length
  · rw [hthreads, hpart]
    exact hs.bodies
  · intro hgrowing'
    rw [hthreads, haccepted]
    rcases hgrowing hgrowing' with hbefore | hnone
    · exact hs.full hbefore
    · rw [hnone]
      exact nofun
  · rw [hbuffers, hpart]
    exact hs.buffers
  · rw [hheld, hpart]
    exact hs.inHand
  · rw [hnumbers, haccepted]
    exact hs.nonempty
  · rw [hnumbers, haccepted]
    exact hs.covered
  · rw [hthreads, hparts]
    exact hs.server

theorem Stored.write {s : Upload β} (hs : Stored c s) (hpc : s.pc = .idle) (location : Nat)
    (data : List β) : Stored c { s with pc := .writing location data 0 } := by
  refine hs.moveTo rfl rfl ?_ ?_ ?_ rfl hs.accesses ?_ ⟨Nat.zero_le _, nofun⟩
  · simp [held, hpc]
  · simp [pending, hpc]
  · simp [accepted, inFlight, hpc]
  · intro _
    rw [hpc]
    exact .inl trivial

theorem Stored.finishWrite {s : Upload β} {location : Nat} {data : List β} {bytesWritten : Nat}
    (hs : Stored c s) (hpc : s.pc = .writing location data bytesWritten)
    (hdone : data.length ≤ bytesWritten) :
    Stored c { s with pc := .idle, written := s.written ++ data } := by
  refine hs.moveTo rfl rfl ?_ ?_ ?_ rfl hs.accesses ?_ trivial
  · simp [held, hpc]
  · simp [pending, hpc]
  · simp [accepted, inFlight, hpc, List.take_of_length_le hdone]
  · intro _
    rw [hpc]
    exact .inl trivial

/-- The buffer of the current part as `GetBuffer` gives it: it holds what the
part has so far. -/
theorem Stored.getBuffer {s : Upload β} (hs : Stored c s) (hoffset : AtOffset c s)
    (hpartSize : 0 < c.partSize)
    (hlength : s.fileOffset = (accepted s).length) :
    let b := S3MultiPartUpload.getBuffer c s (currentPart c s)
    load b.buffer 0 b.idx = (part c s (currentPart c s)).map some ∧
      currentPart c s * c.partSize + b.idx = s.fileOffset := by
  have hle : currentPart c s * c.partSize ≤ s.fileOffset := Nat.div_mul_le_self _ _
  have hwithin : s.fileOffset < currentPart c s * c.partSize + c.partSize :=
    Nat.lt_div_mul_add hpartSize
  unfold S3MultiPartUpload.getBuffer
  cases hfind : findBuffer s.writeBuffers (currentPart c s) with
  | none =>
      -- no buffer yet, so the parts before this one cover all the data
      have hgone := findBuffer_eq_none hfind
      have hcount := hoffset.count
      rw [if_neg hgone] at hcount
      have hcovered := hs.covered
      rw [hcount, Nat.add_zero, ← hlength] at hcovered
      have hempty : part c s (currentPart c s) = [] := by
        apply List.eq_nil_of_length_eq_zero
        rw [part, length_block, ← hlength]
        omega
      simp only [Option.getD_none, load_zero, hempty, List.map_nil, true_and]
      omega
  | some b =>
      obtain ⟨hmem, hpartNo⟩ := findBuffer_eq_some hfind
      obtain ⟨hload, hshort⟩ := hs.buffers b hmem
      rw [hpartNo] at hload
      refine ⟨hload, ?_⟩
      have hlen := congrArg List.length hload
      rw [length_load, List.length_map, part, length_block, ← hlength] at hlen
      simp only [Option.getD_some]
      omega

theorem Stored.partNo_current {s : Upload β} (hs : Stored c s)
    (hlength : s.fileOffset = (accepted s).length) {b : S3WriteBuffer β}
    (hb : b ∈ s.writeBuffers) : b.partNo = currentPart c s := by
  obtain ⟨hload, hshort⟩ := hs.buffers b hb
  have hlen := congrArg List.length hload
  rw [length_load, List.length_map, part, length_block] at hlen
  have hstart : b.partNo * c.partSize < (accepted s).length := by
    apply hs.nonempty
    simp only [numbers, partNumbers, List.mem_append, List.mem_map]
    exact .inr (.inr ⟨b, hb, rfl⟩)
  symm
  apply Nat.div_eq_of_lt_le
  · omega
  · rw [Nat.succ_mul]
    omega

theorem Stored.takeIn {s s' : Upload β} {chunk : List β} (hs : Stored c s)
    (b : S3WriteBuffer β) (hgrowing : Growing s.pc)
    (hlength : s.fileOffset = (accepted s).length)
    (haccepted : accepted s' = accepted s ++ chunk) (hchunk : 0 < chunk.length)
    (hroom : s.fileOffset + chunk.length ≤ (currentPart c s + 1) * c.partSize)
    (hload : load b.buffer 0 b.idx = (part c s b.partNo ++ chunk).map some)
    (hpartNo : b.partNo = currentPart c s) (hthreads : s'.threads = s.threads)
    (hnumbered : Numbered (numbers s')) (hcount : (numbers s').length = currentPart c s + 1)
    (hbuffers : ∀ b' ∈ s'.writeBuffers, (b' = b ∧ b.idx < c.partSize) ∨
      b' ∈ eraseBuffer s.writeBuffers (currentPart c s))
    (hheld : ∀ b' ∈ held s'.pc, b' = b)
    (hoffset : s'.fileOffset + pending s'.pc = s.fileOffset + chunk.length)
    (haligned : Aligned s') (hparts : s'.parts = s.parts)
    (haccesses : ∀ a ∈ s'.accesses, a.1 + a.2 ≤ c.partSize) : Stored c s' := by
  have hle : currentPart c s * c.partSize ≤ s.fileOffset := Nat.div_mul_le_self _ _
  have hlength' : (accepted s').length = s.fileOffset + chunk.length := by
    rw [haccepted, List.length_append, hlength]
  have hbody : ∀ t ∈ s.threads, part c s' t.partNo = part c s t.partNo := by
    intro t ht
    unfold part
    rw [haccepted]
    exact block_append_of_full (hs.full hgrowing t ht) chunk
  have hcurrent : load b.buffer 0 b.idx = (part c s' b.partNo).map some := by
    rw [hload, part, part, haccepted, block_append_of_last]
    · rw [hpartNo, ← hlength]
      exact hle
    · rw [hpartNo, ← hlength]
      exact hroom
  refine ⟨hoffset.trans hlength'.symm, haligned, ?_, ?_, ?_, ?_, ?_, ?_, ?_, haccesses⟩
  · rw [hthreads]
    intro t ht
    rw [hbody t ht]
    exact hs.bodies t ht
  · intro _ t ht
    rw [hthreads] at ht
    have hfull := hs.full hgrowing t ht
    omega
  · intro b' hb'
    rcases hbuffers b' hb' with ⟨rfl, hshort⟩ | hothers
    · exact ⟨hcurrent, hshort⟩
    · obtain ⟨hmem, hne⟩ := mem_eraseBuffer hothers
      exact absurd (hs.partNo_current hlength hmem) hne
  · intro b' hb'
    rw [hheld b' hb']
    exact hcurrent
  · intro k hk
    have hlt := hnumbered.lt k hk
    rw [hcount] at hlt
    have hk' : k * c.partSize ≤ currentPart c s * c.partSize :=
      Nat.mul_le_mul_right _ (by omega)
    omega
  · rw [hcount, hlength']
    exact hroom
  · rw [hthreads, hparts]
    exact hs.server

theorem Stored.writeChunk {s : Upload β} {location : Nat} {data : List β} {bytesWritten : Nat}
    (hs : Stored c s) (hlive : Live c s) (hpartSize : 0 < c.partSize)
    (herror : s.hasError = false) (hpc : s.pc = .writing location data bytesWritten)
    (hmore : bytesWritten < data.length) (hfew : currentPart c s + 1 < uint16Limit) :
    Stored c (S3MultiPartUpload.writeChunk c s location data bytesWritten) := by
  have hgrowing : Growing s.pc := by
    rw [hpc]
    trivial
  have hheld : held s.pc = [] := by simp [held, hpc]
  have hoffset : AtOffset c s := by
    simpa [Position, hpc] using hlive.position
  have hlength : s.fileOffset = (accepted s).length := by
    simpa [pending, hpc] using hs.length
  have haligned : bytesWritten ≤ data.length ∧
      (0 < bytesWritten → location + bytesWritten = s.fileOffset) := by
    simpa [Aligned, hpc] using hs.aligned
  unfold S3MultiPartUpload.writeChunk
  simp only
  split
  · rename_i hlocation
    -- a write that is not at the end throws and takes nothing in
    refine hs.moveTo rfl rfl ?_ ?_ ?_ rfl hs.accesses ?_ trivial
    · simp [held, hpc]
    · simp [pending, hpc]
    · have hnone : bytesWritten = 0 := by
        by_contra hsome
        exact hlocation (haligned.2 (Nat.pos_of_ne_zero hsome))
      simp [accepted, inFlight, hpc, hnone]
    · exact fun _ => .inl hgrowing
  · rename_i hlocation
    rw [ne_eq, not_not] at hlocation
    have hpart : (location + bytesWritten) / c.partSize % uint16Limit = currentPart c s := by
      rw [hlocation]
      exact Nat.mod_eq_of_lt (by unfold currentPart at hfew; omega)
    obtain ⟨hpartNo, hstart, hwaiting, -⟩ := getBuffer_current hlive hoffset
    obtain ⟨hload, hidx⟩ := hs.getBuffer hoffset hpartSize hlength
    have hwithin : s.fileOffset < currentPart c s * c.partSize + c.partSize :=
      Nat.lt_div_mul_add hpartSize
    have hend : (currentPart c s + 1) * c.partSize =
        currentPart c s * c.partSize + c.partSize := by
      rw [Nat.add_mul, Nat.one_mul]
    rw [hpart, hlocation]
    generalize S3MultiPartUpload.getBuffer c s (currentPart c s) = b at *
    have hto : idxSub s.fileOffset (currentPart c s * c.partSize) = b.idx := by
      rw [idxSub_of_le (by omega)]
      omega
    have hroom : idxSub c.partSize b.idx = c.partSize - b.idx := idxSub_of_le (by omega)
    rw [hstart, hto, hroom]
    generalize hchunk : min (data.length - bytesWritten) (c.partSize - b.idx) = bytesToWrite
    have hlen : (slice data bytesWritten bytesToWrite).length = bytesToWrite :=
      length_slice (by omega)
    -- the chunk lands behind what the buffer has of this part
    have hload' : load (store b.buffer b.idx (slice data bytesWritten bytesToWrite)) 0
        (b.idx + bytesToWrite) =
          (part c s b.partNo ++ slice data bytesWritten bytesToWrite).map some := by
      have hstored := load_store_end b.buffer b.idx (slice data bytesWritten bytesToWrite)
      rw [hlen] at hstored
      rw [hstored, hload, List.map_append, hpartNo]
    have htaken : accepted s ++ slice data bytesWritten bytesToWrite =
        s.written ++ data.take (bytesWritten + bytesToWrite) := by
      simp only [accepted, inFlight, hpc, slice, List.append_assoc, List.take_add]
    have haccesses : ∀ a ∈ s.accesses ++ [(b.idx, bytesToWrite)], a.1 + a.2 ≤ c.partSize := by
      intro a ha
      rcases List.mem_append.mp ha with hbefore | hnew
      · exact hs.accesses a hbefore
      · rw [List.mem_singleton] at hnew
        subst hnew
        simp only
        omega
    have hnonempty : b.idx + bytesToWrite ≠ 0 := by omega
    obtain ⟨hnumbered, hcount⟩ := perm_putBuffer hlive hoffset hpartNo
    rw [hheld] at hnumbered hcount
    split
    · rename_i hfull
      -- the buffer is full and leaves for the uploader
      simp only [flushBuffer, hnonempty, hwaiting, herror, Bool.false_eq_true, if_false]
      refine hs.takeIn { b with
          bufferStart := currentPart c s * c.partSize
          buffer := store b.buffer b.idx (slice data bytesWritten bytesToWrite)
          idx := b.idx + bytesToWrite
          uploading := true }
        hgrowing hlength htaken.symm ?_ ?_ hload' hpartNo rfl ?_ ?_ ?_ ?_ ?_ ?_ rfl
        haccesses
      · omega
      · omega
      · simpa [numbers, held, partNumbers, putBuffer, eraseBuffer, hpartNo] using hnumbered
      · simpa [numbers, held, partNumbers, putBuffer, eraseBuffer, hpartNo] using hcount
      · intro b' hb'
        right
        simpa [putBuffer, eraseBuffer, hpartNo] using hb'
      · intro b' hb'
        simpa [held] using hb'
      · simp only [pending]
        omega
      · exact ⟨by omega, hlocation⟩
    · rename_i hshort
      -- the buffer stays in the map, short of a part
      refine hs.takeIn { b with
          bufferStart := currentPart c s * c.partSize
          buffer := store b.buffer b.idx (slice data bytesWritten bytesToWrite)
          idx := b.idx + bytesToWrite }
        hgrowing hlength htaken.symm ?_ ?_ hload' hpartNo rfl hnumbered hcount ?_
        (fun _ hb => by cases hb) ?_ ?_ rfl haccesses
      · omega
      · omega
      · intro b' hb'
        rcases List.mem_cons.mp hb' with rfl | hothers
        · refine .inl ⟨rfl, ?_⟩
          simp only
          omega
        · right
          simpa [hpartNo] using hothers
      · simp only [resume, pending]
        omega
      · refine ⟨by omega, fun _ => ?_⟩
        simp only [resume]
        omega

theorem Stored.idx_le {s : Upload β} (hs : Stored c s) {b : S3WriteBuffer β}
    (hb : b ∈ held s.pc ∨ b ∈ s.writeBuffers) : b.idx ≤ c.partSize := by
  rcases hb with hheld | hmem
  · have hlen := congrArg List.length (hs.inHand b hheld)
    rw [length_load, List.length_map, part, length_block] at hlen
    omega
  · exact Nat.le_of_lt (hs.buffers b hmem).2

theorem Stored.accesses_append {s : Upload β} (hs : Stored c s) {len : Nat}
    (hlen : len ≤ c.partSize) : ∀ a ∈ s.accesses ++ [(0, len)], a.1 + a.2 ≤ c.partSize := by
  intro a ha
  rcases List.mem_append.mp ha with hbefore | hnew
  · exact hs.accesses a hbefore
  · rw [List.mem_singleton] at hnew
    subst hnew
    simpa using hlen

theorem Stored.spawnUpload {s : Upload β} {b : S3WriteBuffer β} {caller : Caller β}
    (hs : Stored c s) (hpc : s.pc = .waitingForSlot b caller ∨ s.pc = .initializing b caller)
    (hcaller : InHand c s b caller) :
    Stored c (S3MultiPartUpload.spawnUpload s b caller) := by
  have hheld : held s.pc = [b] := by
    rcases hpc with hpc | hpc
    · simp [held, hpc]
    · simp [held, hpc]
  have hmem : b ∈ held s.pc := by simp [hheld]
  have hnumbers := numbers_spawnUpload hheld caller
  have hload := hs.inHand b hmem
  have haccesses := hs.accesses_append (hs.idx_le (.inl hmem))
  have hlength := hs.length
  have haligned := hs.aligned
  have haccepted : accepted (S3MultiPartUpload.spawnUpload s b caller) = accepted s := by
    cases caller with
    | _ =>
        rcases hpc with hpc | hpc
        · simp [accepted, S3MultiPartUpload.spawnUpload, resume, inFlight, hpc]
        · simp [accepted, S3MultiPartUpload.spawnUpload, resume, inFlight, hpc]
  have hpart : part c (S3MultiPartUpload.spawnUpload s b caller) = part c s := by
    funext k
    unfold part
    rw [haccepted]
  have hthreads : (S3MultiPartUpload.spawnUpload s b caller).threads =
      s.threads ++ [uploadThread s b] := by
    cases caller with
    | _ => rfl
  -- a thread is an old one or the one that takes the buffer over
  have hnew : ∀ {P : UploadThread β → Prop}, (∀ t ∈ s.threads, P t) → P (uploadThread s b) →
      ∀ t ∈ (S3MultiPartUpload.spawnUpload s b caller).threads, P t := by
    intro P hothers hself t ht
    rw [hthreads, List.mem_append, List.mem_singleton] at ht
    rcases ht with hbefore | rfl
    · exact hothers t hbefore
    · exact hself
  refine ⟨?_, ?_, ?_, ?_, ?_, ?_, ?_, ?_, ?_, ?_⟩
  · rw [haccepted, ← hlength]
    cases caller with
    | _ =>
        rcases hpc with hpc | hpc
        · simp [S3MultiPartUpload.spawnUpload, resume, pending, hpc]
        · simp [S3MultiPartUpload.spawnUpload, resume, pending, hpc]
  · cases caller with
    | flushAll => trivial
    | write location data bytesWritten bytesToWrite =>
        have hreached : bytesWritten + bytesToWrite ≤ data.length ∧
            location + bytesWritten = s.fileOffset := by
          rcases hpc with hpc | hpc
          · simpa [Aligned, hpc] using haligned
          · simpa [Aligned, hpc] using haligned
        refine ⟨hreached.1, fun _ => ?_⟩
        simp only [S3MultiPartUpload.spawnUpload, resume]
        omega
  · rw [hpart]
    exact hnew hs.bodies hload
  · rw [haccepted]
    cases caller with
    | flushAll => exact fun hgrowing => absurd hgrowing id
    | write location data bytesWritten bytesToWrite =>
        intro _
        have hgrowing : Growing s.pc := by
          rcases hpc with hpc | hpc
          · rw [hpc]
            trivial
          · rw [hpc]
            trivial
        -- a write hands over full parts only
        have hfull : FullPart c s b bytesToWrite := hcaller
        have hpending : pending s.pc = bytesToWrite := by
          rcases hpc with hpc | hpc
          · simp [pending, hpc]
          · simp [pending, hpc]
        refine hnew (hs.full hgrowing) ?_
        simp only [uploadThread]
        rw [hfull.current, ← hfull.reached, ← hlength, hpending]
  · rw [hpart]
    cases caller with
    | _ => exact hs.buffers
  · intro b' hb'
    cases caller with
    | _ => cases hb'
  · rw [hnumbers, haccepted]
    exact hs.nonempty
  · rw [hnumbers, haccepted]
    exact hs.covered
  · have hparts : (S3MultiPartUpload.spawnUpload s b caller).parts = s.parts := by
      cases caller with
      | _ => rfl
    rw [hparts]
    exact hnew hs.server (fun _ _ hetag => by cases hetag)
  · cases caller with
    | _ => exact haccesses

theorem Stored.acquireSlot {s : Upload β} {b : S3WriteBuffer β} {caller : Caller β}
    (hs : Stored c s) (hlive : Live c s) (hpc : s.pc = .waitingForSlot b caller) :
    Stored c (S3MultiPartUpload.acquireSlot s b caller) := by
  have hposition := hlive.position
  unfold Position at hposition
  rw [hpc] at hposition
  have hslot : Stored c { s with
      uploadsInProgress := (s.uploadsInProgress + 1) % uint16Limit } :=
    ⟨hs.length, hs.aligned, hs.bodies, hs.full, hs.buffers, hs.inHand, hs.nonempty, hs.covered,
      hs.server, hs.accesses⟩
  unfold S3MultiPartUpload.acquireSlot
  simp only
  split
  · apply hslot.spawnUpload (.inl hpc)
    cases caller with
    | write location data bytesWritten bytesToWrite =>
        exact ⟨hposition.current, hposition.count, hposition.reached⟩
    | flushAll toFlush =>
        exact ⟨hposition.initialized, hposition.passed, hposition.covers⟩
  · have haligned := hs.aligned
    unfold Aligned at haligned
    rw [hpc] at haligned
    refine hs.moveTo rfl rfl ?_ ?_ ?_ rfl hs.accesses ?_ ?_
    · simp [held, hpc]
    · cases caller with
      | _ => simp [pending, hpc]
    · cases caller with
      | _ => simp [accepted, inFlight, hpc]
    · rw [hpc]
      cases caller with
      | write => exact fun _ => .inl trivial
      | flushAll => exact fun hgrowing => absurd hgrowing id
    · cases caller with
      | _ => exact haligned

/-- The first part cannot be initialized and had no byte before the running
`Write`: nothing is left of it. -/
theorem Stored.notInitialized {s s' : Upload β} {b : S3WriteBuffer β} {location : Nat}
    {data : List β} {bytesWritten bytesToWrite : Nat} (hs : Stored c s)
    (hpc : s.pc = .initializing b (.write location data bytesWritten bytesToWrite))
    (hfull : FullPart c s b bytesToWrite) (hfirst : s.fileOffset = 0)
    (hthreads : s'.threads = s.threads) (hbuffers : s'.writeBuffers = s.writeBuffers)
    (hoffset : s'.fileOffset = s.fileOffset) (hwritten : s'.written = s.written)
    (haccesses : s'.accesses = s.accesses) (hpc' : s'.pc = .idle) : Stored c s' := by
  have hcount := hfull.count
  rw [currentPart, hfirst, Nat.zero_div, length_numbers, hpc] at hcount
  simp only [held, List.length_singleton] at hcount
  have hnone : s'.threads = [] := by
    rw [hthreads]
    exact List.eq_nil_of_length_eq_zero (by omega)
  have hempty : s'.writeBuffers = [] := by
    rw [hbuffers]
    exact List.eq_nil_of_length_eq_zero (by omega)
  have hnumbers : numbers s' = [] := by
    simp [numbers, hnone, hempty, hpc', held, partNumbers]
  have hlength : (accepted s').length = 0 := by
    have hbefore := hs.length
    have haligned := hs.aligned
    simp only [Aligned, hpc] at haligned
    simp only [pending, accepted, inFlight, hpc, hfirst, List.length_append, List.length_take]
      at hbefore
    simp only [accepted, inFlight, hpc', hwritten, List.append_nil]
    omega
  refine ⟨?_, ?_, ?_, ?_, ?_, ?_, ?_, ?_, ?_, ?_⟩
  · rw [hoffset, hfirst, hpc', hlength]
    rfl
  · simp [Aligned, hpc']
  · rw [hnone]
    simp
  · rw [hnone]
    exact fun _ t ht => by cases ht
  · rw [hempty]
    simp
  · rw [hpc']
    simp [held]
  · rw [hnumbers]
    simp
  · rw [hlength]
    exact Nat.zero_le _
  · rw [hnone]
    simp
  · rw [haccesses]
    exact hs.accesses

/-- The initiate request may only fail where nothing was written before. -/
def InitiateKept (s : Upload β) : Label β → Prop
  | .initialized ok => ∀ b location data bytesWritten bytesToWrite,
      s.pc = .initializing b (.write location data bytesWritten bytesToWrite) →
        ok ∨ s.fileOffset = 0
  | _ => True

theorem Stored.initialized {s s' : Upload β} {ok : Bool} (hs : Stored c s) (hlive : Live c s)
    (hkept : InitiateKept s (.initialized ok)) (hstep : initialized s ok = some s') :
    Stored c s' := by
  have hposition := hlive.position
  unfold Position at hposition
  unfold S3MultiPartUpload.initialized at hstep
  split at hstep
  · rename_i b caller hpc
    rw [hpc] at hposition
    cases caller with
    | flushAll toFlush => exact absurd hposition id
    | write location data bytesWritten bytesToWrite =>
        cases ok with
        | true =>
            cases hstep
            have hstarted : Stored c { s with initializedMultipartUpload := true } :=
              ⟨hs.length, hs.aligned, hs.bodies, hs.full, hs.buffers, hs.inHand, hs.nonempty,
                hs.covered, hs.server, hs.accesses⟩
            apply hstarted.spawnUpload (.inr hpc)
            exact ⟨hposition.current, hposition.count, hposition.reached⟩
        | false =>
            cases hstep
            have hfirst := (hkept b location data bytesWritten bytesToWrite hpc).resolve_left
              (by simp)
            exact hs.notInitialized hpc hposition hfirst rfl rfl rfl rfl rfl rfl
  · rename_i toFlush hpc
    split at hstep
    · cases hstep
      refine hs.moveTo rfl rfl ?_ ?_ ?_ rfl hs.accesses nofun trivial
      · simp [held, hpc]
      · simp [pending, hpc]
      · simp [accepted, inFlight, hpc]
    · cases hstep
      refine hs.moveTo rfl rfl ?_ ?_ ?_ rfl hs.accesses ?_ trivial
      · simp [held, hpc, endFinalize]
      · simp [pending, hpc, endFinalize]
      · simp [accepted, inFlight, hpc, endFinalize]
      · rw [hpc]
        exact fun _ => .inl trivial
  · cases hstep

theorem Stored.takeBuffer {s s' : Upload β} {b : S3WriteBuffer β} {toFlush : List Nat}
    (hs : Stored c s) (hlive : Live c s) (b' : S3WriteBuffer β)
    (hpc : s.pc = .flushingAll (b.partNo :: toFlush)) (hb : b ∈ s.writeBuffers)
    (hload : load b'.buffer 0 b'.idx = load b.buffer 0 b.idx)
    (hpartNo : b'.partNo = b.partNo) (hthreads : s'.threads = s.threads)
    (hbuffers : s'.writeBuffers = eraseBuffer s.writeBuffers b.partNo)
    (hoffset : s'.fileOffset = s.fileOffset) (hwritten : s'.written = s.written)
    (hparts : s'.parts = s.parts) (haccesses : s'.accesses = s.accesses)
    (hpc' : s'.pc = .waitingForSlot b' (.flushAll toFlush)) : Stored c s' := by
  have hperm := perm_takeBuffer hlive hpc hb hpartNo hthreads hbuffers hpc'
  have haccepted : accepted s' = accepted s := by
    simp [accepted, inFlight, hpc, hpc', hwritten]
  have hpart : part c s' = part c s := by
    funext k
    unfold part
    rw [haccepted]
  refine ⟨?_, ?_, ?_, ?_, ?_, ?_, ?_, ?_, ?_, ?_⟩
  · have hlength := hs.length
    rw [hpc] at hlength
    rw [haccepted, hoffset, hpc', ← hlength]
    rfl
  · simp [Aligned, hpc']
  · rw [hthreads, hpart]
    exact hs.bodies
  · rw [hpc']
    exact nofun
  · rw [hbuffers, hpart]
    intro b'' hb''
    exact hs.buffers b'' (mem_eraseBuffer hb'').1
  · rw [hpc', hpart]
    intro b'' hb''
    have hsame : b'' = b' := by simpa [held] using hb''
    rw [hsame, hload, hpartNo]
    exact (hs.buffers b hb).1
  · rw [haccepted]
    intro k hk
    exact hs.nonempty k (hperm.mem_iff.mpr hk)
  · rw [haccepted, ← hperm.length_eq]
    exact hs.covered
  · rw [hthreads, hparts]
    exact hs.server
  · rw [haccesses]
    exact hs.accesses

theorem Stored.writerStep {s s' : Upload β} (hs : Stored c s) (hlive : Live c s)
    (hpartSize : 0 < c.partSize) (herror : s.hasError = false)
    (hfew : FewParts c s (.writer : Label β)) (hflushed : s.pc = .flushed → AllSucceeded s)
    (hstep : writerStep c s = some s') (hunfinalized : s'.uploadFinalized = false) :
    Stored c s' := by
  cases hpc : s.pc with
  | writing location data bytesWritten =>
      simp only [S3MultiPartUpload.writerStep, hpc] at hstep
      split at hstep
      · cases hstep
        rename_i hmore
        exact hs.writeChunk hlive hpartSize herror hpc hmore (hfew _ _ _ hpc hmore)
      · cases hstep
        rename_i hdone
        exact hs.finishWrite hpc (Nat.le_of_not_lt hdone)
  | waitingForSlot b caller =>
      simp only [S3MultiPartUpload.writerStep, hpc] at hstep
      split at hstep
      · cases hstep
      cases hstep
      exact hs.acquireSlot hlive hpc
  | flushingAll toFlush =>
      -- between two flushes no byte moves
      have hmove : ∀ pc : Pc β, held pc = [] → pending pc = 0 → inFlight pc = [] →
          ¬ Growing pc → Aligned { s with pc } → Stored c { s with pc } := by
        intro pc hheld hpending hflight hgrowing haligned
        refine hs.moveTo rfl rfl ?_ ?_ ?_ rfl hs.accesses (fun h => absurd h hgrowing) haligned
        · simp [held, hpc] at hheld ⊢
          exact hheld
        · simp [pending, hpc] at hpending ⊢
          exact hpending
        · simp [accepted, inFlight, hpc] at hflight ⊢
          exact hflight
      cases toFlush with
      | nil =>
          simp only [S3MultiPartUpload.writerStep, hpc] at hstep
          cases hstep
          exact hmove _ rfl rfl rfl id trivial
      | cons partNo toFlush =>
          simp only [S3MultiPartUpload.writerStep, hpc] at hstep
          split at hstep
          · cases hstep
            exact hmove _ rfl rfl rfl id trivial
          · rename_i b hfind
            obtain ⟨hb, rfl⟩ := findBuffer_eq_some hfind
            have hready := hlive.ready b hb
            have hnonempty : b.idx ≠ 0 := Nat.ne_of_gt hready.nonempty
            simp only [hready.waiting, Bool.false_eq_true, if_false, flushBuffer, hnonempty,
              herror, Option.some.injEq] at hstep
            subst hstep
            exact hs.takeBuffer hlive { b with uploading := true } hpc hb rfl rfl rfl rfl rfl rfl
              rfl rfl rfl
  | waitingForUploads =>
      simp only [S3MultiPartUpload.writerStep, hpc] at hstep
      split at hstep
      · cases hstep
      · rw [if_neg (by simp [herror])] at hstep
        cases hstep
        refine hs.moveTo rfl rfl ?_ ?_ ?_ rfl hs.accesses
          (fun hgrowing => absurd hgrowing id) trivial
        · simp [held, hpc]
        · simp [pending, hpc]
        · simp [accepted, inFlight, hpc]
  | flushed =>
      simp only [S3MultiPartUpload.writerStep, hpc] at hstep
      split at hstep
      · cases hstep
        rename_i hnone
        -- an upload without a byte: `Finalize` has nothing to complete
        have hthreads := (hlive.nothingUploaded hpc (hflushed hpc) hnone).1
        refine hs.moveTo rfl rfl ?_ ?_ ?_ rfl hs.accesses ?_ trivial
        · simp [held, hpc, returnFinalize, endFinalize]
        · simp [pending, hpc, returnFinalize, endFinalize]
        · simp [accepted, inFlight, hpc, returnFinalize, endFinalize]
        · exact fun _ => .inr hthreads
      · cases hstep
        unfold finalizeMultipartUpload at hunfinalized
        split at hunfinalized
        · rename_i hfinalized
          exact absurd hfinalized (by simpa [returnFinalize, endFinalize] using hunfinalized)
        · simp only at hunfinalized
          split at hunfinalized
          · cases hunfinalized
          · cases hunfinalized
  | idle | initializing b caller | initializingAll toFlush | uploadingSingle b
  | completing parts transientRetries | terminated =>
      simp [S3MultiPartUpload.writerStep, hpc] at hstep

theorem Stored.stay {s s' : Upload β} (hs : Stored c s) (hthreads : s'.threads = s.threads)
    (hbuffers : s'.writeBuffers = s.writeBuffers) (hoffset : s'.fileOffset = s.fileOffset)
    (hwritten : s'.written = s.written) (hparts : s'.parts = s.parts)
    (haccesses : ∀ a ∈ s'.accesses, a.1 + a.2 ≤ c.partSize)
    (hheld : held s.pc = []) (hpending : pending s.pc = 0) (hflight : inFlight s.pc = [])
    (hheld' : held s'.pc = []) (hpending' : pending s'.pc = 0) (hflight' : inFlight s'.pc = [])
    (hgrowing : Growing s.pc) (haligned : Aligned s') : Stored c s' := by
  refine hs.moveTo hthreads hbuffers ?_ ?_ ?_ hparts haccesses (fun _ => .inl hgrowing) haligned
  · rw [hheld, hheld']
  · rw [hpending, hpending', hoffset]
  · rw [accepted, accepted, hflight, hflight', hwritten]

theorem Stored.finalize {s s' : Upload β} {toFlush : List Nat} (hs : Stored c s)
    (hpc : s.pc = .idle) (hunfinalized : s.uploadFinalized = false)
    (hstep : finalize c s toFlush = some s') : Stored c s' := by
  have hheld : held s.pc = [] := by rw [hpc]; rfl
  have hpending : pending s.pc = 0 := by rw [hpc]; rfl
  have hflight : inFlight s.pc = [] := by rw [hpc]; rfl
  have hgrowing : Growing s.pc := by rw [hpc]; trivial
  unfold S3MultiPartUpload.finalize at hstep
  rw [if_neg (by simp [hunfinalized])] at hstep
  split at hstep
  · split at hstep
    · cases hstep
      exact hs.stay rfl rfl rfl rfl rfl hs.accesses hheld hpending hflight rfl rfl rfl hgrowing
        trivial
    · split at hstep
      · rename_i b hbuffers
        have hb : b ∈ s.writeBuffers := by simp [hbuffers]
        split at hstep
        · cases hstep
          exact hs.stay rfl rfl rfl rfl rfl (hs.accesses_append (hs.idx_le (.inr hb))) hheld
            hpending hflight rfl rfl rfl hgrowing trivial
        · cases hstep
          exact hs.stay rfl rfl rfl rfl rfl hs.accesses hheld hpending hflight rfl rfl rfl
            hgrowing trivial
      · cases hstep
        exact hs.stay rfl rfl rfl rfl rfl hs.accesses hheld hpending hflight rfl rfl rfl hgrowing
          trivial
  · cases hstep

theorem Stored.singleFailed {s : Upload β} {b : S3WriteBuffer β} (hs : Stored c s)
    (hpc : s.pc = .uploadingSingle b) (object : Option (List (Option β))) :
    Stored c (endFinalize { s with object }) := by
  have hheld : held s.pc = [] := by rw [hpc]; rfl
  have hpending : pending s.pc = 0 := by rw [hpc]; rfl
  have hflight : inFlight s.pc = [] := by rw [hpc]; rfl
  have hgrowing : Growing s.pc := by rw [hpc]; trivial
  exact hs.stay rfl rfl rfl rfl rfl hs.accesses hheld hpending hflight rfl rfl rfl hgrowing
    trivial

theorem Stored.threadMove {s s' : Upload β} {k : Nat} {t t' : UploadThread β}
    (hs : Stored c s) (hmove : ThreadMove s s' k t t') (hpc : s'.pc = s.pc)
    (hserver : ∀ t ∈ s'.threads, t.failed = false → ∀ etag, t.etag = some etag →
      s'.parts t.partNo = some (etag, t.body)) : Stored c s' := by
  have hnumbers := hmove.numbers hpc
  have hoffset : s'.fileOffset = s.fileOffset := by rw [hmove.rest]
  have hbuffers : s'.writeBuffers = s.writeBuffers := by rw [hmove.rest]
  have hwritten : s'.written = s.written := by rw [hmove.rest]
  have haccesses : s'.accesses = s.accesses := by rw [hmove.rest]
  have haccepted : accepted s' = accepted s := by
    unfold accepted
    rw [hpc, hwritten]
  have hpart : part c s' = part c s := by
    funext k
    unfold part
    rw [haccepted]
  refine ⟨?_, ?_, ?_, ?_, ?_, ?_, ?_, ?_, hserver, ?_⟩
  · rw [haccepted, hpc, hoffset]
    exact hs.length
  · have haligned := hs.aligned
    unfold Aligned at haligned ⊢
    rw [hpc, hoffset]
    exact haligned
  · rw [hpart, hmove.threads]
    apply forall_mem_setThread hs.bodies
    rw [hmove.body, hmove.partNo]
    exact hs.bodies t hmove.mem
  · rw [hpc, haccepted, hmove.threads]
    intro hgrowing
    apply forall_mem_setThread (hs.full hgrowing)
    rw [hmove.partNo]
    exact hs.full hgrowing t hmove.mem
  · rw [hpart, hbuffers]
    exact hs.buffers
  · rw [hpart, hpc]
    exact hs.inHand
  · rw [hnumbers, haccepted]
    exact hs.nonempty
  · rw [hnumbers, haccepted]
    exact hs.covered
  · rw [haccesses]
    exact hs.accesses

theorem Stored.partUploaded {s s' : Upload β} {k : Nat} {reply : PartReply} (hs : Stored c s)
    (hlive : Live c s) (hstep : partUploaded s k reply = some s') : Stored c s' := by
  obtain ⟨t, t', hmove⟩ := threadMove_of_partUploaded hstep
  apply hs.threadMove hmove (hlive.pc_eq hmove)
  -- the request of the thread touches its own part number only
  have hothers : ∀ (k : Nat) (t t' : UploadThread β) (etag : Bytes), s.threads[k]? = some t →
      t'.partNo = t.partNo → (t'.failed = false → t'.etag = some etag) → t'.body = t.body →
      ∀ u ∈ s.threads.set k t', u.failed = false → ∀ etag', u.etag = some etag' →
        Function.update s.parts t.partNo (some (etag, t.body)) u.partNo =
          some (etag', u.body) := by
    intro k t t' etag ht hpartNo hetag hbody u hu hfailed etag' hetag'
    by_cases hsame : u.partNo = t.partNo
    · have hnodup : ((s.threads.set k t').map (·.partNo)).Nodup := by
        rw [map_set_of_eq _ ht hpartNo]
        exact nodup_threads hlive.numbered
      have hut : u = t' :=
        List.inj_on_of_nodup_map hnodup hu (mem_set_self ht) (hsame.trans hpartNo.symm)
      subst hut
      rw [hetag hfailed, Option.some.injEq] at hetag'
      subst hetag'
      rw [hsame, Function.update_self, hbody]
    · rw [Function.update_of_ne hsame]
      rcases List.mem_or_eq_of_mem_set hu with hmem | rfl
      · exact hs.server u hmem hfailed etag' hetag'
      · exact absurd hpartNo hsame
  unfold S3MultiPartUpload.partUploaded at hstep
  split at hstep
  · cases hstep
  · rename_i t ht
    split at hstep
    · cases hstep
    · cases reply with
      | uploaded etag =>
          cases hstep
          exact hothers k t { t with stage := .insertingEtag etag, etag := some etag } etag ht rfl
            (fun _ => rfl) rfl
      | failed stored =>
          cases stored with
          | none =>
              cases hstep
              exact forall_mem_setThread hs.server nofun
          | some etag =>
              cases hstep
              exact hothers k t { t with stage := .pushingError, failed := true } etag ht rfl
                nofun rfl

theorem Stored.threadStep {s s' : Upload β} {k : Nat} (hs : Stored c s) (hlive : Live c s)
    (hstep : threadStep s k = some s') : Stored c s' := by
  obtain ⟨t, t', hmove⟩ := threadMove_of_threadStep hstep
  apply hs.threadMove hmove (hlive.pc_eq hmove)
  unfold S3MultiPartUpload.threadStep at hstep
  split at hstep
  · cases hstep
  · rename_i t ht
    have hself := hs.server t (List.mem_of_getElem? ht)
    simp only at hstep
    split at hstep
    · cases hstep
    · cases hstep
      exact forall_mem_setThread hs.server hself
    · cases hstep
      exact forall_mem_setThread hs.server hself
    · cases hstep
      exact forall_mem_setThread hs.server hself
    · split at hstep
      · cases hstep
        exact hs.server
      · cases hstep
        exact forall_mem_setThread hs.server hself
    · cases hstep

theorem Stored.step {s s' : Upload β} {l : Label β} (hs : Stored c s) (hsound : UploadsSound c s)
    (hpartSize : 0 < c.partSize) (herror : s.hasError = false)
    (hunfinalized : s.uploadFinalized = false) (hfew : FewParts c s l)
    (hkept : InitiateKept s l) (hstep : step c s l = some s')
    (hunfinalized' : s'.uploadFinalized = false) : Stored c s' := by
  have hlive := hsound.live herror hunfinalized
  cases l with
  | write location data =>
      simp only [S3MultiPartUpload.step] at hstep
      split at hstep
      · cases hstep
        rename_i hpc
        exact hs.write hpc location data
      · cases hstep
  | finalize toFlush =>
      simp only [S3MultiPartUpload.step] at hstep
      split at hstep
      · rename_i hpc
        exact hs.finalize hpc hunfinalized hstep
      · cases hstep
  | writer =>
      exact hs.writerStep hlive hpartSize herror hfew (fun hpc => (hsound.flushed hpc).2) hstep
        hunfinalized'
  | initialized ok => exact hs.initialized hlive hkept hstep
  | singleUploaded reply =>
      simp only [S3MultiPartUpload.step, singleUploaded] at hstep
      split at hstep
      · rename_i b hpc
        cases reply with
        | ok =>
            cases hstep
            cases hunfinalized'
        | failed tookEffect =>
            cases hstep
            exact hs.singleFailed hpc _
      · cases hstep
  | completed reply =>
      simp only [S3MultiPartUpload.step, completed] at hstep
      split at hstep
      · rename_i parts transientRetries hpc
        have hfinalized := (hsound.completing parts transientRetries hpc).1
        rw [hunfinalized] at hfinalized
        cases hfinalized
      · cases hstep
  | partUploaded k reply => exact hs.partUploaded hlive hstep
  | thread k => exact hs.threadStep hlive hstep

end HaybarnHttpfs.UploadData
