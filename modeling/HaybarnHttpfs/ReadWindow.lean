import HaybarnHttpfs.BufferedRead

/-!
The window of the read buffer, for any notion of which byte is good at which
position of the file: what a read does to the window, and which bytes it
returns.
-/

namespace HaybarnHttpfs.ReadWindow

open HaybarnHttpfs.Foundation.Memory
open HaybarnHttpfs.HttpState HaybarnHttpfs.RangeRequest HaybarnHttpfs.BufferedRead

universe u

variable {α : Type u} {Good : Nat → α → Prop}

/-- A cell that holds a byte which is good at `position`. -/
def CellGood (Good : Nat → α → Prop) (position : Nat) (cell : Option α) : Prop :=
  ∃ b, cell = some b ∧ Good position b

structure WindowGood (Good : Nat → α → Prop) (h : HTTPFileHandle α) : Prop where
  fits : h.bufferEnd - h.bufferStart ≤ h.readBuffer.size
  good : ∀ i < h.bufferEnd - h.bufferStart,
    CellGood Good (h.bufferStart + i) (h.readBuffer.cells i)

/-- An accepted range request delivers every byte asked for, and good ones. -/
def RepliesGood (Good : Nat → α → Prop) (serve : Nat → Nat → RangeReply α) : Prop :=
  ∀ offset len, accepted (serve offset len).result →
    ∀ i < len, CellGood Good (offset + i) ((serve offset len).written i)

def BytesGood (Good : Nat → α → Prop) (location : Nat) (bytes : List (Option α)) : Prop :=
  ∀ i cell, bytes[i]? = some cell → CellGood Good (location + i) cell

theorem BytesGood.append {location : Nat} {bytes more : List (Option α)}
    (hbytes : BytesGood Good location bytes)
    (hmore : BytesGood Good (location + bytes.length) more) :
    BytesGood Good location (bytes ++ more) := by
  intro i cell hcell
  by_cases hi : i < bytes.length
  · rw [List.getElem?_append_left hi] at hcell
    exact hbytes i cell hcell
  · have hi : bytes.length ≤ i := by omega
    rw [List.getElem?_append_right hi] at hcell
    have hgood := hmore _ cell hcell
    rwa [show location + bytes.length + (i - bytes.length) = location + i by omega] at hgood

theorem bytesGood_load {cells : Cells α} {location offset len : Nat}
    (hcells : ∀ i < len, CellGood Good (location + i) (cells (offset + i))) :
    BytesGood Good location (load cells offset len) := by
  intro i cell hcell
  have hi : i < len := by
    by_contra hout
    rw [List.getElem?_eq_none (by simpa using hout)] at hcell
    cases hcell
  have hloaded : cells (offset + i) = cell := by
    simpa [load, hi] using hcell
  rw [← hloaded]
  exact hcells i hi

/-- Two handles with the same window over the same buffer. -/
def SameWindow (h h' : HTTPFileHandle α) : Prop :=
  h'.readBuffer = h.readBuffer ∧ h'.bufferStart = h.bufferStart ∧
    h'.bufferEnd = h.bufferEnd

theorem SameWindow.refl (h : HTTPFileHandle α) : SameWindow h h := ⟨rfl, rfl, rfl⟩

theorem SameWindow.trans {h h' h'' : HTTPFileHandle α} (hfirst : SameWindow h h')
    (hsecond : SameWindow h' h'') : SameWindow h h'' :=
  ⟨hsecond.1.trans hfirst.1, hsecond.2.1.trans hfirst.2.1, hsecond.2.2.trans hfirst.2.2⟩

theorem WindowGood.of_same {h h' : HTTPFileHandle α} (hwindow : WindowGood Good h)
    (hsame : SameWindow h h') : WindowGood Good h' := by
  obtain ⟨hbuffer, hstart, hend⟩ := hsame
  refine ⟨?_, ?_⟩
  · rw [hstart, hend, hbuffer]
    exact hwindow.fits
  · rw [hstart, hend, hbuffer]
    exact hwindow.good

theorem sameWindow_tryRangeRequest (h : HTTPFileHandle α) (offset len : Nat)
    (reply : RangeReply α) : SameWindow h (tryRangeRequest h offset len reply).1 := by
  rw [tryRangeRequest_frame]
  exact ⟨rfl, rfl, rfl⟩

theorem sameWindow_enterWindow (h : HTTPFileHandle α) (location : Nat) :
    SameWindow h (enterWindow h location) := by
  unfold enterWindow
  split
  · exact ⟨rfl, rfl, rfl⟩
  · exact ⟨rfl, rfl, rfl⟩

theorem sameWindow_copyFromBuffer (s : ReadLoop α) :
    SameWindow s.handle (copyFromBuffer s).handle :=
  ⟨rfl, rfl, rfl⟩

theorem sameWindow_readCached (h : HTTPFileHandle α) (file : CachedFile α)
    (nrBytes location : Nat) : SameWindow h (readCached h file nrBytes location).1 := by
  unfold readCached
  split
  · exact SameWindow.refl h
  · split
    · exact ⟨rfl, rfl, rfl⟩
    · exact ⟨rfl, rfl, rfl⟩

theorem sameWindow_readUnbuffered (serve : Nat → Nat → RangeReply α) (h : HTTPFileHandle α)
    (nrBytes location : Nat) :
    SameWindow h (readUnbuffered serve h nrBytes location).1 := by
  have hsent := sameWindow_tryRangeRequest h location nrBytes (serve location nrBytes)
  unfold readUnbuffered
  simp only
  split
  all_goals
    rename_i hresult
    rw [hresult] at hsent
    exact hsent

theorem sameWindow_bypassBuffer {serve : Nat → Nat → RangeReply α} {s : ReadLoop α}
    {result : HTTPFileHandle α × ReadResult α} (hbypass : bypassBuffer serve s = .leave result) :
    SameWindow s.handle result.1 := by
  have hsent := sameWindow_tryRangeRequest s.handle (s.location + s.out.length) s.toRead
    (serve (s.location + s.out.length) s.toRead)
  unfold bypassBuffer at hbypass
  simp only at hbypass
  split at hbypass
  all_goals
    rename_i hresult
    rw [hresult] at hsent
    cases hbypass
    exact hsent

theorem refillBuffer_again {serve : Nat → Nat → RangeReply α} {s s' : ReadLoop α}
    (hrefill : refillBuffer serve s = .again s') :
    let len := refillLen s.handle s.startOffset
    let reply := serve s.startOffset len
    accepted reply.result ∧
      s' = { s with handle := s'.handle } ∧
      s'.handle.readBuffer =
        (refillReceived s.handle s.startOffset reply.written).readBuffer ∧
      s'.handle.bufferStart = s.startOffset ∧
      s'.handle.bufferEnd = s.startOffset + len ∧
      s'.handle.bufferIdx = 0 ∧ s'.handle.bufferAvailable = len := by
  unfold refillBuffer at hrefill
  simp only at hrefill
  split at hrefill
  · cases hrefill
  · cases hrefill
  cases hrefill
  rename_i hsent
  have hsame := sameWindow_tryRangeRequest
    (refillReceived s.handle s.startOffset
      (serve s.startOffset (refillLen s.handle s.startOffset)).written)
    s.startOffset (refillLen s.handle s.startOffset)
    (serve s.startOffset (refillLen s.handle s.startOffset))
  rw [hsent] at hsame
  exact ⟨tryRangeRequest_true hsent, rfl, hsame.1, rfl, rfl, rfl, rfl⟩

theorem refillBuffer_leave {serve : Nat → Nat → RangeReply α} {s : ReadLoop α}
    {result : HTTPFileHandle α × ReadResult α}
    (hrefill : refillBuffer serve s = .leave result) :
    let reply := serve s.startOffset (refillLen s.handle s.startOffset)
    accepted reply.result = false ∧
      SameWindow (refillReceived s.handle s.startOffset reply.written) result.1 := by
  have hsame := sameWindow_tryRangeRequest
    (refillReceived s.handle s.startOffset
      (serve s.startOffset (refillLen s.handle s.startOffset)).written)
    s.startOffset (refillLen s.handle s.startOffset)
    (serve s.startOffset (refillLen s.handle s.startOffset))
  have hverdict := tryRangeRequest_verdict
    (refillReceived s.handle s.startOffset
      (serve s.startOffset (refillLen s.handle s.startOffset)).written)
    s.startOffset (refillLen s.handle s.startOffset)
    (serve s.startOffset (refillLen s.handle s.startOffset))
  unfold refillBuffer at hrefill
  simp only at hrefill
  split at hrefill
  · rename_i hsent
    cases hrefill
    rw [hsent] at hsame hverdict
    exact ⟨by simpa using hverdict, hsame⟩
  · rename_i hsent
    cases hrefill
    rw [hsent] at hsame hverdict
    exact ⟨by simpa using hverdict, hsame⟩
  · cases hrefill

/-- `h'` has the window of the refill of `h` at `offset`. -/
def Refilled (h : HTTPFileHandle α) (offset : Nat) (written : Cells α)
    (h' : HTTPFileHandle α) : Prop :=
  h'.readBuffer = (refillReceived h offset written).readBuffer ∧
    h'.bufferStart = offset ∧ h'.bufferEnd = offset + refillLen h offset

theorem Refilled.trans {h h' h'' : HTTPFileHandle α} {offset : Nat} {written : Cells α}
    (hrefilled : Refilled h offset written h') (hsame : SameWindow h' h'') :
    Refilled h offset written h'' :=
  ⟨hsame.1.trans hrefilled.1, hsame.2.1.trans hrefilled.2.1, hsame.2.2.trans hrefilled.2.2⟩

theorem refillReceived_cells (h : HTTPFileHandle α) (offset : Nat) (written : Cells α)
    (i : Nat) :
    (refillReceived h offset written).readBuffer.cells i =
      (written i).or (if growsReadBuffer h offset then none else h.readBuffer.cells i) := by
  unfold refillReceived adaptReadBufferSize
  simp only [overlay]
  split
  · rfl
  · rfl

/-- A refill that keeps the window good: at each of its places a good byte is
delivered, or nothing is delivered and the buffer is not reallocated. -/
def RefillKeeps (Good : Nat → α → Prop) (h : HTTPFileHandle α) (offset : Nat)
    (written : Cells α) : Prop :=
  ∀ i < h.bufferEnd - h.bufferStart,
    CellGood Good (h.bufferStart + i) (written i) ∨
      (written i = none ∧ growsReadBuffer h offset = false)

theorem refillReceived_good {h : HTTPFileHandle α} {offset : Nat} {written : Cells α}
    (hwindow : WindowGood Good h) (hkeeps : RefillKeeps Good h offset written) :
    WindowGood Good (refillReceived h offset written) := by
  refine ⟨Nat.le_trans hwindow.fits (size_adaptReadBufferSize h offset), ?_⟩
  intro i hi
  rw [refillReceived_cells]
  rcases hkeeps i hi with ⟨b, hwritten, hgood⟩ | ⟨hnone, hgrows⟩
  · exact ⟨b, by simp [hwritten], hgood⟩
  · rw [hnone, hgrows]
    exact hwindow.good i hi

theorem refillKeeps_of_good {h : HTTPFileHandle α} {offset : Nat} {written : Cells α}
    (hgood : ∀ i < h.bufferEnd - h.bufferStart, CellGood Good (h.bufferStart + i)
      ((refillReceived h offset written).readBuffer.cells i)) :
    RefillKeeps Good h offset written := by
  intro i hi
  obtain ⟨b, hcell, hb⟩ := hgood i hi
  rw [refillReceived_cells] at hcell
  cases hwritten : written i with
  | some c =>
      rw [hwritten] at hcell
      exact .inl ⟨b, hcell, hb⟩
  | none =>
      right
      refine ⟨rfl, ?_⟩
      rw [hwritten] at hcell
      by_contra hgrows
      simp [hgrows] at hcell

/-- An accepted refill whose window is good: at each of its places a good byte is
delivered, or nothing is and the buffer already has a good one there. -/
def RefillDelivers (Good : Nat → α → Prop) (h : HTTPFileHandle α) (offset : Nat)
    (written : Cells α) : Prop :=
  ∀ i < refillLen h offset,
    CellGood Good (offset + i) (written i) ∨
      (written i = none ∧ growsReadBuffer h offset = false ∧
        CellGood Good (offset + i) (h.readBuffer.cells i))

theorem refillDelivers_iff (h : HTTPFileHandle α) (offset : Nat) (written : Cells α) :
    RefillDelivers Good h offset written ↔ ∀ i < refillLen h offset,
      CellGood Good (offset + i) ((refillReceived h offset written).readBuffer.cells i) := by
  refine forall_congr' fun i => imp_congr_right fun _ => ?_
  rw [refillReceived_cells]
  cases hwritten : written i with
  | some b => simp
  | none =>
      cases hgrows : growsReadBuffer h offset with
      | false => simp [CellGood]
      | true => simp [CellGood]

theorem Refilled.good {h h' : HTTPFileHandle α} {offset : Nat} {written : Cells α}
    (hdelivers : RefillDelivers Good h offset written)
    (hrefilled : Refilled h offset written h') : WindowGood Good h' := by
  obtain ⟨hbuffer, hstart, hend⟩ := hrefilled
  refine ⟨?_, ?_⟩
  · rw [hbuffer, hstart, hend]
    simp only [refillReceived, refillLen]
    omega
  · intro i hi
    rw [hstart, hend] at hi
    rw [hbuffer, hstart]
    exact (refillDelivers_iff h offset written).mp hdelivers i (by omega)

theorem Refilled.delivers {h h' : HTTPFileHandle α} {offset : Nat} {written : Cells α}
    (hrefilled : Refilled h offset written h')
    (hgood : ∀ i < h'.bufferEnd - h'.bufferStart,
      CellGood Good (h'.bufferStart + i) (h'.readBuffer.cells i)) :
    RefillDelivers Good h offset written := by
  obtain ⟨hbuffer, hstart, hend⟩ := hrefilled
  rw [hbuffer, hstart, hend, Nat.add_sub_cancel_left] at hgood
  exact (refillDelivers_iff h offset written).mpr hgood

theorem RepliesGood.delivers {serve : Nat → Nat → RangeReply α} {h : HTTPFileHandle α}
    {offset : Nat} (hreplies : RepliesGood Good serve)
    (haccepted : accepted (serve offset (refillLen h offset)).result) :
    RefillDelivers Good h offset (serve offset (refillLen h offset)).written :=
  fun i hi => .inl (hreplies offset _ haccepted i hi)

/-- The state of the loop after its first copy, from which a request follows if
anything is left to read. -/
def firstCopy (h : HTTPFileHandle α) (nrBytes location : Nat) : ReadLoop α :=
  copyFromBuffer (startLoop h nrBytes location)

theorem firstCopy_handle (h : HTTPFileHandle α) (nrBytes location : Nat) :
    ∃ bufferIdx bufferAvailable,
      (firstCopy h nrBytes location).handle = { h with bufferIdx, bufferAvailable } := by
  unfold firstCopy startLoop copyFromBuffer enterWindow
  split
  · exact ⟨_, _, rfl⟩
  · exact ⟨_, _, rfl⟩

/-- The offset of the refill that `ReadInternal` comes to, if any: what the
window does not hold is no longer than what the buffer may take. -/
def refillOffset (h : HTTPFileHandle α) (nrBytes location : Nat) : Option Nat :=
  let s := firstCopy h nrBytes location
  if h.cachedFileHandle.isSome ∨ (h.skipBuffer ∧ nrBytes > 0) ∨ s.toRead = 0 ∨
      s.toRead > min h.readBuffer.size (idxSub h.length s.startOffset) then none
  else some s.startOffset

/-- Of the refills of a read, one that is not accepted keeps the window. -/
def RefillHarmless (Good : Nat → α → Prop) (serve : Nat → Nat → RangeReply α)
    (h : HTTPFileHandle α) (nrBytes location : Nat) : Prop :=
  ∀ offset, refillOffset h nrBytes location = some offset →
    accepted (serve offset (refillLen h offset)).result ∨
      RefillKeeps Good h offset (serve offset (refillLen h offset)).written

/-- Of the refills of a read, one that is accepted establishes a good window. -/
def RefillExact (Good : Nat → α → Prop) (serve : Nat → Nat → RangeReply α)
    (h : HTTPFileHandle α) (nrBytes location : Nat) : Prop :=
  ∀ offset, refillOffset h nrBytes location = some offset →
    accepted (serve offset (refillLen h offset)).result →
      RefillDelivers Good h offset (serve offset (refillLen h offset)).written

theorem RepliesGood.refillExact {serve : Nat → Nat → RangeReply α}
    (hreplies : RepliesGood Good serve) (h : HTTPFileHandle α) (nrBytes location : Nat) :
    RefillExact Good serve h nrBytes location :=
  fun _ _ haccepted => hreplies.delivers haccepted

theorem firstCopy_sameWindow (h : HTTPFileHandle α) (nrBytes location : Nat) :
    SameWindow h (firstCopy h nrBytes location).handle :=
  sameWindow_enterWindow h location

theorem readOnce_startLoop (serve : Nat → Nat → RangeReply α) (h : HTTPFileHandle α)
    (nrBytes location : Nat) :
    readOnce serve (startLoop h nrBytes location) =
      if (firstCopy h nrBytes location).toRead = 0 then
        finishRead (firstCopy h nrBytes location).handle nrBytes location
          (firstCopy h nrBytes location).out
      else
        match requestRest serve (firstCopy h nrBytes location) with
        | .leave result => result
        | .again s =>
            finishRead (copyFromBuffer s).handle (copyFromBuffer s).nrBytes
              (copyFromBuffer s).location (copyFromBuffer s).out :=
  rfl

theorem refill_frame (h : HTTPFileHandle α) (bufferIdx bufferAvailable offset : Nat)
    (written : Cells α) :
    refillLen { h with bufferIdx, bufferAvailable } offset = refillLen h offset ∧
      SameWindow (refillReceived h offset written)
        (refillReceived { h with bufferIdx, bufferAvailable } offset written) := by
  have hgrows : growsReadBuffer { h with bufferIdx, bufferAvailable } offset =
      growsReadBuffer h offset := rfl
  unfold refillReceived refillLen adaptReadBufferSize
  rw [hgrows]
  split
  · exact ⟨rfl, rfl, rfl, rfl⟩
  · exact ⟨rfl, rfl, rfl, rfl⟩

theorem readOnce_of_refillOffset_none (serve : Nat → Nat → RangeReply α)
    {h : HTTPFileHandle α} {nrBytes location : Nat} (hcached : h.cachedFileHandle = none)
    (hbuffered : ¬ (h.skipBuffer ∧ nrBytes > 0))
    (hnone : refillOffset h nrBytes location = none) :
    SameWindow h (readOnce serve (startLoop h nrBytes location)).1 := by
  have hsame := firstCopy_sameWindow h nrBytes location
  obtain ⟨bufferIdx, bufferAvailable, hhandle⟩ := firstCopy_handle h nrBytes location
  simp only [refillOffset, hcached, hbuffered, Option.isSome_none, Bool.false_eq_true,
    false_or, ite_eq_left_iff, reduceCtorEq, imp_false, not_not] at hnone
  rw [readOnce_startLoop]
  split
  · exact hsame
  · rename_i hmore
    have hbypass : (firstCopy h nrBytes location).toRead >
        min (firstCopy h nrBytes location).handle.readBuffer.size
          (idxSub (firstCopy h nrBytes location).handle.length
            (firstCopy h nrBytes location).startOffset) := by
      rw [hhandle]
      exact hnone.resolve_left hmore
    have hrest : requestRest serve (firstCopy h nrBytes location) =
        bypassBuffer serve (firstCopy h nrBytes location) := if_pos hbypass
    rw [hrest]
    cases hnext : bypassBuffer serve (firstCopy h nrBytes location) with
    | leave result => exact hsame.trans (sameWindow_bypassBuffer hnext)
    | again s => exact absurd hnext (bypassBuffer_leaves serve _ s)

theorem readOnce_of_refillOffset_some (serve : Nat → Nat → RangeReply α)
    {h : HTTPFileHandle α} {nrBytes location offset : Nat}
    (hrefill : refillOffset h nrBytes location = some offset) :
    let reply := serve offset (refillLen h offset)
    let h' := (readOnce serve (startLoop h nrBytes location)).1
    (accepted reply.result ∧ Refilled h offset reply.written h') ∨
      (accepted reply.result = false ∧
        SameWindow (refillReceived h offset reply.written) h') := by
  obtain ⟨bufferIdx, bufferAvailable, hhandle⟩ := firstCopy_handle h nrBytes location
  simp only [refillOffset] at hrefill
  split at hrefill
  · cases hrefill
  cases hrefill
  rename_i hrefills
  simp only [not_or] at hrefills
  obtain ⟨-, -, hmore, hcovered⟩ := hrefills
  have hrest : requestRest serve (firstCopy h nrBytes location) =
      refillBuffer serve (firstCopy h nrBytes location) := by
    unfold requestRest
    rw [hhandle]
    exact if_neg hcovered
  have hframe := refill_frame h bufferIdx bufferAvailable
    (firstCopy h nrBytes location).startOffset
  rw [← hhandle] at hframe
  simp only [readOnce_startLoop, if_neg hmore, hrest]
  cases hnext : refillBuffer serve (firstCopy h nrBytes location) with
  | again s =>
      left
      obtain ⟨haccepted, -, hbuffer, hstart, hend, -⟩ := refillBuffer_again hnext
      rw [(hframe blank).1] at haccepted hbuffer hend
      refine ⟨haccepted, Refilled.trans ⟨?_, hstart, hend⟩ (sameWindow_copyFromBuffer s)⟩
      rw [hbuffer]
      exact (hframe _).2.1
  | leave result =>
      right
      obtain ⟨hrejected, hsame⟩ := refillBuffer_leave hnext
      rw [(hframe blank).1] at hrejected hsame
      exact ⟨hrejected, (hframe _).2.trans hsame⟩

theorem readInternal_of_loop {serve : Nat → Nat → RangeReply α} {h : HTTPFileHandle α}
    {nrBytes location : Nat} (hcached : h.cachedFileHandle = none)
    (hbuffered : ¬ (h.skipBuffer ∧ nrBytes > 0)) :
    readInternal serve h nrBytes location =
      some (readOnce serve (startLoop h nrBytes location)) := by
  simp only [readInternal, hcached, hbuffered, if_false]
  exact readLoop_eq_readOnce serve 0 _

theorem refillOffset_buffered {h : HTTPFileHandle α} {nrBytes location offset : Nat}
    (hrefill : refillOffset h nrBytes location = some offset) :
    h.cachedFileHandle = none ∧ ¬ (h.skipBuffer ∧ nrBytes > 0) := by
  simp only [refillOffset] at hrefill
  split at hrefill
  · cases hrefill
  · rename_i hrefills
    simp only [not_or] at hrefills
    exact ⟨by simpa using hrefills.1, hrefills.2.1⟩

theorem readInternal_of_refillOffset_none {serve : Nat → Nat → RangeReply α}
    {h h' : HTTPFileHandle α} {nrBytes location : Nat} {result : ReadResult α}
    (hnone : refillOffset h nrBytes location = none)
    (hread : readInternal serve h nrBytes location = some (h', result)) :
    SameWindow h h' := by
  cases hcached : h.cachedFileHandle with
  | some file =>
      simp only [readInternal, hcached, Option.some.injEq] at hread
      have hsame := sameWindow_readCached h file nrBytes location
      rw [hread] at hsame
      exact hsame
  | none =>
      by_cases hskip : h.skipBuffer ∧ nrBytes > 0
      · simp only [readInternal, hcached, if_pos hskip, Option.some.injEq] at hread
        have hsame := sameWindow_readUnbuffered serve h nrBytes location
        rw [hread] at hsame
        exact hsame
      · rw [readInternal_of_loop hcached hskip, Option.some.injEq] at hread
        have hsame := readOnce_of_refillOffset_none serve hcached hskip hnone
        rw [hread] at hsame
        exact hsame

/-- The window after `ReadInternal`: only a refill moves or rewrites it. -/
theorem readInternal_window {serve : Nat → Nat → RangeReply α} {h h' : HTTPFileHandle α}
    {nrBytes location : Nat} {result : ReadResult α}
    (hread : readInternal serve h nrBytes location = some (h', result)) :
    (refillOffset h nrBytes location = none ∧ SameWindow h h') ∨
      ∃ offset, refillOffset h nrBytes location = some offset ∧
        let reply := serve offset (refillLen h offset)
        ((accepted reply.result ∧ Refilled h offset reply.written h') ∨
          (accepted reply.result = false ∧
            SameWindow (refillReceived h offset reply.written) h')) := by
  cases hrefill : refillOffset h nrBytes location with
  | none => exact .inl ⟨rfl, readInternal_of_refillOffset_none hrefill hread⟩
  | some offset =>
      right
      refine ⟨offset, rfl, ?_⟩
      obtain ⟨hcached, hbuffered⟩ := refillOffset_buffered hrefill
      rw [readInternal_of_loop hcached hbuffered, Option.some.injEq] at hread
      have honce := readOnce_of_refillOffset_some serve hrefill
      rwa [hread] at honce

theorem WindowGood.readInternal {serve : Nat → Nat → RangeReply α}
    {h h' : HTTPFileHandle α} {nrBytes location : Nat} {result : ReadResult α}
    (hwindow : WindowGood Good h) (hexact : RefillExact Good serve h nrBytes location)
    (hharmless : RefillHarmless Good serve h nrBytes location)
    (hread : BufferedRead.readInternal serve h nrBytes location = some (h', result)) :
    WindowGood Good h' := by
  rcases readInternal_window hread with ⟨-, hsame⟩ | ⟨offset, hrefill, hend⟩
  · exact hwindow.of_same hsame
  · rcases hend with ⟨haccepted, hrefilled⟩ | ⟨hrejected, hsame⟩
    · exact hrefilled.good (hexact offset hrefill haccepted)
    · rcases hharmless offset hrefill with haccepted | hkeeps
      · rw [hrejected] at haccepted
        cases haccepted
      · exact (refillReceived_good hwindow hkeeps).of_same hsame

/-- The invariant of the read loop: the bytes copied are good, and what the
window still offers starts where the next byte is due. -/
structure Progress (Good : Nat → α → Prop) (s : ReadLoop α) : Prop where
  window : WindowGood Good s.handle
  available : s.handle.bufferAvailable = 0 ∨
    (s.handle.bufferStart + s.handle.bufferIdx = s.startOffset ∧
      s.handle.bufferIdx + s.handle.bufferAvailable =
        s.handle.bufferEnd - s.handle.bufferStart)
  offset : s.startOffset = s.location + s.out.length
  total : s.out.length + s.toRead = s.nrBytes
  bytes : BytesGood Good s.location s.out

theorem Progress.start {h : HTTPFileHandle α} (hwindow : WindowGood Good h)
    (nrBytes location : Nat) : Progress Good (startLoop h nrBytes location) := by
  refine ⟨hwindow.of_same (sameWindow_enterWindow h location), ?_, rfl, ?_, ?_⟩
  · simp only [startLoop, enterWindow]
    split
    · rename_i hin
      right
      simp only [inWindow] at hin
      simp only
      omega
    · left
      rfl
  · simp [startLoop]
  · intro i cell hcell
    simp [startLoop] at hcell

theorem Progress.copied {s : ReadLoop α} (hprogress : Progress Good s) :
    BytesGood Good s.startOffset (load s.handle.readBuffer.cells s.handle.bufferIdx
      (min s.handle.bufferAvailable s.toRead)) := by
  apply bytesGood_load
  intro i hi
  rcases hprogress.available with hnone | ⟨hstart, hend⟩
  · omega
  · have hgood := hprogress.window.good (s.handle.bufferIdx + i) (by omega)
    rwa [← Nat.add_assoc, hstart] at hgood

theorem Progress.copy {s : ReadLoop α} (hprogress : Progress Good s) :
    Progress Good (copyFromBuffer s) := by
  have hoffset := hprogress.offset
  have htotal := hprogress.total
  have hlength : (copyFromBuffer s).out.length =
      s.out.length + min s.handle.bufferAvailable s.toRead := by
    simp [copyFromBuffer]
  refine ⟨hprogress.window.of_same (sameWindow_copyFromBuffer s), ?_, ?_, ?_, ?_⟩
  · rcases hprogress.available with hnone | ⟨hstart, hend⟩
    · left
      simp [copyFromBuffer, hnone]
    · right
      simp only [copyFromBuffer]
      omega
  · rw [hlength]
    simp only [copyFromBuffer]
    omega
  · rw [hlength]
    simp only [copyFromBuffer]
    omega
  · apply hprogress.bytes.append
    rw [← hoffset]
    exact hprogress.copied

theorem load_of_accepted {serve : Nat → Nat → RangeReply α} {offset len : Nat}
    (hreplies : RepliesGood Good serve) (haccepted : accepted (serve offset len).result) :
    BytesGood Good offset (load (serve offset len).written 0 len) := by
  apply bytesGood_load
  intro i hi
  rw [Nat.zero_add]
  exact hreplies offset len haccepted i hi

theorem Progress.bypass {serve : Nat → Nat → RangeReply α} {s : ReadLoop α}
    {h' : HTTPFileHandle α} {bytes : List (Option α)} (hprogress : Progress Good s)
    (hreplies : RepliesGood Good serve)
    (hbypass : bypassBuffer serve s = .leave (h', .done bytes)) :
    bytes.length = s.nrBytes ∧ BytesGood Good s.location bytes := by
  unfold bypassBuffer at hbypass
  simp only at hbypass
  split at hbypass
  · cases hbypass
  · cases hbypass
  cases hbypass
  rename_i hsent
  refine ⟨?_, hprogress.bytes.append (load_of_accepted hreplies (tryRangeRequest_true hsent))⟩
  rw [List.length_append, length_load]
  exact hprogress.total

theorem Progress.refill {serve : Nat → Nat → RangeReply α} {s s' : ReadLoop α}
    (hprogress : Progress Good s) (hreplies : RepliesGood Good serve)
    (hrefill : refillBuffer serve s = .again s') : Progress Good s' := by
  obtain ⟨haccepted, hs', hbuffer, hstart, hend, hidx, havailable⟩ :=
    refillBuffer_again hrefill
  have hrefilled : Refilled s.handle s.startOffset _ s'.handle := ⟨hbuffer, hstart, hend⟩
  have hwindow := hrefilled.good (hreplies.delivers haccepted)
  rw [hs']
  refine ⟨hwindow, ?_, hprogress.offset, hprogress.total, hprogress.bytes⟩
  right
  simp only
  omega

theorem Progress.finish {s : ReadLoop α} (hprogress : Progress Good s)
    (hdone : s.toRead = 0) : s.out.length = s.nrBytes ∧ BytesGood Good s.location s.out := by
  have htotal := hprogress.total
  exact ⟨by omega, hprogress.bytes⟩

theorem readOnce_bytes {serve : Nat → Nat → RangeReply α} {h h' : HTTPFileHandle α}
    {nrBytes location : Nat} {bytes : List (Option α)} (hwindow : WindowGood Good h)
    (hreplies : RepliesGood Good serve)
    (hread : readOnce serve (startLoop h nrBytes location) = (h', .done bytes)) :
    bytes.length = nrBytes ∧ BytesGood Good location bytes := by
  have hcopy : Progress Good (firstCopy h nrBytes location) :=
    (Progress.start hwindow nrBytes location).copy
  rw [readOnce_startLoop] at hread
  split at hread
  · rename_i hdone
    cases hread
    exact hcopy.finish hdone
  · cases hnext : requestRest serve (firstCopy h nrBytes location) with
    | leave result =>
        rw [hnext] at hread
        subst hread
        unfold requestRest at hnext
        simp only at hnext
        split at hnext
        · exact hcopy.bypass hreplies hnext
        · unfold refillBuffer at hnext
          simp only at hnext
          split at hnext
          · cases hnext
          · cases hnext
          · cases hnext
    | again s =>
        rw [hnext] at hread
        cases hread
        have hdone := requestRest_covers hnext
        unfold requestRest at hnext
        simp only at hnext
        split at hnext
        · exact absurd hnext (bypassBuffer_leaves serve _ s)
        · obtain ⟨-, hs, -⟩ := refillBuffer_again hnext
          obtain ⟨hlength, hbytes⟩ := (hcopy.refill hreplies hnext).copy.finish hdone
          have hlocation : s.location = location := by
            rw [hs]
            rfl
          have hnrBytes : s.nrBytes = nrBytes := by
            rw [hs]
            rfl
          rw [← hlocation, ← hnrBytes]
          exact ⟨hlength, hbytes⟩

theorem readInternal_bytes {serve : Nat → Nat → RangeReply α} {h h' : HTTPFileHandle α}
    {nrBytes location : Nat} {bytes : List (Option α)} (hwindow : WindowGood Good h)
    (hreplies : RepliesGood Good serve) (hcached : h.cachedFileHandle = none)
    (hread : readInternal serve h nrBytes location = some (h', .done bytes)) :
    bytes.length = nrBytes ∧ BytesGood Good location bytes := by
  by_cases hskip : h.skipBuffer ∧ nrBytes > 0
  · simp only [readInternal, hcached, if_pos hskip, Option.some.injEq] at hread
    unfold readUnbuffered at hread
    simp only at hread
    split at hread
    · cases hread
    · cases hread
    cases hread
    rename_i hsent
    exact ⟨length_load _ _ _, load_of_accepted hreplies (tryRangeRequest_true hsent)⟩
  · rw [readInternal_of_loop hcached hskip, Option.some.injEq] at hread
    exact readOnce_bytes hwindow hreplies hread

end HaybarnHttpfs.ReadWindow
