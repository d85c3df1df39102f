import HaybarnHttpfs.HttpState
import HaybarnHttpfs.RangeRequest
import Mathlib.Algebra.GroupWithZero.Nat

/-!
`HTTPFileSystem::Read` and `Seek`: the read buffer of a handle, its window over
the file, and the range requests that refill or bypass it.
-/

namespace HaybarnHttpfs.BufferedRead

open HaybarnHttpfs.Foundation.Memory HaybarnHttpfs.HttpState HaybarnHttpfs.RangeRequest

universe u

variable {α : Type u}

/-- The difference of two `idx_t`, which wraps. -/
def idxSub (a b : Nat) : Nat := if b ≤ a then a - b else a + 2 ^ 64 - b

theorem idxSub_of_le {a b : Nat} (h : b ≤ a) : idxSub a b = a - b := if_pos h

structure AllocatedData (α : Type u) where
  size : Nat
  cells : Cells α

def allocate (size : Nat) : AllocatedData α := { size, cells := blank }

def initialReadBufferLen : Nat := 1048576
def maximumReadBufferLen : Nat := 33554432

structure RangeRequestStatistics where
  offset : Nat
  length : Nat
  deriving DecidableEq, Repr

/-- `requests` records every range request the handle has sent. -/
structure HTTPFileHandle (α : Type u) where
  directIo : Bool := false
  requireParallelAccess : Bool := false
  autoFallbackToFullDownload : Bool := true
  length : Nat
  fileOffset : Nat := 0
  bufferAvailable : Nat := 0
  bufferIdx : Nat := 0
  bufferStart : Nat := 0
  bufferEnd : Nat := 0
  readBuffer : AllocatedData α := allocate initialReadBufferLen
  rangeRequestStatistics : List RangeRequestStatistics := []
  cachedFileHandle : Option (CachedFile α) := none
  requests : List (Nat × Nat) := []

def HTTPFileHandle.skipBuffer (h : HTTPFileHandle α) : Bool :=
  h.directIo || h.requireParallelAccess

def growsReadBuffer (h : HTTPFileHandle α) (nextReadOffset : Nat) : Bool :=
  match h.rangeRequestStatistics.getLast? with
  | none => false
  | some lastRead =>
      lastRead.offset + lastRead.length = nextReadOffset &&
        h.readBuffer.size < maximumReadBufferLen

/-- Growing allocates anew: nothing is copied. -/
def adaptReadBufferSize (h : HTTPFileHandle α) (nextReadOffset : Nat) : HTTPFileHandle α :=
  if growsReadBuffer h nextReadOffset then
    { h with readBuffer := allocate (h.readBuffer.size * 2) }
  else h

/-- What one range request does: `written` are the bytes it delivered into the
buffer it was given, accepted or not. -/
structure RangeReply (α : Type u) where
  written : Cells α
  result : RangeResult

def RangeReply.ofTransfers (get : RangeGet) (transfers : List (Transfer α)) :
    RangeReply α :=
  { written := (runGetRangeRequest get transfers blank).1
    result := (runGetRangeRequest get transfers blank).2 }

inductive ReadError where
  | cachedFileNotInitialized
  | cachedFileTooShort
  | request (e : RangeError)
  | requestReturned (status : Nat)
  | fullDownloadFailed
  | sizeMismatch (headReported downloaded : Nat)
  | fallbackFailed
  deriving DecidableEq, Repr

/-- The statuses that `TryRangeRequest` takes for a success. -/
def acceptsHead (head : ResponseHead) : Bool :=
  head.success || head.status = 206 || head.status = 202

def accepted : RangeResult → Bool
  | .response head => acceptsHead head
  | _ => false

/-- The verdict of `TryRangeRequest` on a result; `false` asks for a fallback. -/
def rangeVerdict (autoFallback : Bool) : RangeResult → Except ReadError Bool
  | .response head =>
      if acceptsHead head then .ok true else .error (.requestReturned head.status)
  | .requestError .rangeRequestNotSupported =>
      if autoFallback then .ok false else .error (.request .rangeRequestNotSupported)
  | .requestError e => .error (.request e)
  | .threw e => .error (.request e)

def tryRangeRequest (h : HTTPFileHandle α) (fileOffset bufferOutLen : Nat)
    (reply : RangeReply α) : HTTPFileHandle α × Except ReadError Bool :=
  let h := { h with requests := h.requests ++ [(fileOffset, bufferOutLen)] }
  let verdict := rangeVerdict h.autoFallbackToFullDownload reply.result
  if accepted reply.result ∧ !h.requireParallelAccess then
    ({ h with
        rangeRequestStatistics :=
          h.rangeRequestStatistics ++ [{ offset := fileOffset, length := bufferOutLen }] },
      verdict)
  else (h, verdict)

/-- The loop of `ReadInternal`: `out` holds the bytes copied so far, so that its
length is `buffer_offset`. -/
structure ReadLoop (α : Type u) where
  handle : HTTPFileHandle α
  nrBytes : Nat
  location : Nat
  out : List (Option α)
  toRead : Nat
  startOffset : Nat

def copyFromBuffer (s : ReadLoop α) : ReadLoop α :=
  let h := s.handle
  let bufferReadLen := min h.bufferAvailable s.toRead
  { s with
    handle := { h with
      bufferIdx := h.bufferIdx + bufferReadLen
      bufferAvailable := h.bufferAvailable - bufferReadLen }
    out := s.out ++ load h.readBuffer.cells h.bufferIdx bufferReadLen
    toRead := s.toRead - bufferReadLen
    startOffset := s.startOffset + bufferReadLen }

/-- How `ReadInternal` ends: it returns `true` with the bytes read, returns
`false`, or throws. -/
inductive ReadResult (α : Type u) where
  | done (bytes : List (Option α))
  | notSupported
  | threw (e : ReadError)

inductive Iteration (α : Type u) where
  | again (s : ReadLoop α)
  | leave (result : HTTPFileHandle α × ReadResult α)

def finishRead (h : HTTPFileHandle α) (nrBytes location : Nat) (bytes : List (Option α)) :
    HTTPFileHandle α × ReadResult α :=
  ({ h with fileOffset := location + nrBytes }, .done bytes)

/-- The bypass: the rest is requested straight into the caller's buffer. -/
def bypassBuffer (serve : Nat → Nat → RangeReply α) (s : ReadLoop α) : Iteration α :=
  let offset := s.location + s.out.length
  let reply := serve offset s.toRead
  match tryRangeRequest s.handle offset s.toRead reply with
  | (h, .error e) => .leave (h, .threw e)
  | (h, .ok false) => .leave (h, .notSupported)
  | (h, .ok true) =>
      .leave (finishRead { h with bufferAvailable := 0, bufferIdx := 0 }
        s.nrBytes s.location (s.out ++ load reply.written 0 s.toRead))

/-- `new_buffer_available` of the refill that starts at `offset`, once the buffer
has been adapted. -/
def refillLen (h : HTTPFileHandle α) (offset : Nat) : Nat :=
  min (adaptReadBufferSize h offset).readBuffer.size (idxSub h.length offset)

/-- The handle once the bytes of a refill are in, with the window not yet moved. -/
def refillReceived (h : HTTPFileHandle α) (offset : Nat) (written : Cells α) :
    HTTPFileHandle α :=
  let readBuffer := (adaptReadBufferSize h offset).readBuffer
  { h with readBuffer := { readBuffer with cells := overlay written readBuffer.cells } }

def refillBuffer (serve : Nat → Nat → RangeReply α) (s : ReadLoop α) : Iteration α :=
  let newBufferAvailable := refillLen s.handle s.startOffset
  let reply := serve s.startOffset newBufferAvailable
  match tryRangeRequest (refillReceived s.handle s.startOffset reply.written)
      s.startOffset newBufferAvailable reply with
  -- the window stays where it was, over what the request left in the buffer
  | (h, .error e) => .leave (h, .threw e)
  | (h, .ok false) => .leave (h, .notSupported)
  | (h, .ok true) =>
      .again { s with handle := { h with
        bufferAvailable := newBufferAvailable
        bufferIdx := 0
        bufferStart := s.startOffset
        bufferEnd := s.startOffset + newBufferAvailable } }

def requestRest (serve : Nat → Nat → RangeReply α) (s : ReadLoop α) : Iteration α :=
  let newBufferAvailable :=
    min s.handle.readBuffer.size (idxSub s.handle.length s.startOffset)
  if s.toRead > newBufferAvailable then bypassBuffer serve s else refillBuffer serve s

def iterate (serve : Nat → Nat → RangeReply α) (s : ReadLoop α) : Iteration α :=
  let s := copyFromBuffer s
  if s.toRead > 0 ∧ s.handle.bufferAvailable = 0 then requestRest serve s else .again s

/-- `none` is lack of fuel. -/
def readLoop (serve : Nat → Nat → RangeReply α) :
    Nat → ReadLoop α → Option (HTTPFileHandle α × ReadResult α)
  | fuel, s =>
      if s.toRead = 0 then some (finishRead s.handle s.nrBytes s.location s.out)
      else
        match fuel with
        | 0 => none
        | fuel + 1 =>
            match iterate serve s with
            | .again s => readLoop serve fuel s
            | .leave result => some result

/-- Copying never comes up short twice: a refill covers what is left to read. -/
def readLoopFuel : Nat := 2

def inWindow (h : HTTPFileHandle α) (location : Nat) : Prop :=
  location ≥ h.bufferStart ∧ location < h.bufferEnd

instance (h : HTTPFileHandle α) (location : Nat) : Decidable (inWindow h location) :=
  inferInstanceAs (Decidable (_ ∧ _))

def enterWindow (h : HTTPFileHandle α) (location : Nat) : HTTPFileHandle α :=
  if inWindow h location then
    let bufferIdx := location - h.bufferStart
    { h with bufferIdx, bufferAvailable := (h.bufferEnd - h.bufferStart) - bufferIdx }
  else { h with bufferAvailable := 0, bufferIdx := 0 }

def readCached (h : HTTPFileHandle α) (file : CachedFile α) (nrBytes location : Nat) :
    HTTPFileHandle α × ReadResult α :=
  if !file.initialized then (h, .threw .cachedFileNotInitialized)
  else if file.size < location + nrBytes then (h, .threw .cachedFileTooShort)
  else finishRead h nrBytes location (load file.data location nrBytes)

def readUnbuffered (serve : Nat → Nat → RangeReply α) (h : HTTPFileHandle α)
    (nrBytes location : Nat) : HTTPFileHandle α × ReadResult α :=
  let reply := serve location nrBytes
  match tryRangeRequest h location nrBytes reply with
  | (h, .error e) => (h, .threw e)
  | (h, .ok false) => (h, .notSupported)
  | (h, .ok true) =>
      finishRead { h with bufferAvailable := 0, bufferIdx := 0 } nrBytes location
        (load reply.written 0 nrBytes)

def startLoop (h : HTTPFileHandle α) (nrBytes location : Nat) : ReadLoop α :=
  { handle := enterWindow h location, nrBytes, location, out := [], toRead := nrBytes,
    startOffset := location }

def readInternal (serve : Nat → Nat → RangeReply α) (h : HTTPFileHandle α)
    (nrBytes location : Nat) : Option (HTTPFileHandle α × ReadResult α) :=
  match h.cachedFileHandle with
  | some file => some (readCached h file nrBytes location)
  | none =>
      if h.skipBuffer ∧ nrBytes > 0 then some (readUnbuffered serve h nrBytes location)
      else readLoop serve readLoopFuel (startLoop h nrBytes location)

/-- How `FullDownload` ends. The content handler counts into the length of the
handle, so that a failed download leaves any length behind. -/
inductive Download (α : Type u) where
  | failed (length : Nat)
  | completed (size : Nat) (data : Cells α)

def fullDownload (h : HTTPFileHandle α) :
    Download α → HTTPFileHandle α × Except ReadError Nat
  | .failed length =>
      ({ h with
          length
          cachedFileHandle := some {} },
        .error .fullDownloadFailed)
  | .completed size data =>
      ({ h with
          length := size
          cachedFileHandle := some { initialized := true, size, data } },
        .ok size)

def retryRead (serve : Nat → Nat → RangeReply α) (download : Download α)
    (h : HTTPFileHandle α) (nrBytes location : Nat) :
    Option (HTTPFileHandle α × Except ReadError (List (Option α))) :=
  match fullDownload h download with
  | (h', .error e) => some (h', .error e)
  | (h', .ok downloadedLength) =>
      -- `h.length` is what was recorded before the download
      if downloadedLength ≠ h.length then
        some ({ h' with cachedFileHandle := none },
          .error (.sizeMismatch h.length downloadedLength))
      else
        match readInternal serve h' nrBytes location with
        | none => none
        | some (h', .done bytes) => some (h', .ok bytes)
        | some (h', .threw e) => some (h', .error e)
        | some (h', .notSupported) => some (h', .error .fallbackFailed)

def read (serve : Nat → Nat → RangeReply α) (download : Download α)
    (h : HTTPFileHandle α) (nrBytes location : Nat) :
    Option (HTTPFileHandle α × Except ReadError (List (Option α))) :=
  match readInternal serve h nrBytes location with
  | none => none
  | some (h, .done bytes) => some (h, .ok bytes)
  | some (h, .threw e) => some (h, .error e)
  | some (h, .notSupported) => retryRead serve download h nrBytes location

/-- The length that `Read` without a location asks for. -/
def clampedRead (h : HTTPFileHandle α) (nrBytes : Nat) : Nat :=
  min (idxSub h.length h.fileOffset) nrBytes

def seek (h : HTTPFileHandle α) (location : Nat) : HTTPFileHandle α :=
  { h with fileOffset := location }

/-- The loop without the fuel: one copy, at most one range request, and after a
refill a second copy that finishes the read. -/
def readOnce (serve : Nat → Nat → RangeReply α) (s : ReadLoop α) :
    HTTPFileHandle α × ReadResult α :=
  let s := copyFromBuffer s
  if s.toRead = 0 then finishRead s.handle s.nrBytes s.location s.out
  else
    match requestRest serve s with
    | .leave result => result
    | .again s =>
        let s := copyFromBuffer s
        finishRead s.handle s.nrBytes s.location s.out

theorem copyFromBuffer_available {s : ReadLoop α} (hleft : (copyFromBuffer s).toRead ≠ 0) :
    (copyFromBuffer s).handle.bufferAvailable = 0 := by
  simp only [copyFromBuffer] at hleft ⊢
  omega

theorem size_adaptReadBufferSize (h : HTTPFileHandle α) (offset : Nat) :
    h.readBuffer.size ≤ (adaptReadBufferSize h offset).readBuffer.size := by
  unfold adaptReadBufferSize
  split
  · simp only [allocate]
    omega
  · exact Nat.le_refl _

theorem tryRangeRequest_frame (h : HTTPFileHandle α) (offset len : Nat)
    (reply : RangeReply α) :
    (tryRangeRequest h offset len reply).1 =
      { h with
        requests := h.requests ++ [(offset, len)]
        rangeRequestStatistics :=
          (tryRangeRequest h offset len reply).1.rangeRequestStatistics } := by
  unfold tryRangeRequest
  simp only
  split
  · rfl
  · rfl

theorem rangeVerdict_true_iff (autoFallback : Bool) (result : RangeResult) :
    rangeVerdict autoFallback result = .ok true ↔ accepted result := by
  unfold rangeVerdict accepted
  split
  · split
    · simp [*]
    · simp [*]
  · split
    · simp
    · simp
  · simp
  · simp

theorem tryRangeRequest_verdict (h : HTTPFileHandle α) (offset len : Nat)
    (reply : RangeReply α) :
    (tryRangeRequest h offset len reply).2 = .ok true ↔ accepted reply.result := by
  rw [← rangeVerdict_true_iff h.autoFallbackToFullDownload]
  unfold tryRangeRequest
  simp only
  split
  · rfl
  · rfl

theorem tryRangeRequest_true {h h' : HTTPFileHandle α} {offset len : Nat}
    {reply : RangeReply α} (htrue : tryRangeRequest h offset len reply = (h', .ok true)) :
    accepted reply.result :=
  (tryRangeRequest_verdict h offset len reply).mp (congrArg Prod.snd htrue)

theorem bypassBuffer_leaves (serve : Nat → Nat → RangeReply α) (s s' : ReadLoop α) :
    bypassBuffer serve s ≠ .again s' := by
  unfold bypassBuffer
  simp only
  split
  · simp
  · simp
  · simp

theorem refillBuffer_covers {serve : Nat → Nat → RangeReply α} {s s' : ReadLoop α}
    (hcovered : s.toRead ≤ min s.handle.readBuffer.size
      (idxSub s.handle.length s.startOffset))
    (hrefill : refillBuffer serve s = .again s') :
    (copyFromBuffer s').toRead = 0 := by
  unfold refillBuffer at hrefill
  simp only at hrefill
  split at hrefill
  · cases hrefill
  · cases hrefill
  cases hrefill
  have hsize := size_adaptReadBufferSize s.handle s.startOffset
  simp only [copyFromBuffer, refillLen]
  omega

theorem copyFromBuffer_of_done {s : ReadLoop α} (hdone : s.toRead = 0) :
    copyFromBuffer s = s := by
  obtain ⟨h, nrBytes, location, out, toRead, startOffset⟩ := s
  subst hdone
  simp [copyFromBuffer]

theorem requestRest_covers {serve : Nat → Nat → RangeReply α} {s s' : ReadLoop α}
    (hagain : requestRest serve s = .again s') : (copyFromBuffer s').toRead = 0 := by
  unfold requestRest at hagain
  simp only at hagain
  split at hagain
  · exact absurd hagain (bypassBuffer_leaves serve s s')
  · exact refillBuffer_covers (by omega) hagain

theorem readLoop_of_covered (serve : Nat → Nat → RangeReply α) (fuel : Nat) {s : ReadLoop α}
    (hcovered : (copyFromBuffer s).toRead = 0) :
    readLoop serve (fuel + 1) s =
      some (finishRead (copyFromBuffer s).handle (copyFromBuffer s).nrBytes
        (copyFromBuffer s).location (copyFromBuffer s).out) := by
  unfold readLoop
  by_cases hdone : s.toRead = 0
  · simp [hdone, copyFromBuffer_of_done]
  · simp only [hdone, if_false, iterate, hcovered, gt_iff_lt, Nat.lt_irrefl, false_and]
    unfold readLoop
    simp [hcovered]

/-- The loop ends: two iterations are enough from any state of the handle. -/
theorem readLoop_eq_readOnce (serve : Nat → Nat → RangeReply α) (fuel : Nat)
    (s : ReadLoop α) :
    readLoop serve (fuel + 2) s = some (readOnce serve s) := by
  by_cases hcovered : (copyFromBuffer s).toRead = 0
  · rw [readLoop_of_covered serve (fuel + 1) hcovered]
    simp [readOnce, hcovered]
  · have hdone : s.toRead ≠ 0 := by
      intro hdone
      rw [copyFromBuffer_of_done hdone] at hcovered
      exact hcovered hdone
    have hmore : (copyFromBuffer s).toRead > 0 ∧
        (copyFromBuffer s).handle.bufferAvailable = 0 :=
      ⟨by omega, copyFromBuffer_available hcovered⟩
    unfold readLoop
    simp only [hdone, if_false, iterate, hmore, and_self, if_true, readOnce, hcovered]
    cases hnext : requestRest serve (copyFromBuffer s) with
    | leave result => rfl
    | again s' => exact readLoop_of_covered serve fuel (requestRest_covers hnext)

end HaybarnHttpfs.BufferedRead
