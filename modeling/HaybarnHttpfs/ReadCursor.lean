import HaybarnHttpfs.Foundation.Refinement
import HaybarnHttpfs.ReadIntegrity

/-!
A handle over an immutable object, with a server that answers every range in
full, is a cursor: reads and seeks of the code refine reads and seeks of a
position in the object.
-/

namespace HaybarnHttpfs.ReadCursor

open HaybarnHttpfs.Foundation.Memory HaybarnHttpfs.Foundation.Refinement
open HaybarnHttpfs.RangeRequest HaybarnHttpfs.BufferedRead HaybarnHttpfs.ReadWindow
open HaybarnHttpfs.ReadIntegrity

universe u

variable {α : Type u} {object : List α}

/-- A server of an immutable object: an accepted range request lies within the
object and delivers exactly its bytes. A request that fails may have delivered
anything. -/
structure HonestServer (object : List α) where
  serve : Nat → Nat → RangeReply α
  exact : ∀ offset len, accepted (serve offset len).result →
    offset + len ≤ object.length ∧
      ∀ i < len, (serve offset len).written i = object[offset + i]?

/-- The attempts of one request to a server that conforms: a response that would
be taken for data is a success below 300 and, if its body has the length asked
for, the body is the range asked for. -/
def Conforming (object : List α) (offset len : Nat) (transfers : List (Transfer α)) : Prop :=
  ∀ transfer ∈ transfers, ∀ head, transfer.head = some head → transfer.completed →
    head.status < 400 → acceptsHead head →
      head.status < 300 ∧ head.success ∧
        (transfer.chunks.flatten.length = len →
          offset + len ≤ object.length ∧ transfer.chunks.flatten = slice object offset len)

/-- `RunGetRangeRequest` against a conforming server is an honest server. -/
def HonestServer.ofTransfers (get : RangeGet) (script : Nat → Nat → List (Transfer α))
    (hscript : ∀ offset len, Conforming object offset len (script offset len)) :
    HonestServer object where
  serve offset len :=
    RangeReply.ofTransfers { get with bufferOutLen := len } (script offset len)
  exact offset len haccepted := by
    unfold RangeReply.ofTransfers at haccepted ⊢
    rcases hrequest : runGetRangeRequest { get with bufferOutLen := len }
      (script offset len) blank with ⟨written, head | e | e⟩
    · rw [hrequest] at haccepted
      obtain ⟨transfer, htransfer, hhead, hcompleted, hclient, hstored⟩ :=
        runGetRangeRequest_response hrequest
      obtain ⟨hstatus, hsuccess, hbody⟩ :=
        hscript offset len transfer htransfer head hhead hcompleted hclient haccepted
      obtain ⟨-, hholds, hlen⟩ := hstored hstatus
      obtain ⟨hbounded, hslice⟩ := hbody (hlen hsuccess)
      refine ⟨hbounded, ?_⟩
      intro i hi
      have hlength := hlen hsuccess
      change written i = object[offset + i]?
      rw [hholds i (by simpa [hlength] using hi), hslice, getElem?_slice hi]
    · rw [hrequest] at haccepted
      cases haccepted
    · rw [hrequest] at haccepted
      cases haccepted

theorem HonestServer.repliesGood (server : HonestServer object) :
    RepliesGood (Stored object) server.serve := by
  intro offset len haccepted i hi
  obtain ⟨hbounded, hexact⟩ := server.exact offset len haccepted
  have hobject : offset + i < object.length := by omega
  exact ⟨object[offset + i], by rw [hexact i hi, List.getElem?_eq_getElem hobject],
    List.getElem?_eq_getElem hobject⟩

/-- An honest server that accepts every nonempty range within the object. -/
structure ExactServer (object : List α) extends HonestServer object where
  accepts : ∀ offset len, 0 < len → offset + len ≤ object.length →
    accepted (serve offset len).result

inductive CursorOp (object : List α) where
  | readAt (nrBytes location : Nat) (server : ExactServer object) (download : Download α)
  | readNext (nrBytes : Nat) (server : ExactServer object) (download : Download α)
  | seek (location : Nat)

/-- The bytes an operation returns and the position it leaves. -/
structure CursorAnswer (β : Type u) where
  bytes : β
  position : Nat

/-- The abstract cursor: a position in the object. A read is defined where it
stays within the object; a read without a location is cut at the end. -/
def cursorStep (object : List α) (position : Nat) :
    CursorOp object → Option (Nat × CursorAnswer (List α))
  | .readAt nrBytes location _ _ =>
      if location + nrBytes ≤ object.length then
        some (location + nrBytes, ⟨slice object location nrBytes, location + nrBytes⟩)
      else none
  | .readNext nrBytes _ _ =>
      if position ≤ object.length then
        let nrBytes := min (object.length - position) nrBytes
        some (position + nrBytes, ⟨slice object position nrBytes, position + nrBytes⟩)
      else none
  | .seek location => some (location, ⟨[], location⟩)

def answerRead :
    Option (HTTPFileHandle α × Except ReadError (List (Option α))) →
      Option (HTTPFileHandle α × CursorAnswer (Except ReadError (List (Option α))))
  | none => none
  | some (h, result) => some (h, ⟨result, h.fileOffset⟩)

def handleStep (h : HTTPFileHandle α) :
    CursorOp object →
      Option (HTTPFileHandle α × CursorAnswer (Except ReadError (List (Option α))))
  | .readAt nrBytes location server download =>
      answerRead (read server.serve download h nrBytes location)
  | .readNext nrBytes server download =>
      answerRead (read server.serve download h (clampedRead h nrBytes) h.fileOffset)
  | .seek location => some (BufferedRead.seek h location, ⟨.ok [], location⟩)

def Agree (answer : CursorAnswer (Except ReadError (List (Option α))))
    (answer' : CursorAnswer (List α)) : Prop :=
  answer.bytes = .ok (answer'.bytes.map some) ∧ answer.position = answer'.position

/-- No range request of zero length, none past the end. -/
def RequestsWithin (object : List α) (h : HTTPFileHandle α) : Prop :=
  ∀ request ∈ h.requests, 0 < request.2 ∧ request.1 + request.2 ≤ object.length

structure Ready (object : List α) (h : HTTPFileHandle α) : Prop where
  window : WindowGood (Stored object) h
  length : h.length = object.length
  uncached : h.cachedFileHandle = none
  requests : RequestsWithin object h

structure Represents (h : HTTPFileHandle α) (object : List α) (position : Nat) : Prop where
  ready : Ready object h
  position : h.fileOffset = position

theorem RequestsWithin.snoc {h : HTTPFileHandle α} {offset len : Nat}
    (hrequests : RequestsWithin object h) (hlen : 0 < len)
    (hbounded : offset + len ≤ object.length) :
    ∀ request ∈ h.requests ++ [(offset, len)],
      0 < request.2 ∧ request.1 + request.2 ≤ object.length := by
  intro request hrequest
  rcases List.mem_append.mp hrequest with hold | hnew
  · exact hrequests request hold
  · rw [List.mem_singleton.mp hnew]
    exact ⟨hlen, hbounded⟩

theorem tryRangeRequest_accepted (h : HTTPFileHandle α) (offset len : Nat)
    {reply : RangeReply α} (haccepted : accepted reply.result) :
    ∃ rangeRequestStatistics, tryRangeRequest h offset len reply =
      ({ h with requests := h.requests ++ [(offset, len)], rangeRequestStatistics },
        .ok true) := by
  refine ⟨(tryRangeRequest h offset len reply).1.rangeRequestStatistics, ?_⟩
  apply Prod.ext
  · exact tryRangeRequest_frame h offset len reply
  · exact (tryRangeRequest_verdict h offset len reply).mpr haccepted

theorem load_eq_slice_of_accepted (server : ExactServer object) {offset len : Nat}
    (haccepted : accepted (server.serve offset len).result) :
    load (server.serve offset len).written 0 len = (slice object offset len).map some := by
  have hbytes := eq_slice_of_bytesGood
    (load_of_accepted server.toHonestServer.repliesGood haccepted)
  rwa [length_load] at hbytes

theorem eq_slice_of_progress {s : ReadLoop α} (hprogress : Progress (Stored object) s)
    (hdone : s.toRead = 0) : s.out = (slice object s.location s.nrBytes).map some := by
  obtain ⟨hlength, hbytes⟩ := hprogress.finish hdone
  rw [← hlength]
  exact eq_slice_of_bytesGood hbytes

theorem readUnbuffered_exact (server : ExactServer object) {h : HTTPFileHandle α}
    {nrBytes location : Nat} (hready : Ready object h) (hpositive : 0 < nrBytes)
    (hbounded : location + nrBytes ≤ object.length) :
    ∃ h', readUnbuffered server.serve h nrBytes location =
        (h', .done ((slice object location nrBytes).map some)) ∧
      Represents h' object (location + nrBytes) := by
  have haccepted := server.accepts location nrBytes hpositive hbounded
  obtain ⟨statistics, hsent⟩ := tryRangeRequest_accepted h location nrBytes haccepted
  unfold readUnbuffered
  simp only [hsent]
  rw [load_eq_slice_of_accepted server haccepted]
  refine ⟨_, rfl, ⟨?_, hready.length, hready.uncached, ?_⟩, rfl⟩
  · exact hready.window.of_same ⟨rfl, rfl, rfl⟩
  · exact hready.requests.snoc hpositive hbounded

theorem Ready.firstCopy {h : HTTPFileHandle α} (hready : Ready object h)
    (nrBytes location : Nat) :
    Ready object (firstCopy h nrBytes location).handle ∧
      Progress (Stored object) (firstCopy h nrBytes location) := by
  refine ⟨?_, (Progress.start hready.window nrBytes location).copy⟩
  have hsame := firstCopy_sameWindow h nrBytes location
  obtain ⟨bufferIdx, bufferAvailable, hhandle⟩ := firstCopy_handle h nrBytes location
  refine ⟨hready.window.of_same hsame, ?_, ?_, ?_⟩
  · rw [hhandle]
    exact hready.length
  · rw [hhandle]
    exact hready.uncached
  · rw [hhandle]
    exact hready.requests

theorem bypassBuffer_exact (server : ExactServer object) {s : ReadLoop α}
    (hready : Ready object s.handle) (hprogress : Progress (Stored object) s)
    (hpositive : 0 < s.toRead) (hbounded : s.location + s.nrBytes ≤ object.length) :
    ∃ h', bypassBuffer server.serve s =
        .leave (h', .done ((slice object s.location s.nrBytes).map some)) ∧
      Represents h' object (s.location + s.nrBytes) := by
  have htotal := hprogress.total
  have hwithin : s.location + s.out.length + s.toRead ≤ object.length := by omega
  have haccepted := server.accepts _ _ hpositive hwithin
  obtain ⟨statistics, hsent⟩ := tryRangeRequest_accepted s.handle
    (s.location + s.out.length) s.toRead haccepted
  have hbytes : s.out ++ load (server.serve (s.location + s.out.length) s.toRead).written
      0 s.toRead = (slice object s.location s.nrBytes).map some := by
    rw [load_eq_slice_of_accepted server haccepted, ← htotal, ← slice_append,
      List.map_append, ← eq_slice_of_bytesGood hprogress.bytes]
  unfold bypassBuffer
  simp only [hsent, hbytes]
  refine ⟨_, rfl, ⟨?_, hready.length, hready.uncached, ?_⟩, rfl⟩
  · exact hready.window.of_same ⟨rfl, rfl, rfl⟩
  · exact hready.requests.snoc hpositive hwithin

theorem refillBuffer_exact (server : ExactServer object) {s : ReadLoop α}
    (hready : Ready object s.handle) (hprogress : Progress (Stored object) s)
    (hpositive : 0 < s.toRead)
    (hcovered : s.toRead ≤ min s.handle.readBuffer.size
      (idxSub s.handle.length s.startOffset))
    (hbounded : s.startOffset ≤ object.length) :
    ∃ s', refillBuffer server.serve s = .again s' ∧ Ready object s'.handle ∧
      Progress (Stored object) s' ∧ s'.location = s.location ∧ s'.nrBytes = s.nrBytes := by
  have hsize := size_adaptReadBufferSize s.handle s.startOffset
  have hlength : idxSub s.handle.length s.startOffset = object.length - s.startOffset := by
    rw [hready.length, idxSub_of_le hbounded]
  have hlen : 0 < refillLen s.handle s.startOffset := by
    unfold refillLen
    omega
  have hwithin : s.startOffset + refillLen s.handle s.startOffset ≤ object.length := by
    unfold refillLen
    omega
  have haccepted := server.accepts _ _ hlen hwithin
  obtain ⟨statistics, hsent⟩ := tryRangeRequest_accepted
    (refillReceived s.handle s.startOffset
      (server.serve s.startOffset (refillLen s.handle s.startOffset)).written)
    s.startOffset (refillLen s.handle s.startOffset) haccepted
  have hrefill : ∃ s', refillBuffer server.serve s = .again s' ∧
      s'.handle.length = s.handle.length ∧
      s'.handle.cachedFileHandle = s.handle.cachedFileHandle ∧
      s'.handle.requests = s.handle.requests ++
        [(s.startOffset, refillLen s.handle s.startOffset)] ∧
      s'.location = s.location ∧ s'.nrBytes = s.nrBytes := by
    unfold refillBuffer
    simp only [hsent]
    exact ⟨_, rfl, rfl, rfl, rfl, rfl, rfl⟩
  obtain ⟨s', hrefill, hlength', hcached', hrequests', hlocation, hnrBytes⟩ := hrefill
  have hprogress' := hprogress.refill server.toHonestServer.repliesGood hrefill
  refine ⟨s', hrefill, ⟨hprogress'.window, ?_, ?_, ?_⟩, hprogress', hlocation, hnrBytes⟩
  · rw [hlength', hready.length]
  · rw [hcached', hready.uncached]
  · unfold RequestsWithin
    rw [hrequests']
    exact hready.requests.snoc hlen hwithin

theorem finishRead_represents {s : ReadLoop α} (hready : Ready object s.handle)
    (hprogress : Progress (Stored object) s) (hdone : s.toRead = 0) :
    ∃ h', finishRead s.handle s.nrBytes s.location s.out =
        (h', .done ((slice object s.location s.nrBytes).map some)) ∧
      Represents h' object (s.location + s.nrBytes) := by
  rw [eq_slice_of_progress hprogress hdone]
  exact ⟨_, rfl, ⟨hready.window.of_same ⟨rfl, rfl, rfl⟩, hready.length, hready.uncached,
    hready.requests⟩, rfl⟩

theorem Ready.copyFromBuffer {s : ReadLoop α} (hready : Ready object s.handle) :
    Ready object (copyFromBuffer s).handle :=
  ⟨hready.window.of_same (sameWindow_copyFromBuffer s), hready.length, hready.uncached,
    hready.requests⟩

theorem readOnce_exact (server : ExactServer object) {h : HTTPFileHandle α}
    {nrBytes location : Nat} (hready : Ready object h)
    (hbounded : location + nrBytes ≤ object.length) :
    ∃ h', readOnce server.serve (startLoop h nrBytes location) =
        (h', .done ((slice object location nrBytes).map some)) ∧
      Represents h' object (location + nrBytes) := by
  obtain ⟨hcopied, hprogress⟩ := hready.firstCopy nrBytes location
  rw [readOnce_startLoop]
  split
  · rename_i hdone
    exact finishRead_represents hcopied hprogress hdone
  · rename_i hmore
    have hpositive : 0 < (ReadWindow.firstCopy h nrBytes location).toRead := by omega
    have htotal := hprogress.total
    have hoffset := hprogress.offset
    have hstays : (ReadWindow.firstCopy h nrBytes location).startOffset ≤ object.length := by
      change _ = location + _ at hoffset
      change _ = nrBytes at htotal
      omega
    cases hnext : requestRest server.serve (ReadWindow.firstCopy h nrBytes location) with
    | leave result =>
        unfold requestRest at hnext
        simp only at hnext
        split at hnext
        · obtain ⟨h', hbypass, hrepresents⟩ :=
            bypassBuffer_exact server hcopied hprogress hpositive hbounded
          rw [hnext] at hbypass
          cases hbypass
          exact ⟨h', rfl, hrepresents⟩
        · obtain ⟨s', hrefill, -⟩ :=
            refillBuffer_exact server hcopied hprogress hpositive (by omega) hstays
          rw [hnext] at hrefill
          cases hrefill
    | again s =>
        have hdone := requestRest_covers hnext
        unfold requestRest at hnext
        simp only at hnext
        split at hnext
        · exact absurd hnext (bypassBuffer_leaves server.serve _ s)
        · obtain ⟨s', hrefill, hready', hprogress', hlocation, hnrBytes⟩ :=
            refillBuffer_exact server hcopied hprogress hpositive (by omega) hstays
          rw [hnext] at hrefill
          cases hrefill
          obtain ⟨h', hfinish, hrepresents⟩ :=
            finishRead_represents hready'.copyFromBuffer hprogress'.copy hdone
          refine ⟨h', ?_, ?_⟩
          · refine hfinish.trans ?_
            change (h', ReadResult.done ((slice object s.location s.nrBytes).map some)) = _
            rw [hlocation, hnrBytes]
            rfl
          · change Represents h' object (s.location + s.nrBytes) at hrepresents
            rw [hlocation, hnrBytes] at hrepresents
            exact hrepresents

theorem read_exact (server : ExactServer object) (download : Download α)
    {h : HTTPFileHandle α} {nrBytes location : Nat} (hready : Ready object h)
    (hbounded : location + nrBytes ≤ object.length) :
    ∃ h', BufferedRead.read server.serve download h nrBytes location =
        some (h', .ok ((slice object location nrBytes).map some)) ∧
      Represents h' object (location + nrBytes) := by
  have hinternal : ∃ h', readInternal server.serve h nrBytes location =
      some (h', .done ((slice object location nrBytes).map some)) ∧
        Represents h' object (location + nrBytes) := by
    by_cases hskip : h.skipBuffer ∧ nrBytes > 0
    · obtain ⟨h', hread, hrepresents⟩ :=
        readUnbuffered_exact server hready hskip.2 hbounded
      refine ⟨h', ?_, hrepresents⟩
      simp only [readInternal, hready.uncached, if_pos hskip, hread]
    · obtain ⟨h', hread, hrepresents⟩ := readOnce_exact server hready hbounded
      refine ⟨h', ?_, hrepresents⟩
      rw [readInternal_of_loop hready.uncached hskip, hread]
  obtain ⟨h', hread, hrepresents⟩ := hinternal
  exact ⟨h', by simp [BufferedRead.read, hread], hrepresents⟩

theorem clampedRead_eq {h : HTTPFileHandle α} {position nrBytes : Nat}
    (hrepresents : Represents h object position) (hposition : position ≤ object.length) :
    clampedRead h nrBytes = min (object.length - position) nrBytes := by
  unfold clampedRead
  rw [hrepresents.ready.length, hrepresents.position, idxSub_of_le hposition]

theorem handleStep_simulates (object : List α) :
    Simulates (@handleStep α object) (cursorStep object)
      (fun h position => Represents h object position) Agree := by
  intro h position op position' answer' hrepresents hcursor
  cases op with
  | readAt nrBytes location server download =>
      simp only [cursorStep] at hcursor
      split at hcursor
      · cases hcursor
        rename_i hbounded
        obtain ⟨h', hread, hrepresents'⟩ :=
          read_exact server download hrepresents.ready hbounded
        refine ⟨h', ⟨_, h'.fileOffset⟩, ?_, ⟨rfl, hrepresents'.position⟩, hrepresents'⟩
        simp [handleStep, answerRead, hread]
      · cases hcursor
  | readNext nrBytes server download =>
      simp only [cursorStep] at hcursor
      split at hcursor
      · cases hcursor
        rename_i hposition
        obtain ⟨h', hread, hrepresents'⟩ :=
          read_exact server download hrepresents.ready
            (show position + min (object.length - position) nrBytes ≤ object.length by omega)
        refine ⟨h', ⟨_, h'.fileOffset⟩, ?_, ⟨rfl, hrepresents'.position⟩, hrepresents'⟩
        simp [handleStep, answerRead, clampedRead_eq hrepresents hposition,
          hrepresents.position, hread]
      · cases hcursor
  | seek location =>
      cases hcursor
      refine ⟨_, _, rfl, ⟨rfl, rfl⟩, ⟨?_, rfl⟩⟩
      exact ⟨hrepresents.ready.window.of_same ⟨rfl, rfl, rfl⟩, hrepresents.ready.length,
        hrepresents.ready.uncached, hrepresents.ready.requests⟩

theorem represents_openHandle (directIo requireParallelAccess auto : Bool)
    (object : List α) :
    Represents (openHandle directIo requireParallelAccess auto object) object 0 :=
  ⟨⟨windowGood_openHandle directIo requireParallelAccess auto object, rfl, rfl,
    fun request hrequest => by simp [openHandle] at hrequest⟩, rfl⟩

/-- Every sequence of reads and seeks that the cursor can do, the handle does as
well, in every mode, with the same bytes and positions and with range requests
within the object only. -/
theorem read_refines_cursor (object : List α) (directIo requireParallelAccess auto : Bool)
    (ops : List (CursorOp object)) (position : Nat) (answers' : List (CursorAnswer (List α)))
    (hcursor : trace (cursorStep object) 0 ops = some (position, answers')) :
    ∃ h answers,
      trace handleStep (openHandle directIo requireParallelAccess auto object) ops =
        some (h, answers) ∧
      List.Forall₂ Agree answers answers' ∧ h.fileOffset = position ∧
      RequestsWithin object h := by
  obtain ⟨h, answers, htrace, hagree, hrepresents⟩ :=
    (handleStep_simulates object).trace
      (represents_openHandle directIo requireParallelAccess auto object) hcursor
  exact ⟨h, answers, htrace, hagree, hrepresents.position, hrepresents.ready.requests⟩

/-- A server that answers every range within the object in full. -/
def steadyServer (object : List α) : HonestServer object :=
  .ofTransfers { bufferOutLen := 0 }
    (fun offset len =>
      if offset + len ≤ object.length then
        [{ head := some { status := 206 }, chunks := [slice object offset len] }]
      else [{ head := some { status := 416 } }])
    (by
      intro offset len transfer htransfer head hhead _ hclient _
      split at htransfer
      · rename_i hbounded
        rw [List.mem_singleton] at htransfer
        subst htransfer
        cases hhead
        exact ⟨by decide, rfl, fun _ => ⟨hbounded, by simp⟩⟩
      · rw [List.mem_singleton] at htransfer
        subst htransfer
        cases hhead
        exact absurd hclient (by decide))

theorem steadyServer_accepts (object : List α) (offset len : Nat)
    (hbounded : offset + len ≤ object.length) :
    accepted ((steadyServer object).serve offset len).result := by
  have hlength : (slice object offset len).length = len := length_slice hbounded
  have hreceive : receiveBody { bufferOutLen := len } [slice object offset len] {} =
      ({ outOffset := len, bufferOut := store blank 0 (slice object offset len) }, .ok ()) := by
    simp [receiveBody, contentHandler, hlength]
  have hattempt : runAttempt { bufferOutLen := len }
      { head := some { status := 206 }, chunks := [slice object offset len] } {} =
      ({ outOffset := len, bufferOut := store blank 0 (slice object offset len) },
        .ok { status := 206 }) := by
    simp [runAttempt, responseHandler, etagMismatch, contentLengthMismatch, hreceive]
  simp [steadyServer, HonestServer.ofTransfers, RangeReply.ofTransfers, hbounded,
    runGetRangeRequest, runAttempts, hattempt, checkResponse, accepted, acceptsHead]

def exactServer (object : List α) : ExactServer object :=
  { steadyServer object with
    accepts := fun offset len _ hbounded => steadyServer_accepts object offset len hbounded }

theorem read_refines_cursor_letters :
    ∃ h answers,
      trace handleStep (openHandle false false true letters)
          [.readAt 1 2 (exactServer letters) (.failed 0), .seek 1,
            .readNext 9 (exactServer letters) (.failed 0)] =
        some (h, answers) ∧
      List.Forall₂ Agree answers [⟨[99], 3⟩, ⟨[], 1⟩, ⟨[98, 99, 100], 4⟩] ∧
      h.fileOffset = 4 ∧ RequestsWithin letters h :=
  read_refines_cursor letters false false true
    [.readAt 1 2 (exactServer letters) (.failed 0), .seek 1,
      .readNext 9 (exactServer letters) (.failed 0)]
    4 [⟨[99], 3⟩, ⟨[], 1⟩, ⟨[98, 99, 100], 4⟩] rfl

end HaybarnHttpfs.ReadCursor
