import HaybarnHttpfs.ReadCursor

/-!
`Read` without a location: it is cut at the end of the file by an unsigned subtraction,
which wraps once a `Seek` has gone past the end.
-/

namespace HaybarnHttpfs.SequentialRead

open HaybarnHttpfs.Foundation.Memory HaybarnHttpfs.HttpState HaybarnHttpfs.RangeRequest
open HaybarnHttpfs.BufferedRead HaybarnHttpfs.ReadWindow HaybarnHttpfs.ReadIntegrity
open HaybarnHttpfs.ReadCursor

universe u

variable {α : Type u} {object : List α} {fallback : Bool}

/-- `Read` without a location: the number of bytes that it returns, and the bytes. -/
def readNext (serve : Nat → Nat → RangeReply α) (download : Download α) (h : HTTPFileHandle α)
    (nrBytes : Nat) : Option (HTTPFileHandle α × Except ReadError (Nat × List (Option α))) :=
  let nrBytes := clampedRead h nrBytes
  (read serve download h nrBytes h.fileOffset).map fun (h, result) => (h, result.map (nrBytes, ·))

/-- The replies of a server that refuses ranges. -/
def refusing (written : Nat → Nat → Cells α) (offset len : Nat) : RangeReply α :=
  { written := written offset len, result := .requestError .rangeRequestNotSupported }

/-- A server that a handle can read the object from: it serves ranges, or it refuses them
and the handle may fall back to the full download. -/
inductive Source (object : List α) (fallback : Bool) where
  | ranges (server : ExactServer object) (download : Download α)
  | refuses (hfallback : fallback = true) (written : Nat → Nat → Cells α) (data : Cells α)
      (hdata : Holds data object)

def Source.serve : Source object fallback → Nat → Nat → RangeReply α
  | .ranges server _ => server.serve
  | .refuses _ written _ _ => refusing written

def Source.download : Source object fallback → Download α
  | .ranges _ download => download
  | .refuses _ _ data _ => .completed object.length data

/-- A handle on the object; a full download that is complete has its bytes. -/
structure OnObject (object : List α) (h : HTTPFileHandle α) : Prop where
  length : h.length = object.length
  cached : ∀ file, h.cachedFileHandle = some file → file.initialized = true →
    file.size = object.length ∧ Holds file.data object

/-- What the read is to return, to send and to leave. -/
structure Clamped (object : List α) (h h' : HTTPFileHandle α) (position nrBytes : Nat)
    (result : Nat × List (Option α)) : Prop where
  count : result.1 = min nrBytes (object.length - position)
  bytes : result.2 = (slice object position result.1).map some
  requests : ∃ sent, h'.requests = h.requests ++ sent ∧
    ∀ request ∈ sent, request.1 + request.2 ≤ object.length
  position : h'.fileOffset = position + result.1

def ClampsAtEnd (h : HTTPFileHandle α) (source : Source object h.autoFallbackToFullDownload)
    (position nrBytes : Nat) : Prop :=
  ∃ h' result, readNext source.serve source.download (seek h position) nrBytes =
    some (h', .ok result) ∧ Clamped object h h' position nrBytes result

/-- What a read takes out of the window of the read buffer. -/
def windowBytes (h : HTTPFileHandle α) (nrBytes location : Nat) : List (Option α) :=
  if h.skipBuffer ∧ nrBytes > 0 then [] else (firstCopy h nrBytes location).out

/-- What it keeps of that in the end: a fallback starts again from the full download. -/
def takenBytes (h : HTTPFileHandle α) (source : Source object fallback) (nrBytes location : Nat) :
    List (Option α) :=
  if h.cachedFileHandle.isSome then []
  else
    match source with
    | .ranges _ _ => windowBytes h nrBytes location
    | .refuses _ _ _ _ =>
        if (windowBytes h nrBytes location).length = nrBytes then windowBytes h nrBytes location
        else []

/-- The position is not past the end, or nothing is asked for and nothing downloaded; the
handle is not left with a failed download, and what the read takes out of its window is the
object's. -/
structure Served (h : HTTPFileHandle α) (source : Source object fallback)
    (position nrBytes : Nat) : Prop where
  bounded : position ≤ object.length ∨ (nrBytes = 0 ∧ h.cachedFileHandle = none)
  initialized : ∀ file, h.cachedFileHandle = some file → file.initialized = true
  window : takenBytes h source (min (object.length - position) nrBytes) position =
    (slice object position
      (takenBytes h source (min (object.length - position) nrBytes) position).length).map some

variable {h h' : HTTPFileHandle α} {nrBytes location position : Nat}

/-- The requests that were added lie within the file. -/
def SentWithin (length : Nat) (h h' : HTTPFileHandle α) : Prop :=
  ∃ sent, h'.requests = h.requests ++ sent ∧ ∀ request ∈ sent, request.1 + request.2 ≤ length

theorem sentWithin_of_same {length : Nat} (hsame : h'.requests = h.requests) :
    SentWithin length h h' :=
  ⟨[], by rw [hsame, List.append_nil], nofun⟩

theorem sentWithin_tryRangeRequest {length offset len : Nat} {start : HTTPFileHandle α}
    (hstart : start.requests = h.requests) (reply : RangeReply α)
    (hwithin : offset + len ≤ length) :
    SentWithin length h (tryRangeRequest start offset len reply).1 := by
  rw [tryRangeRequest_frame]
  refine ⟨[(offset, len)], congrArg (· ++ [(offset, len)]) hstart, ?_⟩
  intro request hrequest
  rw [List.mem_singleton.mp hrequest]
  exact hwithin

theorem firstCopy_counts (h : HTTPFileHandle α) (nrBytes location : Nat) :
    (firstCopy h nrBytes location).location = location ∧
      (firstCopy h nrBytes location).nrBytes = nrBytes ∧
      (firstCopy h nrBytes location).startOffset =
        location + (firstCopy h nrBytes location).out.length ∧
      (firstCopy h nrBytes location).out.length + (firstCopy h nrBytes location).toRead =
        nrBytes := by
  refine ⟨rfl, rfl, ?_, ?_⟩
  · simp [firstCopy, copyFromBuffer, startLoop]
  · simp only [firstCopy, copyFromBuffer, startLoop, List.nil_append, length_load]
    omega

theorem requests_firstCopy (h : HTTPFileHandle α) (nrBytes location : Nat) :
    (firstCopy h nrBytes location).handle.requests = h.requests := by
  obtain ⟨bufferIdx, bufferAvailable, hhandle⟩ := firstCopy_handle h nrBytes location
  rw [hhandle]

theorem length_firstCopy (h : HTTPFileHandle α) (nrBytes location : Nat) :
    (firstCopy h nrBytes location).handle.length = h.length := by
  obtain ⟨bufferIdx, bufferAvailable, hhandle⟩ := firstCopy_handle h nrBytes location
  rw [hhandle]

/-- The handle after an iteration. -/
def handleAfter : Iteration α → HTTPFileHandle α
  | .again s => s.handle
  | .leave result => result.1

theorem sentWithin_requestRest (serve : Nat → Nat → RangeReply α) {s : ReadLoop α}
    (hlength : s.handle.length = object.length)
    (hoffset : s.startOffset = s.location + s.out.length)
    (hbounded : s.startOffset + s.toRead ≤ object.length) :
    SentWithin object.length s.handle (handleAfter (requestRest serve s)) := by
  unfold requestRest
  simp only
  split
  · have hsent := sentWithin_tryRangeRequest (h := s.handle) rfl
      (serve (s.location + s.out.length) s.toRead) (hoffset ▸ hbounded)
    unfold bypassBuffer
    simp only
    rcases htry : tryRangeRequest s.handle (s.location + s.out.length) s.toRead
      (serve (s.location + s.out.length) s.toRead) with ⟨h₁, e | accepted⟩
    · rw [htry] at hsent
      exact hsent
    · rw [htry] at hsent
      cases accepted with
      | _ => exact hsent
  · have hwithin : s.startOffset + refillLen s.handle s.startOffset ≤ object.length := by
      have hstart : s.startOffset ≤ object.length := by omega
      unfold refillLen
      rw [hlength, idxSub_of_le hstart]
      omega
    have hsame : (refillReceived s.handle s.startOffset
        (serve s.startOffset (refillLen s.handle s.startOffset)).written).requests =
          s.handle.requests := rfl
    have hsent := sentWithin_tryRangeRequest hsame
      (serve s.startOffset (refillLen s.handle s.startOffset)) hwithin
    unfold refillBuffer
    simp only
    rcases htry : tryRangeRequest (refillReceived s.handle s.startOffset
      (serve s.startOffset (refillLen s.handle s.startOffset)).written) s.startOffset
      (refillLen s.handle s.startOffset)
      (serve s.startOffset (refillLen s.handle s.startOffset)) with ⟨h₁, e | accepted⟩
    · rw [htry] at hsent
      exact hsent
    · rw [htry] at hsent
      cases accepted with
      | _ => exact hsent

theorem sentWithin_readOnce (serve : Nat → Nat → RangeReply α)
    (hlength : h.length = object.length) (hbounded : location + nrBytes ≤ object.length) :
    SentWithin object.length h (readOnce serve (startLoop h nrBytes location)).1 := by
  obtain ⟨-, -, hstart, htotal⟩ := firstCopy_counts h nrBytes location
  have hsame := requests_firstCopy h nrBytes location
  rw [readOnce_startLoop]
  split
  · exact sentWithin_of_same hsame
  · have hsent := sentWithin_requestRest serve
      ((length_firstCopy h nrBytes location).trans hlength) hstart
      (show (firstCopy h nrBytes location).startOffset +
        (firstCopy h nrBytes location).toRead ≤ object.length by omega)
    unfold SentWithin at hsent ⊢
    rw [hsame] at hsent
    cases hrest : requestRest serve (firstCopy h nrBytes location) with
    | leave result | again s =>
        rw [hrest] at hsent
        exact hsent

theorem sentWithin_readInternal {serve : Nat → Nat → RangeReply α} {result : ReadResult α}
    (hlength : h.length = object.length) (hbounded : location + nrBytes ≤ object.length)
    (hread : readInternal serve h nrBytes location = some (h', result)) :
    SentWithin object.length h h' := by
  cases hcached : h.cachedFileHandle with
  | some file =>
      simp only [readInternal, hcached, readCached, Option.some.injEq] at hread
      split at hread
      · cases hread
        exact sentWithin_of_same rfl
      · split at hread
        · (cases hread; exact sentWithin_of_same rfl)
        · (cases hread; exact sentWithin_of_same rfl)
  | none =>
      by_cases hskip : h.skipBuffer ∧ nrBytes > 0
      · have hsent := sentWithin_tryRangeRequest (h := h) rfl (serve location nrBytes) hbounded
        simp only [readInternal, hcached, if_pos hskip, readUnbuffered,
          Option.some.injEq] at hread
        rcases htry : tryRangeRequest h location nrBytes (serve location nrBytes)
          with ⟨h₁, e | accepted⟩
        · rw [htry] at hsent hread
          cases hread
          exact hsent
        · rw [htry] at hsent hread
          cases accepted with
          | _ => (cases hread; exact hsent)
      · have hsent := sentWithin_readOnce serve hlength hbounded
        rw [readInternal_of_loop hcached hskip, Option.some.injEq] at hread
        rwa [hread] at hsent

theorem load_eq_slice {cells : Cells α} {start offset len : Nat}
    (hwithin : offset + len ≤ object.length)
    (hcells : ∀ i < len, cells (start + i) = object[offset + i]?) :
    load cells start len = (slice object offset len).map some := by
  apply List.ext_getElem?
  intro i
  by_cases hi : i < len
  · have hobject : offset + i < object.length := by omega
    rw [List.getElem?_map, getElem?_slice hi, List.getElem?_eq_getElem hobject]
    simp [load, hi, hcells i hi, List.getElem?_eq_getElem hobject]
  · rw [List.getElem?_eq_none (by simpa using hi),
      List.getElem?_eq_none (by rw [List.length_map, length_slice hwithin]; omega)]

theorem copied_refill (server : ExactServer object) {s s' : ReadLoop α}
    (hrefill : refillBuffer server.serve s = .again s')
    (hcovered : s.toRead ≤ refillLen s.handle s.startOffset)
    (hbounded : s.startOffset + s.toRead ≤ object.length) :
    (copyFromBuffer s').out = s.out ++ (slice object s.startOffset s.toRead).map some ∧
      s'.location = s.location ∧ s'.nrBytes = s.nrBytes := by
  obtain ⟨haccepted, hframe, hbuffer, -, -, hidx, havailable⟩ := refillBuffer_again hrefill
  obtain ⟨hwithin, hexact⟩ := server.exact _ _ haccepted
  have hout : s'.out = s.out := by rw [hframe]
  have htoRead : s'.toRead = s.toRead := by rw [hframe]
  have hloaded : load s'.handle.readBuffer.cells 0 s.toRead =
      (slice object s.startOffset s.toRead).map some := by
    refine load_eq_slice hbounded fun i hi => ?_
    have hobject : s.startOffset + i < object.length := by omega
    rw [hbuffer, Nat.zero_add, refillReceived_cells, hexact i (by omega),
      List.getElem?_eq_getElem hobject]
    rfl
  refine ⟨?_, by rw [hframe], by rw [hframe]⟩
  simp only [copyFromBuffer, hout, htoRead, hidx, havailable, Nat.min_eq_right hcovered, hloaded]

theorem readOnce_ranges (server : ExactServer object) (hlength : h.length = object.length)
    (hbounded : location + nrBytes ≤ object.length) :
    ∃ h', readOnce server.serve (startLoop h nrBytes location) =
        (h', .done ((firstCopy h nrBytes location).out ++
          (slice object (location + (firstCopy h nrBytes location).out.length)
            (nrBytes - (firstCopy h nrBytes location).out.length)).map some)) ∧
      h'.fileOffset = location + nrBytes := by
  obtain ⟨hlocation, hnrBytes, hstart, htotal⟩ := firstCopy_counts h nrBytes location
  have hhandle := length_firstCopy h nrBytes location
  rw [readOnce_startLoop]
  generalize firstCopy h nrBytes location = s at *
  have hleft : nrBytes - s.out.length = s.toRead := by omega
  rw [← hstart, hleft]
  split
  · rename_i hdone
    rw [hdone, slice_zero, List.map_nil, List.append_nil]
    exact ⟨_, rfl, rfl⟩
  · rename_i hmore
    have hwithin : s.startOffset + s.toRead ≤ object.length := by omega
    have hpositive : 0 < s.toRead := by omega
    by_cases hbypass : s.toRead > min s.handle.readBuffer.size
      (idxSub s.handle.length s.startOffset)
    · have hoffset : s.location + s.out.length = s.startOffset := by omega
      have haccepted := server.accepts _ _ hpositive hwithin
      obtain ⟨statistics, hsent⟩ :=
        tryRangeRequest_accepted s.handle s.startOffset s.toRead haccepted
      have hrest : requestRest server.serve s = bypassBuffer server.serve s := if_pos hbypass
      rw [hrest]
      unfold bypassBuffer
      simp only [hoffset, hsent, load_eq_slice_of_accepted server haccepted]
      rw [hlocation, hnrBytes]
      exact ⟨_, rfl, rfl⟩
    · have hrest : requestRest server.serve s = refillBuffer server.serve s := if_neg hbypass
      have hcovered : s.toRead ≤ refillLen s.handle s.startOffset := by
        have hsize := size_adaptReadBufferSize s.handle s.startOffset
        unfold refillLen
        omega
      have hrefilled : s.startOffset + refillLen s.handle s.startOffset ≤ object.length := by
        have hinside : s.startOffset ≤ object.length := by omega
        unfold refillLen
        rw [hhandle, hlength, idxSub_of_le hinside]
        omega
      rw [hrest]
      cases hnext : refillBuffer server.serve s with
      | leave result =>
          have haccepted := server.accepts _ _ (Nat.lt_of_lt_of_le hpositive hcovered) hrefilled
          rw [(refillBuffer_leave hnext).1] at haccepted
          cases haccepted
      | again s' =>
          obtain ⟨hout, hlocation', hnrBytes'⟩ := copied_refill server hnext hcovered hwithin
          refine ⟨finishRead (copyFromBuffer s').handle nrBytes location [] |>.1, ?_, rfl⟩
          change finishRead (copyFromBuffer s').handle s'.nrBytes s'.location
            (copyFromBuffer s').out = _
          rw [hout, hlocation', hnrBytes', hlocation, hnrBytes]
          rfl

theorem readInternal_ranges (server : ExactServer object) (hcached : h.cachedFileHandle = none)
    (hlength : h.length = object.length) (hbounded : location + nrBytes ≤ object.length) :
    ∃ h', readInternal server.serve h nrBytes location =
        some (h', .done (windowBytes h nrBytes location ++
          (slice object (location + (windowBytes h nrBytes location).length)
            (nrBytes - (windowBytes h nrBytes location).length)).map some)) ∧
      h'.fileOffset = location + nrBytes := by
  unfold windowBytes
  by_cases hskip : h.skipBuffer ∧ nrBytes > 0
  · have haccepted := server.accepts location nrBytes hskip.2 hbounded
    obtain ⟨statistics, hsent⟩ := tryRangeRequest_accepted h location nrBytes haccepted
    simp only [readInternal, hcached, if_pos hskip, readUnbuffered, hsent,
      load_eq_slice_of_accepted server haccepted]
    exact ⟨_, rfl, rfl⟩
  · rw [readInternal_of_loop hcached hskip, if_neg hskip]
    obtain ⟨h', hread, hoffset⟩ := readOnce_ranges server hlength hbounded
    exact ⟨h', congrArg some hread, hoffset⟩

theorem readInternal_cached (serve : Nat → Nat → RangeReply α) {file : CachedFile α}
    (hcached : h.cachedFileHandle = some file) (hinitialized : file.initialized = true)
    (hsize : file.size = object.length) (hdata : Holds file.data object)
    (hbounded : location + nrBytes ≤ object.length) :
    ∃ h', readInternal serve h nrBytes location =
        some (h', .done ((slice object location nrBytes).map some)) ∧
      h'.fileOffset = location + nrBytes ∧ h'.requests = h.requests := by
  have hloaded : load file.data location nrBytes = (slice object location nrBytes).map some :=
    load_eq_slice hbounded fun i hi => hdata (location + i) (by omega)
  have hlong : ¬ file.size < location + nrBytes := by omega
  simp only [readInternal, hcached, readCached, hinitialized, Bool.not_true, Bool.false_eq_true,
    if_false, hlong, hloaded]
  exact ⟨_, rfl, rfl, rfl⟩

theorem tryRangeRequest_refusing (written : Nat → Nat → Cells α) (offset len offset' len' : Nat)
    (hfallback : h.autoFallbackToFullDownload = true) :
    tryRangeRequest h offset len (refusing written offset' len') =
      ({ h with requests := h.requests ++ [(offset, len)] }, .ok false) := by
  simp [tryRangeRequest, rangeVerdict, accepted, refusing, hfallback]

theorem requestRest_refusing (written : Nat → Nat → Cells α) {s : ReadLoop α}
    (hfallback : s.handle.autoFallbackToFullDownload = true) :
    ∃ h', requestRest (refusing written) s = .leave (h', .notSupported) ∧
      h'.length = s.handle.length := by
  unfold requestRest
  simp only
  split
  · unfold bypassBuffer
    simp only [tryRangeRequest_refusing written _ _ _ _ hfallback]
    exact ⟨_, rfl, rfl⟩
  · unfold refillBuffer
    have hreceived : ∀ offset cells,
        (refillReceived s.handle offset cells).autoFallbackToFullDownload = true :=
      fun _ _ => hfallback
    simp only [tryRangeRequest_refusing written _ _ _ _ (hreceived _ _)]
    exact ⟨_, rfl, rfl⟩

theorem readInternal_refusing (written : Nat → Nat → Cells α)
    (hcached : h.cachedFileHandle = none)
    (hfallback : h.autoFallbackToFullDownload = true) (nrBytes location : Nat) :
    ∃ h', h'.length = h.length ∧
      readInternal (refusing written) h nrBytes location =
        some (h', if (windowBytes h nrBytes location).length = nrBytes then
          .done (windowBytes h nrBytes location) else .notSupported) ∧
      ((windowBytes h nrBytes location).length = nrBytes →
        h'.fileOffset = location + nrBytes) := by
  unfold windowBytes
  by_cases hskip : h.skipBuffer ∧ nrBytes > 0
  · have hne : ¬ ([] : List (Option α)).length = nrBytes := by
      rw [List.length_nil]
      omega
    rw [if_pos hskip, if_neg hne]
    simp only [readInternal, hcached, if_pos hskip, readUnbuffered,
      tryRangeRequest_refusing written _ _ _ _ hfallback]
    refine ⟨_, ?_, rfl, fun heq => absurd heq hne⟩
    rfl
  · obtain ⟨-, -, -, htotal⟩ := firstCopy_counts h nrBytes location
    have hlength := length_firstCopy h nrBytes location
    have hauto : (firstCopy h nrBytes location).handle.autoFallbackToFullDownload = true := by
      obtain ⟨bufferIdx, bufferAvailable, hhandle⟩ := firstCopy_handle h nrBytes location
      rw [hhandle]
      exact hfallback
    rw [readInternal_of_loop hcached hskip, if_neg hskip, readOnce_startLoop]
    generalize firstCopy h nrBytes location = s at *
    by_cases hdone : s.toRead = 0
    · have hall : s.out.length = nrBytes := by omega
      rw [if_pos hdone, if_pos hall]
      refine ⟨_, ?_, rfl, fun _ => rfl⟩
      exact hlength
    · have hpart : ¬ s.out.length = nrBytes := by omega
      obtain ⟨h', hrest, hlength'⟩ := requestRest_refusing written hauto
      rw [if_neg hdone, if_neg hpart, hrest]
      exact ⟨h', hlength'.trans hlength, rfl, fun heq => absurd heq hpart⟩

theorem length_windowBytes (h : HTTPFileHandle α) (nrBytes location : Nat) :
    (windowBytes h nrBytes location).length ≤ nrBytes := by
  obtain ⟨-, -, -, htotal⟩ := firstCopy_counts h nrBytes location
  unfold windowBytes
  split
  · exact Nat.zero_le _
  · omega

theorem length_takenBytes (h : HTTPFileHandle α) (source : Source object fallback)
    (nrBytes location : Nat) : (takenBytes h source nrBytes location).length ≤ nrBytes := by
  have hwindow := length_windowBytes h nrBytes location
  unfold takenBytes
  split
  · exact Nat.zero_le _
  · cases source with
    | ranges server download => exact hwindow
    | refuses hfallback written data hdata =>
        simp only
        split
        · exact hwindow
        · exact Nat.zero_le _

/-- The bytes of a read that stays within the file: what it takes out of the window, and the
object's from there on. -/
theorem read_bytes (source : Source object fallback)
    (hauto : h.autoFallbackToFullDownload = fallback) (hobject : OnObject object h)
    (hbounded : location + nrBytes ≤ object.length)
    (hinitialized : ∀ file, h.cachedFileHandle = some file → file.initialized = true) :
    ∃ h', read source.serve source.download h nrBytes location =
        some (h', .ok (takenBytes h source nrBytes location ++
          (slice object (location + (takenBytes h source nrBytes location).length)
            (nrBytes - (takenBytes h source nrBytes location).length)).map some)) ∧
      h'.fileOffset = location + nrBytes ∧ SentWithin object.length h h' := by
  cases hcached : h.cachedFileHandle with
  | some file =>
      obtain ⟨hsize, hdata⟩ := hobject.cached file hcached (hinitialized file hcached)
      obtain ⟨h', hread, hoffset, hrequests⟩ := readInternal_cached source.serve hcached
        (hinitialized file hcached) hsize hdata hbounded
      refine ⟨h', ?_, hoffset, sentWithin_of_same hrequests⟩
      simp [BufferedRead.read, hread, takenBytes, hcached]
  | none =>
      cases source with
      | ranges server download =>
          obtain ⟨h', hread, hoffset⟩ :=
            readInternal_ranges server hcached hobject.length hbounded
          refine ⟨h', ?_, hoffset, sentWithin_readInternal hobject.length hbounded hread⟩
          simp only [BufferedRead.read, Source.serve, hread, takenBytes, hcached,
            Option.isSome_none, Bool.false_eq_true, if_false]
      | refuses hfallback written data hdata =>
          obtain ⟨h₁, hlength, hread, hoffset⟩ :=
            readInternal_refusing written hcached (hauto.trans hfallback) nrBytes location
          have hsent := sentWithin_readInternal hobject.length hbounded hread
          change ∃ h', BufferedRead.read (refusing written)
            (.completed object.length data) h nrBytes location = _ ∧ _
          simp only [BufferedRead.read, hread, takenBytes, hcached, Option.isSome_none,
            Bool.false_eq_true, if_false]
          by_cases hall : (windowBytes h nrBytes location).length = nrBytes
          · rw [if_pos hall, if_pos hall, hall, Nat.sub_self, slice_zero, List.map_nil,
              List.append_nil]
            exact ⟨h₁, rfl, hoffset hall, hsent⟩
          · obtain ⟨h', hretry, hoffset', hrequests⟩ := readInternal_cached (refusing written)
              (h := { h₁ with
                length := object.length
                cachedFileHandle := some { initialized := true, size := object.length, data } })
              rfl rfl rfl hdata hbounded
            have hsame : ¬ object.length ≠ h₁.length := by
              rw [hlength, hobject.length]
              exact fun hne => hne rfl
            simp only [if_neg hall, retryRead, fullDownload, if_neg hsame, hretry,
              List.length_nil, Nat.add_zero, Nat.sub_zero, List.nil_append]
            refine ⟨h', rfl, hoffset', ?_⟩
            unfold SentWithin
            rw [hrequests]
            exact hsent

theorem takenBytes_seek (h : HTTPFileHandle α) (source : Source object fallback) (position : Nat)
    (nrBytes location : Nat) :
    takenBytes (seek h position) source nrBytes location =
      takenBytes h source nrBytes location := by
  have hcopied : (firstCopy (seek h position) nrBytes location).out =
      (firstCopy h nrBytes location).out := by
    unfold firstCopy startLoop copyFromBuffer enterWindow
    have hwindow : inWindow (seek h position) location ↔ inWindow h location := Iff.rfl
    by_cases hin : inWindow h location
    · simp only [if_pos hin, if_pos (hwindow.mpr hin)]
      rfl
    · simp only [if_neg hin, if_neg (hwindow.not.mpr hin)]
      rfl
  have hwindow : windowBytes (seek h position) nrBytes location =
      windowBytes h nrBytes location := by
    unfold windowBytes
    rw [hcopied]
    rfl
  unfold takenBytes
  rw [hwindow]
  rfl

theorem read_empty (source : Source object fallback) (hcached : h.cachedFileHandle = none)
    (location : Nat) :
    ∃ h', read source.serve source.download h 0 location = some (h', .ok []) ∧
      h'.fileOffset = location ∧ h'.requests = h.requests := by
  have hskip : ¬ (h.skipBuffer ∧ 0 > 0) := fun hskip => Nat.lt_irrefl 0 hskip.2
  obtain ⟨-, -, -, htotal⟩ := firstCopy_counts h 0 location
  have hrequests := requests_firstCopy h 0 location
  have hdone : (firstCopy h 0 location).toRead = 0 := by omega
  have hempty : (firstCopy h 0 location).out = [] := List.eq_nil_of_length_eq_zero (by omega)
  rw [BufferedRead.read, readInternal_of_loop hcached hskip, readOnce_startLoop,
    if_pos hdone, hempty]
  exact ⟨_, rfl, rfl, hrequests⟩

theorem readNext_of_read {serve : Nat → Nat → RangeReply α} {download : Download α}
    {bytes : List (Option α)}
    (hread : read serve download h (clampedRead h nrBytes) h.fileOffset = some (h', .ok bytes)) :
    readNext serve download h nrBytes = some (h', .ok (clampedRead h nrBytes, bytes)) := by
  simp only [readNext, hread, Option.map_some, Except.map]

theorem clampedRead_seek (hlength : h.length = object.length)
    (hposition : position ≤ object.length) :
    clampedRead (seek h position) nrBytes = min (object.length - position) nrBytes := by
  unfold clampedRead
  change min (idxSub h.length position) nrBytes = _
  rw [hlength, idxSub_of_le hposition]

theorem clampedRead_pos (hlength : h.length = object.length) (hpast : object.length < position)
    (hposition : position < 2 ^ 64) (hsome : 0 < nrBytes) :
    0 < clampedRead (seek h position) nrBytes := by
  have hwraps : idxSub h.length position = object.length + 2 ^ 64 - position := by
    rw [hlength, idxSub, if_neg (Nat.not_le.mpr hpast)]
  unfold clampedRead
  change 0 < min (idxSub h.length position) nrBytes
  rw [hwraps]
  omega

theorem taken_iff {taken : List (Option α)} (htaken : taken.length ≤ nrBytes)
    (hbounded : location + nrBytes ≤ object.length) :
    taken ++ (slice object (location + taken.length) (nrBytes - taken.length)).map some =
        (slice object location nrBytes).map some ↔
      taken = (slice object location taken.length).map some := by
  have hsplit : slice object location nrBytes = slice object location taken.length ++
      slice object (location + taken.length) (nrBytes - taken.length) := by
    rw [slice_append, Nat.add_sub_cancel' htaken]
  rw [hsplit, List.map_append]
  constructor
  · intro heq
    refine (List.append_inj heq ?_).1
    rw [List.length_map, length_slice (by omega)]
  · intro heq
    rw [← heq]

/-- A read within the file is clamped exactly if its window serves it. -/
theorem clamps_within (source : Source object h.autoFallbackToFullDownload)
    (hobject : OnObject object h) (hposition : position ≤ object.length)
    (hinitialized : ∀ file, h.cachedFileHandle = some file → file.initialized = true) :
    ClampsAtEnd h source position nrBytes ↔
      takenBytes h source (min (object.length - position) nrBytes) position =
        (slice object position
          (takenBytes h source (min (object.length - position) nrBytes) position).length).map
            some := by
  have hbounded : position + min (object.length - position) nrBytes ≤ object.length := by omega
  obtain ⟨h', hread, hoffset, hsent⟩ := read_bytes (h := seek h position) source rfl
    ⟨hobject.length, hobject.cached⟩ hbounded hinitialized
  have htaken := length_takenBytes h source (min (object.length - position) nrBytes) position
  have hiff := taken_iff htaken hbounded
  rw [takenBytes_seek, ← clampedRead_seek hobject.length hposition] at hread
  have hnext := readNext_of_read hread
  rw [clampedRead_seek hobject.length hposition] at hnext
  constructor
  · rintro ⟨h₁, result, hresult, hclamped⟩
    rw [hnext] at hresult
    cases hresult
    exact hiff.mp hclamped.bytes
  · intro hwindow
    refine ⟨h', _, hnext, ?_⟩
    exact ⟨Nat.min_comm _ _, hiff.mpr hwindow, hsent, hoffset⟩

theorem not_clamps_uninitialized (source : Source object h.autoFallbackToFullDownload)
    {file : CachedFile α} (hcached : h.cachedFileHandle = some file)
    (hfailed : file.initialized = false) : ¬ ClampsAtEnd h source position nrBytes := by
  have hthrows : ∀ serve count location,
      readInternal serve (seek h position) count location =
        some (seek h position, .threw .cachedFileNotInitialized) := by
    intro serve count location
    have hcached' : (seek h position).cachedFileHandle = some file := hcached
    simp [readInternal, hcached', readCached, hfailed]
  rintro ⟨h', result, hread, -⟩
  simp only [readNext, BufferedRead.read, hthrows, Option.map_some] at hread
  cases hread

theorem clamps_empty (source : Source object h.autoFallbackToFullDownload)
    (hobject : OnObject object h) (hpast : object.length < position) :
    ClampsAtEnd h source position 0 ↔ h.cachedFileHandle = none := by
  have hzero : clampedRead (seek h position) 0 = 0 := Nat.min_zero _
  constructor
  · rintro ⟨h', result, hread, -⟩
    cases hcached : h.cachedFileHandle with
    | none => rfl
    | some file =>
        have hcached' : (seek h position).cachedFileHandle = some file := hcached
        have hoffset : (seek h position).fileOffset = position := rfl
        have hthrows : ∃ e, readInternal source.serve (seek h position) 0 position =
            some (seek h position, .threw e) := by
          simp only [readInternal, hcached', readCached]
          cases hinitialized : file.initialized with
          | false => exact ⟨_, rfl⟩
          | true =>
              have hshort : file.size < position + 0 := by
                rw [(hobject.cached file hcached hinitialized).1]
                exact hpast
              rw [if_pos hshort]
              exact ⟨_, rfl⟩
        obtain ⟨e, hthrows⟩ := hthrows
        simp only [readNext, hzero, hoffset, BufferedRead.read, hthrows, Option.map_some] at hread
        cases hread
  · intro hcached
    obtain ⟨h', hread, hoffset, hrequests⟩ :=
      read_empty (h := seek h position) source hcached position
    rw [← hzero] at hread
    refine ⟨h', _, readNext_of_read hread, ?_, ?_, sentWithin_of_same hrequests, ?_⟩
    · rw [hzero]
      exact (Nat.zero_min _).symm
    · rw [hzero, slice_zero]
      rfl
    · rw [hzero]
      exact hoffset

/-- A sequential read is clamped at the end of the file unless a `Seek` went past it: then
the wrapped difference lets the whole request through. -/
theorem clampsAtEnd_iff (object : List α) (h : HTTPFileHandle α)
    (source : Source object h.autoFallbackToFullDownload) (hobject : OnObject object h)
    (position nrBytes : Nat) (hposition : position < 2 ^ 64) :
    ClampsAtEnd h source position nrBytes ↔ Served h source position nrBytes := by
  by_cases hwithin : position ≤ object.length
  · by_cases hinitialized : ∀ file, h.cachedFileHandle = some file → file.initialized = true
    · rw [clamps_within source hobject hwithin hinitialized]
      exact ⟨fun hwindow => ⟨.inl hwithin, hinitialized, hwindow⟩, Served.window⟩
    · refine iff_of_false ?_ fun hserved => hinitialized hserved.initialized
      simp only [not_forall, Bool.not_eq_true] at hinitialized
      obtain ⟨file, hcached, hfailed⟩ := hinitialized
      exact not_clamps_uninitialized source hcached hfailed
  · rw [Nat.not_le] at hwithin
    by_cases hempty : nrBytes = 0
    · subst hempty
      rw [clamps_empty source hobject hwithin]
      constructor
      · intro hcached
        have htaken := length_takenBytes h source (min (object.length - position) 0) position
        have hnone : takenBytes h source (min (object.length - position) 0) position = [] :=
          List.eq_nil_of_length_eq_zero (by omega)
        refine ⟨.inr ⟨rfl, hcached⟩, by rw [hcached]; exact nofun, ?_⟩
        rw [hnone, List.length_nil, slice_zero]
        rfl
      · exact fun hserved => (hserved.bounded.resolve_left (Nat.not_le.mpr hwithin)).2
    · have hsome : 0 < nrBytes := Nat.pos_of_ne_zero hempty
      refine iff_of_false ?_ fun hserved => ?_
      · rintro ⟨h', result, hread, hclamped⟩
        have hpositive := clampedRead_pos hobject.length hwithin hposition hsome
        obtain ⟨⟨h₁, read⟩, -, hpair⟩ := Option.map_eq_some_iff.mp hread
        cases read with
        | error e => cases hpair
        | ok bytes =>
            cases hpair
            have hcount := hclamped.count
            simp only at hcount
            omega
      · exact hempty (hserved.bounded.resolve_left (Nat.not_le.mpr hwithin)).1

/-- Four letters, read from the second to the end. -/
theorem clampsAtEnd_iff_letters :
    ClampsAtEnd (openHandle false false true letters)
        (.ranges (exactServer letters) (.failed 0) : Source letters true) 1 9 ↔
      Served (openHandle false false true letters)
        (.ranges (exactServer letters) (.failed 0) : Source letters true) 1 9 :=
  clampsAtEnd_iff letters (openHandle false false true letters)
    (.ranges (exactServer letters) (.failed 0)) ⟨rfl, nofun⟩ 1 9 (by decide)

/-- A read from two bytes behind the end asks the server for a range there. -/
theorem read_past_end :
    (∃ h' e, readNext (exactServer letters).serve (.failed 0)
        (seek (openHandle true false true letters) 6) 2 = some (h', .error e) ∧
      h'.requests = [(6, 2)]) ∧
    ¬ ClampsAtEnd (openHandle true false true letters)
      (.ranges (exactServer letters) (.failed 0)) 6 2 := by
  constructor
  · refine ⟨_, _, rfl, rfl⟩
  · rintro ⟨h', result, hread, -⟩
    cases hread

end HaybarnHttpfs.SequentialRead
