import HaybarnHttpfs.Foundation.TransitionRuns
import HaybarnHttpfs.ReadWindow

/-!
The read buffer over an immutable object: runs of reads whose range requests may
fail after any number of bytes, and which failed refill leaves the window with
bytes that are not the object's.
-/

namespace HaybarnHttpfs.ReadIntegrity

open HaybarnHttpfs.Foundation.Memory HaybarnHttpfs.Foundation.TransitionRuns
open HaybarnHttpfs.HttpState HaybarnHttpfs.RangeRequest HaybarnHttpfs.BufferedRead
open HaybarnHttpfs.ReadWindow

universe u

variable {α : Type u} {object : List α}

/-- The byte that the object has at a position. -/
def Stored (object : List α) (position : Nat) (b : α) : Prop := object[position]? = some b

theorem eq_slice_of_bytesGood {location : Nat} {bytes : List (Option α)}
    (hbytes : BytesGood (Stored object) location bytes) :
    bytes = (slice object location bytes.length).map some := by
  apply List.ext_getElem?
  intro i
  by_cases hi : i < bytes.length
  · obtain ⟨b, hcell, hstored⟩ := hbytes i bytes[i] (List.getElem?_eq_getElem hi)
    rw [List.getElem?_map, getElem?_slice hi, List.getElem?_eq_getElem hi, hcell, hstored]
    rfl
  · have hslice : (slice object location bytes.length).length ≤ i := by
      simp only [slice, List.length_take, List.length_drop]
      omega
    rw [List.getElem?_eq_none (by omega), List.getElem?_eq_none (by simpa using hslice)]

/-- The representation invariant of the read buffer. -/
def BufferHoldsWindow (object : List α) (h : HTTPFileHandle α) : Prop :=
  ∀ i < h.bufferEnd - h.bufferStart,
    h.bufferStart + i < object.length ∧
      h.readBuffer.cells i = object[h.bufferStart + i]?

theorem bufferHoldsWindow_iff (h : HTTPFileHandle α) :
    BufferHoldsWindow object h ↔ ∀ i < h.bufferEnd - h.bufferStart,
      CellGood (Stored object) (h.bufferStart + i) (h.readBuffer.cells i) := by
  constructor
  · intro hholds i hi
    obtain ⟨hobject, hcell⟩ := hholds i hi
    exact ⟨object[h.bufferStart + i], by rw [hcell, List.getElem?_eq_getElem hobject],
      List.getElem?_eq_getElem hobject⟩
  · intro hgood i hi
    obtain ⟨b, hcell, hstored⟩ := hgood i hi
    exact ⟨(List.getElem?_eq_some_iff.mp hstored).1, hcell.trans hstored.symm⟩

theorem sameWindow_retryRead {serve : Nat → Nat → RangeReply α} {download : Download α}
    {h h' : HTTPFileHandle α} {nrBytes location : Nat}
    {result : Except ReadError (List (Option α))}
    (hretry : retryRead serve download h nrBytes location = some (h', result)) :
    SameWindow h h' := by
  cases download with
  | failed length =>
      simp only [retryRead, fullDownload] at hretry
      cases hretry
      exact ⟨rfl, rfl, rfl⟩
  | completed size data =>
      simp only [retryRead, fullDownload] at hretry
      split at hretry
      · cases hretry
        exact ⟨rfl, rfl, rfl⟩
      · have hsame := sameWindow_readCached
          { h with
            length := size
            cachedFileHandle := some { initialized := true, size, data } }
          { initialized := true, size, data } nrBytes location
        simp only [readInternal] at hretry
        split at hretry
        · cases hretry
        all_goals
          rename_i hread
          cases hretry
          rw [Option.some.inj hread] at hsame
          exact hsame

theorem read_internal {serve : Nat → Nat → RangeReply α} {download : Download α}
    {h h' : HTTPFileHandle α} {nrBytes location : Nat}
    {result : Except ReadError (List (Option α))}
    (hread : read serve download h nrBytes location = some (h', result)) :
    ∃ h₁ result₁, readInternal serve h nrBytes location = some (h₁, result₁) ∧
      SameWindow h₁ h' := by
  unfold BufferedRead.read at hread
  split at hread
  · cases hread
  · rename_i hinternal
    cases hread
    exact ⟨_, _, hinternal, SameWindow.refl _⟩
  · rename_i hinternal
    cases hread
    exact ⟨_, _, hinternal, SameWindow.refl _⟩
  · rename_i hinternal
    exact ⟨_, _, hinternal, sameWindow_retryRead hread⟩

theorem windowGood_read {serve : Nat → Nat → RangeReply α} {download : Download α}
    {h h' : HTTPFileHandle α} {nrBytes location : Nat}
    {result : Except ReadError (List (Option α))} (hwindow : WindowGood (Stored object) h)
    (hexact : RefillExact (Stored object) serve h nrBytes location)
    (hharmless : RefillHarmless (Stored object) serve h nrBytes location)
    (hread : BufferedRead.read serve download h nrBytes location = some (h', result)) :
    WindowGood (Stored object) h' := by
  obtain ⟨h₁, result₁, hinternal, hsame⟩ := read_internal hread
  exact (hwindow.readInternal hexact hharmless hinternal).of_same hsame

theorem refill_of_bufferHoldsWindow {serve : Nat → Nat → RangeReply α} {download : Download α}
    {h h' : HTTPFileHandle α} {nrBytes location : Nat}
    {result : Except ReadError (List (Option α))}
    (hread : BufferedRead.read serve download h nrBytes location = some (h', result))
    (hholds : BufferHoldsWindow object h') :
    RefillExact (Stored object) serve h nrBytes location ∧
      RefillHarmless (Stored object) serve h nrBytes location := by
  obtain ⟨h₁, result₁, hinternal, hsame⟩ := read_internal hread
  rw [bufferHoldsWindow_iff] at hholds
  rcases readInternal_window hinternal with ⟨hnone, -⟩ | ⟨offset, hrefill, hend⟩
  · refine ⟨fun offset hoffset => ?_, fun offset hoffset => ?_⟩
    all_goals
      rw [hnone] at hoffset
      cases hoffset
  · have hat : ∀ {offset'}, refillOffset h nrBytes location = some offset' →
        offset' = offset := by
      intro offset' hoffset
      rw [hrefill, Option.some.injEq] at hoffset
      exact hoffset.symm
    rcases hend with ⟨haccepted, hrefilled⟩ | ⟨hrejected, hreceived⟩
    · refine ⟨fun offset' hoffset _ => ?_, fun offset' hoffset => ?_⟩
      · rw [hat hoffset]
        exact (hrefilled.trans hsame).delivers hholds
      · rw [hat hoffset]
        exact .inl haccepted
    · refine ⟨fun offset' hoffset haccepted => ?_, fun offset' hoffset => ?_⟩
      · rw [hat hoffset, hrejected] at haccepted
        cases haccepted
      · rw [hat hoffset]
        right
        apply refillKeeps_of_good
        obtain ⟨hbuffer, hstart, hend⟩ := hreceived.trans hsame
        rw [hbuffer, hstart, hend] at hholds
        exact hholds

theorem cachedFileHandle_tryRangeRequest (h : HTTPFileHandle α) (offset len : Nat)
    (reply : RangeReply α) :
    (tryRangeRequest h offset len reply).1.cachedFileHandle = h.cachedFileHandle := by
  rw [tryRangeRequest_frame]

theorem cachedFileHandle_readUnbuffered (serve : Nat → Nat → RangeReply α)
    (h : HTTPFileHandle α) (nrBytes location : Nat) :
    (readUnbuffered serve h nrBytes location).1.cachedFileHandle = h.cachedFileHandle := by
  have hsent := cachedFileHandle_tryRangeRequest h location nrBytes (serve location nrBytes)
  unfold readUnbuffered
  simp only
  split
  all_goals
    rename_i hresult
    rw [hresult] at hsent
    exact hsent

theorem cachedFileHandle_bypassBuffer {serve : Nat → Nat → RangeReply α} {s : ReadLoop α}
    {result : HTTPFileHandle α × ReadResult α} (hbypass : bypassBuffer serve s = .leave result) :
    result.1.cachedFileHandle = s.handle.cachedFileHandle := by
  have hsent := cachedFileHandle_tryRangeRequest s.handle (s.location + s.out.length) s.toRead
    (serve (s.location + s.out.length) s.toRead)
  unfold bypassBuffer at hbypass
  simp only at hbypass
  split at hbypass
  all_goals
    rename_i hresult
    rw [hresult] at hsent
    cases hbypass
    exact hsent

/-- The handle with which an iteration goes on or leaves. -/
def nextHandle : Iteration α → HTTPFileHandle α
  | .again s => s.handle
  | .leave result => result.1

theorem cachedFileHandle_refillBuffer (serve : Nat → Nat → RangeReply α) (s : ReadLoop α) :
    (nextHandle (refillBuffer serve s)).cachedFileHandle = s.handle.cachedFileHandle := by
  have hsent := cachedFileHandle_tryRangeRequest
    (refillReceived s.handle s.startOffset
      (serve s.startOffset (refillLen s.handle s.startOffset)).written)
    s.startOffset (refillLen s.handle s.startOffset)
    (serve s.startOffset (refillLen s.handle s.startOffset))
  unfold refillBuffer
  simp only
  split
  all_goals
    rename_i hresult
    rw [hresult] at hsent
    exact hsent

theorem cachedFileHandle_requestRest (serve : Nat → Nat → RangeReply α) (s : ReadLoop α) :
    (nextHandle (requestRest serve s)).cachedFileHandle = s.handle.cachedFileHandle := by
  unfold requestRest
  simp only
  split
  · cases hbypass : bypassBuffer serve s with
    | again s' => exact absurd hbypass (bypassBuffer_leaves serve s s')
    | leave result => exact cachedFileHandle_bypassBuffer hbypass
  · exact cachedFileHandle_refillBuffer serve s

theorem cachedFileHandle_readOnce (serve : Nat → Nat → RangeReply α) (h : HTTPFileHandle α)
    (nrBytes location : Nat) :
    (readOnce serve (startLoop h nrBytes location)).1.cachedFileHandle =
      h.cachedFileHandle := by
  obtain ⟨bufferIdx, bufferAvailable, hhandle⟩ := firstCopy_handle h nrBytes location
  have hcopied : (firstCopy h nrBytes location).handle.cachedFileHandle =
      h.cachedFileHandle := by
    rw [hhandle]
  have hrest := cachedFileHandle_requestRest serve (firstCopy h nrBytes location)
  rw [readOnce_startLoop]
  split
  · exact hcopied
  · rw [hcopied] at hrest
    split
    all_goals
      rename_i hnext
      rw [hnext] at hrest
      exact hrest

theorem cachedFileHandle_readInternal {serve : Nat → Nat → RangeReply α}
    {h h' : HTTPFileHandle α} {nrBytes location : Nat} {result : ReadResult α}
    (hread : readInternal serve h nrBytes location = some (h', result)) :
    h'.cachedFileHandle = h.cachedFileHandle := by
  cases hcached : h.cachedFileHandle with
  | some file =>
      simp only [readInternal, hcached, readCached, Option.some.injEq] at hread
      split at hread
      · cases hread
        exact hcached
      · split at hread
        all_goals
          cases hread
          exact hcached
  | none =>
      rw [← hcached]
      by_cases hskip : h.skipBuffer ∧ nrBytes > 0
      · simp only [readInternal, hcached, if_pos hskip, Option.some.injEq] at hread
        have hframe := cachedFileHandle_readUnbuffered serve h nrBytes location
        rw [hread] at hframe
        exact hframe
      · rw [readInternal_of_loop hcached hskip, Option.some.injEq] at hread
        have hframe := cachedFileHandle_readOnce serve h nrBytes location
        rw [hread] at hframe
        exact hframe

/-- Every byte of a file that a full download handed over is the object's. -/
def DownloadExact (object : List α) : Download α → Prop
  | .failed _ => True
  | .completed size data => ∀ i < size, CellGood (Stored object) i (data i)

def CachedExact (object : List α) (h : HTTPFileHandle α) : Prop :=
  ∀ file, h.cachedFileHandle = some file → file.initialized →
    ∀ i < file.size, CellGood (Stored object) i (file.data i)

theorem cachedExact_fullDownload {download : Download α}
    (hdownload : DownloadExact object download)
    (h : HTTPFileHandle α) : CachedExact object (fullDownload h download).1 := by
  intro file hfile hinitialized
  cases download with
  | failed length =>
      cases hfile
      cases hinitialized
  | completed size data =>
      cases hfile
      exact hdownload

theorem CachedExact.of_same {h h' : HTTPFileHandle α} (hcached : CachedExact object h)
    (hsame : h'.cachedFileHandle = h.cachedFileHandle) : CachedExact object h' := by
  intro file hfile
  rw [hsame] at hfile
  exact hcached file hfile

theorem cachedExact_retryRead {serve : Nat → Nat → RangeReply α} {download : Download α}
    {h h' : HTTPFileHandle α} {nrBytes location : Nat}
    {result : Except ReadError (List (Option α))} (hdownload : DownloadExact object download)
    (hretry : retryRead serve download h nrBytes location = some (h', result)) :
    CachedExact object h' := by
  have hexact := cachedExact_fullDownload hdownload h
  unfold retryRead at hretry
  split at hretry
  · rename_i hfailed
    rw [hfailed] at hexact
    cases hretry
    exact hexact
  · rename_i hcompleted
    rw [hcompleted] at hexact
    split at hretry
    · cases hretry
      intro file hfile
      cases hfile
    · split at hretry
      · cases hretry
      all_goals
        rename_i hinternal
        cases hretry
        exact hexact.of_same (cachedFileHandle_readInternal hinternal)

theorem cachedExact_read {serve : Nat → Nat → RangeReply α} {download : Download α}
    {h h' : HTTPFileHandle α} {nrBytes location : Nat}
    {result : Except ReadError (List (Option α))} (hcached : CachedExact object h)
    (hdownload : DownloadExact object download)
    (hread : BufferedRead.read serve download h nrBytes location = some (h', result)) :
    CachedExact object h' := by
  unfold BufferedRead.read at hread
  split at hread
  · cases hread
  · rename_i hinternal
    cases hread
    exact hcached.of_same (cachedFileHandle_readInternal hinternal)
  · rename_i hinternal
    cases hread
    exact hcached.of_same (cachedFileHandle_readInternal hinternal)
  · exact cachedExact_retryRead hdownload hread

theorem readInternal_cached {serve : Nat → Nat → RangeReply α} {h h' : HTTPFileHandle α}
    {file : CachedFile α} {nrBytes location : Nat} {bytes : List (Option α)}
    (hcached : CachedExact object h) (hfile : h.cachedFileHandle = some file)
    (hread : readInternal serve h nrBytes location = some (h', .done bytes)) :
    bytes.length = nrBytes ∧ BytesGood (Stored object) location bytes := by
  simp only [readInternal, hfile, readCached, Option.some.injEq] at hread
  split at hread
  · cases hread
  · rename_i hinitialized
    split at hread
    · cases hread
    · rename_i hsize
      cases hread
      refine ⟨length_load _ _ _, bytesGood_load fun i hi => ?_⟩
      exact hcached file hfile (by simpa using hinitialized) _ (by omega)

theorem read_bytes {serve : Nat → Nat → RangeReply α} {download : Download α}
    {h h' : HTTPFileHandle α} {nrBytes location : Nat} {bytes : List (Option α)}
    (hwindow : WindowGood (Stored object) h) (hcached : CachedExact object h)
    (hreplies : RepliesGood (Stored object) serve) (hdownload : DownloadExact object download)
    (hread : BufferedRead.read serve download h nrBytes location = some (h', .ok bytes)) :
    bytes = (slice object location nrBytes).map some := by
  have hslice : ∀ {bytes : List (Option α)},
      bytes.length = nrBytes ∧ BytesGood (Stored object) location bytes →
        bytes = (slice object location nrBytes).map some := by
    rintro bytes ⟨hlength, hbytes⟩
    rw [← hlength]
    exact eq_slice_of_bytesGood hbytes
  unfold BufferedRead.read at hread
  split at hread
  · cases hread
  · rename_i hinternal
    cases hread
    apply hslice
    cases hfile : h.cachedFileHandle with
    | none => exact readInternal_bytes hwindow hreplies hfile hinternal
    | some file => exact readInternal_cached hcached hfile hinternal
  · cases hread
  · rename_i h₁ _
    have hexact := cachedExact_fullDownload hdownload h₁
    cases download with
    | failed length =>
        simp only [retryRead, fullDownload] at hread
        cases hread
    | completed size data =>
        simp only [retryRead, fullDownload] at hread
        split at hread
        · cases hread
        · split at hread
          · cases hread
          · rename_i hinternal
            cases hread
            exact hslice (readInternal_cached hexact rfl hinternal)
          · cases hread
          · cases hread

/-- A call on the handle, with the server as it answers during the call and the
full download that a fallback would meet. -/
inductive Call (α : Type u) where
  | read (nrBytes location : Nat) (serve : Nat → Nat → RangeReply α) (download : Download α)
  | readNext (nrBytes : Nat) (serve : Nat → Nat → RangeReply α) (download : Download α)
  | seek (location : Nat)

def call (h : HTTPFileHandle α) : Call α → Option (HTTPFileHandle α)
  | .read nrBytes location serve download =>
      (BufferedRead.read serve download h nrBytes location).map Prod.fst
  | .readNext nrBytes serve download =>
      (BufferedRead.read serve download h (clampedRead h nrBytes) h.fileOffset).map Prod.fst
  | .seek location => some (seek h location)

/-- A call whose refill delivers its window if it is accepted, and otherwise
keeps the window there is. -/
def CallHarmless (object : List α) (h : HTTPFileHandle α) : Call α → Prop
  | .read nrBytes location serve _ =>
      RefillExact (Stored object) serve h nrBytes location ∧
        RefillHarmless (Stored object) serve h nrBytes location
  | .readNext nrBytes serve _ =>
      RefillExact (Stored object) serve h (clampedRead h nrBytes) h.fileOffset ∧
        RefillHarmless (Stored object) serve h (clampedRead h nrBytes) h.fileOffset
  | .seek _ => True

def DownloadsExact (object : List α) : Call α → Prop
  | .read _ _ _ download => DownloadExact object download
  | .readNext _ _ download => DownloadExact object download
  | .seek _ => True

def openHandle (directIo requireParallelAccess autoFallbackToFullDownload : Bool)
    (object : List α) : HTTPFileHandle α :=
  { directIo, requireParallelAccess, autoFallbackToFullDownload
    length := object.length
    readBuffer := allocate (if directIo || requireParallelAccess then 0
      else initialReadBufferLen) }

theorem windowGood_openHandle (directIo requireParallelAccess auto : Bool)
    (object : List α) :
    WindowGood (Stored object) (openHandle directIo requireParallelAccess auto object) :=
  ⟨Nat.zero_le _, fun i hi => by simp [openHandle] at hi⟩

theorem windowGood_call {h h' : HTTPFileHandle α} {c : Call α}
    (hwindow : WindowGood (Stored object) h) (hharmless : CallHarmless object h c)
    (hcall : call h c = some h') : WindowGood (Stored object) h' := by
  cases c with
  | read nrBytes location serve download =>
      obtain ⟨⟨_, result⟩, hread, rfl⟩ := Option.map_eq_some_iff.mp hcall
      exact windowGood_read hwindow hharmless.1 hharmless.2 hread
  | readNext nrBytes serve download =>
      obtain ⟨⟨_, result⟩, hread, rfl⟩ := Option.map_eq_some_iff.mp hcall
      exact windowGood_read hwindow hharmless.1 hharmless.2 hread
  | seek location =>
      cases hcall
      exact hwindow.of_same ⟨rfl, rfl, rfl⟩

theorem callHarmless_of_call {h h' : HTTPFileHandle α} {c : Call α}
    (hcall : call h c = some h') (hholds : BufferHoldsWindow object h') :
    CallHarmless object h c := by
  cases c with
  | read nrBytes location serve download =>
      obtain ⟨⟨_, result⟩, hread, rfl⟩ := Option.map_eq_some_iff.mp hcall
      exact refill_of_bufferHoldsWindow hread hholds
  | readNext nrBytes serve download =>
      obtain ⟨⟨_, result⟩, hread, rfl⟩ := Option.map_eq_some_iff.mp hcall
      exact refill_of_bufferHoldsWindow hread hholds
  | seek location => trivial

theorem cachedExact_call {h h' : HTTPFileHandle α} {c : Call α}
    (hcached : CachedExact object h) (hdownloads : DownloadsExact object c)
    (hcall : call h c = some h') : CachedExact object h' := by
  cases c with
  | read nrBytes location serve download =>
      obtain ⟨⟨_, result⟩, hread, rfl⟩ := Option.map_eq_some_iff.mp hcall
      exact cachedExact_read hcached hdownloads hread
  | readNext nrBytes serve download =>
      obtain ⟨⟨_, result⟩, hread, rfl⟩ := Option.map_eq_some_iff.mp hcall
      exact cachedExact_read hcached hdownloads hread
  | seek location =>
      cases hcall
      exact hcached

/-- Over runs of calls from the opening of the handle, against any server: the
window holds after every call exactly if every call is harmless. After a
harmless run whose downloads are the object's, a read whose own request and
download are the object's returns the bytes of the object. -/
theorem bufferHoldsWindow_iff_callHarmless (object : List α)
    (directIo requireParallelAccess auto : Bool) (calls : List (Call α))
    (h : HTTPFileHandle α)
    (hrun : Run call Unrestricted (openHandle directIo requireParallelAccess auto object)
      calls h) :
    (Run call (CallHarmless object) (openHandle directIo requireParallelAccess auto object)
        calls h ↔
      ∀ first second m, calls = first ++ second →
        Run call Unrestricted (openHandle directIo requireParallelAccess auto object) first m →
          BufferHoldsWindow object m) ∧
    (Run call (CallHarmless object) (openHandle directIo requireParallelAccess auto object)
        calls h →
      (∀ c ∈ calls, DownloadsExact object c) →
        ∀ serve download nrBytes location h' bytes,
          RepliesGood (Stored object) serve → DownloadExact object download →
            BufferedRead.read serve download h nrBytes location = some (h', .ok bytes) →
              bytes = (slice object location nrBytes).map some) := by
  have hopen := windowGood_openHandle directIo requireParallelAccess auto object
  constructor
  · apply hrun.restricted_iff_safe (WindowGood (Stored object)) (BufferHoldsWindow object)
    · intro h c h' hwindow hharmless hcall
      exact windowGood_call hwindow hharmless hcall
    · intro h hwindow
      exact (bufferHoldsWindow_iff h).mpr hwindow.good
    · intro h c h' _ hcall hholds
      exact callHarmless_of_call hcall hholds
    · exact hopen
  · intro hharmless hdownloads serve download nrBytes location h' bytes hreplies hdownload hread
    have hwindow : WindowGood (Stored object) h := by
      apply hharmless.invariant (WindowGood (Stored object)) _ hopen
      intro h c h' hwindow hok hcall
      exact windowGood_call hwindow hok hcall
    have hcached : CachedExact object h := by
      apply (hrun.labelled (DownloadsExact object) hdownloads).invariant (CachedExact object)
      · intro h c h' hcached hexact hcall
        exact cachedExact_call hcached hexact hcall
      · intro file hfile
        cases hfile
    exact read_bytes hwindow hcached hreplies hdownload hread

/-- `RunGetRangeRequest` over connections that break after `delivered` bytes of
the body. -/
def cutServe (object : List α) (delivered offset len : Nat) : RangeReply α :=
  .ofTransfers { bufferOutLen := len }
    [{ head := some { status := 206 }
       chunks := [(slice object offset len).take delivered]
       completed := false }]

def steadyServe (object : List α) (offset len : Nat) : RangeReply α :=
  .ofTransfers { bufferOutLen := len }
    [{ head := some { status := 206 }, chunks := [slice object offset len] }]

def letters : List UInt8 := [97, 98, 99, 100]

/-- A server without range requests. -/
def rangeless (_ _ : Nat) : RangeReply UInt8 :=
  { written := blank, result := .requestError .rangeRequestNotSupported }

def lettersDownload : Download UInt8 := .completed 4 fun i => letters[i]?

theorem callHarmless_cut : CallHarmless letters (openHandle false false true letters)
    (.read 1 0 (cutServe letters 1) (.failed 0)) := by
  have hrefill : refillOffset (openHandle false false true letters) 1 0 = some 0 := rfl
  constructor
  · intro offset hoffset haccepted
    rw [hrefill] at hoffset
    cases hoffset
    exact absurd haccepted (by decide +kernel)
  · intro offset _
    right
    intro i hi
    exact absurd hi (by simp [openHandle])

/-- A read is cut off before there is a window, and the next one falls back to
the full download. -/
theorem bufferHoldsWindow_iff_callHarmless_cut :
    ∃ h h' bytes,
      Run call (CallHarmless letters) (openHandle false false true letters)
        [.read 1 0 (cutServe letters 1) (.failed 0)] h ∧
      BufferHoldsWindow letters h ∧
      BufferedRead.read rangeless lettersDownload h 2 1 = some (h', .ok bytes) ∧
      bytes = [some 98, some 99] := by
  have hexec : (exec call (openHandle false false true letters)
      [.read 1 0 (cutServe letters 1) (.failed 0)]).isSome := by
    decide +kernel
  obtain ⟨h, hh⟩ := Option.isSome_iff_exists.mp hexec
  have hrun : Run call (CallHarmless letters) (openHandle false false true letters)
      [.read 1 0 (cutServe letters 1) (.failed 0)] h := by
    refine .single callHarmless_cut ?_
    simpa [exec] using hh
  have hmain := bufferHoldsWindow_iff_callHarmless letters false false true _ h
    (run_of_exec hh)
  have hread : ((exec call (openHandle false false true letters)
      [.read 1 0 (cutServe letters 1) (.failed 0)]).bind fun h =>
        BufferedRead.read rangeless lettersDownload h 2 1).map
          (fun answer => answer.2.isOk) = some true := by
    decide +kernel
  rw [hh, Option.bind_some] at hread
  obtain ⟨⟨h', result⟩, hanswer, hok⟩ := Option.map_eq_some_iff.mp hread
  cases result with
  | error e => cases hok
  | ok bytes =>
      refine ⟨h, h', bytes, hrun, hmain.1.mp hrun _ [] h rfl (run_of_exec hh), hanswer, ?_⟩
      apply hmain.2 hrun _ rangeless lettersDownload 2 1 h' bytes _ _ hanswer
      · simp [DownloadsExact, DownloadExact]
      · intro offset len haccepted
        cases haccepted
      · intro i hi
        exact ⟨letters[i], List.getElem?_eq_getElem hi, List.getElem?_eq_getElem hi⟩

/-- The refill at 0 is cut after one byte and the window is still that of the
refill at 2. -/
def readThenCutRefill : List (Call UInt8) :=
  [.read 1 2 (steadyServe letters) (.failed 0), .read 1 0 (cutServe letters 1) (.failed 0)]

/-- The bytes that a read returns, if it returns. -/
def bytesRead (serve : Nat → Nat → RangeReply α) (h : HTTPFileHandle α)
    (nrBytes location : Nat) : Option (List (Option α)) :=
  match readInternal serve h nrBytes location with
  | some (_, .done bytes) => some bytes
  | _ => none

/-- The third read hits the stale window and returns the wrong byte. -/
theorem failed_refill_poisons_window :
    ∃ h, Run call Unrestricted (openHandle false false true letters) readThenCutRefill h ∧
      ¬ BufferHoldsWindow letters h ∧
      bytesRead (steadyServe letters) h 1 2 = some [some 97] ∧
      letters[2]? = some 99 := by
  have hexec : (exec call (openHandle false false true letters) readThenCutRefill).map
      (fun h => (h.bufferStart, h.bufferEnd, h.readBuffer.cells 0,
        bytesRead (steadyServe letters) h 1 2)) =
      some (2, 4, some 97, some [some 97]) := by
    decide +kernel
  obtain ⟨h, hh, hstate⟩ := Option.map_eq_some_iff.mp hexec
  simp only [Prod.mk.injEq] at hstate
  obtain ⟨hstart, hend, hcell, hbytes⟩ := hstate
  refine ⟨h, run_of_exec hh, ?_, hbytes, rfl⟩
  intro hholds
  have hbyte := (hholds 0 (by omega)).2
  rw [hcell, hstart] at hbyte
  revert hbyte
  decide

end HaybarnHttpfs.ReadIntegrity
