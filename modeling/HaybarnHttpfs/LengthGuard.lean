import HaybarnHttpfs.ReadWindow
import HaybarnHttpfs.Foundation.TransitionRuns

/-!
The guard of `HTTPFileSystem::Read` against a full download of another size than the open
reported. The reference is the length of the handle, which the content handler of the
download counts into, and nothing sets it back when the guard throws.
-/

namespace HaybarnHttpfs.LengthGuard

open HaybarnHttpfs.Foundation.Memory HaybarnHttpfs.Foundation.TransitionRuns
open HaybarnHttpfs.HttpState HaybarnHttpfs.RangeRequest HaybarnHttpfs.BufferedRead
open HaybarnHttpfs.ReadWindow

universe u

variable {α : Type u}

/-- `pieces` is the object as a full `GET` hands it to the content handler, and `written` what
a refused range request leaves in the buffer it was given. -/
structure Server (α : Type u) where
  pieces : List (List α)
  written : Nat → Nat → Cells α := fun _ _ => blank

def Server.object (server : Server α) : List α := server.pieces.flatten

def Server.serve (server : Server α) (offset len : Nat) : RangeReply α :=
  { written := server.written offset len
    result := .requestError .rangeRequestNotSupported }

/-- A full download into a new file. -/
def Server.download (server : Server α) (h : HTTPFileHandle α) : Download α :=
  .completed (receiveChunks server.pieces h.length {}).1
    (receiveChunks server.pieces h.length {}).2.data

structure ReadCall where
  nrBytes : Nat
  location : Nat

def readFrom (server : Server α) (h : HTTPFileHandle α) (call : ReadCall) :
    Option (HTTPFileHandle α × Except ReadError (List (Option α))) :=
  read server.serve (server.download h) h call.nrBytes call.location

def readStep (server : Server α) (h : HTTPFileHandle α) (call : ReadCall) :
    Option (HTTPFileHandle α) :=
  (readFrom server h call).map Prod.fst

def getFileSize (h : HTTPFileHandle α) : Nat := h.length

/-- The read throws since the sizes differ. -/
def Rejects (server : Server α) (h : HTTPFileHandle α) (call : ReadCall) (h' : HTTPFileHandle α) :
    Prop :=
  ∃ headReported downloaded,
    readFrom server h call = some (h', .error (.sizeMismatch headReported downloaded))

/-- The read asks for a range in vain and falls back to the full download. -/
def FallsBack (server : Server α) (h : HTTPFileHandle α) (call : ReadCall) : Prop :=
  ∃ h', readInternal server.serve h call.nrBytes call.location = some (h', .notSupported)

structure SameState (h h' : HTTPFileHandle α) : Prop where
  length : h'.length = h.length
  fileOffset : h'.fileOffset = h.fileOffset
  bufferAvailable : h'.bufferAvailable = h.bufferAvailable
  bufferIdx : h'.bufferIdx = h.bufferIdx
  bufferStart : h'.bufferStart = h.bufferStart
  bufferEnd : h'.bufferEnd = h.bufferEnd
  readBuffer : h'.readBuffer = h.readBuffer

/-- However a handle got there by reads, a read that the guard rejects leaves it as it was, and
the guard goes on rejecting. -/
def GuardKept (server : Server α) (h : HTTPFileHandle α) : Prop :=
  ∀ before h₁ call h₂, Run (readStep server) Unrestricted h before h₁ →
    Rejects server h₁ call h₂ →
    SameState h₁ h₂ ∧ ∀ later h₃, Run (readStep server) Unrestricted h₂ later h₃ →
      getFileSize h₃ = getFileSize h₁ ∧
        ∀ call', FallsBack server h₃ call' → ∃ h₄, Rejects server h₃ call' h₄

/-- A fallback would download another number of bytes than the handle expects. -/
structure Mismatch (server : Server α) (h : HTTPFileHandle α) : Prop where
  fallsBack : h.autoFallbackToFullDownload = true
  notCached : h.cachedFileHandle = none
  delivered : server.pieces ≠ []
  differs : server.object.length ≠ h.length

/-- What the guard depends on. -/
structure Held (h h' : HTTPFileHandle α) : Prop where
  length : h'.length = h.length
  cachedFileHandle : h'.cachedFileHandle = h.cachedFileHandle
  autoFallback : h'.autoFallbackToFullDownload = h.autoFallbackToFullDownload

theorem Held.refl (h : HTTPFileHandle α) : Held h h := ⟨rfl, rfl, rfl⟩

theorem Held.trans {h₁ h₂ h₃ : HTTPFileHandle α} (hfirst : Held h₁ h₂) (hsecond : Held h₂ h₃) :
    Held h₁ h₃ :=
  ⟨hsecond.length.trans hfirst.length, hsecond.cachedFileHandle.trans hfirst.cachedFileHandle,
    hsecond.autoFallback.trans hfirst.autoFallback⟩

variable {server : Server α} {h h' : HTTPFileHandle α}

/-- How a read ends that a refused range request ends. -/
def refusal (h : HTTPFileHandle α) : ReadResult α :=
  if h.autoFallbackToFullDownload then .notSupported
  else .threw (.request .rangeRequestNotSupported)

theorem refusal_of_held (hheld : Held h h') : refusal h' = refusal h := by
  unfold refusal
  rw [hheld.autoFallback]

theorem tryRangeRequest_refused (server : Server α) (h : HTTPFileHandle α)
    (offset len offset' len' : Nat) :
    tryRangeRequest h offset len (server.serve offset' len') =
      ({ h with requests := h.requests ++ [(offset, len)] },
        if h.autoFallbackToFullDownload then .ok false
        else .error (.request .rangeRequestNotSupported)) := by
  simp [tryRangeRequest, rangeVerdict, accepted, Server.serve]

theorem requestRest_refused (server : Server α) (s : ReadLoop α) :
    ∃ h', requestRest server.serve s = .leave (h', refusal s.handle) ∧ Held s.handle h' := by
  unfold requestRest refusal
  simp only
  split
  · unfold bypassBuffer
    simp only [tryRangeRequest_refused]
    cases hfallback : s.handle.autoFallbackToFullDownload with
    | _ =>
        refine ⟨_, rfl, ?_⟩
        exact ⟨rfl, rfl, hfallback.symm⟩
  · unfold refillBuffer
    simp only [tryRangeRequest_refused, refillReceived]
    cases hfallback : s.handle.autoFallbackToFullDownload with
    | _ =>
        refine ⟨_, rfl, ?_⟩
        exact ⟨rfl, rfl, hfallback.symm⟩

theorem held_firstCopy (h : HTTPFileHandle α) (nrBytes location : Nat) :
    Held h (firstCopy h nrBytes location).handle := by
  obtain ⟨bufferIdx, bufferAvailable, hhandle⟩ := firstCopy_handle h nrBytes location
  rw [hhandle]
  exact ⟨rfl, rfl, rfl⟩

/-- How `ReadInternal` ends without a cached file: it has the bytes in the buffer, or it asks for
a range in vain. -/
theorem readInternal_refused {nrBytes location : Nat} {result : ReadResult α}
    (hcached : h.cachedFileHandle = none)
    (hread : readInternal server.serve h nrBytes location = some (h', result)) :
    Held h h' ∧ ((∃ bytes, result = .done bytes) ∨ result = refusal h) := by
  by_cases hskip : h.skipBuffer ∧ nrBytes > 0
  · simp only [readInternal, hcached, if_pos hskip, readUnbuffered, tryRangeRequest_refused,
      Option.some.injEq] at hread
    unfold refusal
    cases hfallback : h.autoFallbackToFullDownload with
    | _ =>
        rw [hfallback] at hread
        cases hread
        exact ⟨⟨rfl, hcached.symm, hfallback.symm⟩, .inr rfl⟩
  · rw [readInternal_of_loop hcached hskip, readOnce_startLoop, Option.some.injEq] at hread
    have hcopied := held_firstCopy h nrBytes location
    split at hread
    · cases hread
      exact ⟨hcopied.trans ⟨rfl, rfl, rfl⟩, .inl ⟨_, rfl⟩⟩
    · obtain ⟨h₁, hrest, hheld⟩ := requestRest_refused server (firstCopy h nrBytes location)
      rw [hrest] at hread
      cases hread
      exact ⟨hcopied.trans hheld, .inr (refusal_of_held hcopied)⟩

theorem readInternal_cached {nrBytes location : Nat} {result : ReadResult α} {file : CachedFile α}
    (hcached : h.cachedFileHandle = some file)
    (hread : readInternal server.serve h nrBytes location = some (h', result)) :
    Held h h' ∧ result ≠ .notSupported ∧ ∀ a b, result ≠ .threw (.sizeMismatch a b) := by
  simp only [readInternal, hcached, readCached, Option.some.injEq] at hread
  split at hread
  · cases hread
    exact ⟨.refl h, by simp⟩
  · split at hread
    · cases hread
      exact ⟨.refl h, by simp⟩
    · cases hread
      exact ⟨⟨rfl, rfl, rfl⟩, by simp⟩

theorem held_readInternal {nrBytes location : Nat} {result : ReadResult α}
    (hread : readInternal server.serve h nrBytes location = some (h', result)) :
    Held h h' ∧ ∀ a b, result ≠ .threw (.sizeMismatch a b) := by
  cases hcached : h.cachedFileHandle with
  | some file =>
      obtain ⟨hheld, -, hother⟩ := readInternal_cached hcached hread
      exact ⟨hheld, hother⟩
  | none =>
      obtain ⟨hheld, ⟨bytes, rfl⟩ | rfl⟩ := readInternal_refused hcached hread
      · exact ⟨hheld, nofun⟩
      · refine ⟨hheld, ?_⟩
        unfold refusal
        split
        · exact nofun
        · exact nofun

theorem of_fallsBack {nrBytes location : Nat}
    (hread : readInternal server.serve h nrBytes location = some (h', .notSupported)) :
    h.cachedFileHandle = none ∧ h.autoFallbackToFullDownload = true := by
  cases hcached : h.cachedFileHandle with
  | some file => exact absurd rfl (readInternal_cached hcached hread).2.1
  | none =>
      refine ⟨rfl, ?_⟩
      rcases (readInternal_refused hcached hread).2 with ⟨bytes, hdone⟩ | hrefusal
      · cases hdone
      · unfold refusal at hrefusal
        split at hrefusal
        · assumption
        · cases hrefusal

theorem fallsBack_behindBuffer (hmismatch : Mismatch server h) :
    FallsBack server h { nrBytes := 1, location := h.bufferEnd } := by
  have hrefusal : refusal h = .notSupported := if_pos hmismatch.fallsBack
  unfold FallsBack
  by_cases hskip : h.skipBuffer ∧ 1 > 0
  · simp only [readInternal, hmismatch.notCached, if_pos hskip, readUnbuffered,
      tryRangeRequest_refused, hmismatch.fallsBack]
    exact ⟨_, rfl⟩
  · have houtside : ¬ inWindow h h.bufferEnd := fun hin => Nat.lt_irrefl _ hin.2
    have hleft : (firstCopy h 1 h.bufferEnd).toRead ≠ 0 := by
      simp [firstCopy, copyFromBuffer, startLoop, enterWindow, houtside]
    obtain ⟨h', hrest, -⟩ := requestRest_refused server (firstCopy h 1 h.bufferEnd)
    rw [refusal_of_held (held_firstCopy h 1 h.bufferEnd), hrefusal] at hrest
    rw [readInternal_of_loop hmismatch.notCached hskip, readOnce_startLoop, if_neg hleft, hrest]
    exact ⟨h', rfl⟩

theorem downloaded_length (server : Server α) (length : Nat) :
    (receiveChunks server.pieces length {}).1 =
      if server.pieces = [] then length else server.object.length := by
  cases hpieces : server.pieces with
  | nil => rfl
  | cons piece pieces =>
      have hreceived : Received (piece :: pieces).flatten
          (receiveChunks (piece :: pieces) length {}).1
          (receiveChunks (piece :: pieces) length {}).2 :=
        receiveChunks_exact (.inr ⟨rfl, nofun⟩)
      rw [hreceived.counted, if_neg nofun, Server.object, hpieces]

theorem rejects_of_mismatch {call : ReadCall} (hmismatch : Mismatch server h)
    (hfallsBack : FallsBack server h call) :
    ∃ h', Rejects server h call h' ∧ h'.length = server.object.length := by
  obtain ⟨h₁, hread⟩ := hfallsBack
  have hheld := (held_readInternal hread).1
  have hsize : (receiveChunks server.pieces h.length {}).1 = server.object.length := by
    rw [downloaded_length, if_neg hmismatch.delivered]
  have hdiffers : server.object.length ≠ h₁.length := by
    rw [hheld.length]
    exact hmismatch.differs
  refine ⟨{ h₁ with length := server.object.length, cachedFileHandle := none },
    ⟨h₁.length, server.object.length, ?_⟩, rfl⟩
  unfold readFrom BufferedRead.read
  rw [hread]
  simp only [retryRead, fullDownload, Server.download, hsize, if_pos hdiffers]

theorem mismatch_of_held (hheld : Held h h') (hmismatch : Mismatch server h') :
    Mismatch server h where
  fallsBack := hheld.autoFallback ▸ hmismatch.fallsBack
  notCached := hheld.cachedFileHandle ▸ hmismatch.notCached
  delivered := hmismatch.delivered
  differs := hheld.length ▸ hmismatch.differs

theorem not_mismatch_of_cached {file : CachedFile α} (hcached : h.cachedFileHandle = some file) :
    ¬ Mismatch server h := by
  intro hmismatch
  rw [hmismatch.notCached] at hcached
  cases hcached

theorem guarded_step {call : ReadCall} {result : Except ReadError (List (Option α))}
    (hmatch : ¬ Mismatch server h) (hread : readFrom server h call = some (h', result)) :
    ¬ Mismatch server h' ∧ ∀ a b, result ≠ .error (.sizeMismatch a b) := by
  unfold readFrom BufferedRead.read at hread
  split at hread
  · cases hread
  · rename_i h₁ bytes hinternal
    cases hread
    exact ⟨fun hmismatch => hmatch (mismatch_of_held (held_readInternal hinternal).1 hmismatch),
      nofun⟩
  · rename_i h₁ e hinternal
    cases hread
    obtain ⟨hheld, hother⟩ := held_readInternal hinternal
    refine ⟨fun hmismatch => hmatch (mismatch_of_held hheld hmismatch), ?_⟩
    rintro a b heq
    cases heq
    exact hother a b rfl
  · rename_i h₁ hinternal
    have hheld := (held_readInternal hinternal).1
    obtain ⟨hcached, hfallback⟩ := of_fallsBack hinternal
    have hsame : (receiveChunks server.pieces h.length {}).1 = h₁.length := by
      rw [downloaded_length, hheld.length]
      by_cases hempty : server.pieces = []
      · exact if_pos hempty
      · rw [if_neg hempty]
        by_contra hdiffers
        exact hmatch ⟨hfallback, hcached, hempty, hdiffers⟩
    simp only [retryRead, fullDownload, Server.download, hsame, ne_eq, not_true,
      if_false] at hread
    split at hread
    · cases hread
    · rename_i h₂ bytes hcachedRead
      cases hread
      have hheld₂ := (readInternal_cached rfl hcachedRead).1
      exact ⟨not_mismatch_of_cached hheld₂.cachedFileHandle, nofun⟩
    · rename_i h₂ e hcachedRead
      cases hread
      obtain ⟨hheld₂, -, hother⟩ := readInternal_cached rfl hcachedRead
      refine ⟨not_mismatch_of_cached hheld₂.cachedFileHandle, ?_⟩
      rintro a b heq
      cases heq
      exact hother a b rfl
    · rename_i h₂ hcachedRead
      exact absurd rfl (readInternal_cached rfl hcachedRead).2.1

theorem guarded_run {labels : List ReadCall} (hmatch : ¬ Mismatch server h)
    (hrun : Run (readStep server) Unrestricted h labels h') : ¬ Mismatch server h' := by
  refine hrun.invariant (fun h => ¬ Mismatch server h) ?_ hmatch
  intro h₁ call h₂ hmatch₁ _ hstep
  obtain ⟨⟨h₂', result⟩, hread, rfl⟩ := Option.map_eq_some_iff.mp hstep
  exact (guarded_step hmatch₁ hread).1

/-- The guard is worn out by its first rejection: it works exactly where it is never needed. -/
theorem guardKept_iff (server : Server α) (h : HTTPFileHandle α) :
    GuardKept server h ↔ ¬ Mismatch server h := by
  constructor
  · intro hkept hmismatch
    obtain ⟨h', hrejects, hlength⟩ :=
      rejects_of_mismatch hmismatch (fallsBack_behindBuffer hmismatch)
    have hsame := (hkept [] h _ h' (.nil h) hrejects).1
    exact hmismatch.differs (hlength.symm.trans hsame.length)
  · rintro hmatch before h₁ call h₂ hrun ⟨a, b, hrejects⟩
    exact absurd rfl ((guarded_step (guarded_run hmatch hrun) hrejects).2 a b)

/-- The object "AB" where the open reported three bytes. -/
def twoByteServer : Server UInt8 where
  pieces := [[65, 66]]

def openedHandle : HTTPFileHandle UInt8 where
  directIo := true
  length := 3

/-- The first read throws, the second one returns the first byte. -/
theorem second_read_passes :
    (∃ h₁ h₂, Rejects twoByteServer openedHandle ⟨1, 0⟩ h₁ ∧ getFileSize h₁ = 2 ∧
      readFrom twoByteServer h₁ ⟨1, 0⟩ = some (h₂, .ok [some 65])) ∧
    ¬ GuardKept twoByteServer openedHandle := by
  have hfirst : ∃ h₁, readFrom twoByteServer openedHandle ⟨1, 0⟩ =
      some (h₁, .error (.sizeMismatch 3 2)) ∧ getFileSize h₁ = 2 ∧
        ∃ h₂, readFrom twoByteServer h₁ ⟨1, 0⟩ = some (h₂, .ok [some 65]) :=
    ⟨_, rfl, rfl, _, rfl⟩
  obtain ⟨h₁, hthrows, hsize, h₂, hpasses⟩ := hfirst
  refine ⟨⟨h₁, h₂, ⟨3, 2, hthrows⟩, hsize, hpasses⟩, fun hkept => ?_⟩
  have hsame := (hkept [] openedHandle ⟨1, 0⟩ h₁ (.nil _) ⟨3, 2, hthrows⟩).1.length
  exact nomatch hsize.symm.trans hsame

end HaybarnHttpfs.LengthGuard
