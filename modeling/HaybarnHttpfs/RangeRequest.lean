import HaybarnHttpfs.Foundation.ByteStrings
import HaybarnHttpfs.Foundation.Memory

/-!
`HTTPFileSystem::RunGetRangeRequest`: the response and content handlers of a
range request over every attempt that `HTTPUtil` makes with them, and the checks
on the response it returns in the end.
-/

namespace HaybarnHttpfs.RangeRequest

open HaybarnHttpfs.Foundation.ByteStrings HaybarnHttpfs.Foundation.Memory

universe u

variable {α : Type u}

/-- `success` is `HTTPResponse::Success()`; `contentLength` is the header where
`stoull` accepts it. -/
structure ResponseHead where
  status : Nat
  success : Bool := true
  etag : Option Bytes := none
  contentLength : Option Nat := none
  deriving DecidableEq, Repr

/-- One attempt. Without a `head` no response arrived; `chunks` are the pieces
in which the client hands over the body; `completed` is false if the transfer
broke. -/
structure Transfer (α : Type u) where
  head : Option ResponseHead
  chunks : List (List α) := []
  completed : Bool := true
  deriving Repr

inductive RangeError where
  | connection
  | etagMismatch
  | rangeRequestNotSupported
  | moreDataThanExpected
  | httpStatus (status : Nat)
  | shortRead (received : Nat)
  deriving DecidableEq, Repr

structure RangeGet where
  bufferOutLen : Nat
  etag : Bytes := []
  unsafeDisableEtagChecks : Bool := false
  autoFallbackToFullFileDownload : Bool := true
  deriving DecidableEq, Repr

structure OutBuffer (α : Type u) where
  outOffset : Nat := 0
  bufferOut : Cells α := blank

def quote : UInt8 := 34

def stripETagQuotes (etag : Bytes) : Bytes :=
  if etag.length ≥ 2 ∧ etag.head? = some quote ∧ etag.getLast? = some quote then
    substr etag 1 (etag.length - 2)
  else etag

def etagMismatch (get : RangeGet) (head : ResponseHead) : Bool :=
  match head.etag with
  | none => false
  | some responseEtag =>
      !get.unsafeDisableEtagChecks && !get.etag.isEmpty && !responseEtag.isEmpty &&
        stripETagQuotes responseEtag ≠ stripETagQuotes get.etag

def contentLengthMismatch (get : RangeGet) (head : ResponseHead) : Bool :=
  match head.contentLength with
  | none => false
  | some contentLength => contentLength ≠ get.bufferOutLen

def responseHandler (get : RangeGet) (head : ResponseHead) (out : OutBuffer α) :
    OutBuffer α × Except RangeError Unit :=
  if head.status < 300 then
    let out := { out with outOffset := 0 }
    if etagMismatch get head then (out, .error .etagMismatch)
    else if contentLengthMismatch get head then (out, .error .rangeRequestNotSupported)
    else (out, .ok ())
  else (out, .ok ())

def contentHandler (get : RangeGet) (data : List α) (out : OutBuffer α) :
    OutBuffer α × Except RangeError Unit :=
  if data.length + out.outOffset > get.bufferOutLen then
    (out, .error .moreDataThanExpected)
  else
    ({ outOffset := out.outOffset + data.length
       bufferOut := store out.bufferOut out.outOffset data }, .ok ())

def receiveBody (get : RangeGet) :
    List (List α) → OutBuffer α → OutBuffer α × Except RangeError Unit
  | [], out => (out, .ok ())
  | data :: chunks, out =>
      match contentHandler get data out with
      | (out, .ok ()) => receiveBody get chunks out
      | (out, .error e) => (out, .error e)

/-- The clients keep the body of a status of 400 and above from the handler. -/
def runAttempt (get : RangeGet) (transfer : Transfer α) (out : OutBuffer α) :
    OutBuffer α × Except RangeError ResponseHead :=
  match transfer.head with
  | none => (out, .error .connection)
  | some head =>
      match responseHandler get head out with
      | (out, .error e) => (out, .error e)
      | (out, .ok ()) =>
          let chunks := if head.status ≥ 400 then [] else transfer.chunks
          match receiveBody get chunks out with
          | (out, .error e) => (out, .error e)
          | (out, .ok ()) =>
              if transfer.completed then (out, .ok head) else (out, .error .connection)

/-- `HTTPUtil::Request` repeats the attempt with the same handlers; what comes
back is the outcome of the last one. -/
def runAttempts (get : RangeGet) :
    List (Transfer α) → OutBuffer α → OutBuffer α × Except RangeError ResponseHead
  | [], out => (out, .error .connection)
  | [transfer], out => runAttempt get transfer out
  | transfer :: transfers, out => runAttempts get transfers (runAttempt get transfer out).1

/-- A response, a response that only carries the error of the last attempt
(`try_request`), or an exception. -/
inductive RangeResult where
  | response (head : ResponseHead)
  | requestError (e : RangeError)
  | threw (e : RangeError)
  deriving DecidableEq, Repr

def checkResponse (get : RangeGet) (outOffset : Nat) (head : ResponseHead) : RangeResult :=
  if head.status ≥ 400 then .threw (.httpStatus head.status)
  else if head.success ∧ outOffset ≠ get.bufferOutLen then .threw (.shortRead outOffset)
  else .response head

def runGetRangeRequest (get : RangeGet) (transfers : List (Transfer α))
    (bufferOut : Cells α) : Cells α × RangeResult :=
  let (out, result) := runAttempts get transfers { bufferOut }
  match result with
  | .ok head => (out.bufferOut, checkResponse get out.outOffset head)
  | .error e =>
      if get.autoFallbackToFullFileDownload then (out.bufferOut, .requestError e)
      else (out.bufferOut, .threw e)

theorem receiveBody_ok {get : RangeGet} {chunks : List (List α)} {out out' : OutBuffer α}
    {data : List α} (hreceive : receiveBody get chunks out = (out', .ok ()))
    (hoffset : out.outOffset = data.length) (hdata : Holds out.bufferOut data) :
    out'.outOffset = (data ++ chunks.flatten).length ∧
      Holds out'.bufferOut (data ++ chunks.flatten) := by
  induction chunks generalizing out data with
  | nil =>
      cases hreceive
      simpa using ⟨hoffset, hdata⟩
  | cons chunk chunks ih =>
      unfold receiveBody contentHandler at hreceive
      split at hreceive
      · rename_i hchunk
        split at hchunk
        · cases hchunk
        · cases hchunk
          obtain ⟨hoffset', hdata'⟩ :=
            ih hreceive (by simp [hoffset]) (hoffset ▸ holds_store_append hdata)
          rw [List.flatten_cons, ← List.append_assoc]
          exact ⟨hoffset', hdata'⟩
      · cases hreceive

theorem responseHandler_ok {get : RangeGet} {head : ResponseHead} {out out' : OutBuffer α}
    (hhandler : responseHandler get head out = (out', .ok ())) (hstatus : head.status < 300) :
    etagMismatch get head = false ∧ out' = { out with outOffset := 0 } := by
  unfold responseHandler at hhandler
  simp only [hstatus, if_true] at hhandler
  split at hhandler
  · cases hhandler
  · split at hhandler
    · cases hhandler
    cases hhandler
    rename_i hetag _
    exact ⟨by simpa using hetag, rfl⟩

theorem runAttempt_ok {get : RangeGet} {transfer : Transfer α} {out out' : OutBuffer α}
    {head : ResponseHead} (hattempt : runAttempt get transfer out = (out', .ok head)) :
    transfer.head = some head ∧ transfer.completed ∧
      (head.status < 300 →
        etagMismatch get head = false ∧
          out'.outOffset = transfer.chunks.flatten.length ∧
          Holds out'.bufferOut transfer.chunks.flatten) := by
  unfold runAttempt at hattempt
  split at hattempt
  · cases hattempt
  · rename_i head' hhead
    split at hattempt
    · cases hattempt
    · rename_i hhandler
      simp only at hattempt
      split at hattempt
      · cases hattempt
      · rename_i hreceive
        split at hattempt
        · cases hattempt
          rename_i hcompleted
          refine ⟨hhead, hcompleted, ?_⟩
          intro hstatus
          obtain ⟨hetag, rfl⟩ := responseHandler_ok hhandler hstatus
          have hbody : ¬ head.status ≥ 400 := by omega
          rw [if_neg hbody] at hreceive
          have hempty : Holds out.bufferOut ([] : List α) := by
            intro i hi
            simp at hi
          exact ⟨hetag, receiveBody_ok hreceive rfl hempty⟩
        · cases hattempt

theorem runAttempts_ok {get : RangeGet} {transfers : List (Transfer α)}
    {out out' : OutBuffer α} {head : ResponseHead}
    (hattempts : runAttempts get transfers out = (out', .ok head)) :
    ∃ transfer ∈ transfers, ∃ out₀, runAttempt get transfer out₀ = (out', .ok head) := by
  induction transfers generalizing out with
  | nil => cases hattempts
  | cons transfer transfers ih =>
      cases transfers with
      | nil => exact ⟨transfer, by simp, out, hattempts⟩
      | cons next transfers =>
          obtain ⟨last, hlast, hrun⟩ := ih hattempts
          exact ⟨last, by simp [hlast], hrun⟩

/-- What a range request that returned a response stored: the body of one
completed attempt. Below 300 its ETag does not contradict the handle's, and a
success has exactly the length asked for. -/
theorem runGetRangeRequest_response {get : RangeGet} {transfers : List (Transfer α)}
    {bufferOut bufferOut' : Cells α} {head : ResponseHead}
    (hrequest : runGetRangeRequest get transfers bufferOut = (bufferOut', .response head)) :
    ∃ transfer ∈ transfers, transfer.head = some head ∧ transfer.completed ∧
      head.status < 400 ∧
      (head.status < 300 →
        etagMismatch get head = false ∧ Holds bufferOut' transfer.chunks.flatten ∧
          (head.success → transfer.chunks.flatten.length = get.bufferOutLen)) := by
  unfold runGetRangeRequest at hrequest
  split at hrequest
  rename_i out result hattempts
  cases result with
  | error e =>
      simp only at hrequest
      split at hrequest
      · cases hrequest
      · cases hrequest
  | ok head' =>
      simp only [Prod.mk.injEq] at hrequest
      obtain ⟨rfl, hcheck⟩ := hrequest
      unfold checkResponse at hcheck
      split at hcheck
      · cases hcheck
      · rename_i hclient
        split at hcheck
        · cases hcheck
        cases hcheck
        rename_i hlen
        obtain ⟨transfer, htransfer, out₀, hattempt⟩ := runAttempts_ok hattempts
        obtain ⟨hhead, hcompleted, hstored⟩ := runAttempt_ok hattempt
        refine ⟨transfer, htransfer, hhead, hcompleted, by omega, ?_⟩
        intro hstatus
        obtain ⟨hetag, hoffset, hholds⟩ := hstored hstatus
        refine ⟨hetag, hholds, ?_⟩
        intro hsuccess
        by_contra hne
        exact hlen ⟨hsuccess, by omega⟩

end HaybarnHttpfs.RangeRequest
