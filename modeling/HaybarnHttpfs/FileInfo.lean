import HaybarnHttpfs.Foundation.Numerals
import HaybarnHttpfs.HTTPExchange
import HaybarnHttpfs.MetadataCache
import HaybarnHttpfs.RangeRequest

/-!
`HTTPFileHandle::LoadFileInfo`: the length of a file from the headers of a `HEAD`, or of
a request for two bytes in its place.
-/

namespace HaybarnHttpfs.FileInfo

open HaybarnHttpfs.Foundation.ByteStrings HaybarnHttpfs.Foundation.Numerals
open HaybarnHttpfs.HTTPExchange HaybarnHttpfs.RangeRequest
open HaybarnHttpfs.MetadataCache (shouldFullDownload)

/-- Of the engine: the exception class, the texts of the status codes and `strptime`. -/
structure FileInfoContext where
  core : HTTPCore
  statusMessage : Nat → Bytes
  tryParseLastModifiedTime : Bytes → Option Nat

structure FileOpenFlags where
  openForReading : Bool := true
  openForWriting : Bool := false
  createFileIfNotExists : Bool := false
  overwriteExistingFile : Bool := false
  deriving DecidableEq, Repr

structure LoadParams where
  unsafeDisableEtagChecks : Bool := false
  s3VersionIdPinning : Bool := false
  autoFallbackToFullDownload : Bool := true
  forceDownloadThreshold : Nat := 0
  deriving DecidableEq, Repr

structure HTTPFileHandle where
  path : Bytes
  flags : FileOpenFlags := {}
  httpParams : LoadParams := {}
  length : Nat := 0
  lastModified : Nat := 0
  etag : Bytes := []
  versionId : Bytes := []
  initialized : Bool := false
  forceFullDownload : Bool := false
  writeOverwriteMode : Bool := false
  autoFallbackToFullFileDownload : Bool := true
  deriving DecidableEq, Repr

inductive LoadError where
  /-- Of `HeadRequest`. -/
  | head (error : ErrorData)
  /-- An `IOException`. -/
  | io (message : Bytes)
  /-- Of `GetHTTPError`. -/
  | http (error : ErrorData)
  /-- Of `GetRangeRequest`. -/
  | range (e : RangeError)

/-- An `optional_idx` cannot hold the greatest index. -/
def optionalIdx (index : Option Nat) : Option Nat := index.filter (· ≠ 2 ^ 64 - 1)

def contentRangeHeader : Bytes := bytes "Content-Range"

def contentLengthHeader : Bytes := bytes "Content-Length"

def tryParseContentRange (response : HTTPResponse) : Option Nat :=
  if !response.hasHeader contentRangeHeader then none
  else
    let contentRange := response.getHeaderValue contentRangeHeader
    match find (bytes "/") contentRange with
    | none => none
    | some rangeFind =>
        let rangeLength := contentRange.drop (rangeFind + 1)
        if rangeLength = bytes "*" then none else optionalIdx (stoull rangeLength)

def tryParseContentLength (response : HTTPResponse) : Option Nat :=
  if !response.hasHeader contentLengthHeader then none
  else optionalIdx (stoull (response.getHeaderValue contentLengthHeader))

/-- What the handlers of a range request look at. -/
def responseHead (response : HTTPResponse) : ResponseHead where
  status := response.status
  etag :=
    if response.hasHeader (bytes "ETag") then some (response.getHeaderValue (bytes "ETag"))
    else none
  contentLength :=
    if response.hasHeader contentLengthHeader then
      stoull (response.getHeaderValue contentLengthHeader)
    else none

/-- One attempt; without a `head` no response arrived, and `completed` is false if the
transfer of the body broke. -/
structure ProbeTransfer where
  head : Option HTTPResponse
  completed : Bool := true

/-- The request is for `bytes=0-1`, without a buffer for the bytes. -/
def rangeGet (handle : HTTPFileHandle) : RangeGet where
  bufferOutLen := 2
  etag := handle.etag
  unsafeDisableEtagChecks := handle.httpParams.unsafeDisableEtagChecks
  autoFallbackToFullFileDownload := handle.autoFallbackToFullFileDownload

def probeAttempt (get : RangeGet) (transfer : ProbeTransfer) : Except RangeError HTTPResponse :=
  match transfer.head with
  | none => .error .connection
  | some response =>
      match (responseHandler get (responseHead response) ({} : OutBuffer UInt8)).2 with
      | .error e => .error e
      | .ok () => if transfer.completed then .ok response else .error .connection

/-- The handler of every attempt keeps the first version that a response names. -/
def pinVersion (handle : HTTPFileHandle) (transfer : ProbeTransfer) : HTTPFileHandle :=
  match transfer.head with
  | none => handle
  | some response =>
      if response.status < 300 && !etagMismatch (rangeGet handle) (responseHead response) &&
          handle.httpParams.s3VersionIdPinning && response.hasHeader (bytes "x-amz-version-id") &&
          handle.versionId.isEmpty then
        { handle with versionId := response.getHeaderValue (bytes "x-amz-version-id") }
      else handle

/-- With `try_request` an error comes back in a response that has no headers. -/
inductive ProbeResult where
  | response (response : HTTPResponse)
  | requestError (e : RangeError)
  | httpStatus (response : HTTPResponse)
  | threw (e : RangeError)

/-- `RunGetRangeRequest` without a buffer; what counts is the last of the attempts. -/
def getRangeRequest (handle : HTTPFileHandle) (transfers : List ProbeTransfer) : ProbeResult :=
  let get := rangeGet handle
  match (transfers.getLast?.map (probeAttempt get)).getD (.error .connection) with
  | .ok response => if response.status ≥ 400 then .httpStatus response else .response response
  | .error e =>
      if get.autoFallbackToFullFileDownload then .requestError e else .threw e

def getHTTPError (context : FileInfoContext) (response : HTTPResponse) (url : Bytes) :
    ErrorData :=
  let error :=
    bytes "HTTP GET error on '" ++ url ++ bytes "' (HTTP " ++ decimal response.status ++
    bytes " " ++ context.statusMessage response.status ++ bytes ")"
  context.core.httpException response
    (if response.status = 416 then
      error ++ bytes
        " This could mean the file was changed. Try disabling the duckdb http metadata cache " ++
        bytes "if enabled, and confirm the server supports range requests."
    else error)

/-- The response with status `INVALID` that carries a request error. -/
def invalidResponse : HTTPResponse where
  status := 0

/-- The end of `LoadFileInfo`, with the response that answers for the file. -/
def readHeaders (context : FileInfoContext) (handle : HTTPFileHandle) (response : HTTPResponse) :
    HTTPFileHandle :=
  let contentSize :=
    match tryParseContentRange response with
    | some size => some size
    | none => tryParseContentLength response
  let lastModified :=
    if response.hasHeader (bytes "Last-Modified") then
      (context.tryParseLastModifiedTime (response.getHeaderValue (bytes "Last-Modified"))).getD
        handle.lastModified
    else handle.lastModified
  let etag :=
    if response.hasHeader (bytes "ETag") then response.getHeaderValue (bytes "ETag")
    else handle.etag
  let versionId :=
    if handle.httpParams.s3VersionIdPinning && response.hasHeader (bytes "x-amz-version-id") then
      response.getHeaderValue (bytes "x-amz-version-id")
    else handle.versionId
  { handle with length := contentSize.getD 0, lastModified, etag, versionId, initialized := true }

/-- The statuses with which the range request has answered for the file. -/
def answered (response : HTTPResponse) : Bool :=
  response.status = 206 || response.status = 202 || response.status = 200

def loadFromRange (context : FileInfoContext) (handle : HTTPFileHandle)
    (transfers : List ProbeTransfer) : Except LoadError HTTPFileHandle :=
  let result := getRangeRequest handle transfers
  let handle := transfers.foldl pinVersion handle
  match result with
  | .threw e => .error (.range e)
  | .httpStatus response => .error (.http (getHTTPError context response handle.path))
  | .response response =>
      if answered response then .ok (readHeaders context handle response)
      else .error (.http (getHTTPError context response handle.path))
  | .requestError e =>
      if e = .rangeRequestNotSupported && handle.httpParams.autoFallbackToFullDownload then
        .ok (readHeaders context { handle with forceFullDownload := true } invalidResponse)
      else .error (.http (getHTTPError context invalidResponse handle.path))

/-- `cachedFile` is the size of the file if it is downloaded already; `head` is what
`HeadRequest` returns or throws. -/
def loadFileInfo (context : FileInfoContext) (handle : HTTPFileHandle) (cachedFile : Option Nat)
    (head : Except ErrorData HTTPResponse) (transfers : List ProbeTransfer) :
    Except LoadError HTTPFileHandle :=
  match cachedFile with
  | some size => .ok { handle with length := size, initialized := true }
  | none =>
      if handle.initialized || handle.forceFullDownload then .ok handle
      else if handle.writeOverwriteMode then .ok { handle with length := 0, initialized := true }
      else
        match head with
        | .error error => .error (.head error)
        | .ok response =>
            if response.status = 200 then .ok (readHeaders context handle response)
            else if handle.flags.openForWriting && response.status = 404 then
              if !handle.flags.createFileIfNotExists && !handle.flags.overwriteExistingFile then
                .error (.io (bytes "Unable to open URL \"" ++ handle.path ++
                  bytes "\" for writing: file does not exist and CREATE flag is not set"))
              else .ok { handle with length := 0 }
            else if handle.flags.openForReading && response.status ≠ 404 &&
                response.status ≠ 301 then
              -- some servers refuse `HEAD` and answer a request for the first bytes
              loadFromRange context handle transfers
            else .error (.http (getHTTPError context response handle.path))

/-- Without `Range` a response to a `HEAD` has at most the length of the object. -/
structure HeadConforms (N : Nat) (response : HTTPResponse) : Prop where
  unranged : response.status = 200 → response.hasHeader contentRangeHeader = false
  length : response.status = 200 → response.hasHeader contentLengthHeader = true →
    Numeral (response.getHeaderValue contentLengthHeader) N

/-- The answers to a request for `bytes=0-1`: a part of the object with its place in it and
its complete length, which may be unknown, or the whole object, or neither of them. -/
structure ProbeConforms (N : Nat) (response : HTTPResponse) : Prop where
  ranged : response.status = 206 → ∃ first last complete,
    response.getHeaderValue contentRangeHeader =
      bytes "bytes " ++ decimal first ++ bytes "-" ++ decimal last ++ bytes "/" ++ complete ∧
    first ≤ last ∧ last < N ∧ (complete = bytes "*" ∨ Numeral complete N)
  unranged : response.status = 200 ∨ response.status = 202 →
    response.hasHeader contentRangeHeader = false
  length : response.status = 200 → response.hasHeader contentLengthHeader = true →
    Numeral (response.getHeaderValue contentLengthHeader) N

/-- What `Initialize` relies on: the length is that of the object, or the object is
downloaded in full. -/
def Sized (N : Nat) (handle : HTTPFileHandle) : Prop :=
  handle.length = N ∨
    ((handle.length = 0 ∨ handle.forceFullDownload = true) ∧
      shouldFullDownload handle.forceFullDownload handle.length
        handle.httpParams.forceDownloadThreshold = true)

/-- The last attempt delivers the response, and its ETag does not end the request. -/
def Delivered (handle : HTTPFileHandle) (transfers : List ProbeTransfer)
    (response : HTTPResponse) :
    Prop :=
  ∃ transfer ∈ transfers.getLast?, transfer.head = some response ∧ transfer.completed = true ∧
    etagMismatch (rangeGet handle) (responseHead response) = false

/-- The length of the two bytes stands for that of the object. -/
structure Misread (N : Nat) (response : HTTPResponse) : Prop where
  answered : response.status = 206 ∨ response.status = 202
  incomplete : tryParseContentRange response = none
  length : tryParseContentLength response = some 2
  longer : N ≠ 2

/-- When the size is that of the object: what the handle is opened with is right, or the
range request that is made in place of the `HEAD` is not misread. -/
def SizeKnown (N : Nat) (handle : HTTPFileHandle) (cachedFile : Option Nat)
    (head : Except ErrorData HTTPResponse) (transfers : List ProbeTransfer) : Prop :=
  match cachedFile with
  | some size => size = N ∨ size = 0 ∨ handle.forceFullDownload = true
  | none =>
      if handle.initialized || handle.forceFullDownload then
        handle.length = N ∨ handle.length = 0 ∨ handle.forceFullDownload = true
      else handle.writeOverwriteMode = true ∨
        ∀ response, head = .ok response →
          response.status ≠ 200 ∧ response.status ≠ 404 ∧ response.status ≠ 301 →
          ∀ probe, Delivered handle transfers probe → ¬ Misread N probe

theorem sized_iff {N : Nat} {handle : HTTPFileHandle} : Sized N handle ↔
    handle.length = N ∨ handle.length = 0 ∨ handle.forceFullDownload = true := by
  unfold Sized shouldFullDownload
  constructor
  · rintro (hlength | ⟨hfull, -⟩)
    · exact .inl hlength
    · exact .inr hfull
  · rintro (hlength | hzero | hforce)
    · exact .inl hlength
    · exact .inr ⟨.inl hzero, by simp [hzero]⟩
    · exact .inr ⟨.inr hforce, by simp [hforce]⟩

variable {context : FileInfoContext} {N : Nat} {handle handle' : HTTPFileHandle}
  {response : HTTPResponse} {transfers : List ProbeTransfer}

theorem optionalIdx_numeral {text : Bytes} (hnumeral : Numeral text N) :
    optionalIdx (stoull text) = if N < 2 ^ 64 - 1 then some N else none := by
  rw [hnumeral.stoull]
  unfold optionalIdx
  split
  · split
    · simp
      omega
    · simp
      omega
  · split
    · simp
      omega
    · simp

theorem tryParseContentLength_of_numeral
    (hlength : response.hasHeader contentLengthHeader = true →
      Numeral (response.getHeaderValue contentLengthHeader) N) :
    tryParseContentLength response = none ∨ tryParseContentLength response = some N := by
  unfold tryParseContentLength
  split
  · exact .inl rfl
  · rename_i hheader
    rw [Bool.not_eq_true', Bool.not_eq_false] at hheader
    rw [optionalIdx_numeral (hlength hheader)]
    split
    · exact .inr rfl
    · exact .inl rfl

theorem tryParseContentRange_of_unranged
    (hunranged : response.hasHeader contentRangeHeader = false) :
    tryParseContentRange response = none := by
  simp [tryParseContentRange, hunranged]

theorem tryParseContentRange_of_complete {range complete : Bytes} (hslash : (47 : UInt8) ∉ range)
    (hvalue : response.getHeaderValue contentRangeHeader = range ++ bytes "/" ++ complete)
    (hcomplete : complete = bytes "*" ∨ Numeral complete N) :
    tryParseContentRange response = none ∨ tryParseContentRange response = some N := by
  have hmark : bytes "/" = [47] := by decide
  have hfind : find [47] (range ++ 47 :: complete) = some range.length := find_singleton hslash
  have hrest : (range ++ 47 :: complete).drop (range.length + 1) = complete := by
    rw [← List.drop_drop, List.drop_left]
    rfl
  unfold tryParseContentRange
  split
  · exact .inl rfl
  · rw [hvalue, hmark, List.append_assoc, List.singleton_append]
    simp only [hfind, hrest]
    rcases hcomplete with rfl | hnumeral
    · exact .inl (if_pos rfl)
    · split
      · exact .inl rfl
      · rw [optionalIdx_numeral hnumeral]
        split
        · exact .inr rfl
        · exact .inl rfl

theorem tryParseContentRange_of_conforms (hconforms : ProbeConforms N response)
    (hanswered : answered response = true) :
    tryParseContentRange response = none ∨ tryParseContentRange response = some N := by
  simp only [answered, Bool.or_eq_true, decide_eq_true_eq] at hanswered
  rcases hanswered with (hranged | haccepted) | hwhole
  · obtain ⟨first, last, complete, hvalue, -, -, hcomplete⟩ := hconforms.ranged hranged
    refine tryParseContentRange_of_complete ?_ hvalue hcomplete
    simp only [List.mem_append, not_or]
    exact ⟨⟨⟨by decide, not_mem_decimal (by decide) _⟩, by decide⟩, not_mem_decimal (by decide) _⟩
  · exact .inl (tryParseContentRange_of_unranged (hconforms.unranged (.inr haccepted)))
  · exact .inl (tryParseContentRange_of_unranged (hconforms.unranged (.inl hwhole)))

theorem readHeaders_length :
    (readHeaders context handle response).length =
      (match tryParseContentRange response with
        | some size => some size
        | none => tryParseContentLength response).getD 0 := rfl

theorem sized_of_head (hconforms : HeadConforms N response) (hok : response.status = 200) :
    Sized N (readHeaders context handle response) := by
  rw [sized_iff, readHeaders_length, tryParseContentRange_of_unranged (hconforms.unranged hok)]
  rcases tryParseContentLength_of_numeral (hconforms.length hok) with hnone | hsome
  · exact .inr (.inl (by rw [hnone]; rfl))
  · exact .inl (by rw [hsome]; rfl)

theorem pinVersion_kept (transfers : List ProbeTransfer) (handle : HTTPFileHandle) :
    (transfers.foldl pinVersion handle).forceFullDownload = handle.forceFullDownload := by
  induction transfers generalizing handle with
  | nil => rfl
  | cons transfer transfers ih =>
      rw [List.foldl_cons, ih]
      unfold pinVersion
      split
      · rfl
      · split
        · rfl
        · rfl

theorem tryParseContentLength_of_matching
    (hmatching : contentLengthMismatch (rangeGet handle) (responseHead response) = false) :
    tryParseContentLength response = none ∨ tryParseContentLength response = some 2 := by
  unfold tryParseContentLength
  split
  · exact .inl rfl
  · rename_i hheader
    rw [Bool.not_eq_true', Bool.not_eq_false] at hheader
    simp only [contentLengthMismatch, responseHead, hheader, if_true, rangeGet] at hmatching
    split at hmatching
    · rename_i hnone
      rw [hnone]
      exact .inl rfl
    · rename_i size hsome
      have htwo : size = 2 := not_not.mp (of_decide_eq_false hmatching)
      rw [hsome, htwo]
      exact .inr rfl

theorem lt_of_answered (hanswered : answered response = true) : response.status < 300 := by
  simp only [answered, Bool.or_eq_true, decide_eq_true_eq] at hanswered
  omega

theorem probeAttempt_ok_iff {get : RangeGet} {transfer : ProbeTransfer}
    (hanswered : answered response = true) :
    probeAttempt get transfer = .ok response ↔
      transfer.head = some response ∧ transfer.completed = true ∧
        etagMismatch get (responseHead response) = false ∧
        contentLengthMismatch get (responseHead response) = false := by
  have hstatus := lt_of_answered hanswered
  constructor
  · intro hattempt
    unfold probeAttempt at hattempt
    split at hattempt
    · cases hattempt
    · rename_i response' hhead
      split at hattempt
      · cases hattempt
      · rename_i hhandler
        split at hattempt
        · cases hattempt
          rename_i hcompleted
          refine ⟨hhead, hcompleted, ?_⟩
          have hlow : (responseHead response).status < 300 := hstatus
          simp only [responseHandler, if_pos hlow] at hhandler
          split at hhandler
          · cases hhandler
          · rename_i hetag
            split at hhandler
            · cases hhandler
            · rename_i hlength
              exact ⟨by simpa using hetag, by simpa using hlength⟩
        · cases hattempt
  · rintro ⟨hhead, hcompleted, hetag, hlength⟩
    simp [probeAttempt, hhead, responseHandler, hetag, hlength, hcompleted]

theorem loadFromRange_ok (hload : loadFromRange context handle transfers = .ok handle') :
    handle'.forceFullDownload = true ∨
      ∃ probe, Delivered handle transfers probe ∧ answered probe = true ∧
        contentLengthMismatch (rangeGet handle) (responseHead probe) = false ∧
        handle' = readHeaders context (transfers.foldl pinVersion handle) probe := by
  simp only [loadFromRange] at hload
  split at hload
  · cases hload
  · cases hload
  · rename_i probe hresult
    split at hload
    · cases hload
      rename_i hanswered
      simp only [getRangeRequest] at hresult
      split at hresult
      · rename_i hattempt
        split at hresult
        · cases hresult
        cases hresult
        cases hlast : transfers.getLast? with
        | none =>
            rw [hlast] at hattempt
            cases hattempt
        | some transfer =>
            rw [hlast] at hattempt
            obtain ⟨hhead, hcompleted, hetag, hlength⟩ :=
              (probeAttempt_ok_iff hanswered).mp hattempt
            exact .inr ⟨probe, ⟨transfer, hlast, hhead, hcompleted, hetag⟩, hanswered,
              hlength, rfl⟩
      · split at hresult
        · cases hresult
        · cases hresult
    · cases hload
  · split at hload
    · cases hload
      exact .inl rfl
    · cases hload

theorem loadFromRange_of_delivered (hdelivered : Delivered handle transfers response)
    (hanswered : answered response = true)
    (hlength : contentLengthMismatch (rangeGet handle) (responseHead response) = false) :
    loadFromRange context handle transfers =
      .ok (readHeaders context (transfers.foldl pinVersion handle) response) := by
  obtain ⟨transfer, hlast, hhead, hcompleted, hetag⟩ := hdelivered
  have hattempt := (probeAttempt_ok_iff hanswered).mpr ⟨hhead, hcompleted, hetag, hlength⟩
  have hlow : ¬ response.status ≥ 400 := by
    have hstatus := lt_of_answered hanswered
    omega
  rw [Option.mem_def] at hlast
  simp [loadFromRange, getRangeRequest, hlast, hattempt, if_neg hlow, hanswered]

theorem sized_of_not_misread (hconforms : ProbeConforms N response)
    (hanswered : answered response = true)
    (hlength : contentLengthMismatch (rangeGet handle) (responseHead response) = false)
    (hread : ¬ Misread N response) : Sized N (readHeaders context handle' response) := by
  rw [sized_iff, readHeaders_length]
  rcases tryParseContentRange_of_conforms hconforms hanswered with hnone | hsome
  · rw [hnone]
    rcases tryParseContentLength_of_matching hlength with hempty | htwo
    · exact .inr (.inl (by rw [hempty]; rfl))
    · refine .inl ?_
      rw [htwo]
      by_contra hne
      have hother : response.status ≠ 200 := by
        intro hwhole
        rcases tryParseContentLength_of_numeral (hconforms.length hwhole) with hempty | hsize
        · rw [htwo] at hempty
          cases hempty
        · exact hne (Option.some.inj (htwo.symm.trans hsize))
      simp only [answered, Bool.or_eq_true, decide_eq_true_eq] at hanswered
      exact hread ⟨by omega, hnone, htwo, Ne.symm hne⟩
  · exact .inl (by rw [hsome]; rfl)

theorem not_sized_of_misread (hforce : handle'.forceFullDownload = false)
    (hmisread : Misread N response) : ¬ Sized N (readHeaders context handle' response) := by
  rw [sized_iff, readHeaders_length, hmisread.incomplete, hmisread.length]
  rintro (hsize | hzero | hfull)
  · exact hmisread.longer hsize.symm
  · cases hzero
  · exact absurd (hforce.symm.trans hfull) (by decide)

theorem matching_of_misread (hmisread : Misread N response) :
    contentLengthMismatch (rangeGet handle) (responseHead response) = false := by
  have hlength := hmisread.length
  unfold tryParseContentLength at hlength
  split at hlength
  · cases hlength
  · rename_i hheader
    rw [Bool.not_eq_true', Bool.not_eq_false] at hheader
    obtain ⟨hstoull, -⟩ := Option.filter_eq_some_iff.mp hlength
    simp [contentLengthMismatch, responseHead, hheader, hstoull, rangeGet]

theorem sized_of_range_iff (hforce : handle.forceFullDownload = false)
    (hprobe : ∀ transfer ∈ transfers, ∀ response, transfer.head = some response →
      ProbeConforms N response) :
    (∀ handle', loadFromRange context handle transfers = .ok handle' → Sized N handle') ↔
      ∀ probe, Delivered handle transfers probe → ¬ Misread N probe := by
  constructor
  · intro hsized probe hdelivered hmisread
    have hanswered : answered probe = true := by
      rcases hmisread.answered with hstatus | hstatus
      · simp [answered, hstatus]
      · simp [answered, hstatus]
    have hload : loadFromRange context handle transfers = _ :=
      loadFromRange_of_delivered hdelivered hanswered (matching_of_misread hmisread)
    exact not_sized_of_misread ((pinVersion_kept transfers handle).trans hforce) hmisread
      (hsized _ hload)
  · intro hread handle' hload
    rcases loadFromRange_ok hload with hfull | ⟨probe, hdelivered, hanswered, hlength, rfl⟩
    · exact sized_iff.mpr (.inr (.inr hfull))
    · have hnot := hread probe hdelivered
      obtain ⟨transfer, hlast, hdelivered, -⟩ := hdelivered
      have hconforms := hprobe transfer (List.mem_of_getLast? hlast) probe hdelivered
      exact sized_of_not_misread hconforms hanswered hlength hnot

/-- After `LoadFileInfo` the handle has the size of the object, or the object will be
downloaded in full, just when nothing was misread. -/
theorem sized_iff_sizeKnown (context : FileInfoContext) (N : Nat) (handle : HTTPFileHandle)
    (cachedFile : Option Nat) (head : Except ErrorData HTTPResponse)
    (transfers : List ProbeTransfer) (hreading : handle.flags.openForReading = true)
    (hhead : ∀ response, head = .ok response → HeadConforms N response)
    (hprobe : ∀ transfer ∈ transfers, ∀ response, transfer.head = some response →
      ProbeConforms N response) :
    (∀ handle', loadFileInfo context handle cachedFile head transfers = .ok handle' →
      Sized N handle') ↔ SizeKnown N handle cachedFile head transfers := by
  cases cachedFile with
  | some size => simp [loadFileInfo, SizeKnown, sized_iff]
  | none =>
      by_cases hsettled : (handle.initialized || handle.forceFullDownload) = true
      · simp only [loadFileInfo, SizeKnown, if_pos hsettled, Except.ok.injEq,
          forall_eq', sized_iff]
      · have hforce : handle.forceFullDownload = false := by
          rw [Bool.or_eq_true, not_or] at hsettled
          exact (Bool.not_eq_true _).mp hsettled.2
        simp only [loadFileInfo, SizeKnown, if_neg hsettled]
        by_cases hwrite : handle.writeOverwriteMode = true
        · simp [hwrite, sized_iff]
        · simp only [hwrite, Bool.false_eq_true, if_false, false_or]
          cases head with
          | error error => simp
          | ok response =>
              simp only [Except.ok.injEq, forall_eq']
              by_cases hok : response.status = 200
              · simp [hok, sized_of_head (hhead response rfl) hok]
              · rw [if_neg hok]
                by_cases hmissing : response.status = 404
                · simp only [hmissing, ne_eq, not_true_eq_false, false_and, and_false,
                    false_implies, iff_true]
                  intro handle' hload
                  split at hload
                  · split at hload
                    · cases hload
                    cases hload
                    exact sized_iff.mpr (.inr (.inl rfl))
                  · simp at hload
                · by_cases hmoved : response.status = 301
                  · simp [hmoved]
                  · simp only [hok, hmissing, hmoved, hreading, ne_eq,
                      not_false_eq_true, and_self,
                      true_implies, decide_false, Bool.and_false, Bool.false_eq_true, if_false]
                    exact sized_of_range_iff hforce hprobe

def plainContext : FileInfoContext where
  core := plainCore
  statusMessage _ := []
  tryParseLastModifiedTime _ := none

def opened : HTTPFileHandle where
  path := bytes "http://h/f"

/-- The server refuses the `HEAD` and answers the range request without the length. -/
def twoBytes : HTTPResponse where
  status := 206
  headers :=
    { entries := [(contentRangeHeader, bytes "bytes 0-1/*"), (contentLengthHeader, bytes "2")]
      distinct := by decide }

theorem twoBytes_conforms : ProbeConforms 10 twoBytes where
  ranged _ := ⟨0, 1, bytes "*", by decide, by decide, by decide, .inl rfl⟩
  unranged hstatus := absurd hstatus (by decide)
  length hstatus := absurd hstatus (by decide)

theorem refused_conforms : HeadConforms 10 { status := 405 } where
  unranged hstatus := absurd hstatus (by decide)
  length hstatus := absurd hstatus (by decide)

/-- The file of ten bytes is taken for one of two. -/
theorem size_of_partial_response :
    HeadConforms 10 { status := 405 } ∧ ProbeConforms 10 twoBytes ∧
      ∃ handle', loadFileInfo plainContext opened none (.ok { status := 405 })
          [{ head := some twoBytes }] = .ok handle' ∧
        handle'.length = 2 ∧ ¬ Sized 10 handle' := by
  refine ⟨refused_conforms, twoBytes_conforms, _, by rfl, ?_, ?_⟩
  · decide +kernel
  · rw [sized_iff]
    decide +kernel

theorem sized_iff_sizeKnown_twoBytes :
    (∀ handle', loadFileInfo plainContext opened none (.ok { status := 405 })
        [{ head := some twoBytes }] = .ok handle' → Sized 10 handle') ↔
      SizeKnown 10 opened none (.ok { status := 405 }) [{ head := some twoBytes }] := by
  refine sized_iff_sizeKnown plainContext 10 opened none _ _ rfl ?_ ?_
  · rintro _ ⟨⟩
    exact refused_conforms
  · intro transfer htransfer response hresponse
    rw [List.mem_singleton.mp htransfer] at hresponse
    cases hresponse
    exact twoBytes_conforms

end HaybarnHttpfs.FileInfo
