import HaybarnHttpfs.S3RequestLoop
import Mathlib.Data.ENat.Lattice

/-!
`S3MultiPartUpload::FinalizeMultipartUpload`: the completion is posted again while the
server answers with an internal error behind a status of 200, as often as
`http_retries` allows, and `Finalize` never posts it a second time. A single call of
`PostRequest` may send it more than once itself.
-/

namespace HaybarnHttpfs.MultipartCompletion

open HaybarnHttpfs.Foundation.ByteStrings HaybarnHttpfs.HTTPExchange HaybarnHttpfs.S3Xml
open HaybarnHttpfs.S3RequestLoop

universe u

/-- What a call of `PostRequest`, or a request within it, comes to. -/
abbrev Reply := Except ErrorData Returned

/-- What `FinalizeMultipartUpload` reads and writes. `completions` are the calls of
`PostRequest`: the bodies that each has sent, with the answers. -/
structure S3MultiPartUpload where
  partsUploaded : Nat
  partEtags : Nat → Option Bytes
  uploadFinalized : Bool := false
  completions : List (List (Bytes × Reply)) := []

def partElement (i : Nat) (etag : Bytes) : Bytes :=
  bytes "<Part><ETag>" ++ etag ++ bytes "</ETag><PartNumber>" ++ decimal (i + 1) ++
    bytes "</PartNumber></Part>"

/-- `none` if a part number is unknown. -/
def completionBody (partEtags : Nat → Option Bytes) (parts : Nat) : Option Bytes :=
  ((List.range parts).mapM fun i => (partEtags i).map (partElement i)).map fun elements =>
    bytes "<CompleteMultipartUpload xmlns=\"http://s3.amazonaws.com/doc/2006-03-01/\">" ++
      elements.flatten ++ bytes "</CompleteMultipartUpload>"

def hasMarker (response : HTTPResponse) : Bool :=
  (find (bytes "<CompleteMultipartUploadResult") response.body).isSome

def isEmbeddedInternalError (response : HTTPResponse) : Bool :=
  response.status = 200 && tryGetS3ErrorCode response.body = some (bytes "InternalError")

def unexpectedResponse (response : HTTPResponse) : Bytes :=
  bytes "Unexpected response during S3 multipart upload finalization: " ++
    decimal response.status ++ parseS3Error response.body ++ bytes "\n\n" ++ response.body

variable {σ : Type u}

theorem isSome_runS3Request (callbacks : Callbacks σ) (s : σ) :
    (runS3Request callbacks 3 false false s).isSome = true := by
  obtain ⟨run, -, hloop⟩ := exists_bounded_run callbacks false false s
  rw [hloop 3 (by decide)]
  rfl

/-- `S3FileSystem::PostRequest`; its loop ends after three requests at the latest. -/
def postRequest (callbacks : Callbacks σ) (s : σ) : Ended σ :=
  (runS3Request callbacks 3 false false s).get (isSome_runS3Request callbacks s)

structure Finalized (σ : Type u) where
  result : Except ErrorData Unit
  upload : S3MultiPartUpload
  state : σ

/-- The loop, once `transientRetries` completions were answered with an error to be
retried. -/
def complete (core : HTTPCore) (callbacks : Callbacks σ) (retries : Nat) (body : Bytes)
    (transientRetries : Nat) (upload : S3MultiPartUpload) (s : σ) : Finalized σ :=
  let call := postRequest callbacks s
  let upload := { upload with
    completions := upload.completions ++ [(answers call.entries).map (body, ·)] }
  match call.result with
  | .error error => { result := .error error, upload, state := call.state }
  -- `res->status` of a null pointer
  | .ok none => { result := .error {}, upload, state := call.state }
  | .ok (some response) =>
      if hasMarker response then { result := .ok (), upload, state := call.state }
      else if isEmbeddedInternalError response = true ∧ transientRetries < retries then
        complete core callbacks retries body (transientRetries + 1) upload call.state
      else
        { result := .error (core.httpException response (unexpectedResponse response)), upload
          state := call.state }
  termination_by retries - transientRetries
  decreasing_by omega

def finalizeMultipartUpload (core : HTTPCore) (callbacks : Callbacks σ) (retries : Nat)
    (upload : S3MultiPartUpload) (s : σ) : Finalized σ :=
  if upload.uploadFinalized then { result := .ok (), upload, state := s }
  else
    let upload := { upload with uploadFinalized := true }
    match completionBody upload.partEtags upload.partsUploaded with
    | none => { result := .error { message := bytes "Unknown part number" }, upload, state := s }
    | some body => complete core callbacks retries body 0 upload s

/-- `Finalize`; `flushAllBuffers` uploads what is left. -/
def finalize (flushAllBuffers : S3MultiPartUpload → Except ErrorData Unit × S3MultiPartUpload)
    (core : HTTPCore) (callbacks : Callbacks σ) (retries : Nat) (upload : S3MultiPartUpload)
    (s : σ) : Finalized σ :=
  if upload.uploadFinalized then { result := .ok (), upload, state := s }
  else
    match flushAllBuffers upload with
    | (.error error, upload) => { result := .error error, upload, state := s }
    | (.ok (), upload) =>
        if upload.partsUploaded = 0 then { result := .ok (), upload, state := s }
        else finalizeMultipartUpload core callbacks retries upload s

/-- A call of `PostRequest` in a row of them. -/
def callAt (callbacks : Callbacks σ) (s : σ) : Nat → Ended σ
  | 0 => postRequest callbacks s
  | n + 1 => callAt callbacks (postRequest callbacks s).state n

/-- The completion is answered with an error that is retried. -/
def retried (reply : Reply) : Bool :=
  match reply with
  | .ok (some response) => !hasMarker response && isEmbeddedInternalError response
  | _ => false

/-- The number of leading calls that are retried, which need not be finite. -/
noncomputable def leadingErrors (callbacks : Callbacks σ) (s : σ) : ℕ∞ :=
  ⨅ i : {i : ℕ // retried (callAt callbacks s i).result = false}, (i.val : ℕ∞)

def completes (reply : Reply) : Bool :=
  match reply with
  | .ok (some response) => hasMarker response
  | _ => false

variable {core : HTTPCore} {callbacks : Callbacks σ} {retries transientRetries : Nat}
  {body : Bytes} {upload : S3MultiPartUpload} {s : σ}

/-- The bodies that one call sends: again after a refresh, and again after a redirect. -/
theorem length_answers_postRequest (callbacks : Callbacks σ) (s : σ) :
    (answers (postRequest callbacks s).entries).length ≤
        1 + (postRequest callbacks s).entries.countP refreshed +
          (postRequest callbacks s).entries.countP switched ∧
      (postRequest callbacks s).entries.countP refreshed ≤ 1 ∧
      (postRequest callbacks s).entries.countP switched ≤ 1 := by
  obtain ⟨run, hbounded, hloop⟩ := exists_bounded_run callbacks false false s
  have hcall : postRequest callbacks s = run := by
    unfold postRequest
    rw [Option.get_of_eq_some _ (hloop 3 (by decide))]
  rw [hcall]
  exact ⟨hbounded.requests, hbounded.refreshes, hbounded.switches⟩

theorem callAt_eq_postRequest (callbacks : Callbacks σ) (s : σ) (n : Nat) :
    ∃ t, callAt callbacks s n = postRequest callbacks t := by
  induction n generalizing s with
  | zero => exact ⟨s, rfl⟩
  | succ n ih => exact ih (postRequest callbacks s).state

/-- The last of `n + 1` calls: the others are retried, and it is not or there are no
retries left. -/
structure LastCall (callbacks : Callbacks σ) (s : σ) (retries n : Nat) : Prop where
  before : ∀ i < n, retried (callAt callbacks s i).result = true
  bounded : n ≤ retries
  ended : n = retries ∨ retried (callAt callbacks s n).result = false

theorem LastCall.eq_min {n : Nat} (hlast : LastCall callbacks s retries n) :
    (n : ℕ∞) = min (leadingErrors callbacks s) retries := by
  apply le_antisymm
  · refine le_min (le_iInf fun i => ?_) (Nat.cast_le.mpr hlast.bounded)
    refine Nat.cast_le.mpr (Nat.le_of_not_lt fun hlt => ?_)
    have hretried := hlast.before i.1 hlt
    rw [i.2] at hretried
    cases hretried
  · rcases hlast.ended with rfl | hended
    · exact min_le_right _ _
    · exact min_le_of_left_le (iInf_le _
        (⟨n, hended⟩ : {i : ℕ // retried (callAt callbacks s i).result = false}))

theorem LastCall.succ {n : Nat} (hretried : retried (postRequest callbacks s).result = true)
    (hlast : LastCall callbacks (postRequest callbacks s).state retries n) :
    LastCall callbacks s (retries + 1) (n + 1) where
  before i hi := by
    cases i with
    | zero => exact hretried
    | succ i => exact hlast.before i (Nat.lt_of_succ_lt_succ hi)
  bounded := Nat.succ_le_succ hlast.bounded
  ended := hlast.ended.imp_left (congrArg Nat.succ)

/-- What the first `n + 1` calls send, with the answers. -/
def callBodies (callbacks : Callbacks σ) (s : σ) (body : Bytes) (n : Nat) :
    List (List (Bytes × Reply)) :=
  (List.range (n + 1)).map fun i => (answers (callAt callbacks s i).entries).map (body, ·)

theorem callBodies_succ (n : Nat) : callBodies callbacks s body (n + 1) =
    (answers (postRequest callbacks s).entries).map (body, ·) ::
      callBodies callbacks (postRequest callbacks s).state body n := by
  rw [callBodies, List.range_succ_eq_map, List.map_cons, List.map_map]
  rfl

/-- How the loop ends, once `transientRetries` of its retries are used. -/
structure Completed (callbacks : Callbacks σ) (s : σ) (retries : Nat) (body : Bytes)
    (upload : S3MultiPartUpload) (ended : Finalized σ) (n : Nat) : Prop where
  last : LastCall callbacks s retries n
  upload : ended.upload =
    { upload with completions := upload.completions ++ callBodies callbacks s body n }
  result : ended.result = .ok () ↔ completes (callAt callbacks s n).result = true

theorem completed_zero {left : Nat} {result : Except ErrorData Unit}
    (hended : left = 0 ∨ retried (postRequest callbacks s).result = false)
    (hresult : result = .ok () ↔ completes (postRequest callbacks s).result = true) :
    Completed callbacks s left body upload
      { result
        upload := { upload with completions := upload.completions ++
          [(answers (postRequest callbacks s).entries).map (body, ·)] }
        state := (postRequest callbacks s).state } 0 :=
  ⟨⟨fun i hi => absurd hi (Nat.not_lt_zero i), Nat.zero_le _, hended.imp_left Eq.symm⟩,
    rfl, hresult⟩

theorem complete_spec (core : HTTPCore) (callbacks : Callbacks σ) (body : Bytes)
    (upload : S3MultiPartUpload) (s : σ) {left : Nat}
    (hleft : left = retries - transientRetries) :
    ∃ n, Completed callbacks s left body upload
      (complete core callbacks retries body transientRetries upload s) n := by
  -- on the retries that are left
  induction left generalizing transientRetries upload s with
  | zero =>
      -- the last call: its answer decides
      have hexhausted : ¬ transientRetries < retries := by omega
      refine ⟨0, ?_⟩
      rw [complete]
      cases hcall : (postRequest callbacks s).result with
      | error error => exact completed_zero (.inl rfl) (by simp [hcall, completes])
      | ok returned =>
          cases returned with
          | none => exact completed_zero (.inl rfl) (by simp [hcall, completes])
          | some response =>
              simp only [hexhausted, and_false, if_false]
              split
              · rename_i hmarker
                exact completed_zero (.inl rfl) (by simp [hcall, completes, hmarker])
              · rename_i hmarker
                exact completed_zero (.inl rfl) (by simp [hcall, completes, hmarker])
  | succ left ih =>
      have hmore : transientRetries < retries := by omega
      rw [complete]
      cases hcall : (postRequest callbacks s).result with
      | error error =>
          exact ⟨0, completed_zero (.inr (by rw [hcall]; rfl)) (by simp [hcall, completes])⟩
      | ok returned =>
          cases returned with
          | none =>
              exact ⟨0, completed_zero (.inr (by rw [hcall]; rfl)) (by simp [hcall, completes])⟩
          | some response =>
              simp only [hmore, and_true]
              split
              · rename_i hmarker
                exact ⟨0, completed_zero (.inr (by simp [hcall, retried, hmarker]))
                  (by simp [hcall, completes, hmarker])⟩
              · rename_i hmarker
                split
                · rename_i herror
                  have hretried : retried (postRequest callbacks s).result = true := by
                    simp [hcall, retried, hmarker, herror]
                  obtain ⟨n, hlast, hupload, hresult⟩ :=
                    ih { upload with completions := upload.completions ++
                        [(answers (postRequest callbacks s).entries).map (body, ·)] }
                      (postRequest callbacks s).state
                      (by omega : left = retries - (transientRetries + 1))
                  refine ⟨n + 1, hlast.succ hretried, ?_, hresult⟩
                  rw [hupload, callBodies_succ, List.append_assoc]
                  rfl
                · rename_i herror
                  exact ⟨0, completed_zero (.inr (by simp [hcall, retried, herror]))
                    (by simp [hcall, completes, hmarker])⟩

/-- Any further calls of `Finalize`. -/
def finalizeAgain
    (flushAllBuffers : S3MultiPartUpload → Except ErrorData Unit × S3MultiPartUpload)
    (core : HTTPCore) (retries : Nat) (upload : S3MultiPartUpload) :
    List (Callbacks σ × σ) → S3MultiPartUpload
  | [] => upload
  | (callbacks, s) :: later =>
      finalizeAgain flushAllBuffers core retries
        (finalize flushAllBuffers core callbacks retries upload s).upload later

theorem finalizeAgain_eq
    (flushAllBuffers : S3MultiPartUpload → Except ErrorData Unit × S3MultiPartUpload)
    (hfinalized : upload.uploadFinalized = true) (later : List (Callbacks σ × σ)) :
    finalizeAgain flushAllBuffers core retries upload later = upload := by
  induction later with
  | nil => rfl
  | cons call later ih => rw [finalizeAgain, finalize, if_pos hfinalized, ih]

/-- `PostRequest` is called once more for each leading error within the budget, and each
call sends the body at most once more after a refresh and once more after a redirect;
success is the marker of the last call, and later calls of `Finalize` send nothing. -/
theorem completion_bounded (core : HTTPCore) (callbacks : Callbacks σ) (retries : Nat)
    (flushAllBuffers : S3MultiPartUpload → Except ErrorData Unit × S3MultiPartUpload)
    (upload : S3MultiPartUpload) (s : σ) (body : Bytes)
    (hfirst : upload.uploadFinalized = false)
    (hbody : completionBody upload.partEtags upload.partsUploaded = some body) :
    ∃ n : ℕ, (n : ℕ∞) = min (leadingErrors callbacks s) retries ∧
      (finalizeMultipartUpload core callbacks retries upload s).upload.completions =
        upload.completions ++ callBodies callbacks s body n ∧
      (∀ i, (answers (callAt callbacks s i).entries).length ≤
          1 + (callAt callbacks s i).entries.countP refreshed +
            (callAt callbacks s i).entries.countP switched ∧
        (callAt callbacks s i).entries.countP refreshed ≤ 1 ∧
        (callAt callbacks s i).entries.countP switched ≤ 1) ∧
      ((finalizeMultipartUpload core callbacks retries upload s).result = .ok () ↔
        completes (callAt callbacks s n).result = true) ∧
      ∀ later : List (Callbacks σ × σ), (finalizeAgain flushAllBuffers core retries
          (finalizeMultipartUpload core callbacks retries upload s).upload later).completions =
        (finalizeMultipartUpload core callbacks retries upload s).upload.completions := by
  have hcall : finalizeMultipartUpload core callbacks retries upload s =
      complete core callbacks retries body 0 { upload with uploadFinalized := true } s := by
    simp [finalizeMultipartUpload, hfirst, hbody]
  obtain ⟨n, hlast, hupload, hresult⟩ := complete_spec core callbacks body
    { upload with uploadFinalized := true } s (Nat.sub_zero retries).symm
  refine ⟨n, hlast.eq_min, ?_, fun i => ?_, ?_, fun later => ?_⟩
  · rw [hcall, hupload]
  · obtain ⟨t, ht⟩ := callAt_eq_postRequest callbacks s i
    rw [ht]
    exact length_answers_postRequest callbacks t
  · rw [hcall]
    exact hresult
  · rw [hcall, finalizeAgain_eq flushAllBuffers (by rw [hupload])]

def onePart : S3MultiPartUpload where
  partsUploaded := 1
  partEtags _ := some (bytes "\"e\"")

def onePartBody : Bytes :=
  bytes "<CompleteMultipartUpload xmlns=\"http://s3.amazonaws.com/doc/2006-03-01/\">" ++
    bytes "<Part><ETag>\"e\"</ETag><PartNumber>1</PartNumber></Part>" ++
    bytes "</CompleteMultipartUpload>"

theorem completionBody_onePart :
    completionBody onePart.partEtags onePart.partsUploaded = some onePartBody := by
  have helement : partElement 0 (bytes "\"e\"") =
      bytes "<Part><ETag>\"e\"</ETag><PartNumber>1</PartNumber></Part>" := by
    decide +kernel
  have helements : (List.range onePart.partsUploaded).mapM
      (fun i => (onePart.partEtags i).map (partElement i)) =
        some [partElement 0 (bytes "\"e\"")] := rfl
  rw [completionBody, helements, helement]
  rfl

/-- A server that answers in a row, behind credentials that can be refreshed. -/
def answering (responses : List HTTPResponse) : Callbacks Nat where
  createData s := (.ok { authParams := {}, refreshableHttpParams := {} }, s)
  request s _ := (.ok responses[s]?, s + 1)
  refreshAuthParams s _ _ := (.ok true, s)
  setRegion s _ := (.ok (), s)

def internalError : HTTPResponse where
  status := 200
  body := bytes "<Error><Code>InternalError</Code></Error>"

def completedResponse : HTTPResponse where
  status := 200
  body := bytes "<CompleteMultipartUploadResult></CompleteMultipartUploadResult>"

/-- One internal error behind a status of 200, then the result. -/
def errorThenResult : Callbacks Nat := answering [internalError, completedResponse]

theorem completion_bounded_onePart :
    ∃ n : ℕ, (n : ℕ∞) = min (leadingErrors errorThenResult 0) (3 : ℕ) ∧
      (finalizeMultipartUpload plainCore errorThenResult 3 onePart 0).upload.completions =
        onePart.completions ++ callBodies errorThenResult 0 onePartBody n ∧
      ((finalizeMultipartUpload plainCore errorThenResult 3 onePart 0).result = .ok () ↔
        completes (callAt errorThenResult 0 n).result = true) := by
  obtain ⟨n, hn, hsent, -, hresult, -⟩ := completion_bounded plainCore errorThenResult 3
    (fun upload => (.ok (), upload)) onePart 0 onePartBody rfl completionBody_onePart
  exact ⟨n, hn, hsent, hresult⟩

def repliesOf (upload : S3MultiPartUpload) : List Reply :=
  upload.completions.flatten.map Prod.snd

/-- A denied completion and then the result: no error is retried, and the body is sent
twice. -/
def deniedThenResult : Callbacks Nat := answering [denied, completedResponse]

theorem finalize_deniedThenResult :
    (finalizeMultipartUpload plainCore deniedThenResult 3 onePart 0).upload.completions =
      [[(onePartBody, .ok (some denied)), (onePartBody, .ok (some completedResponse))]] := by
  simp only [finalizeMultipartUpload, completionBody_onePart]
  rw [complete]
  rfl

theorem completion_sent_again_after_refresh :
    ¬ ∀ (callbacks : Callbacks Nat) (retries s : Nat) (upload : S3MultiPartUpload) (body : Bytes),
      upload.uploadFinalized = false → upload.completions = [] →
      completionBody upload.partEtags upload.partsUploaded = some body →
      let ended := finalizeMultipartUpload plainCore callbacks retries upload s
      ended.upload.completions.flatten.map Prod.fst =
        List.replicate
          (min ((repliesOf ended.upload).takeWhile retried).length retries + 1) body := by
  intro hall
  have hsent := hall deniedThenResult 3 0 onePart onePartBody rfl rfl completionBody_onePart
  simp only [repliesOf, finalize_deniedThenResult] at hsent
  have hlength := congrArg List.length hsent
  revert hlength
  decide +kernel

end HaybarnHttpfs.MultipartCompletion
