import HaybarnHttpfs.CredentialReload
import HaybarnHttpfs.ListObjectsV2
import HaybarnHttpfs.S3RequestLoop

/-!
`AWSListObjectV2::Request`: the loop around one request for a page, with a credential
refresh and a region redirect of its own.
-/

namespace HaybarnHttpfs.ListRequestLoop

open HaybarnHttpfs.Foundation.ByteStrings HaybarnHttpfs.S3Auth HaybarnHttpfs.S3Url
open HaybarnHttpfs.HTTPExchange HaybarnHttpfs.S3Xml HaybarnHttpfs.CredentialReload
open HaybarnHttpfs.S3RequestLoop (isAuthRefreshFailure)

universe u

/-- Of the engine: the exception class, URL encoding, and the texts of the status codes;
and the signed headers, which are not looked into. -/
structure ListContext (σ : Type u) extends RefreshContext σ where
  core : HTTPCore
  urlEncode : Bytes → Bool → Bytes
  statusMessage : Nat → Bytes
  createS3Header : Bytes → Bytes → Bytes → S3AuthParams → List (Bytes × Bytes)

structure ListCall where
  path : Bytes
  continuationToken : Bytes := []
  useDelimiter : Bool := false
  maxKeys : Option Nat := none

inductive ListException where
  | url (e : S3UrlError)
  | io (message : Bytes)
  | http (error : ErrorData)
  | refresh (e : RefreshError)
  /-- Exceeded retry count in AWSListObjectV2::Request while retrying region redirects or
  credential refresh. -/
  | retriesExceeded

/-- One request that is sent, with the material it is made with. -/
structure SentRequest where
  url : Bytes
  headers : List (Bytes × Bytes)
  authParams : S3AuthParams
  httpParams : HTTPFSParams

/-- What `HTTPUtil::Request` gives back: its own error or a response. -/
inductive Reply where
  | requestError (error : Bytes)
  | response (response : HTTPResponse)

/-- The parameters are listed in the order of their names. -/
def reqParams (urlEncode : Bytes → Bool → Bytes) (call : ListCall) (key : Bytes) :
    List (Bytes × Bytes) :=
  (if call.continuationToken.isEmpty then []
    else [(bytes "continuation-token", urlEncode call.continuationToken true)]) ++
  (if call.useDelimiter then [(bytes "delimiter", bytes "%2F")] else []) ++
  [(bytes "encoding-type", bytes "url"), (bytes "list-type", bytes "2")] ++
  (call.maxKeys.toList.map fun maxKeys => (bytes "max-keys", decimal maxKeys)) ++
  [(bytes "prefix", urlEncode key true)]

def encodedParams (params : List (Bytes × Bytes)) : Bytes :=
  (params.flatMap fun param => param.1 ++ bytes "=" ++ param.2 ++ bytes "&").dropLast

def sentRequest {σ : Type u} (context : ListContext σ) (call : ListCall) (parsedUrl : ParsedS3Url)
    (material : Material) : SentRequest :=
  let reqPath := parsedUrl.path.take (parsedUrl.path.length - parsedUrl.key.length)
  let query := encodedParams (reqParams context.urlEncode call parsedUrl.key)
  let fullHost := parsedUrl.httpProto ++ parsedUrl.host
  let listobjectv2Url := reqPath ++ bytes "?" ++ query
  { url :=
      if startsWith listobjectv2Url fullHost then listobjectv2Url
      else if startsWith listobjectv2Url [slash] then fullHost ++ listobjectv2Url
      else fullHost ++ bytes "/" ++ listobjectv2Url
    headers := context.createS3Header reqPath query parsedUrl.host material.authParams
    authParams := material.authParams
    httpParams := material.httpParams }

def getS3BadRequestError (authParams : S3AuthParams) : Bytes :=
  bytes "\n\nBad Request - this can be caused by the S3 region being set incorrectly." ++
    if authParams.region.isEmpty then bytes "\n* No region is provided."
    else bytes "\n* Provided region is: \"" ++ authParams.region ++ bytes "\""

def getS3AuthError (authParams : S3AuthParams) : Bytes :=
  bytes "\n\nAuthentication Failure - this is usually caused by " ++
    bytes "invalid or missing credentials." ++
    (if authParams.secretAccessKey.isEmpty && authParams.accessKeyId.isEmpty then
      bytes "\n* No credentials are provided."
    else bytes "\n* Credentials are provided, but they did not work.") ++
    bytes "\n* See https://duckdb.org/docs/stable/extensions/httpfs/s3api.html"

def trimSlashes (path : Bytes) : Bytes := (path.reverse.dropWhile (· = slash)).reverse

def getS3Error {σ : Type u} (context : ListContext σ) (authParams : S3AuthParams)
    (response : HTTPResponse) (url : Bytes) : ErrorData :=
  let extraText := parseS3Error response.body ++
    (if response.status = 400 then getS3BadRequestError authParams else []) ++
    (if response.status = 403 then getS3AuthError authParams else [])
  context.core.httpException response
    (bytes "HTTP GET error reading '" ++ url ++ bytes "' in region '" ++ authParams.region ++
      bytes "' (HTTP " ++ decimal response.status ++ bytes " " ++
      context.statusMessage response.status ++ bytes ")" ++ extraText)

def movedError {σ : Type u} (context : ListContext σ) (response : HTTPResponse)
    (path reason : Bytes) : ErrorData :=
  context.core.httpException response
    (bytes "HTTP 301 response when running glob \"" ++ path ++ bytes "\" but " ++ reason)

/-- `responses` are those received so far, `redirect` is the region that a header named,
and `reload` the region after the credential refresh. -/
structure LoopState (σ : Type u) where
  material : Material
  secrets : σ
  retriedAuthRefresh : Bool := false
  retriedRegion : Bool := false
  responses : List HTTPResponse := []
  redirect : Option Bytes := none
  reload : Option Bytes := none

inductive Next (σ : Type u) where
  | again (s : LoopState σ)
  | ended (result : Except ListException Bytes) (s : LoopState σ)

variable {σ : Type u}

def regionHeader : Bytes := bytes "x-amz-bucket-region"

def errorRegion (response : HTTPResponse) (s : LoopState σ) : Bytes :=
  let responseRegion := response.getHeaderValue regionHeader
  if !s.retriedRegion && response.hasHeader regionHeader &&
      responseRegion ≠ s.material.authParams.region then responseRegion
  else []

/-- The region to switch to, which is empty if there is none. -/
def updatedBucketRegion (context : ListContext σ) (path : Bytes) (response : HTTPResponse)
    (s : LoopState σ) : Except ErrorData Bytes :=
  let responseRegion := response.getHeaderValue regionHeader
  if response.status = 301 then
    if !s.retriedRegion && response.hasHeader regionHeader then
      if responseRegion = s.material.authParams.region then
        .error (movedError context response path
          (bytes "suggested region \"" ++ responseRegion ++
            bytes "\" is the same as the region we used to make the request"))
      else .ok responseRegion
    else
      .error (movedError context response path
        (bytes "HTTP response did not contain header_x-amz-bucket-region"))
  else if 400 ≤ response.status then
    if (errorRegion response s).isEmpty then
      .error (getS3Error context s.material.authParams response (trimSlashes path))
    else .ok (errorRegion response s)
  else .ok []

def afterRefresh (context : ListContext σ) (path : Bytes) (response : HTTPResponse)
    (s : LoopState σ) : Next σ :=
  match updatedBucketRegion context path response s with
  | .error error => .ended (.error (.http error)) s
  | .ok updated =>
      if updated.isEmpty then .ended (.ok response.body) s
      else
        .again { s with
          material := { s.material with authParams := s.material.authParams.setRegion updated }
          retriedRegion := true
          redirect := some updated }

def onResponse (context : ListContext σ) (path : Bytes) (request : RequestMaterial)
    (response : HTTPResponse) (s : LoopState σ) : Next σ :=
  let s := { s with responses := s.responses ++ [response] }
  if !s.retriedAuthRefresh && isAuthRefreshFailure response then
    match tryRefreshS3AuthMaterial context.toRefreshContext path request
        s.retriedRegion s.material s.secrets with
    | (.error e, material, secrets) => .ended (.error (.refresh e)) { s with material, secrets }
    | (.ok true, material, secrets) =>
        .again { s with
          material, secrets, retriedAuthRefresh := true
          reload := some material.authParams.region }
    | (.ok false, material, secrets) =>
        afterRefresh context path response { s with material, secrets }
  else afterRefresh context path response s

def iteration (context : ListContext σ) (call : ListCall) (replies : Nat → SentRequest → Reply)
    (n : Nat) (s : LoopState σ) : Next σ :=
  let request : RequestMaterial :=
    { authParams := s.material.authParams
      httpParams := snapshotRefreshableHTTPParams s.material.httpParams }
  match s3UrlParse call.path s.material.authParams with
  | .error e => .ended (.error (.url e)) s
  | .ok parsedUrl =>
      let sent := sentRequest context call parsedUrl s.material
      match replies n sent with
      | .requestError error =>
          .ended (.error
            (.io (error ++ bytes " error for HTTP GET to '" ++ sent.url ++ bytes "'"))) s
      | .response response => onResponse context call.path request response s

/-- The iterations that are `left`; `replies n` is the answer to the `n`-th request. -/
def requestFrom (context : ListContext σ) (call : ListCall)
    (replies : Nat → SentRequest → Reply) :
    (left n : Nat) → LoopState σ → Except ListException Bytes × LoopState σ
  | 0, _, s => (.error .retriesExceeded, s)
  | left + 1, n, s =>
      match iteration context call replies n s with
      | .ended result s => (result, s)
      | .again s => requestFrom context call replies left (n + 1) s

/-- `MAX_RETRIES` is 2. -/
def request (context : ListContext σ) (call : ListCall) (replies : Nat → SentRequest → Reply)
    (material : Material) (secrets : σ) : Except ListException Bytes × LoopState σ :=
  requestFrom context call replies 3 0 { material, secrets }

/-- The statuses that the loop tells apart: of those below 400 that are not 2xx only a 301
that names a region or lacks the header. -/
def Expected (response : HTTPResponse) : Prop :=
  (200 ≤ response.status ∧ response.status < 300) ∨ 400 ≤ response.status ∨
    (response.status = 301 ∧
      (response.hasHeader regionHeader = true → response.getHeaderValue regionHeader ≠ []))

/-- The region is the one that a header named, or else the one after the credential refresh, or
else the one it was. The field `reload` of the state is a ghost: no branch reads it, and the
refresh sets it to the region that the material then has. -/
structure RegionLaw (region : Bytes) (s : LoopState σ) : Prop where
  redirected : ∀ updated ∈ s.redirect, s.material.authParams.region = updated ∧ updated ≠ [] ∧
    ∃ response ∈ s.responses, response.hasHeader regionHeader = true ∧
      response.getHeaderValue regionHeader = updated
  reloaded : s.redirect = none → ∀ reload ∈ s.reload, s.material.authParams.region = reload
  kept : s.redirect = none → s.reload = none → s.material.authParams.region = region

/-- What holds at the start of every iteration; one more is left than there are recoveries. -/
structure Invariant (region : Bytes) (left : Nat) (s : LoopState σ) : Prop where
  law : RegionLaw region s
  budget : (if s.retriedAuthRefresh then 0 else 1) + (if s.retriedRegion then 0 else 1) < left
  redirect : s.retriedRegion = true ↔ s.redirect.isSome
  reload : s.retriedAuthRefresh = true ↔ s.reload.isSome

/-- What holds when the loop has ended: a body is that of the last response, and a status
that is told apart is then a success. -/
structure Outcome (region : Bytes) (result : Except ListException Bytes) (s : LoopState σ) :
    Prop where
  body : ∀ body, result = .ok body → ∃ response ∈ s.responses.getLast?, body = response.body ∧
    (Expected response → 200 ≤ response.status ∧ response.status < 300)
  bounded : result ≠ .error .retriesExceeded
  law : RegionLaw region s

variable {context : ListContext σ} {call : ListCall} {replies : Nat → SentRequest → Reply}
  {region path : Bytes} {request : RequestMaterial} {response : HTTPResponse}
  {left n : Nat} {s s' : LoopState σ} {result : Except ListException Bytes}

theorem errorRegion_of_ne_nil (hne : errorRegion response s ≠ []) :
    s.retriedRegion = false ∧ response.hasHeader regionHeader = true ∧
      response.getHeaderValue regionHeader = errorRegion response s := by
  simp only [errorRegion] at hne ⊢
  split at hne
  · rename_i hnamed
    rw [if_pos hnamed]
    rw [Bool.and_eq_true, Bool.and_eq_true, Bool.not_eq_true'] at hnamed
    exact ⟨hnamed.1.1, hnamed.1.2, rfl⟩
  · exact absurd rfl hne

theorem updatedBucketRegion_ok {updated : Bytes} (hne : updated ≠ [])
    (hupdated : updatedBucketRegion context path response s = .ok updated) :
    s.retriedRegion = false ∧ response.hasHeader regionHeader = true ∧
      response.getHeaderValue regionHeader = updated := by
  simp only [updatedBucketRegion] at hupdated
  split at hupdated
  · split at hupdated
    · rename_i hnamed
      rw [Bool.and_eq_true, Bool.not_eq_true'] at hnamed
      split at hupdated
      · cases hupdated
      · cases hupdated
        exact ⟨hnamed.1, hnamed.2, rfl⟩
    · cases hupdated
  · split at hupdated
    · split at hupdated
      · cases hupdated
      · cases hupdated
        exact errorRegion_of_ne_nil hne
    · cases hupdated
      exact absurd rfl hne

theorem success_of_updatedBucketRegion (hexpected : Expected response)
    (hupdated : updatedBucketRegion context path response s = .ok []) :
    200 ≤ response.status ∧ response.status < 300 := by
  simp only [updatedBucketRegion] at hupdated
  rcases hexpected with hsuccess | herror | ⟨hmoved, hnamed⟩
  · exact hsuccess
  · have hmoved : response.status ≠ 301 := by omega
    rw [if_neg hmoved, if_pos herror] at hupdated
    split at hupdated
    · cases hupdated
    · rename_i hsome
      have hempty := Except.ok.inj hupdated
      exact absurd (List.isEmpty_iff.mpr hempty) hsome
  · rw [if_pos hmoved] at hupdated
    split at hupdated
    · rename_i hheader
      rw [Bool.and_eq_true] at hheader
      split at hupdated
      · cases hupdated
      · have hempty := Except.ok.inj hupdated
        exact absurd hempty (hnamed hheader.2)
    · cases hupdated

theorem afterRefresh_again (hinvariant : Invariant region (left + 1) s)
    (hlast : s.responses.getLast? = some response)
    (hagain : afterRefresh context path response s = .again s') : Invariant region left s' := by
  unfold afterRefresh at hagain
  split at hagain
  · cases hagain
  · rename_i updated hupdated
    split at hagain
    · cases hagain
    · rename_i hsome
      have hne : updated ≠ [] := fun hnil => hsome (List.isEmpty_iff.mpr hnil)
      obtain ⟨hfresh, hheader, hvalue⟩ := updatedBucketRegion_ok hne hupdated
      have hbudget := hinvariant.budget
      cases hagain
      refine ⟨⟨?_, nofun, nofun⟩, ?_, by simp, hinvariant.reload⟩
      · rintro _ ⟨⟩
        exact ⟨setRegion_region hne, hne, response, List.mem_of_getLast? hlast, hheader, hvalue⟩
      · simp only [hfresh, Bool.false_eq_true, if_false, if_true] at hbudget ⊢
        omega

theorem afterRefresh_ended (hlaw : RegionLaw region s)
    (hlast : s.responses.getLast? = some response)
    (hended : afterRefresh context path response s = .ended result s') :
    Outcome region result s' := by
  unfold afterRefresh at hended
  split at hended
  · cases hended
    exact ⟨nofun, nofun, hlaw⟩
  · rename_i updated hupdated
    split at hended
    · rename_i hnone
      obtain rfl := List.isEmpty_iff.mp hnone
      cases hended
      refine ⟨?_, nofun, hlaw⟩
      rintro _ ⟨⟩
      exact ⟨response, hlast, rfl,
        fun hexpected => success_of_updatedBucketRegion hexpected hupdated⟩
    · cases hended

theorem RegionLaw.received (hlaw : RegionLaw region s) (response : HTTPResponse) :
    RegionLaw region { s with responses := s.responses ++ [response] } := by
  refine ⟨fun updated hupdated => ?_, hlaw.reloaded, hlaw.kept⟩
  obtain ⟨hregion, hne, named, hnamed, hheader⟩ := hlaw.redirected updated hupdated
  exact ⟨hregion, hne, named, List.mem_append_left _ hnamed, hheader⟩

theorem Invariant.received (hinvariant : Invariant region left s) (response : HTTPResponse) :
    Invariant region left { s with responses := s.responses ++ [response] } :=
  ⟨hinvariant.law.received response, hinvariant.budget, hinvariant.redirect, hinvariant.reload⟩

theorem Invariant.withSecrets (hinvariant : Invariant region left s) (secrets : σ) :
    Invariant region left { s with secrets } :=
  ⟨⟨hinvariant.law.redirected, hinvariant.law.reloaded, hinvariant.law.kept⟩, hinvariant.budget,
    hinvariant.redirect, hinvariant.reload⟩

theorem Invariant.refreshed {material : Material} {secrets : σ}
    (hinvariant : Invariant region (left + 1) s) (hfresh : s.retriedAuthRefresh = false)
    (hatomic : Atomic request s.retriedRegion s.material (.ok true) material) :
    Invariant region left
      { s with
        material, secrets, retriedAuthRefresh := true
        reload := some material.authParams.region } := by
  have hbudget := hinvariant.budget
  refine ⟨⟨fun updated hupdated => ?_, ?_, nofun⟩, ?_, hinvariant.redirect, by simp⟩
  · obtain ⟨hregion, hne, hnamed⟩ := hinvariant.law.redirected updated hupdated
    have hretried : s.retriedRegion = true :=
      hinvariant.redirect.mpr (Option.isSome_of_mem hupdated)
    have hkept := hatomic.region hretried (by rwa [hregion])
    exact ⟨hkept.trans hregion, hne, hnamed⟩
  · rintro - _ ⟨⟩
    rfl
  · simp only [hfresh, Bool.false_eq_true, if_false, if_true] at hbudget ⊢
    omega

theorem onResponse_again (hinvariant : Invariant region (left + 1) s)
    (hagain : onResponse context path request response s = .again s') :
    Invariant region left s' := by
  have hreceived := hinvariant.received response
  simp only [onResponse] at hagain
  split at hagain
  · rename_i hfailure
    rw [Bool.and_eq_true, Bool.not_eq_true'] at hfailure
    split at hagain
    · cases hagain
    · rename_i heq
      cases hagain
      exact hreceived.refreshed hfailure.1 (refresh_atomic heq)
    · rename_i heq
      have hunchanged := (refresh_atomic heq).unchanged nofun
      subst hunchanged
      exact afterRefresh_again (hreceived.withSecrets _) (List.getLast?_concat ..) hagain
  · exact afterRefresh_again hreceived (List.getLast?_concat ..) hagain

theorem onResponse_ended (hinvariant : Invariant region left s)
    (hended : onResponse context path request response s = .ended result s') :
    Outcome region result s' := by
  have hreceived := hinvariant.received response
  simp only [onResponse] at hended
  split at hended
  · split at hended
    · rename_i heq
      have hunchanged := (refresh_atomic heq).unchanged nofun
      subst hunchanged
      cases hended
      exact ⟨nofun, nofun, (hreceived.withSecrets _).law⟩
    · cases hended
    · rename_i heq
      have hunchanged := (refresh_atomic heq).unchanged nofun
      subst hunchanged
      exact afterRefresh_ended (hreceived.withSecrets _).law (List.getLast?_concat ..) hended
  · exact afterRefresh_ended hreceived.law (List.getLast?_concat ..) hended

theorem iteration_again (hinvariant : Invariant region (left + 1) s)
    (hagain : iteration context call replies n s = .again s') : Invariant region left s' := by
  simp only [iteration] at hagain
  split at hagain
  · cases hagain
  · split at hagain
    · cases hagain
    · exact onResponse_again hinvariant hagain

theorem iteration_ended (hinvariant : Invariant region left s)
    (hended : iteration context call replies n s = .ended result s') :
    Outcome region result s' := by
  simp only [iteration] at hended
  split at hended
  · cases hended
    exact ⟨nofun, nofun, hinvariant.law⟩
  · split at hended
    · cases hended
      exact ⟨nofun, nofun, hinvariant.law⟩
    · exact onResponse_ended hinvariant hended

theorem requestFrom_outcome (hinvariant : Invariant region left s) :
    Outcome region (requestFrom context call replies left n s).1
      (requestFrom context call replies left n s).2 := by
  induction left generalizing n s with
  | zero => exact absurd hinvariant.budget (Nat.not_lt_zero _)
  | succ left ih =>
      unfold requestFrom
      split
      · rename_i hended
        exact iteration_ended hinvariant hended
      · rename_i hagain
        exact ih (iteration_again hinvariant hagain)

/-- The loop never runs out of iterations, gives back a body only of a success, if the
status is one that it tells apart, and leaves the region to a header or to a refresh. -/
theorem request_outcome (context : ListContext σ) (call : ListCall)
    (replies : Nat → SentRequest → Reply) (material : Material) (secrets : σ) :
    Outcome material.authParams.region
      (ListRequestLoop.request context call replies material secrets).1
      (ListRequestLoop.request context call replies material secrets).2 :=
  requestFrom_outcome ⟨⟨nofun, nofun, fun _ _ => rfl⟩, by simp, by simp, by simp⟩

/-- Every path has a secret for the region `eu-west-1`. -/
def europeanSecrets : ListContext Unit where
  reader _ _ :=
    { text key _ :=
        if key = bytes "region" then some (.secret, some (bytes "eu-west-1")) else none
      flag _ _ := none
      secretText _ := none }
  initializeParameters _ _ := {}
  parseGetParameters _ := []
  lookupSecret _ _ _ := none
  createSecret s _ := .ok s
  core := plainCore
  urlEncode text _ := text
  statusMessage _ := []
  createS3Header _ _ _ _ := []

/-- The first request is denied, the second one succeeds. -/
def deniedOnce (n : Nat) (_ : SentRequest) : Reply :=
  .response { status := if n = 0 then 403 else 200 }

def americanMaterial : Material where
  authParams := { region := bytes "us-east-1" }
  httpParams := {}

/-- No response names a region, and the body comes from the region of the secret. -/
theorem region_changed_without_header :
    let ended := ListRequestLoop.request europeanSecrets { path := bytes "s3://bucket/*" }
      deniedOnce americanMaterial ()
    ended.1.isOk = true ∧
      (∀ response ∈ ended.2.responses, response.hasHeader regionHeader = false) ∧
      ended.2.material.authParams.region = bytes "eu-west-1" ∧
      americanMaterial.authParams.region ≠ bytes "eu-west-1" := by
  decide +kernel

end HaybarnHttpfs.ListRequestLoop
