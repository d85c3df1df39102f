import HaybarnHttpfs.AuthParamsRuns

/-!
The parameters that the query string of a path names, over the lifetime of a handle: every
read but the one in the handler of a failed open puts them over secrets and settings.
-/

namespace HaybarnHttpfs.QueryOverrides

open HaybarnHttpfs.Foundation.ByteStrings HaybarnHttpfs.Foundation.TransitionRuns
open HaybarnHttpfs.S3Auth HaybarnHttpfs.ReadAuthParams HaybarnHttpfs.CredentialReload
open HaybarnHttpfs.AuthParamsRuns

universe u

variable {σ : Type u}

/-- A field has the value that the query gives it, if the query names it. -/
def HasNamed (query : QueryParams) (key : String) (field : Bytes) : Prop :=
  ∀ value, query.lookup (bytes key) = some value → field = value

def HasNamedFlag (query : QueryParams) (key : String) (field : Bool) : Prop :=
  ∀ value, query.lookup (bytes key) = some value → field = decide (value = bytes "true")

/-- The fields that no region decides. -/
structure NamedKept (query : QueryParams) (params : S3AuthParams) : Prop where
  accessKeyId : HasNamed query "s3_access_key_id" params.accessKeyId
  secretAccessKey : HasNamed query "s3_secret_access_key" params.secretAccessKey
  sessionToken : HasNamed query "s3_session_token" params.sessionToken
  urlStyle : HasNamed query "s3_url_style" params.urlStyle
  useSsl : HasNamedFlag query "s3_use_ssl" params.useSsl
  requesterPays : HasNamedFlag query "s3_requester_pays" params.requesterPays

structure Overrides (query : QueryParams) (params : S3AuthParams) : Prop where
  named : NamedKept query params
  endpoint : HasNamed query "s3_endpoint" params.endpoint

/-- The query of a path as a request with these parameters parses it. -/
def queryOf (env : Secrets σ) (path : Bytes) (params : S3AuthParams) : QueryParams :=
  if params.s3UrlCompatibilityMode then [] else queryParams env.parseGetParameters path

theorem hasNamed_override (query : QueryParams) (key : String) (param : Bytes) :
    HasNamed query key (override query key param) := by
  intro value hlookup
  unfold override
  rw [hlookup]
  rfl

theorem hasNamedFlag_overrideFlag (query : QueryParams) (key : String) (param : Bool) :
    HasNamedFlag query key (overrideFlag query key param) := by
  intro value hlookup
  unfold overrideFlag
  rw [hlookup]

theorem overrides_overlay (query : QueryParams) (params : S3AuthParams) :
    Overrides query (overlay query params) := by
  constructor
  · constructor
    · exact hasNamed_override query _ _
    · exact hasNamed_override query _ _
    · exact hasNamed_override query _ _
    · exact hasNamed_override query _ _
    · exact hasNamedFlag_overrideFlag query _ _
    · exact hasNamedFlag_overrideFlag query _ _
  · exact hasNamed_override query _ _

/-- The endpoint that `InitializeEndpoint` makes for a region. -/
def regionEndpoint (region accessKeyId : Bytes) : Bytes :=
  if region = [] ∧ accessKeyId = [] then bytes "s3.amazonaws.com"
  else bytes "s3." ++ (if region = [] then bytes "us-east-1" else region) ++
    bytes ".amazonaws.com"

theorem setRegion_frame (params : S3AuthParams) (newRegion : Bytes) :
    { params.setRegion newRegion with region := params.region, endpoint := params.endpoint } =
      params := by
  have hframe := initializeEndpoint_frame { params with region := newRegion }
  exact congrArg (fun framed : S3AuthParams => { framed with region := params.region }) hframe

theorem endpoint_setRegion (params : S3AuthParams) (newRegion : Bytes) :
    (params.setRegion newRegion).endpoint =
      if endpointIsAWS params.endpoint then regionEndpoint newRegion params.accessKeyId
      else params.endpoint := by
  unfold S3AuthParams.setRegion
  cases haws : endpointIsAWS params.endpoint with
  | false => exact initializeEndpoint_endpoint haws
  | true =>
      unfold S3AuthParams.initializeEndpoint regionEndpoint
      simp only [haws, Bool.not_true, Bool.false_eq_true, if_false, if_true, List.isEmpty_iff,
        Bool.and_eq_true]
      split
      · rfl
      · rfl

theorem namedKept_with (query : QueryParams) (params : S3AuthParams) (region endpoint : Bytes) :
    NamedKept query { params with region := region, endpoint := endpoint } ↔
      NamedKept query params := by
  constructor
  · rintro ⟨hkey, hsecret, htoken, hstyle, hssl, hpays⟩
    exact ⟨hkey, hsecret, htoken, hstyle, hssl, hpays⟩
  · rintro ⟨hkey, hsecret, htoken, hstyle, hssl, hpays⟩
    exact ⟨hkey, hsecret, htoken, hstyle, hssl, hpays⟩

theorem overrides_setRegion (query : QueryParams) (params : S3AuthParams) (newRegion : Bytes) :
    Overrides query (params.setRegion newRegion) ↔ NamedKept query params ∧
      HasNamed query "s3_endpoint"
        (if endpointIsAWS params.endpoint then regionEndpoint newRegion params.accessKeyId
        else params.endpoint) := by
  have hnamed := namedKept_with query (params.setRegion newRegion) params.region params.endpoint
  rw [setRegion_frame] at hnamed
  rw [hnamed, ← endpoint_setRegion]
  constructor
  · rintro ⟨hkept, hendpoint⟩
    exact ⟨hkept, hendpoint⟩
  · rintro ⟨hkept, hendpoint⟩
    exact ⟨hkept, hendpoint⟩

/-- An AWS endpoint that the query names is the one that a region makes. -/
def EndpointFits (query : QueryParams) (newRegion accessKeyId : Bytes) : Prop :=
  ∀ value, query.lookup (bytes "s3_endpoint") = some value → endpointIsAWS value = true →
    value = regionEndpoint newRegion accessKeyId

theorem overrides_setRegion_iff_fits {query : QueryParams} {params : S3AuthParams}
    (hkept : Overrides query params) (newRegion : Bytes) :
    Overrides query (params.setRegion newRegion) ↔
      EndpointFits query newRegion params.accessKeyId := by
  rw [overrides_setRegion, and_iff_right hkept.named]
  refine forall_congr' fun value => forall_congr' fun hlookup => ?_
  rw [hkept.endpoint value hlookup]
  constructor
  · intro hfits haws
    rw [if_pos haws] at hfits
    exact hfits.symm
  · intro hfits
    split
    · rename_i haws
      exact (hfits haws).symm
    · rfl

variable {env : Secrets σ} {path : Bytes} {secrets : σ}

/-- Settings and secrets alone say what the query says, up to the endpoint that the corrected
region makes. -/
structure RetryKept (env : Secrets σ) (path : Bytes) (secrets : σ) (correctRegion : Bytes) :
    Prop where
  named : NamedKept (queryInEffect env secrets path) (readFrom (env.reader secrets path) path)
  endpoint : HasNamed (queryInEffect env secrets path) "s3_endpoint"
    (if endpointIsAWS (readFrom (env.reader secrets path) path).endpoint then
      regionEndpoint correctRegion (readFrom (env.reader secrets path) path).accessKeyId
    else (readFrom (env.reader secrets path) path).endpoint)

/-- No open is retried without the query's values, and no region is set that replaces an AWS
endpoint of the query. -/
def OverlayKept (env : Secrets σ) (path : Bytes) : Option S3AuthParams → Label σ → Prop
  | some params, .setRegion newRegion =>
      EndpointFits (queryOf env path params) newRegion params.accessKeyId
  | some params, .reload secrets preserveRegion =>
      preserveRegion = true → params.region ≠ [] → regionRead env path secrets ≠ params.region →
        EndpointFits (queryInEffect env secrets path) params.region params.accessKeyId
  | some _, .retryOpen secrets correctRegion => RetryKept env path secrets correctRegion
  | _, _ => True

/-- The parameters have what the query names. -/
def Current (env : Secrets σ) (path : Bytes) (params : S3AuthParams) : Prop :=
  Overrides (queryOf env path params) params

theorem current_iff {params : S3AuthParams} {query : QueryParams}
    (hquery : queryOf env path params = query) :
    Current env path params ↔ Overrides query params := by
  unfold Current
  rw [hquery]

theorem queryOf_setRegion (params : S3AuthParams) (newRegion : Bytes) :
    queryOf env path (params.setRegion newRegion) = queryOf env path params := by
  have hframe := congrArg (queryOf env path) (setRegion_frame params newRegion)
  exact hframe

theorem endpointFits_congr {query : QueryParams} {newRegion : Bytes} (hregion : newRegion ≠ [])
    (accessKeyId accessKeyId' : Bytes) :
    EndpointFits query newRegion accessKeyId ↔ EndpointFits query newRegion accessKeyId' := by
  have hsame : regionEndpoint newRegion accessKeyId = regionEndpoint newRegion accessKeyId' := by
    unfold regionEndpoint
    simp only [hregion, false_and, if_false]
  unfold EndpointFits
  rw [hsame]

theorem overrides_keepRegion {query : QueryParams} {preserveRegion : Bool}
    {previousRegion : Bytes}
    {reloaded : S3AuthParams} (hkept : Overrides query reloaded) (accessKeyId : Bytes) :
    Overrides query (keepRegion preserveRegion previousRegion reloaded) ↔
      (preserveRegion = true → previousRegion ≠ [] → reloaded.region ≠ previousRegion →
        EndpointFits query previousRegion accessKeyId) := by
  unfold keepRegion
  split
  · rename_i hset
    simp only [Bool.and_eq_true, Bool.not_eq_true', List.isEmpty_eq_false_iff,
      decide_eq_true_eq] at hset
    obtain ⟨⟨hpreserve, hprevious⟩, hother⟩ := hset
    rw [overrides_setRegion_iff_fits hkept, endpointFits_congr hprevious _ accessKeyId]
    exact ⟨fun hfits _ _ _ => hfits, fun hfits => hfits hpreserve hprevious hother⟩
  · rename_i hset
    simp only [Bool.and_eq_true, Bool.not_eq_true', List.isEmpty_eq_false_iff,
      decide_eq_true_eq] at hset
    refine iff_of_true hkept ?_
    intro hpreserve hprevious hother
    exact absurd ⟨⟨hpreserve, hprevious⟩, hother⟩ hset

theorem queryOf_keepRegion (preserveRegion : Bool) (previousRegion : Bytes)
    (reloaded : S3AuthParams) :
    queryOf env path (keepRegion preserveRegion previousRegion reloaded) =
      queryOf env path reloaded := by
  unfold keepRegion
  split
  · exact queryOf_setRegion reloaded previousRegion
  · rfl

theorem current_step {s t : Option S3AuthParams} {l : Label σ}
    (hcurrent : OnParams (Current env path) s) (hstep : step env path s l = some t) :
    OnParams (Current env path) t ↔ OverlayKept env path s l := by
  cases writes_of_step hstep with
  | read hread =>
      obtain rfl := readS3AuthParams_ok hread
      exact onParams_some.trans (iff_of_true (overrides_overlay _ _) trivial)
  | setRegion params newRegion =>
      rw [onParams_some, current_iff (queryOf_setRegion params newRegion)]
      exact overrides_setRegion_iff_fits (hcurrent params rfl) newRegion
  | retryOpen params secrets correctRegion =>
      rw [onParams_some, current_iff (queryOf_setRegion _ correctRegion), overrides_setRegion]
      constructor
      · rintro ⟨hnamed, hendpoint⟩
        exact ⟨hnamed, hendpoint⟩
      · rintro ⟨hnamed, hendpoint⟩
        exact ⟨hnamed, hendpoint⟩
  | reload params preserveRegion hread =>
      obtain rfl := readS3AuthParams_ok hread
      rw [onParams_some, current_iff (queryOf_keepRegion _ _ _)]
      exact overrides_keepRegion (overrides_overlay _ _) params.accessKeyId

/-- What the query names holds all along the life of the parameters exactly if no open is
retried where settings and secrets say otherwise, and no region is set against an AWS endpoint
of the query. -/
theorem overlayKept_iff_overrides (env : Secrets σ) (path : Bytes) {labels : List (Label σ)}
    {s : Option S3AuthParams} (hrun : Run (step env path) Unrestricted none labels s) :
    Run (step env path) (OverlayKept env path) none labels s ↔
      ∀ first second m, labels = first ++ second →
        Run (step env path) Unrestricted none first m →
          ∀ params, m = some params → Overrides (queryOf env path params) params := by
  refine Run.restricted_iff_safe (OnParams (Current env path)) (OnParams (Current env path))
    ?_ ?_ ?_ hrun nofun
  · intro s l t hcurrent hok hstep
    exact (current_step hcurrent hstep).mpr hok
  · exact fun s hcurrent => hcurrent
  · intro s l t hcurrent hstep hnext
    exact (current_step hcurrent hstep).mp hnext

/-- A setting for the key id, and a parser that knows one query. -/
def keyEnv : Secrets Unit where
  reader _ _ :=
    { text := fun _ setting =>
        if setting = bytes "s3_access_key_id" then
          some (.localScope, some (bytes "other")) else none
      flag := fun _ _ => none
      secretText := fun _ => none }
  initializeParameters _ _ := {}
  parseGetParameters text :=
    if text = bytes "s3_access_key_id=own" then [(bytes "s3_access_key_id", bytes "own")] else []

def keyedPath : Bytes := bytes "s3://bucket/key?s3_access_key_id=own"

def redirectLabels : List (Label Unit) :=
  [.read (), .setRegion (bytes "us-west-2"), .reload () true]

theorem overlayKept_iff_overrides_redirect :
    ∃ params, Run (step keyEnv keyedPath) Unrestricted none redirectLabels (some params) ∧
      Overrides (queryOf keyEnv keyedPath params) params := by
  have hfits : ∀ newRegion accessKeyId,
      EndpointFits (queryParams keyEnv.parseGetParameters keyedPath) newRegion accessKeyId := by
    intro newRegion accessKeyId value hlookup
    cases hlookup
  have hkept : Run (step keyEnv keyedPath) (OverlayKept keyEnv keyedPath) none redirectLabels _ :=
    .cons trivial rfl (.cons (hfits _ _) rfl (.cons (fun _ _ _ => hfits _ _) rfl (.nil _)))
  have hrun : Run (step keyEnv keyedPath) Unrestricted none redirectLabels _ :=
    hkept.mono fun _ _ _ => trivial
  exact ⟨_, hrun, (overlayKept_iff_overrides keyEnv keyedPath hrun).mp hkept redirectLabels [] _
    (List.append_nil _).symm hrun _ rfl⟩

/-- The redirect of the first request does not help, and the open that is then retried has the
key id of the settings. -/
theorem retried_open_drops_query :
    ∃ params, Run (step keyEnv keyedPath) Unrestricted none
        [.read (), .setRegion (bytes "eu-west-1"), .retryOpen () (bytes "eu-west-1")]
        (some params) ∧
      ¬ Overrides (queryOf keyEnv keyedPath params) params := by
  refine ⟨_, .cons trivial rfl (.cons trivial rfl (.single trivial rfl)), fun hkept => ?_⟩
  have hkey := hkept.named.accessKeyId (bytes "own") rfl
  revert hkey
  decide

end HaybarnHttpfs.QueryOverrides
