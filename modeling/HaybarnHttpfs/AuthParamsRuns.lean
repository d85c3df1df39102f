import HaybarnHttpfs.CredentialReload
import HaybarnHttpfs.GlobUrls
import HaybarnHttpfs.Foundation.TransitionRuns
import HaybarnHttpfs.Foundation.Exceptions

/-!
The authentication parameters of one path over time: read from secrets, settings and the
query string, then replaced by region redirects, credential refreshes and a retried open.
-/

namespace HaybarnHttpfs.AuthParamsRuns

open HaybarnHttpfs.Foundation.ByteStrings HaybarnHttpfs.Foundation.Exceptions
open HaybarnHttpfs.Foundation.TransitionRuns
open HaybarnHttpfs.S3Auth HaybarnHttpfs.S3Url HaybarnHttpfs.ReadAuthParams
open HaybarnHttpfs.CredentialReload

universe u

variable {σ : Type u}

def queryString (path : Bytes) : Bytes :=
  match findFirstOf questionMark path with
  | none => []
  | some questionPos => path.drop (questionPos + 1)

def queryParams (parse : Bytes → QueryParams) (path : Bytes) : QueryParams :=
  if (queryString path).isEmpty then [] else parse (queryString path)

/-- A parameter under a query. -/
def override (query : QueryParams) (key : String) (param : Bytes) : Bytes :=
  (query.lookup (bytes key)).getD param

def overrideFlag (query : QueryParams) (key : String) (param : Bool) : Bool :=
  match query.lookup (bytes key) with
  | some value => value = bytes "true"
  | none => param

/-- The parameters under a query, which has no say on the rest of them. -/
def overlay (query : QueryParams) (params : S3AuthParams) : S3AuthParams :=
  { params with
    region := override query "s3_region" params.region
    accessKeyId := override query "s3_access_key_id" params.accessKeyId
    secretAccessKey := override query "s3_secret_access_key" params.secretAccessKey
    sessionToken := override query "s3_session_token" params.sessionToken
    endpoint := override query "s3_endpoint" params.endpoint
    urlStyle := override query "s3_url_style" params.urlStyle
    useSsl := overrideFlag query "s3_use_ssl" params.useSsl
    requesterPays := overrideFlag query "s3_requester_pays" params.requesterPays }

theorem overlay_nil (params : S3AuthParams) : overlay [] params = params :=
  rfl

section Reading

variable {query query' : QueryParams} {key : String} {parse : Bytes → QueryParams}
  {params params' : S3AuthParams} {env : Secrets σ} {secrets : σ} {path : Bytes}

theorem lookup_filter_ne {erased asked : Bytes} (hne : asked ≠ erased) (query : QueryParams) :
    (query.filter (·.1 ≠ erased)).lookup asked = query.lookup asked := by
  induction query with
  | nil => rfl
  | cons entry query ih =>
      by_cases hentry : entry.1 = erased
      · have hother : (asked == entry.1) = false := by simpa [hentry] using hne
        rw [List.filter_cons_of_neg (by simpa using hentry), ih, List.lookup_cons, hother]
      · rw [List.filter_cons_of_pos (by simpa using hentry), List.lookup_cons,
          List.lookup_cons, ih]

theorem getQueryParam_fst (key : String) (param : Bytes) (query : QueryParams) :
    (getQueryParam key param query).1 = override query key param := by
  unfold getQueryParam override
  cases query.lookup (bytes key) with
  | _ => rfl

theorem lookup_getQueryParam {asked : Bytes} (hne : asked ≠ bytes key) (param : Bytes)
    (query : QueryParams) :
    (getQueryParam key param query).2.lookup asked = query.lookup asked := by
  unfold getQueryParam
  split
  · exact lookup_filter_ne hne query
  · rfl

theorem getQueryFlag_ok {param flag : Bool}
    (hflag : getQueryFlag key param query = .ok (flag, query')) :
    flag = overrideFlag query key param ∧
      ∀ asked, asked ≠ bytes key → query'.lookup asked = query.lookup asked := by
  unfold getQueryFlag at hflag
  unfold overrideFlag
  cases hlookup : query.lookup (bytes key) with
  | none =>
      simp only [hlookup] at hflag
      cases hflag
      exact ⟨rfl, fun _ _ => rfl⟩
  | some value =>
      simp only [hlookup] at hflag
      split at hflag
      · rename_i htrue
        cases hflag
        exact ⟨(decide_eq_true htrue).symm, fun asked hne => lookup_filter_ne hne query⟩
      · rename_i htrue
        split at hflag
        · cases hflag
          exact ⟨(decide_eq_false htrue).symm, fun asked hne => lookup_filter_ne hne query⟩
        · cases hflag

theorem override_getQueryParam {erased : String} (hne : bytes key ≠ bytes erased) (param : Bytes)
    (query : QueryParams) :
    override (getQueryParam erased param query).2 key = override query key := by
  funext value
  unfold override
  rw [lookup_getQueryParam hne]

theorem overrideFlag_congr (hlookup : query'.lookup (bytes key) = query.lookup (bytes key)) :
    overrideFlag query' key = overrideFlag query key := by
  funext value
  unfold overrideFlag
  rw [hlookup]

theorem overrideFlag_getQueryParam {erased : String} (hne : bytes key ≠ bytes erased)
    (param : Bytes) (query : QueryParams) :
    overrideFlag (getQueryParam erased param query).2 key = overrideFlag query key :=
  overrideFlag_congr (lookup_getQueryParam hne param query)

theorem readQueryParams_ok {text : Bytes}
    (hread : readQueryParams parse text params = .ok params') :
    params' = overlay (if text.isEmpty then [] else parse text) params := by
  unfold readQueryParams at hread
  simp only [bind, Except.bind, pure, Except.pure] at hread
  split at hread
  · rename_i hempty
    cases hread
    rw [if_pos hempty, overlay_nil]
  · rename_i hempty
    rw [if_neg hempty]
    split at hread
    · cases hread
    · rename_i useSsl huseSsl
      obtain ⟨hssl, hrest⟩ := getQueryFlag_ok huseSsl
      split at hread
      · cases hread
      · rename_i requesterPays hrequesterPays
        obtain ⟨hpays, -⟩ := getQueryFlag_ok hrequesterPays
        rw [overrideFlag_congr (hrest (bytes "s3_requester_pays") (by decide))] at hpays
        split at hread
        · cases hread
        · cases hread
          rw [hssl, hpays]
          simp (disch := decide) only [getQueryParam_fst, override_getQueryParam,
            overrideFlag_getQueryParam]
          rfl

theorem splitQuery_queryParam (params : S3AuthParams) (url : Bytes) (slashPos : Nat) :
    (splitQuery params url slashPos).2.1 =
      if params.s3UrlCompatibilityMode then [] else queryString url := by
  unfold splitQuery queryString
  split
  · rfl
  · cases findFirstOf questionMark url with
    | _ => rfl

/-- The query that is in effect for a path; a path has none in URL compatibility mode. -/
def queryInEffect (env : Secrets σ) (secrets : σ) (path : Bytes) : QueryParams :=
  if (readFrom (env.reader secrets path) path).s3UrlCompatibilityMode then []
  else queryParams env.parseGetParameters path

/-- The region under the query. -/
def regionRead (env : Secrets σ) (path : Bytes) (secrets : σ) : Bytes :=
  override (queryInEffect env secrets path) "s3_region"
    (readFrom (env.reader secrets path) path).region

theorem readS3AuthParams_ok (hread : readS3AuthParams env secrets path = .ok params) :
    params = overlay (queryInEffect env secrets path)
      (readFrom (env.reader secrets path) path) := by
  unfold readS3AuthParams at hread
  simp only at hread
  split at hread
  · rename_i parsed hparse
    obtain ⟨slashPos, rest, -, -, -, -, -, hsplit, -⟩ := GlobUrls.s3UrlParse_ok hparse
    have hquery : parsed.queryParam = _ :=
      (congrArg (·.2.1) hsplit).symm.trans (splitQuery_queryParam _ path slashPos)
    rw [readQueryParams_ok hread, hquery]
    unfold queryInEffect queryParams
    split
    · rfl
    · rfl
  · cases hread

end Reading

/-- The writers of the parameters that requests are built from. -/
inductive Label (σ : Type u) where
  /-- A file is opened, a glob or a delete starts. -/
  | read (secrets : σ)
  /-- A redirect, or the region that a listing or the metadata cache knows. -/
  | setRegion (newRegion : Bytes)
  /-- `region_redirected` or `retried_region` of whoever refreshes is `preserveRegion`. -/
  | reload (secrets : σ) (preserveRegion : Bool)
  /-- The handler of `S3FileHandle::Initialize`. -/
  | retryOpen (secrets : σ) (correctRegion : Bytes)

/-- One write; there are no parameters before the first read. -/
def step (env : Secrets σ) (path : Bytes) :
    Option S3AuthParams → Label σ → Option (Option S3AuthParams)
  | none, .read secrets => (readS3AuthParams env secrets path).toOption.map some
  | some params, .setRegion newRegion => some (params.setRegion newRegion)
  | some params, .reload secrets preserveRegion =>
      (readS3AuthParams env secrets path).toOption.map fun reloaded =>
        some (keepRegion preserveRegion params.region reloaded)
  | some _, .retryOpen secrets correctRegion =>
      some ((readFrom (env.reader secrets path) path).setRegion correctRegion)
  | _, _ => none

/-- The write behind a step. -/
inductive Writes (env : Secrets σ) (path : Bytes) :
    Option S3AuthParams → Label σ → Option S3AuthParams → Prop where
  | read {secrets : σ} {params : S3AuthParams}
      (hread : readS3AuthParams env secrets path = .ok params) :
      Writes env path none (.read secrets) (some params)
  | setRegion (params : S3AuthParams) (newRegion : Bytes) :
      Writes env path (some params) (.setRegion newRegion) (some (params.setRegion newRegion))
  | reload (params : S3AuthParams) {secrets : σ} (preserveRegion : Bool) {reloaded : S3AuthParams}
      (hread : readS3AuthParams env secrets path = .ok reloaded) :
      Writes env path (some params) (.reload secrets preserveRegion)
        (some (keepRegion preserveRegion params.region reloaded))
  | retryOpen (params : S3AuthParams) (secrets : σ) (correctRegion : Bytes) :
      Writes env path (some params) (.retryOpen secrets correctRegion)
        (some ((readFrom (env.reader secrets path) path).setRegion correctRegion))

theorem writes_of_step {env : Secrets σ} {path : Bytes} {s t : Option S3AuthParams} {l : Label σ}
    (hstep : step env path s l = some t) : Writes env path s l t := by
  unfold step at hstep
  split at hstep
  · obtain ⟨params, hread, rfl⟩ := Option.map_eq_some_iff.mp hstep
    exact .read (toOption_eq_some.mp hread)
  · cases hstep
    exact .setRegion _ _
  · obtain ⟨reloaded, hread, rfl⟩ := Option.map_eq_some_iff.mp hstep
    exact .reload _ _ (toOption_eq_some.mp hread)
  · cases hstep
    exact .retryOpen _ _ _
  · cases hstep

/-- There is nothing to ask of parameters that are not read yet. -/
def OnParams (P : S3AuthParams → Prop) (s : Option S3AuthParams) : Prop :=
  ∀ params, s = some params → P params

theorem onParams_some {P : S3AuthParams → Prop} {params : S3AuthParams} :
    OnParams P (some params) ↔ P params := by
  constructor
  · intro hall
    exact hall params rfl
  · rintro hparams _ ⟨rfl⟩
    exact hparams

end HaybarnHttpfs.AuthParamsRuns
