import HaybarnHttpfs.S3Url

/-!
Where the authentication parameters of a path come from: secrets and settings
through `S3KeyValueReader`, then the query string of the URL. The secret manager,
the settings and the parser of query strings are not part of the extension.
-/

namespace HaybarnHttpfs.ReadAuthParams

open HaybarnHttpfs.Foundation.ByteStrings HaybarnHttpfs.S3Auth HaybarnHttpfs.S3Url

universe u

inductive SettingScope where
  | globalScope
  | localScope
  | secret
  deriving DecidableEq, Repr

/-- What the lookups for one path find, by secret key and setting name: where the
value comes from, and the value unless it is null. -/
structure S3KeyValueReader where
  useEnvVariablesForSecretSettings : Bool := true
  text : Bytes → Bytes → Option (SettingScope × Option Bytes)
  flag : Bytes → Bytes → Option (SettingScope × Option Bool)
  secretText : Bytes → Option Bytes

/-- `TryGetSecretKeyOrSetting` with the value found; `result` is what the caller
had. -/
def S3KeyValueReader.resolve {T : Type u} (reader : S3KeyValueReader)
    (found : Option (SettingScope × Option T)) (result : T) : T :=
  match found with
  | some (scope, some value) =>
      if scope = .globalScope && !reader.useEnvVariablesForSecretSettings then result else value
  | _ => result

/-- The value of the URL style or the endpoint of a GCS path: only a secret may
override the default. -/
def gcsDefault (found : Option (SettingScope × Option Bytes)) (value fallback : Bytes) : Bytes :=
  if value.isEmpty || found.map Prod.fst ≠ some .secret then fallback else value

def isGCSRequest (url : Bytes) : Bool :=
  startsWith url (bytes "gcs://") || startsWith url (bytes "gs://")

def readFrom (reader : S3KeyValueReader) (filePath : Bytes) : S3AuthParams :=
  let text (key setting : String) (result : Bytes) :=
    reader.resolve (reader.text (bytes key) (bytes setting)) result
  let flag (key setting : String) (result : Bool) :=
    reader.resolve (reader.flag (bytes key) (bytes setting)) result
  let region := text "region" "s3_region" []
  let endpointResult := reader.text (bytes "endpoint") (bytes "s3_endpoint")
  let urlStyleResult := reader.text (bytes "url_style") (bytes "s3_url_style")
  let result : S3AuthParams :=
    { region := text "region" "s3_region" region
      accessKeyId := text "key_id" "s3_access_key_id" []
      secretAccessKey := text "secret" "s3_secret_access_key" []
      sessionToken := text "session_token" "s3_session_token" []
      useSsl := flag "use_ssl" "s3_use_ssl" true
      kmsKeyId := text "kms_key_id" "s3_kms_key_id" []
      s3UrlCompatibilityMode := flag "s3_url_compatibility_mode" "s3_url_compatibility_mode" false
      requesterPays := flag "requester_pays" "s3_requester_pays" false
      endpoint := reader.resolve endpointResult []
      urlStyle := reader.resolve urlStyleResult [] }
  let result :=
    if isGCSRequest filePath then
      { result with
        endpoint := gcsDefault endpointResult result.endpoint (bytes "storage.googleapis.com")
        urlStyle := gcsDefault urlStyleResult result.urlStyle (bytes "path")
        oauth2BearerToken := (reader.secretText (bytes "bearer_token")).getD [] }
    else result
  result.initializeEndpoint

/-- An `unordered_map`: its keys are distinct. -/
abbrev QueryParams := List (Bytes × Bytes)

def getQueryParam (key : String) (param : Bytes) (queryParams : QueryParams) :
    Bytes × QueryParams :=
  match queryParams.lookup (bytes key) with
  | some value => (value, queryParams.filter (·.1 ≠ bytes key))
  | none => (param, queryParams)

inductive AuthReadError where
  | url (e : S3UrlError)
  | flag (key : String)
  | unknownParameters
  deriving DecidableEq, Repr

def AuthReadError.message : AuthReadError → String
  | url e => e.message
  | flag key =>
      "Incorrect setting found for " ++ key ++ ", allowed values are: 'true' or 'false'"
  | unknownParameters =>
      "Invalid query parameters found. Supported parameters are:\n's3_region', " ++
      "'s3_access_key_id', 's3_secret_access_key', 's3_session_token',\n's3_endpoint', " ++
      "'s3_url_style', 's3_use_ssl', 's3_requester_pays'"

def getQueryFlag (key : String) (param : Bool) (queryParams : QueryParams) :
    Except AuthReadError (Bool × QueryParams) :=
  match queryParams.lookup (bytes key) with
  | some value =>
      if value = bytes "true" then .ok (true, queryParams.filter (·.1 ≠ bytes key))
      else if value = bytes "false" then .ok (false, queryParams.filter (·.1 ≠ bytes key))
      else .error (.flag key)
  | none => .ok (param, queryParams)

def readQueryParams (parseGetParameters : Bytes → QueryParams) (urlQueryParam : Bytes)
    (params : S3AuthParams) : Except AuthReadError S3AuthParams := do
  if urlQueryParam.isEmpty then return params
  let query := parseGetParameters urlQueryParam
  let (region, query) := getQueryParam "s3_region" params.region query
  let (accessKeyId, query) := getQueryParam "s3_access_key_id" params.accessKeyId query
  let (secretAccessKey, query) :=
    getQueryParam "s3_secret_access_key" params.secretAccessKey query
  let (sessionToken, query) := getQueryParam "s3_session_token" params.sessionToken query
  let (endpoint, query) := getQueryParam "s3_endpoint" params.endpoint query
  let (urlStyle, query) := getQueryParam "s3_url_style" params.urlStyle query
  let (useSsl, query) ← getQueryFlag "s3_use_ssl" params.useSsl query
  let (requesterPays, query) ← getQueryFlag "s3_requester_pays" params.requesterPays query
  if !query.isEmpty then throw .unknownParameters
  return { params with
    region, accessKeyId, secretAccessKey, sessionToken, endpoint, urlStyle, useSsl
    requesterPays }

theorem readQueryParams_compatibilityMode {parse : Bytes → QueryParams} {query : Bytes}
    {params params' : S3AuthParams} (hread : readQueryParams parse query params = .ok params') :
    params'.s3UrlCompatibilityMode = params.s3UrlCompatibilityMode := by
  unfold readQueryParams at hread
  simp only [bind, Except.bind, pure, Except.pure] at hread
  split at hread
  · cases hread
    rfl
  · split at hread
    · cases hread
    · split at hread
      · cases hread
      · split at hread
        · cases hread
        · cases hread
          rfl

/-- The extension's view of secrets, settings and query strings, in the state `σ`
of the secret manager. -/
structure Secrets (σ : Type u) where
  reader : σ → Bytes → S3KeyValueReader
  initializeParameters : σ → Bytes → HTTPFSParams
  parseGetParameters : Bytes → QueryParams

variable {σ : Type u}

def readS3AuthParams (env : Secrets σ) (secrets : σ) (path : Bytes) :
    Except AuthReadError S3AuthParams := do
  let authParams := readFrom (env.reader secrets path) path
  match s3UrlParse path authParams with
  | .ok parsed => readQueryParams env.parseGetParameters parsed.queryParam authParams
  | .error e => throw (.url e)

def readRefreshableHTTPParams (env : Secrets σ) (secrets : σ) (path : Bytes) :
    S3RefreshableHTTPParams :=
  snapshotRefreshableHTTPParams (env.initializeParameters secrets path)

end HaybarnHttpfs.ReadAuthParams
