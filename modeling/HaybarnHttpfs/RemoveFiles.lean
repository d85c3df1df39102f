import HaybarnHttpfs.ReadAuthParams
import HaybarnHttpfs.S3RequestLoop
import HaybarnHttpfs.Foundation.Blocks

/-!
`S3FileSystem::RemoveFiles`: the paths are put into batches by everything that a
request depends on, and every batch is deleted with `DeleteObjects` requests of at
most a thousand keys.
-/

namespace HaybarnHttpfs.RemoveFiles

open HaybarnHttpfs.Foundation.ByteStrings HaybarnHttpfs.Foundation.Blocks
open HaybarnHttpfs.HTTPExchange HaybarnHttpfs.S3Auth HaybarnHttpfs.S3Url HaybarnHttpfs.S3Xml
open HaybarnHttpfs.ReadAuthParams HaybarnHttpfs.S3RequestLoop

universe u

structure S3DeleteBatchUrlInfo where
  urlPrefix : Bytes
  httpProto : Bytes
  host : Bytes
  path : Bytes
  authParams : S3AuthParams
  deriving DecidableEq, Repr

structure S3DeleteBatch where
  urlInfo : S3DeleteBatchUrlInfo
  keys : List Bytes
  secretLookupPaths : List Bytes
  deriving DecidableEq, Repr

/-- The match of `LookupSecret` for one type. -/
structure SecretMatch where
  score : Nat
  type : Bytes
  provider : Bytes
  name : Bytes
  storageMode : Bytes
  persistType : Nat
  scope : List Bytes
  deriving DecidableEq, Repr

/-- One request, with the parameters its headers are signed with. -/
structure DeleteRequest where
  httpUrl : Bytes
  host : Bytes
  path : Bytes
  authParams : S3AuthParams
  body : Bytes
  deriving DecidableEq, Repr

/-- What `RemoveFiles` works with: secrets and settings, the credential refresh, the
server, and the order in which an `unordered_map` lists its entries. The state `σ`
is that of the secrets and of the server. -/
structure DeleteContext (σ : Type u) extends Secrets σ where
  lookupSecret : Option (σ → Bytes → Bytes → Option SecretMatch)
  credentialRefreshEnabled : Bool
  hasRefreshableS3Secret : σ → Bytes → Bool
  postRequest : σ → DeleteRequest → Except ErrorData Returned × σ
  tryRefreshS3AuthParams : σ → Bytes → S3AuthParams → S3RefreshableHTTPParams →
    Except ErrorData (Option S3AuthParams) × σ
  urlEncode : Bytes → Bytes
  iterate : List (Bytes × S3DeleteBatch) → List (Bytes × S3DeleteBatch)
  iterate_perm : ∀ batches, (iterate batches).Perm batches

variable {σ : Type u}

def addString (value : Bytes) : Bytes := decimal value.length ++ bytes ":" ++ value ++ bytes ";"

def ofBool (value : Bool) : Bytes := if value then bytes "1" else bytes "0"

def urlKeyParts (urlInfo : S3DeleteBatchUrlInfo) : List Bytes :=
  [urlInfo.urlPrefix, urlInfo.httpProto, urlInfo.host, urlInfo.path]

def authKeyParts (authParams : S3AuthParams) : List Bytes :=
  [authParams.region, authParams.accessKeyId, authParams.secretAccessKey,
    authParams.sessionToken, authParams.endpoint, authParams.kmsKeyId, authParams.urlStyle,
    ofBool authParams.useSsl, ofBool authParams.s3UrlCompatibilityMode,
    ofBool authParams.requesterPays, authParams.oauth2BearerToken]

def httpKeyParts (httpParams : S3RefreshableHTTPParams) : List Bytes :=
  [httpParams.httpProxy, decimal httpParams.httpProxyPort, httpParams.httpProxyUsername,
    httpParams.httpProxyPassword, ofBool httpParams.overrideVerifySsl,
    ofBool httpParams.verifySsl, httpParams.bearerToken] ++
    httpParams.extraHeaders.flatMap fun header => [header.1, header.2]

def secretKeyParts (found : SecretMatch) : List Bytes :=
  [found.type, found.provider, found.name, found.storageMode, decimal found.persistType,
    decimal found.scope.length] ++ found.scope

def selectedSecretKeyParts (context : DeleteContext σ) (s : σ) (path : Bytes) : List Bytes :=
  match context.lookupSecret with
  | none => [[]]
  | some lookupSecret =>
      [bytes "s3", bytes "r2", bytes "gcs", bytes "aws"].flatMap fun type =>
        type :: match lookupSecret s path type with
          | none => [[]]
          | some found => decimal found.score :: secretKeyParts found

def getDeleteBatchLookupDirectory (path : Bytes) : Bytes :=
  match findFirstOf slash path.reverse with
  | none => path
  | some behind => path.take (path.length - behind)

def refreshKeyParts (context : DeleteContext σ) (s : σ) (path : Bytes) : List Bytes :=
  if context.credentialRefreshEnabled && context.hasRefreshableS3Secret s path then
    [getDeleteBatchLookupDirectory path]
  else [[]]

def deleteBatchKeyParts (context : DeleteContext σ) (s : σ) (urlInfo : S3DeleteBatchUrlInfo)
    (path : Bytes) : List Bytes :=
  urlKeyParts urlInfo ++ (authKeyParts urlInfo.authParams ++
    (httpKeyParts (readRefreshableHTTPParams context.toSecrets s path) ++
      (selectedSecretKeyParts context s path ++ refreshKeyParts context s path)))

def createDeleteBatchKey (context : DeleteContext σ) (s : σ) (urlInfo : S3DeleteBatchUrlInfo)
    (path : Bytes) : Bytes :=
  (deleteBatchKeyParts context s urlInfo path).flatMap addString

def getS3BucketPath (parsedUrl : ParsedS3Url) : Bytes :=
  let bucketPath := parsedUrl.path.take (parsedUrl.path.length - parsedUrl.key.length)
  if bucketPath.isEmpty then bytes "/" else bucketPath

/-- What the first loop finds out about one path. -/
structure Target where
  batchKey : Bytes
  urlInfo : S3DeleteBatchUrlInfo
  key : Bytes
  deriving DecidableEq, Repr

def target (context : DeleteContext σ) (s : σ) (path : Bytes) : Except AuthReadError Target := do
  let authParams := readFrom (context.reader s path) path
  match s3UrlParse path authParams with
  | .error e => throw (.url e)
  | .ok parsedUrl =>
      let authParams ←
        readQueryParams context.parseGetParameters parsedUrl.queryParam authParams
      let urlInfo : S3DeleteBatchUrlInfo := {
        urlPrefix := parsedUrl.urlPrefix, httpProto := parsedUrl.httpProto
        host := parsedUrl.host, path := getS3BucketPath parsedUrl, authParams }
      return { batchKey := createDeleteBatchKey context s urlInfo path, urlInfo
               key := parsedUrl.key }

abbrev DeleteBatches := List (Bytes × S3DeleteBatch)

def addToBatch (target : Target) (path : Bytes) : DeleteBatches → DeleteBatches
  | [] =>
      [(target.batchKey,
        { urlInfo := target.urlInfo, keys := [target.key], secretLookupPaths := [path] })]
  | (batchKey, batch) :: batches =>
      if batchKey = target.batchKey then
        (batchKey, { batch with
          keys := batch.keys ++ [target.key]
          secretLookupPaths := batch.secretLookupPaths ++ [path] }) :: batches
      else (batchKey, batch) :: addToBatch target path batches

def collect (context : DeleteContext σ) (s : σ) :
    List Bytes → DeleteBatches → Except AuthReadError DeleteBatches
  | [], batches => .ok batches
  | path :: paths, batches =>
      match target context s path with
      | .error e => .error e
      | .ok target => collect context s paths (addToBatch target path batches)

def header : Bytes :=
  bytes "<?xml version=\"1.0\" encoding=\"UTF-8\"?>" ++
    bytes "<Delete xmlns=\"http://s3.amazonaws.com/doc/2006-03-01/\">"

def objectXml (key : Bytes) : Bytes := bytes "<Object><Key>" ++ key ++ bytes "</Key></Object>"

def footer : Bytes := bytes "<Quiet>true</Quiet>" ++ bytes "</Delete>"

def xmlBody (keys : List Bytes) : Bytes := header ++ keys.flatMap objectXml ++ footer

inductive DeleteError where
  | auth (e : AuthReadError)
  | url (e : S3UrlError)
  | thrown (error : ErrorData)
  | nullResponse
  | http (status : Nat) (result : Bytes)
  | errorTag (content : Bytes)
  | parse (failure : ParseFailure)

/-- The request for keys of which the first belongs to `lookupUrl`. -/
def deleteRequest (context : DeleteContext σ) (authParams : S3AuthParams)
    (lookupUrl body : Bytes) :
    Except S3UrlError DeleteRequest := do
  let requestUrl ← s3UrlParse lookupUrl authParams
  let requestPath := getS3BucketPath requestUrl
  return {
    httpUrl := requestUrl.httpProto ++ requestUrl.host ++ context.urlEncode requestPath ++
      bytes "?" ++ bytes "delete"
    host := requestUrl.host, path := requestPath, authParams, body }

/-- A request that was sent, and what came back. -/
structure Exchange where
  request : DeleteRequest
  response : Except ErrorData Returned

structure Sent (σ : Type u) where
  result : Except DeleteError (HTTPResponse × S3AuthParams)
  exchanges : List Exchange
  state : σ

/-- The `while` loop of one request; `retries` is one until a refresh has been
tried. -/
def sendRequest (context : DeleteContext σ) (lookupUrl body : Bytes) :
    Nat → S3AuthParams → σ → Sent σ
  | retries, authParams, s =>
      let httpParams := readRefreshableHTTPParams context.toSecrets s lookupUrl
      match deleteRequest context authParams lookupUrl body with
      | .error e => { result := .error (.url e), exchanges := [], state := s }
      | .ok request =>
          let (response, t) := context.postRequest s request
          let exchanges := [{ request, response }]
          match response with
          | .error error => { result := .error (.thrown error), exchanges, state := t }
          | .ok none => { result := .error .nullResponse, exchanges, state := t }
          | .ok (some response) =>
              match retries with
              | 0 => { result := .ok (response, authParams), exchanges, state := t }
              | retries + 1 =>
                  if isAuthRefreshFailure response then
                    match context.tryRefreshS3AuthParams t lookupUrl authParams httpParams with
                    | (.error error, t) =>
                        { result := .error (.thrown error), exchanges, state := t }
                    | (.ok none, t) =>
                        { result := .ok (response, authParams), exchanges, state := t }
                    | (.ok (some authParams), t) =>
                        let rest := sendRequest context lookupUrl body retries authParams t
                        { rest with exchanges := exchanges ++ rest.exchanges }
                  else { result := .ok (response, authParams), exchanges, state := t }

def checkResponse (response : HTTPResponse) : Except DeleteError Unit :=
  if response.status ≠ 200 then .error (.http response.status response.body)
  else
    match findTagContents response.body (bytes "Error") 0 with
    | .error failure => .error (.parse failure)
    | .ok (some (content, _)) => .error (.errorTag content)
    | .ok none => .ok ()

structure Removed (σ : Type u) where
  result : Except DeleteError Unit
  exchanges : List Exchange
  state : σ

def maxKeysPerRequest : Nat := 1000

/-- The requests of one batch from the `i`-th on, of which `left` are left. -/
def removeBatch (context : DeleteContext σ) (batch : S3DeleteBatch) :
    Nat → Nat → S3AuthParams → σ → Removed σ
  | _, 0, _, s => { result := .ok (), exchanges := [], state := s }
  | i, left + 1, authParams, s =>
      let keys := block maxKeysPerRequest batch.keys i
      -- the first path of a request speaks for all of its keys
      let lookupUrl := (batch.secretLookupPaths.drop (i * maxKeysPerRequest)).headD []
      let sent := sendRequest context lookupUrl (xmlBody keys) 1 authParams s
      match sent.result with
      | .error error =>
          { result := .error error, exchanges := sent.exchanges, state := sent.state }
      | .ok (response, authParams) =>
          match checkResponse response with
          | .error error =>
              { result := .error error, exchanges := sent.exchanges, state := sent.state }
          | .ok () =>
              let rest := removeBatch context batch (i + 1) left authParams sent.state
              { rest with exchanges := sent.exchanges ++ rest.exchanges }

def requestCount (batch : S3DeleteBatch) : Nat :=
  (batch.keys.length + (maxKeysPerRequest - 1)) / maxKeysPerRequest

def removeBatches (context : DeleteContext σ) : List S3DeleteBatch → σ → Removed σ
  | [], s => { result := .ok (), exchanges := [], state := s }
  | batch :: batches, s =>
      let first := removeBatch context batch 0 (requestCount batch) batch.urlInfo.authParams s
      match first.result with
      | .error error => { first with result := .error error }
      | .ok () =>
          let rest := removeBatches context batches first.state
          { rest with exchanges := first.exchanges ++ rest.exchanges }

def removeFiles (context : DeleteContext σ) (paths : List Bytes) (s : σ) : Removed σ :=
  match collect context s paths [] with
  | .error e => { result := .error (.auth e), exchanges := [], state := s }
  | .ok batches => removeBatches context ((context.iterate batches).map Prod.snd) s

end HaybarnHttpfs.RemoveFiles
