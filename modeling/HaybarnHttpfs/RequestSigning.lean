import HaybarnHttpfs.Foundation.SignatureV4
import HaybarnHttpfs.ListRequestLoop
import HaybarnHttpfs.ReadAuthParams
import HaybarnHttpfs.RequestPath

/-!
The signed requests of the S3 file system, from `CreateS3Header` to the headers and the target
that the curl client sends, and what a server that checks signatures makes of them.
-/

namespace HaybarnHttpfs.RequestSigning

open HaybarnHttpfs.Foundation.ByteStrings HaybarnHttpfs.Foundation.SignatureV4
open HaybarnHttpfs.S3Auth HaybarnHttpfs.S3Url HaybarnHttpfs.RequestPath
open HaybarnHttpfs.CurlResponses (Method)
open HaybarnHttpfs.ReadAuthParams (isGCSRequest)
open HaybarnHttpfs.ListRequestLoop (ListCall reqParams encodedParams)

abbrev Headers := List (Bytes × Bytes)

def hexLetters : Bytes := bytes "0123456789abcdef"

/-- `hex256`, for hashes of any length. -/
def hex256 (hash : Bytes) : Bytes :=
  hash.flatMap fun c : UInt8 =>
    [hexLetters.getD ((c >>> 4) &&& 0xF).toNat 0, hexLetters.getD (c &&& 0xF).toNat 0]

def emptyPayloadHash : Bytes :=
  bytes "e3b0c44298fc1c149afbf4c8996fb92427ae41e4649b934ca495991b7852b855"

/-- The hash functions of the library; `hmac256` takes the message first. -/
structure Hashing where
  sha256 : Bytes → Bytes
  hmac256 : Bytes → Bytes → Bytes
  sha256_nil : hex256 (sha256 []) = emptyPayloadHash
  sha256_length : ∀ text, (sha256 text).length = 32

def Hashing.digests (hashing : Hashing) : Digests where
  hash := hashing.sha256
  mac key message := hashing.hmac256 message key
  hex := hex256

def getPayloadHash (hashing : Hashing) (buffer : Bytes) : Bytes :=
  if 0 < buffer.length then hex256 (hashing.sha256 buffer) else []

/-- `headers[name] = value`: a name that the map has, in whatever case, keeps its place. -/
def assign (headers : Headers) (name value : Bytes) : Headers :=
  if headers.any fun header => lower header.1 = lower name then
    headers.map fun header => if lower header.1 = lower name then (header.1, value) else header
  else headers ++ [(name, value)]

def assignAll (headers fields : Headers) : Headers :=
  fields.foldl (fun headers field => assign headers field.1 field.2) headers

/-- `HTTPHeaders::Insert`. -/
def insert (headers : Headers) (name value : Bytes) : Headers :=
  if headers.any fun header => lower header.1 = lower name then headers
  else headers ++ [(name, value)]

def octetStream : Bytes := bytes "application/octet-stream"

/-- The service that is signed for. -/
def s3Service : Bytes := bytes "s3"

def stringToSign (hashing : Hashing) (encoder : UrlEncoder) (path dateNow : Bytes)
    (signing : Signing) : Bytes :=
  bytes "AWS4-HMAC-SHA256\n" ++ signing.datetimeNow ++ bytes "\n" ++ dateNow ++ bytes "/" ++
    signing.authParams.region ++ bytes "/" ++ s3Service ++ bytes "/aws4_request\n" ++
    hex256 (hashing.sha256 (canonicalRequest encoder path signing))

def computeSignature (hashing : Hashing) (encoder : UrlEncoder) (path dateNow : Bytes)
    (signing : Signing) : Bytes :=
  let signKey := bytes "AWS4" ++ signing.authParams.secretAccessKey
  let kDate := hashing.hmac256 dateNow signKey
  let kRegion := hashing.hmac256 signing.authParams.region kDate
  let kService := hashing.hmac256 s3Service kRegion
  let signingKey := hashing.hmac256 (bytes "aws4_request") kService
  hex256 (hashing.hmac256 (stringToSign hashing encoder path dateNow signing) signingKey)

def authorizationHeader (hashing : Hashing) (encoder : UrlEncoder) (path dateNow : Bytes)
    (signing : Signing) : Bytes :=
  bytes "AWS4-HMAC-SHA256 Credential=" ++ signing.authParams.accessKeyId ++
    bytes "/" ++ dateNow ++ bytes "/" ++ signing.authParams.region ++ bytes "/" ++ s3Service ++
    bytes "/aws4_request, SignedHeaders=" ++ RequestPath.signedHeaders signing ++
    bytes ", Signature=" ++ computeSignature hashing encoder path dateNow signing

/-- What `CreateS3Header` puts into the map, in the order in which it does. -/
def headerFields (hashing : Hashing) (encoder : UrlEncoder) (path dateNow : Bytes)
    (signing : Signing) : Headers :=
  [(bytes "x-amz-date", signing.datetimeNow),
    (bytes "x-amz-content-sha256", signing.effectivePayloadHash)] ++
  (if signing.authParams.sessionToken.isEmpty then []
    else [(bytes "x-amz-security-token", signing.authParams.sessionToken)]) ++
  (if signing.useSseKms then
      [(bytes "x-amz-server-side-encryption", bytes "aws:kms"),
        (bytes "x-amz-server-side-encryption-aws-kms-key-id", signing.authParams.kmsKeyId)]
    else []) ++
  (if signing.authParams.requesterPays then [(bytes "x-amz-request-payer", bytes "requester")]
    else []) ++
  (if signing.contentMd5.isEmpty then [] else [(bytes "content-md5", signing.contentMd5)]) ++
  (if signing.contentType.isEmpty || signing.contentType = octetStream then []
    else [(bytes "content-type", signing.contentType)]) ++
  [(bytes "Authorization", authorizationHeader hashing encoder path dateNow signing)]

/-- Without keys nothing is signed: public files are read without credentials. -/
def Signing.keyless (signing : Signing) : Bool :=
  signing.authParams.secretAccessKey.isEmpty && signing.authParams.accessKeyId.isEmpty

/-- `CreateS3Header`; `clock` is the time in the format `%Y%m%dT%H%M%SZ`, its first eight bytes
are the date. -/
def createS3Header (hashing : Hashing) (encoder : UrlEncoder) (clock path dateNow : Bytes)
    (signing : Signing) : Headers :=
  let host := assign [] (bytes "Host") signing.host
  if Signing.keyless signing then host
  else if signing.datetimeNow.isEmpty then
    let signing := { signing with datetimeNow := clock }
    assignAll host (headerFields hashing encoder path (clock.take 8) signing)
  else assignAll host (headerFields hashing encoder path dateNow signing)

def addUserAgentIfAvailable (userAgent : Bytes) (headers : Headers) : Headers :=
  if userAgent.isEmpty then headers else insert headers (bytes "User-Agent") userAgent

/-- `AddS3HTTPHeaders`, and `AddUserAgentIfAvailable` with `AddHandleHeaders`. -/
def addHandleHeaders (userAgent : Bytes) (extraHeaders headers : Headers) : Headers :=
  assignAll (addUserAgentIfAvailable userAgent headers) extraHeaders

def transformHeadersCurl (headers extraHeaders : Headers) (preMergedHeaders : Bool) : Headers :=
  (headers ++ if preMergedHeaders then [] else extraHeaders).filter fun header =>
    lower header.1 ≠ bytes "accept-encoding"

/-- The header lines of a method; `contentType` is that of a `PUT`. -/
def curlHeaders (method : Method) (contentType userAgent : Bytes) (headers extraHeaders : Headers)
    (preMergedHeaders : Bool) : Headers :=
  let headers := addUserAgentIfAvailable userAgent headers
  let lines := transformHeadersCurl headers extraHeaders preMergedHeaders
  match method with
  | .put => lines ++ [(bytes "Content-Type", contentType)]
  | .post =>
      if headers.any fun header => lower header.1 = bytes "content-type" then lines
      else lines ++ [(bytes "Content-Type", octetStream)]
  | .get | .head | .delete => lines

/-- The requests that the file system signs: those of a handle, those of an upload, the pages
of a listing and `DeleteObjects`. -/
inductive S3Call where
  | head
  | get (versionId : Bytes) (range : Option Bytes)
  | delete
  | putObject (body : Bytes)
  | initiateUpload
  | uploadPart (partNo : Nat) (uploadId body : Bytes)
  | completeUpload (uploadId body : Bytes)
  | list (call : ListCall)
  | deleteObjects (body contentMd5 : Bytes)

def S3Call.method : S3Call → Method
  | .head => .head
  | .get _ _ | .list _ => .get
  | .delete => .delete
  | .putObject _ | .uploadPart _ _ _ => .put
  | .initiateUpload | .completeUpload _ _ | .deleteObjects _ _ => .post

def S3Call.body : S3Call → Bytes
  | .putObject body | .uploadPart _ _ body | .completeUpload _ body | .deleteObjects body _ =>
      body
  | .head | .get _ _ | .delete | .initiateUpload | .list _ => []

def S3Call.contentType : S3Call → Bytes
  | .putObject _ | .uploadPart _ _ _ | .initiateUpload | .completeUpload _ _ => octetStream
  | .deleteObjects _ _ => bytes "application/xml"
  | .head | .get _ _ | .delete | .list _ => []

def S3Call.contentMd5 : S3Call → Bytes
  | .deleteObjects _ contentMd5 => contentMd5
  | .head | .get _ _ | .delete | .putObject _ | .initiateUpload | .uploadPart _ _ _
  | .completeUpload _ _ | .list _ => []

/-- The query that is signed; `urlEncode` is `UrlEncode` with its flag for slashes. -/
def S3Call.query (urlEncode : Bytes → Bool → Bytes) (key : Bytes) : S3Call → Bytes
  | .head | .delete | .putObject _ => []
  | .get versionId _ =>
      if versionId.isEmpty then [] else bytes "versionId=" ++ urlEncode versionId true
  | .initiateUpload => bytes "uploads="
  | .uploadPart partNo uploadId _ =>
      bytes "partNumber=" ++ decimal (partNo + 1) ++ bytes "&" ++ bytes "uploadId=" ++
        urlEncode uploadId true
  | .completeUpload uploadId _ => bytes "uploadId=" ++ urlEncode uploadId true
  | .list call => encodedParams (reqParams urlEncode call key)
  | .deleteObjects _ _ => bytes "delete="

/-- The query of the URL: `DeleteObjects` leaves out the equals sign that it signs. -/
def S3Call.urlQuery (urlEncode : Bytes → Bool → Bytes) (key : Bytes) (call : S3Call) : Bytes :=
  match call with
  | .deleteObjects _ _ => bytes "delete"
  | _ => call.query urlEncode key

def bucketPath (parsed : ParsedS3Url) : Bytes :=
  parsed.path.take (parsed.path.length - parsed.key.length)

/-- `GetS3BucketPath`. -/
def getS3BucketPath (parsed : ParsedS3Url) : Bytes :=
  if (bucketPath parsed).isEmpty then [slash] else bucketPath parsed

/-- The path that is signed. -/
def S3Call.path (parsed : ParsedS3Url) : S3Call → Bytes
  | .list _ => bucketPath parsed
  | .deleteObjects _ _ => getS3BucketPath parsed
  | .head | .get _ _ | .delete | .putObject _ | .initiateUpload | .uploadPart _ _ _
  | .completeUpload _ _ => parsed.path

/-- The URL that is requested. A listing does not encode its path. -/
def S3Call.url (encoder : UrlEncoder) (urlEncode : Bytes → Bool → Bytes) (parsed : ParsedS3Url)
    (call : S3Call) : Bytes :=
  match call with
  | .list _ =>
      let fullHost := parsed.httpProto ++ parsed.host
      let listobjectv2Url := bucketPath parsed ++ bytes "?" ++ call.query urlEncode parsed.key
      if startsWith listobjectv2Url fullHost then listobjectv2Url
      else if startsWith listobjectv2Url [slash] then fullHost ++ listobjectv2Url
      else fullHost ++ bytes "/" ++ listobjectv2Url
  | .deleteObjects _ _ =>
      parsed.httpProto ++ parsed.host ++ encoder.encode (getS3BucketPath parsed) ++ bytes "?" ++
        bytes "delete"
  | _ => getHTTPUrl encoder parsed (call.query urlEncode parsed.key)

/-- What a request is made with. `libcurlHeaders` are the header lines that libcurl adds. -/
structure Sender where
  hashing : Hashing
  encoder : UrlEncoder
  urlEncode : Bytes → Bool → Bytes
  clock : Bytes
  userAgent : Bytes := []
  extraHeaders : Headers := []
  libcurlHeaders : Headers := []

def S3Call.signing (sender : Sender) (params : S3AuthParams) (parsed : ParsedS3Url)
    (call : S3Call) : Signing where
  method := call.method
  query := call.query sender.urlEncode parsed.key
  host := parsed.host
  payloadHash := getPayloadHash sender.hashing call.body
  contentType := call.contentType
  contentMd5 := call.contentMd5
  authParams := params

/-- `CreateS3RequestData` authorizes a request to GCS with a token if it has one; listings and
`DeleteObjects` are signed in any case. -/
def S3Call.headers (sender : Sender) (url : Bytes) (params : S3AuthParams) (parsed : ParsedS3Url)
    (call : S3Call) : Headers :=
  let signed := createS3Header sender.hashing sender.encoder sender.clock (call.path parsed) []
    (call.signing sender params parsed)
  match call with
  | .list _ | .deleteObjects _ _ => signed
  | _ =>
      if isGCSRequest url && !params.oauth2BearerToken.isEmpty then
        let headers :=
          assign [] (bytes "Authorization") (bytes "Bearer " ++ params.oauth2BearerToken)
        let headers := assign headers (bytes "Host") parsed.host
        if call.contentType.isEmpty then headers
        else assign headers (bytes "Content-Type") call.contentType
      else signed

/-- The headers as they are handed to the client, and whether the extra headers are among them.
A listing leaves them to the client. -/
def S3Call.handed (sender : Sender) (url : Bytes) (params : S3AuthParams) (parsed : ParsedS3Url)
    (call : S3Call) : Headers × Bool :=
  let headers := call.headers sender url params parsed
  match call with
  | .list _ => (headers, false)
  | .get _ (some range) =>
      (insert (addHandleHeaders sender.userAgent sender.extraHeaders headers)
        (bytes "Range") range, true)
  | _ => (addHandleHeaders sender.userAgent sender.extraHeaders headers, true)

/-- The request that arrives at the server. -/
def S3Call.sent (sender : Sender) (url : Bytes) (params : S3AuthParams) (parsed : ParsedS3Url)
    (call : S3Call) : Request :=
  let handed := call.handed sender url params parsed
  let target := normalizePathToBeAdded
    (pathComponent parsed.httpProto (call.url sender.encoder sender.urlEncode parsed))
  { method := call.method.name
    path := target.takeWhile (· ≠ questionMark)
    query := (target.dropWhile (· ≠ questionMark)).drop 1
    headers :=
      curlHeaders call.method octetStream sender.userAgent handed.1
        sender.extraHeaders handed.2 ++ sender.libcurlHeaders
    body := call.body }

variable {encoder : UrlEncoder} {signing : Signing} {hashing : Hashing}

/-- The header fields that are signed, in the order of their names. -/
def signedFields (signing : Signing) : Headers :=
  (if signing.contentMd5.isEmpty then [] else [(bytes "content-md5", signing.contentMd5)]) ++
  (if signing.contentType.isEmpty then [] else [(bytes "content-type", signing.contentType)]) ++
  [(bytes "host", signing.host), (bytes "x-amz-content-sha256", signing.effectivePayloadHash),
    (bytes "x-amz-date", signing.datetimeNow)] ++
  (if signing.authParams.requesterPays then [(bytes "x-amz-request-payer", bytes "requester")]
    else []) ++
  (if signing.authParams.sessionToken.isEmpty then []
    else [(bytes "x-amz-security-token", signing.authParams.sessionToken)]) ++
  (if signing.useSseKms then
      [(bytes "x-amz-server-side-encryption", bytes "aws:kms"),
        (bytes "x-amz-server-side-encryption-aws-kms-key-id", signing.authParams.kmsKeyId)]
    else [])

def signable (encoder : UrlEncoder) (path : Bytes) (signing : Signing) : Signable where
  method := signing.method.name
  path := encoder.encode path
  query := signing.query
  fields := signedFields signing
  payloadHash := signing.effectivePayloadHash

def scope (params : S3AuthParams) (dateNow : Bytes) : Scope where
  date := dateNow
  region := params.region
  service := s3Service

/-- The names of the signed fields; the arguments say which of the optional ones there are. -/
def fieldNames (noMd5 noType pays noToken kms : Bool) : List Bytes :=
  (if noMd5 then [] else [bytes "content-md5"]) ++
  (if noType then [] else [bytes "content-type"]) ++
  [bytes "host", bytes "x-amz-content-sha256", bytes "x-amz-date"] ++
  (if pays then [bytes "x-amz-request-payer"] else []) ++
  (if noToken then [] else [bytes "x-amz-security-token"]) ++
  (if kms then
      [bytes "x-amz-server-side-encryption", bytes "x-amz-server-side-encryption-aws-kms-key-id"]
    else [])

theorem signedFields_names : (signedFields signing).map Prod.fst =
    fieldNames signing.contentMd5.isEmpty signing.contentType.isEmpty
      signing.authParams.requesterPays signing.authParams.sessionToken.isEmpty
      signing.useSseKms := by
  simp only [signedFields, fieldNames, List.map_append, apply_ite (List.map Prod.fst),
    List.map_cons, List.map_nil]

theorem signedHeaders_eq (encoder : UrlEncoder) (path : Bytes) (signing : Signing) :
    RequestPath.signedHeaders signing = (signable encoder path signing).signedHeaders := by
  have hall : ∀ noMd5 noType pays noToken kms : Bool,
      (if noMd5 then [] else bytes "content-md5;") ++
      (if noType then [] else bytes "content-type;") ++
        bytes "host;x-amz-content-sha256;x-amz-date" ++
        (if pays then bytes ";x-amz-request-payer" else []) ++
        (if noToken then [] else bytes ";x-amz-security-token") ++
        (if kms then
            bytes ";x-amz-server-side-encryption;x-amz-server-side-encryption-aws-kms-key-id"
          else []) =
      [semicolonByte].intercalate (fieldNames noMd5 noType pays noToken kms) := by
    decide +kernel
  have hnames : (signable encoder path signing).names = _ := signedFields_names
  rw [Signable.signedHeaders, hnames]
  exact hall _ _ _ _ _

theorem sublist_of_if (wanted : Bool) (names : List Bytes) :
    (if wanted then names else []).Sublist names := by
  cases wanted
  · exact List.nil_sublist _
  · exact .refl _

theorem sublist_of_if_not (left : Bool) (names : List Bytes) :
    (if left then [] else names).Sublist names := by
  cases left
  · exact .refl _
  · exact List.nil_sublist _

def allFieldNames : List Bytes :=
  [bytes "content-md5"] ++ [bytes "content-type"] ++
  [bytes "host", bytes "x-amz-content-sha256", bytes "x-amz-date"] ++
  [bytes "x-amz-request-payer"] ++ [bytes "x-amz-security-token"] ++
  [bytes "x-amz-server-side-encryption", bytes "x-amz-server-side-encryption-aws-kms-key-id"]

theorem fieldNames_sublist (noMd5 noType pays noToken kms : Bool) :
    (fieldNames noMd5 noType pays noToken kms).Sublist allFieldNames :=
  (((((sublist_of_if_not noMd5 _).append (sublist_of_if_not noType _)).append (.refl _)).append
    (sublist_of_if pays _)).append (sublist_of_if_not noToken _)).append (sublist_of_if kms _)

theorem fieldNames_ascending (noMd5 noType pays noToken kms : Bool) :
    (fieldNames noMd5 noType pays noToken kms).Pairwise (· < ·) := by
  have hall : allFieldNames.Pairwise (· < ·) := by decide +kernel
  exact hall.sublist (fieldNames_sublist ..)

theorem fieldNames_free (noMd5 noType pays noToken kms : Bool) :
    ∀ name ∈ fieldNames noMd5 noType pays noToken kms,
      semicolonByte ∉ name ∧ commaByte ∉ name ∧ newlineByte ∉ name ∧ colonByte ∉ name := by
  have hall : ∀ name ∈ allFieldNames,
      semicolonByte ∉ name ∧ commaByte ∉ name ∧ newlineByte ∉ name ∧ colonByte ∉ name := by
    decide +kernel
  exact fun name hname => hall name ((fieldNames_sublist ..).subset hname)

theorem newline_flatMap (fields : Headers) (rest : Bytes) :
    newlineByte :: (fields.flatMap fieldLine ++ rest) =
      fields.flatMap (fun field => newlineByte :: (field.1 ++ colonByte :: field.2)) ++
        newlineByte :: rest := by
  induction fields with
  | nil => rfl
  | cons field fields ih =>
      rw [List.flatMap_cons, List.flatMap_cons, List.append_assoc, List.append_assoc,
        ← ih, fieldLine]
      simp only [List.append_assoc, List.cons_append, List.nil_append]

theorem canonicalHeaders_eq (signing : Signing) : canonicalHeaders signing =
    (signedFields signing).flatMap fun field =>
      newlineByte :: (field.1 ++ colonByte :: field.2) := by
  simp only [canonicalHeaders, signedFields, List.flatMap_append, apply_ite (List.flatMap _),
    List.flatMap_cons, List.flatMap_nil]
  have hmd5 : bytes "\ncontent-md5:" =
      newlineByte :: (bytes "content-md5" ++ [colonByte]) := by decide
  have htype : bytes "\ncontent-type:" =
      newlineByte :: (bytes "content-type" ++ [colonByte]) := by decide
  have hhost : bytes "\nhost:" = newlineByte :: (bytes "host" ++ [colonByte]) := by decide
  have hhash : bytes "\nx-amz-content-sha256:" =
      newlineByte :: (bytes "x-amz-content-sha256" ++ [colonByte]) := by decide
  have hdate : bytes "\nx-amz-date:" =
      newlineByte :: (bytes "x-amz-date" ++ [colonByte]) := by decide
  have htoken : bytes "\nx-amz-security-token:" =
      newlineByte :: (bytes "x-amz-security-token" ++ [colonByte]) := by decide
  have hkey : bytes "\nx-amz-server-side-encryption-aws-kms-key-id:" =
      newlineByte ::
        (bytes "x-amz-server-side-encryption-aws-kms-key-id" ++ [colonByte]) := by decide
  have hpayer : bytes "\nx-amz-request-payer:requester" =
      newlineByte :: (bytes "x-amz-request-payer" ++ colonByte :: bytes "requester") := by decide
  have hkms : bytes "\nx-amz-server-side-encryption:aws:kms" =
      newlineByte :: (bytes "x-amz-server-side-encryption" ++ colonByte :: bytes "aws:kms") := by
    decide
  simp only [hmd5, htype, hhost, hhash, hdate, htoken, hkey, hpayer, hkms, List.append_assoc,
    List.cons_append, List.nil_append, List.append_nil]

theorem canonicalRequest_eq (encoder : UrlEncoder) (path : Bytes) (signing : Signing) :
    canonicalRequest encoder path signing = (signable encoder path signing).canonical := by
  have hnewline : bytes "\n" = [newlineByte] := rfl
  have hnewlines : bytes "\n\n" = [newlineByte, newlineByte] := rfl
  rw [canonicalRequest, canonicalHeaders_eq, hnewline, hnewlines, signedHeaders_eq encoder path,
    Signable.canonical]
  simp only [signable, newline_flatMap, List.append_assoc, List.cons_append, List.nil_append]

theorem stringToSign_eq (hashing : Hashing) (encoder : UrlEncoder) (path dateNow : Bytes)
    (signing : Signing) : stringToSign hashing encoder path dateNow signing =
      Foundation.SignatureV4.stringToSign hashing.digests signing.datetimeNow
        (scope signing.authParams dateNow) (signable encoder path signing) := by
  have hterminator : bytes "/aws4_request\n" =
      slashByte :: (bytes "aws4_request" ++ [newlineByte]) := by
    decide
  rw [stringToSign, Foundation.SignatureV4.stringToSign, canonicalRequest_eq, Scope.text,
    Scope.parts,
    List.intercalate_cons_cons, List.intercalate_cons_cons, List.intercalate_cons_cons,
    List.intercalate_singleton, hterminator]
  simp only [List.append_assoc, List.cons_append, List.nil_append, scope]
  rfl

theorem computeSignature_eq (hashing : Hashing) (encoder : UrlEncoder) (path dateNow : Bytes)
    (signing : Signing) : computeSignature hashing encoder path dateNow signing =
      signature hashing.digests signing.authParams.secretAccessKey signing.datetimeNow
        (scope signing.authParams dateNow) (signable encoder path signing) := by
  rw [computeSignature, stringToSign_eq]
  rfl

theorem authorizationHeader_eq (hashing : Hashing) (encoder : UrlEncoder) (path dateNow : Bytes)
    (signing : Signing) : authorizationHeader hashing encoder path dateNow signing =
      Credential.text
        { accessKey := signing.authParams.accessKeyId
          scope := scope signing.authParams dateNow
          signedHeaders := (signable encoder path signing).signedHeaders
          signature := signature hashing.digests signing.authParams.secretAccessKey
            signing.datetimeNow (scope signing.authParams dateNow)
            (signable encoder path signing) } := by
  have hterminator : bytes "/aws4_request, SignedHeaders=" =
      slashByte :: (bytes "aws4_request" ++ bytes ", SignedHeaders=") := by decide
  rw [authorizationHeader, computeSignature_eq, signedHeaders_eq encoder path,
    Credential.text, Scope.text, Scope.parts, List.intercalate_cons_cons,
    List.intercalate_cons_cons, List.intercalate_cons_cons, List.intercalate_singleton,
    hterminator]
  simp only [List.append_assoc, List.cons_append, List.nil_append, scope]
  rfl

end HaybarnHttpfs.RequestSigning
