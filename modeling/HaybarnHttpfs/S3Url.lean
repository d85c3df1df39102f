import HaybarnHttpfs.S3Auth

/-!
`S3FileSystem::S3UrlParse`: bucket, key, host and path of an S3 URL under the
given authentication parameters.
-/

namespace HaybarnHttpfs.S3Url

open HaybarnHttpfs.Foundation.ByteStrings HaybarnHttpfs.S3Auth

inductive S3UrlError where
  | unknownPrefix
  | noSlash
  | noBucket
  | noKey
  deriving DecidableEq, Repr

def S3UrlError.message : S3UrlError → String
  | unknownPrefix => "URL needs to start with s3://, gcs:// or r2://"
  | noSlash => "URL needs to contain a '/' after the host"
  | noBucket => "URL needs to contain a bucket name"
  | noKey => "URL needs to contain key"

structure ParsedS3Url where
  httpProto : Bytes
  urlPrefix : Bytes
  host : Bytes
  bucket : Bytes
  key : Bytes
  path : Bytes
  queryParam : Bytes
  trimmedS3Url : Bytes
  deriving DecidableEq, Repr

def prefixes : List Bytes :=
  ["s3://", "s3a://", "s3n://", "gcs://", "gs://", "r2://"].map bytes

def tryGetPrefix (url : Bytes) : Option Bytes :=
  prefixes.find? fun pre => startsWith (lower url) pre

def getPrefix (url : Bytes) : Except S3UrlError Bytes :=
  match tryGetPrefix url with
  | some pre => .ok pre
  | none => .error .unknownPrefix

def slash : UInt8 := 47
def questionMark : UInt8 := 63

/-- The key with its leading slash, the query string and the URL without it. -/
def splitQuery (params : S3AuthParams) (url : Bytes) (slashPos : Nat) :
    Bytes × Bytes × Bytes :=
  if params.s3UrlCompatibilityMode then (url.drop slashPos, [], url)
  else
    match findFirstOf questionMark url with
    | none => (url.drop slashPos, [], url)
    | some questionPos =>
        let queryParam := url.drop (questionPos + 1)
        let key :=
          if queryParam.isEmpty then url.drop slashPos
          -- `question_pos - slash_pos` wraps if the '?' comes first
          else if questionPos < slashPos then url.drop slashPos
          else substr url slashPos (questionPos - slashPos)
        (key, queryParam, url.take questionPos)

/-- Host and path prefix that the endpoint and the url style give a bucket. -/
def hostAndPath (params : S3AuthParams) (bucket : Bytes) : Bytes × Bytes :=
  let (host, path) :=
    match findFirstOf slash params.endpoint with
    | some subPathPos => (params.endpoint.take subPathPos, params.endpoint.drop subPathPos)
    | none => (params.endpoint, [])
  if params.urlStyle ∈ [bytes "vhost", bytes "virtual", []] then
    (bucket ++ bytes "." ++ host, path)
  else if params.urlStyle = bytes "path" then (host, path ++ [slash] ++ bucket)
  else (host, path)

def s3UrlParse (url : Bytes) (params : S3AuthParams) :
    Except S3UrlError ParsedS3Url := do
  let urlPrefix ← getPrefix url
  let prefixEndPos := (find (bytes "//") url).getD 0 + 2
  match findFrom [slash] url prefixEndPos with
  | none => throw .noSlash
  | some slashPos =>
      let bucket := substr url prefixEndPos (slashPos - prefixEndPos)
      if bucket.isEmpty then throw .noBucket
      let (key, queryParam, trimmedS3Url) := splitQuery params url slashPos
      if key.isEmpty then throw .noKey
      let (host, path) := hostAndPath params bucket
      let httpProto := if params.useSsl then bytes "https://" else bytes "http://"
      return {
        httpProto, urlPrefix, host, bucket, queryParam, trimmedS3Url
        key := key.drop 1
        path := path ++ key }

def ParsedS3Url.protoHostPort (parsed : ParsedS3Url) : Bytes :=
  parsed.httpProto ++ parsed.host

example : (s3UrlParse (bytes "s3://b/dir/k?s3_region=eu") {
      endpoint := bytes "localhost:9000/x", urlStyle := bytes "path" }).toOption.map
        (fun parsed => (parsed.host, parsed.key, parsed.path)) =
    some (bytes "localhost:9000", bytes "dir/k", bytes "/x/b/dir/k") := by
  decide

end HaybarnHttpfs.S3Url
