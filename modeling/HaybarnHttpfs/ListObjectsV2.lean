import HaybarnHttpfs.ReadAuthParams
import HaybarnHttpfs.S3Xml

/-!
`AWSListObjectV2`: the request for one page of a listing and the scanners that read
its body. URL decoding, `Glob` on one path segment and the casts of attributes are
DuckDB's.
-/

namespace HaybarnHttpfs.ListObjectsV2

open HaybarnHttpfs.Foundation.ByteStrings HaybarnHttpfs.S3Auth HaybarnHttpfs.S3Url
open HaybarnHttpfs.S3Xml HaybarnHttpfs.ReadAuthParams

structure Core where
  urlDecode : Bytes → Bytes
  glob : Bytes → Bytes → Bool
  castTimestamp : Bytes → Option Nat
  castUBigInt : Bytes → Option Nat

/-- The exceptions of a listing. `emptyKey` is no exception: the code takes the last
character of an empty string. -/
inductive ListError where
  | noMatchingCloseTag (tag : Bytes)
  | keyNotFound (contents : Bytes)
  | continuationToken
  | commonPrefixOpenTag
  | commonPrefixCloseTag
  | commonPrefixesLeft
  | conversion (value : Bytes)
  | emptyKey
  | url (e : S3UrlError)
  | http (status : Nat)
  | io
  | retriesExceeded
  deriving DecidableEq, Repr

/-- `InternalException`, which invalidates the database. -/
def ListError.internal : ListError → Bool
  | .noMatchingCloseTag _ | .keyNotFound _ | .continuationToken | .commonPrefixOpenTag
  | .commonPrefixCloseTag | .commonPrefixesLeft => true
  | _ => false

def scan (response : Bytes) (tag : String) (curPos : Nat) :
    Except ListError (Option (Bytes × Nat)) :=
  match findTagContents response (bytes tag) curPos with
  | .ok found => .ok found
  | .error (.noMatchingCloseTag tag) => .error (.noMatchingCloseTag tag)

structure OpenFileInfo where
  path : Bytes
  lastModified : Option Nat := none
  etag : Option Bytes := none
  fileSize : Option Nat := none
  s3Region : Option Bytes := none
  deriving DecidableEq, Repr

/-- `StringUtil::Replace`; `fuel` bounds the replacements. -/
def replaceAll (target replacement : Bytes) : Nat → Bytes → Bytes
  | 0, text => text
  | fuel + 1, text =>
      match find target text with
      | none => text
      | some pos =>
          text.take pos ++ replacement ++
            replaceAll target replacement fuel (text.drop (pos + target.length))

def replace (text target replacement : Bytes) : Bytes :=
  replaceAll target replacement text.length text

def castAttribute (cast : Bytes → Option Nat) (found : Option (Bytes × Nat)) :
    Except ListError (Option Nat) :=
  match found with
  | none => .ok none
  | some (value, _) =>
      match cast value with
      | some result => .ok (some result)
      | none => .error (.conversion value)

/-- One `<Contents>`; a directory yields no file. -/
def parseContents (core : Core) (contents : Bytes) : Except ListError (Option OpenFileInfo) := do
  match ← scan contents "Key" 0 with
  | none => throw (.keyNotFound contents)
  | some (key, _) =>
      let parsedPath := core.urlDecode key
      match parsedPath.getLast? with
      | none => throw .emptyKey
      | some last =>
          if last = slash then return none
          let lastModified ← castAttribute core.castTimestamp (← scan contents "LastModified" 0)
          let etag := (← scan contents "ETag" 0).map fun found =>
            replace (replace found.1 (bytes "&quot;") (bytes "\"")) (bytes "&#34;") (bytes "\"")
          let fileSize ← castAttribute core.castUBigInt (← scan contents "Size" 0)
          return some { path := parsedPath, lastModified, etag, fileSize }

/-- `fuel` bounds the `<Contents>` that are left; the length of the body is enough. -/
def parseFileListFrom (core : Core) (awsResponse : Bytes) :
    Nat → Nat → Except ListError (List OpenFileInfo)
  | 0, _ => .ok []
  | fuel + 1, curPos => do
      match ← scan awsResponse "Contents" curPos with
      | none => return []
      | some (contents, nextPos) =>
          let file ← parseContents core contents
          let files ← parseFileListFrom core awsResponse fuel nextPos
          return file.toList ++ files

def parseFileList (core : Core) (awsResponse : Bytes) : Except ListError (List OpenFileInfo) :=
  parseFileListFrom core awsResponse awsResponse.length 0

def tokenTag : Bytes := bytes "NextContinuationToken"

def parseContinuationToken (awsResponse : Bytes) : Except ListError Bytes :=
  match find (openTag tokenTag) awsResponse with
  | none => .ok []
  | some openTagPos =>
      match findFrom (closeTag tokenTag) awsResponse (openTagPos + 23) with
      | none => .error .continuationToken
      | some closeTagPos =>
          .ok (substr awsResponse (openTagPos + 23) (closeTagPos - openTagPos - 23))

def parseCommonPrefixFrom (awsResponse : Bytes) : Nat → Nat → Except ListError (List Bytes)
  | 0, _ => .ok []
  | fuel + 1, curPos =>
      match findFrom (openTag (bytes "CommonPrefixes")) awsResponse curPos with
      | none => .ok []
      | some curPos =>
          match findFrom (openTag (bytes "Prefix")) awsResponse curPos with
          | none => .error .commonPrefixOpenTag
          | some nextOpenTagPos =>
              match findFrom (closeTag (bytes "Prefix")) awsResponse (nextOpenTagPos + 8) with
              | none => .error .commonPrefixCloseTag
              | some nextCloseTagPos => do
                  let parsedPath := substr awsResponse (nextOpenTagPos + 8)
                    (nextCloseTagPos - nextOpenTagPos - 8)
                  let s3Prefixes ← parseCommonPrefixFrom awsResponse fuel (nextCloseTagPos + 6)
                  return parsedPath :: s3Prefixes

def parseCommonPrefix (awsResponse : Bytes) : Except ListError (List Bytes) :=
  parseCommonPrefixFrom awsResponse awsResponse.length 0

/-- What `Request` asks the server of a bucket for. -/
structure ListRequest where
  bucket : Bytes
  listPrefix : Bytes
  continuationToken : Bytes
  useDelimiter : Bool
  deriving DecidableEq, Repr

/-- The body of the last attempt; `authParams` are given if a redirect or a refresh
has replaced those of the request. -/
structure ListReply where
  body : Bytes
  authParams : Option S3AuthParams := none
  deriving DecidableEq, Repr

/-- The outcome of a request in the end, after its redirects, refreshes and retries. -/
abbrev ListServer := ListRequest → Except ListError ListReply

/-- The path is parsed as a URL once more to get the prefix. -/
def request (server : ListServer) (s3AuthParams : S3AuthParams) (path continuationToken : Bytes)
    (useDelimiter : Bool) : Except ListError (Bytes × S3AuthParams) :=
  match s3UrlParse path s3AuthParams with
  | .error e => .error (.url e)
  | .ok parsedUrl => do
      let reply ← server
        { bucket := parsedUrl.bucket, listPrefix := parsedUrl.key, continuationToken
          useDelimiter }
      return (reply.body, reply.authParams.getD s3AuthParams)

end HaybarnHttpfs.ListObjectsV2
