import HaybarnHttpfs.ListObjectsV2
import Mathlib.Data.List.Dedup

/-!
`S3GlobResult`: the lazy expansion of an S3 glob. Each call of `ExpandNextPath`
requests one page of the bucket, or of one common prefix of it.
-/

namespace HaybarnHttpfs.S3Glob

open HaybarnHttpfs.Foundation.ByteStrings HaybarnHttpfs.S3Auth HaybarnHttpfs.S3Url
open HaybarnHttpfs.ReadAuthParams HaybarnHttpfs.ListObjectsV2

/-- `StringUtil::Split` at slashes, without the empty segments. It is assumed that a text without
a nonempty segment has none; the engine then gives the text itself back. -/
def split (text : Bytes) : List Bytes := (text.splitOnP (· == slash)).filter (· ≠ [])

def doubleStar : Bytes := bytes "**"

/-- `Match` on the segments of a pattern and of a key, or with `completed = false` of a
prefix of keys. At a `**` the rest of the pattern is tried on every nonempty tail. -/
def matchSegments (glob : Bytes → Bytes → Bool) (completed : Bool) :
    List Bytes → List Bytes → Bool
  | [], keys => keys.isEmpty
  | _ :: _, [] => !completed
  | pattern :: patterns, key :: keys =>
      if pattern = doubleStar then
        patterns.isEmpty ||
          (key :: keys).tails.dropLast.any (matchSegments glob completed patterns) || !completed
      else glob key pattern && matchSegments glob completed patterns keys

inductive GlobType where
  | hierarchical
  | listing
  | unknown
  deriving DecidableEq, Repr

/-- The default `ParsedS3Url` of a result that never parses its pattern. -/
def noUrl : ParsedS3Url := ⟨[], [], [], [], [], [], [], []⟩

structure S3GlobResult where
  finished : Bool := false
  s3AuthParams : S3AuthParams
  sharedPath : Bytes := []
  parsedS3Url : ParsedS3Url := noUrl
  mainContinuationToken : Bytes := []
  currentCommonPrefix : Bytes := []
  commonPrefixContinuationToken : Bytes := []
  commonPrefixes : List Bytes := []
  globType : GlobType := .unknown
  expandedFiles : List OpenFileInfo := []
  deriving DecidableEq, Repr

/-- `find_first_of("*[\\")`. -/
def firstWildcard (text : Bytes) : Option Nat :=
  text.findIdx? fun c => c = 42 || c = 91 || c = 92

def newS3GlobResult (parseGetParameters : Bytes → QueryParams) (s3AuthParams : S3AuthParams)
    (globPattern : Bytes) : Except AuthReadError S3GlobResult :=
  let single : S3GlobResult :=
    { s3AuthParams, finished := true, expandedFiles := [{ path := globPattern }] }
  if s3AuthParams.s3UrlCompatibilityMode then .ok single
  else
    match s3UrlParse globPattern s3AuthParams with
    | .error e => .error (.url e)
    | .ok parsedS3Url =>
        match firstWildcard parsedS3Url.trimmedS3Url with
        | none => .ok { single with parsedS3Url }
        | some firstWildcardPos => do
            let s3AuthParams ←
              readQueryParams parseGetParameters parsedS3Url.queryParam s3AuthParams
            return {
              s3AuthParams, parsedS3Url
              sharedPath := parsedS3Url.trimmedS3Url.take firstWildcardPos }

/-- The path of a file that matches. -/
def resultFullUrl (parsedS3Url : ParsedS3Url) (key : Bytes) : Bytes :=
  let url := parsedS3Url.urlPrefix ++ parsedS3Url.bucket ++ slash :: key
  if parsedS3Url.queryParam.isEmpty then url
  else url ++ questionMark :: parsedS3Url.queryParam

/-- The folder that the choice of a strategy counts a key under. -/
def folder (key : Bytes) : Bytes := (split key).dropLast.flatMap (· ++ [slash])

structure GlobEnv where
  core : Core
  server : ListServer
  allowS3RecursiveGlobbing : Bool := true

/-- The next common prefix from the stack, or none. -/
def popCommonPrefix (g : S3GlobResult) : S3GlobResult :=
  match g.commonPrefixes.getLast? with
  | none => { g with currentCommonPrefix := [] }
  | some last =>
      { g with currentCommonPrefix := last, commonPrefixes := g.commonPrefixes.dropLast }

/-- One page of the current common prefix, which is decoded in place. -/
def scanCommonPrefix (env : GlobEnv) (g : S3GlobResult) :
    Except ListError (S3GlobResult × List OpenFileInfo) := do
  let prefixPath := g.parsedS3Url.urlPrefix ++ g.parsedS3Url.bucket ++
    slash :: g.currentCommonPrefix
  -- a further page decodes what an earlier one has decoded
  let g := { g with currentCommonPrefix := env.core.urlDecode g.currentCommonPrefix }
  let isMatch := matchSegments env.core.glob false (split g.parsedS3Url.key)
    (split g.currentCommonPrefix)
  let (g, s3Keys) ←
    if isMatch then do
      let (prefixRes, s3AuthParams) ← request env.server g.s3AuthParams
        (env.core.urlDecode prefixPath) g.commonPrefixContinuationToken true
      let s3Keys ← parseFileList env.core prefixRes
      let morePrefixes ← parseCommonPrefix prefixRes
      let commonPrefixContinuationToken ← parseContinuationToken prefixRes
      pure ({ g with
        s3AuthParams, commonPrefixContinuationToken
        commonPrefixes := g.commonPrefixes ++ morePrefixes }, s3Keys)
    else pure (g, [])
  if g.commonPrefixContinuationToken.isEmpty then return (popCommonPrefix g, s3Keys)
  else return (g, s3Keys)

/-- Whether there are at least 100 files per folder. -/
def manyFilesPerFolder (s3Keys : List OpenFileInfo) : Bool :=
  (s3Keys.map fun key => folder key.path).dedup.length * 100 < s3Keys.length

/-- One page of the top level; the first one may settle the strategy. -/
def scanTopLevel (env : GlobEnv) (g : S3GlobResult) :
    Except ListError (S3GlobResult × List OpenFileInfo) := do
  if !g.commonPrefixes.isEmpty then throw .commonPrefixesLeft
  let investigate := (find doubleStar g.parsedS3Url.key).isNone &&
    env.allowS3RecursiveGlobbing && g.globType = .unknown
  let (responseStr, s3AuthParams) ← request env.server g.s3AuthParams g.sharedPath
    g.mainContinuationToken (g.globType = .hierarchical)
  let nextContinuationToken ← parseContinuationToken responseStr
  let (g, responseStr, nextContinuationToken) ←
    if investigate && !nextContinuationToken.isEmpty then do
      let s3KeysTmp ← parseFileList env.core responseStr
      if manyFilesPerFolder s3KeysTmp then do
        let (responseStr, s3AuthParams) ← request env.server s3AuthParams g.sharedPath
          g.mainContinuationToken true
        let nextContinuationToken ← parseContinuationToken responseStr
        pure ({ g with s3AuthParams, globType := .hierarchical }, responseStr,
          nextContinuationToken)
      else pure ({ g with s3AuthParams, globType := .listing }, responseStr,
        nextContinuationToken)
    else pure ({ g with s3AuthParams }, responseStr, nextContinuationToken)
  let s3Keys ← parseFileList env.core responseStr
  let commonPrefixes ← parseCommonPrefix responseStr
  return (popCommonPrefix { g with
    mainContinuationToken := nextContinuationToken, commonPrefixes }, s3Keys)

/-- The keys of a page that match, as files to open. -/
def expandKeys (core : Core) (g : S3GlobResult) (s3Keys : List OpenFileInfo) :
    List OpenFileInfo :=
  (s3Keys.filter fun key =>
    matchSegments core.glob true (split g.parsedS3Url.key) (split key.path)).map fun key =>
      { key with
        path := resultFullUrl g.parsedS3Url key.path
        s3Region := if g.s3AuthParams.region.isEmpty then none else some g.s3AuthParams.region }

def expandNextPath (env : GlobEnv) (g : S3GlobResult) : Except ListError (S3GlobResult × Bool) :=
  if g.finished then .ok (g, false)
  else do
    let (g, s3Keys) ←
      if g.currentCommonPrefix.isEmpty then scanTopLevel env g else scanCommonPrefix env g
    return ({ g with
      finished := g.mainContinuationToken.isEmpty && g.currentCommonPrefix.isEmpty
      expandedFiles := g.expandedFiles ++ expandKeys env.core g s3Keys }, true)

end HaybarnHttpfs.S3Glob
