import HaybarnHttpfs.HTTPExchange
import Mathlib.Data.List.Basic

/-!
`HuggingFaceFileSystem::Glob`: the directories of a repository are listed page by
page, and the files found are matched against the pattern. One request may take
several attempts, which share the handlers of the request.
-/

namespace HaybarnHttpfs.HuggingFaceFileSystem

open HaybarnHttpfs.Foundation.ByteStrings HaybarnHttpfs.HTTPExchange

def slash : UInt8 := 47

structure ParsedHFUrl where
  path : Bytes
  repository : Bytes
  endpoint : Bytes := bytes "https://huggingface.co"
  revision : Bytes := bytes "main"
  repoType : Bytes := bytes "datasets"
  deriving DecidableEq, Repr

inductive HFError where
  | notHfUrl
  | parse (url : Bytes)
  | repoType (url : Bytes)
  | linkHeader (content : Bytes)
  | noNextLink
  | http (status : Nat) (url : Bytes)
  | status (status : Nat) (url : Bytes)
  | listResult
  deriving DecidableEq, Repr

def HFError.message : HFError → Bytes
  | .notHfUrl => bytes "Not an hf url"
  | .parse url =>
      bytes "Failed to parse '" ++ url ++ bytes ("'. Please format url like: " ++
        "'hf://datasets/my-username/my-dataset/path/to/file.parquet'")
  | .repoType url =>
      bytes "Failed to parse: '" ++ url ++ bytes ("'. Currently DuckDB only supports querying " ++
        "datasets or spaces, so the url should start with 'hf://datasets' or 'hf://spaces'")
  | .linkHeader content =>
      bytes "Unexpected link header for huggingface pagination: " ++ content
  | .noNextLink => bytes "Failed to parse Link header for paginated response, pagination support"
  | .http code url =>
      bytes "HTTP GET error on '" ++ url ++ bytes "' (HTTP " ++ decimal code ++ bytes ")"
  | .status _ url => bytes " error for HTTP GET to '" ++ url ++ bytes "'"
  | .listResult => bytes "Failed to parse list result"

def hfUrlParse (url : Bytes) : Except HFError ParsedHFUrl :=
  if !startsWith url (bytes "hf://") then .error .notHfUrl
  else
    match findFrom [slash] url 5 with
    | none => .error (.parse url)
    | some currDelim =>
        let repoType := substr url 5 (currDelim - 5)
        if repoType ≠ bytes "datasets" ∧ repoType ≠ bytes "spaces" then .error (.repoType url)
        else
          match findFrom [slash] url (currDelim + 1) with
          | none => .error (.parse url)
          | some repoDelim =>
              let repositoryAt (pos : Nat) := substr url (currDelim + 1) (pos - currDelim - 1)
              match findFrom [slash] url (repoDelim + 1) with
              | none => .error (.parse url)
              | some nextSlash =>
                  let path := url.drop nextSlash
                  match findFrom (bytes "@") url (repoDelim + 1) with
                  | some nextAt =>
                      if nextAt < nextSlash then
                        .ok { path, repoType, repository := repositoryAt nextAt
                              revision := substr url (nextAt + 1) (nextSlash - nextAt - 1) }
                      else .ok { path, repoType, repository := repositoryAt nextSlash }
                  | none => .ok { path, repoType, repository := repositoryAt nextSlash }

def getHFUrl (url : ParsedHFUrl) : Bytes :=
  let repository := bytes "hf://" ++ url.repoType ++ bytes "/" ++ url.repository
  if url.revision = bytes "main" then repository ++ url.path
  else repository ++ bytes "@" ++ url.revision ++ url.path

/-- One attempt at a request: the head that reached the response handler, if any, and
what reached the content handler. -/
structure Attempt where
  response : Option HTTPResponse
  delivered : Bytes

/-- The attempts that failed and were retried, then the last one. -/
structure Transfer where
  failed : List Attempt
  last : Attempt

/-- What is not part of the extension: the transport, `FileSystem::JoinPath` and `Glob`
on one segment. `transport` is given the number of the request. -/
structure HFEnv where
  transport : Nat → Bytes → Transfer
  joinPath : Bytes → Bytes → Bytes
  glob : Bytes → Bytes → Bool
  hfMaxPerPage : Nat := 0

def treeBase (env : HFEnv) (url : ParsedHFUrl) : Bytes :=
  [bytes "api", url.repoType, url.repository, bytes "tree", url.revision].foldl env.joinPath
    url.endpoint

def limitQuery (limit : Nat) : Bytes := if 0 < limit then bytes "?limit=" ++ decimal limit else []

/-- The path is not encoded. -/
def getTreeUrl (env : HFEnv) (url : ParsedHFUrl) (limit : Nat) : Bytes :=
  treeBase env url ++ url.path ++ limitQuery limit

/-- `StringUtil::Split` at a character: empty parts are kept, but for the last one. -/
def splitChar (c : UInt8) (text : Bytes) : List Bytes :=
  let parts := text.splitOnP (· == c)
  if parts.getLast? = some [] then parts.dropLast else parts

def isSpace (c : UInt8) : Bool := c = 32 || (9 ≤ c && c ≤ 13)

def trim (text : Bytes) : Bytes := ((text.dropWhile isSpace).reverse.dropWhile isSpace).reverse

def parseNextUrlFrom (content : Bytes) : List Bytes → Except HFError Bytes
  | [] => .error .noNextLink
  | part :: parts =>
      match splitChar 59 part with
      | [target, rel] =>
          if trim rel = bytes "rel=\"next\"" then
            let target := trim target
            if !startsWith target (bytes "<") || !endsWith target (bytes ">") then
              .error (.linkHeader content)
            else .ok (substr target 1 (target.length - 2))
          else parseNextUrlFrom content parts
      | _ => .error (.linkHeader content)

def parseNextUrlFromLinkHeader (content : Bytes) : Except HFError Bytes :=
  parseNextUrlFrom content (splitChar 44 content)

/-- What the two handlers of a request share over its attempts. -/
structure Handlers where
  linkHeaderResult : Bytes := []
  response : Bytes := []
  deriving DecidableEq, Repr

/-- The response handler throws at an error status, before any content arrives. -/
def onAttempt (h : Handlers) (attempt : Attempt) : Handlers :=
  match attempt.response with
  | none => h
  | some response =>
      if 400 ≤ response.status then h
      else
        { linkHeaderResult :=
            if response.hasHeader (bytes "Link") then response.getHeaderValue (bytes "Link")
            else h.linkHeaderResult
          response := h.response ++ attempt.delivered }

def requestUrl (url : ParsedHFUrl) (nextPageUrl : Bytes) : Bytes :=
  let fragment :=
    if startsWith nextPageUrl url.endpoint then nextPageUrl.drop url.endpoint.length
    else nextPageUrl
  if startsWith fragment [slash] then url.endpoint ++ fragment
  else url.endpoint ++ slash :: fragment

/-- The body of a page and the URL of the next one, which is empty on the last page. -/
def listHFRequest (env : HFEnv) (n : Nat) (url : ParsedHFUrl) (nextPageUrl : Bytes) :
    Except HFError (Bytes × Bytes) :=
  let transfer := env.transport n (requestUrl url nextPageUrl)
  let h := onAttempt (transfer.failed.foldl onAttempt {}) transfer.last
  match transfer.last.response with
  | none => .error (.status 0 nextPageUrl)
  | some response =>
      if 400 ≤ response.status then .error (.http response.status nextPageUrl)
      else if response.status ≠ 200 then .error (.status response.status nextPageUrl)
      else if h.linkHeaderResult.isEmpty then .ok (h.response, [])
      else (parseNextUrlFromLinkHeader h.linkHeaderResult).map fun next => (h.response, next)

inductive ParseEntry where
  | file
  | dir
  | unknown
  deriving DecidableEq, Repr

/-- The labels of `ParseListResult`. -/
inductive Label where
  | base
  | entry
  | pathname
  deriving DecidableEq, Repr

structure ListScan where
  label : Label := .base
  nested : Nat := 0
  foundPath : Bool := false
  type : ParseEntry := .unknown
  currentString : Bytes := []
  files : List Bytes := []
  directories : List Bytes := []
  deriving DecidableEq, Repr

/-- An entry ends. -/
def ListScan.endEntry (s : ListScan) : Except HFError ListScan :=
  if !s.foundPath || s.type = .unknown then .error .listResult
  else
    let path := slash :: s.currentString
    .ok {
      s with
      label := .base, foundPath := false, type := .unknown, currentString := []
      files := if s.type = .file then s.files ++ [path] else s.files
      directories := if s.type = .file then s.directories else s.directories ++ [path] }

/-- The scanner at a nonempty input; it gives back what is left of the input. -/
def listScanStep (s : ListScan) (c : UInt8) (rest : Bytes) : Except HFError (ListScan × Bytes) :=
  let input := c :: rest
  match s.label with
  | .base => if c = 123 then .ok ({ s with label := .entry }, rest) else .ok (s, rest)
  | .entry =>
      if c = 125 then
        if 0 < s.nested then .ok ({ s with nested := s.nested - 1 }, rest)
        else s.endEntry.map (·, rest)
      else if c = 123 then .ok ({ s with nested := s.nested + 1 }, rest)
      else if startsWith input (bytes "\"type\":\"directory\"") then
        .ok ({ s with type := .dir }, input.drop 18)
      else if startsWith input (bytes "\"type\":\"file\"") then
        .ok ({ s with type := .file }, input.drop 13)
      else if startsWith input (bytes "\"path\":\"") then
        .ok ({ s with label := .pathname, foundPath := true }, input.drop 8)
      else .ok (s, rest)
  | .pathname =>
      -- the test for an escaped quote asks for two values of one character
      if c = 92 ∧ rest ≠ [] ∧ c = 34 then
        .ok ({ s with currentString := s.currentString ++ [34] }, input.drop 2)
      else if c = 34 then .ok ({ s with label := .entry }, rest)
      else .ok ({ s with currentString := s.currentString ++ [c] }, rest)

/-- `fuel` bounds the steps; the length of the input is enough. -/
def parseListFrom : Nat → ListScan → Bytes → Except HFError ListScan
  | 0, s, _ => .ok s
  | _ + 1, s, [] => .ok s
  | fuel + 1, s, c :: rest =>
      match listScanStep s c rest with
      | .error e => .error e
      | .ok (s, left) => parseListFrom fuel s left

def parseListResult (input : Bytes) (files directories : List Bytes) : Except HFError ListScan :=
  parseListFrom input.length { files, directories } input

def doubleStar : Bytes := bytes "**"

/-- `StringUtil::Split` at slashes, without the empty segments. It is assumed that a text without
a nonempty segment has none; the engine then gives the text itself back. -/
def splitPath (text : Bytes) : List Bytes := (text.splitOnP (· == slash)).filter (· ≠ [])

/-- `Match` on the segments of a pattern and of a file. -/
def matchPath (glob : Bytes → Bytes → Bool) : List Bytes → List Bytes → Bool
  | [], keys => keys.isEmpty
  | _ :: _, [] => false
  | pattern :: patterns, key :: keys =>
      if pattern = doubleStar then
        patterns.isEmpty || (key :: keys).tails.dropLast.any (matchPath glob patterns)
      else glob key pattern && matchPath glob patterns keys

def isWildcard (c : UInt8) : Bool := c = 42 || c = 91 || c = 92

/-- The directory that all the matches of a pattern lie in. -/
def sharedPath (path : Bytes) : Bytes :=
  let shared := path.takeWhile fun c => !isWildcard c
  match findFirstOf slash shared.reverse with
  | none => []
  | some behind => shared.take (shared.length - behind - 1)

structure GlobState where
  url : ParsedHFUrl
  files : List Bytes := []
  dirs : List Bytes
  nextPageUrl : Bytes := []
  requests : Nat := 0
  deriving DecidableEq, Repr

/-- The next page of the current directory. -/
def listPage (env : HFEnv) (s : GlobState) : Except HFError GlobState := do
  let (response, nextPageUrl) ← listHFRequest env s.requests s.url s.nextPageUrl
  let scan ← parseListResult response s.files s.dirs
  return { s with
    nextPageUrl, files := scan.files, dirs := scan.directories, requests := s.requests + 1 }

/-- One round of the loop; it is `none` once there is nothing left to list. -/
def globRound (env : HFEnv) (s : GlobState) : Except HFError (Option GlobState) :=
  if s.nextPageUrl.isEmpty then
    match s.dirs.getLast? with
    | none => .ok none
    | some dir =>
        let url := { s.url with path := dir }
        (listPage env { s with
          url, dirs := s.dirs.dropLast,
          nextPageUrl := getTreeUrl env url env.hfMaxPerPage }).map some
  else (listPage env s).map some

def globLoop (env : HFEnv) : Nat → GlobState → Option (Except HFError GlobState)
  | 0, _ => none
  | fuel + 1, s =>
      match globRound env s with
      | .error e => some (.error e)
      | .ok none => some (.ok s)
      | .ok (some s) => globLoop env fuel s

/-- `Glob`, for at most `fuel` rounds. -/
def glob (env : HFEnv) (fuel : Nat) (path : Bytes) : Option (Except HFError (List Bytes)) :=
  match hfUrlParse path with
  | .error e => some (.error e)
  | .ok parsedGlobUrl =>
      if !parsedGlobUrl.path.any isWildcard then some (.ok [path])
      else
        let shared := sharedPath parsedGlobUrl.path
        let patternSplits := splitPath parsedGlobUrl.path
        (globLoop env fuel { url := { parsedGlobUrl with path := shared }, dirs := [shared] }).map
          fun ended => ended.map fun s =>
            (s.files.filter fun file => matchPath env.glob patternSplits (splitPath file)).map
              fun file => getHFUrl { parsedGlobUrl with path := file }

end HaybarnHttpfs.HuggingFaceFileSystem
