import HaybarnHttpfs.CurlResponses
import HaybarnHttpfs.GlobUrls
import HaybarnHttpfs.ListPages

/-!
The path of an S3 request, once in the canonical request that is signed and once as the
curl client puts it on the wire: the first is the encoded path of the URL, the second is
split off the HTTP URL and normalized.
-/

namespace HaybarnHttpfs.RequestPath

open HaybarnHttpfs.Foundation.ByteStrings HaybarnHttpfs.S3Auth HaybarnHttpfs.S3Url
open HaybarnHttpfs.GlobUrls HaybarnHttpfs.CurlResponses

def newline : UInt8 := 10

/-- `UrlEncode` encodes byte by byte and leaves the slash as it is; what it writes for
another byte has none of the bytes that end a path. -/
structure UrlEncoder where
  encodeByte : UInt8 → Bytes
  encode_slash : encodeByte slash = [slash]
  encode_ne_nil : ∀ c, encodeByte c ≠ []
  encode_free : ∀ c ≠ slash, slash ∉ encodeByte c ∧ questionMark ∉ encodeByte c ∧
    newline ∉ encodeByte c

def UrlEncoder.encode (encoder : UrlEncoder) (text : Bytes) : Bytes :=
  text.flatMap encoder.encodeByte

/-- The arguments of `CreateS3Header` other than the path. -/
structure Signing where
  method : Method
  query : Bytes := []
  host : Bytes := []
  payloadHash : Bytes := []
  datetimeNow : Bytes := []
  contentType : Bytes := []
  contentMd5 : Bytes := []
  authParams : S3AuthParams := {}

def Signing.useSseKms (signing : Signing) : Bool :=
  !signing.authParams.kmsKeyId.isEmpty && (signing.method = .post || signing.method = .put) &&
    (find (bytes "uploadId") signing.query).isNone

def Signing.effectivePayloadHash (signing : Signing) : Bytes :=
  if signing.payloadHash.isEmpty then
    bytes "e3b0c44298fc1c149afbf4c8996fb92427ae41e4649b934ca495991b7852b855"
  else signing.payloadHash

def signedHeaders (signing : Signing) : Bytes :=
  (if signing.contentMd5.isEmpty then [] else bytes "content-md5;") ++
    (if signing.contentType.isEmpty then [] else bytes "content-type;") ++
    bytes "host;x-amz-content-sha256;x-amz-date" ++
    (if signing.authParams.requesterPays then bytes ";x-amz-request-payer" else []) ++
    (if signing.authParams.sessionToken.isEmpty then [] else bytes ";x-amz-security-token") ++
    (if signing.useSseKms then
      bytes ";x-amz-server-side-encryption;x-amz-server-side-encryption-aws-kms-key-id"
    else [])

def canonicalHeaders (signing : Signing) : Bytes :=
  (if signing.contentMd5.isEmpty then [] else bytes "\ncontent-md5:" ++ signing.contentMd5) ++
    (if signing.contentType.isEmpty then []
      else bytes "\ncontent-type:" ++ signing.contentType) ++
    bytes "\nhost:" ++ signing.host ++ bytes "\nx-amz-content-sha256:" ++
    signing.effectivePayloadHash ++ bytes "\nx-amz-date:" ++ signing.datetimeNow ++
    (if signing.authParams.requesterPays then bytes "\nx-amz-request-payer:requester" else []) ++
    (if signing.authParams.sessionToken.isEmpty then []
    else bytes "\nx-amz-security-token:" ++ signing.authParams.sessionToken) ++
    (if signing.useSseKms then
      bytes "\nx-amz-server-side-encryption:aws:kms" ++
        bytes "\nx-amz-server-side-encryption-aws-kms-key-id:" ++ signing.authParams.kmsKeyId
    else [])

/-- The canonical request of `CreateS3Header`. -/
def canonicalRequest (encoder : UrlEncoder) (path : Bytes) (signing : Signing) : Bytes :=
  signing.method.name ++ bytes "\n" ++ encoder.encode path ++ bytes "\n" ++ signing.query ++
    canonicalHeaders signing ++ bytes "\n\n" ++ signedHeaders signing ++ bytes "\n" ++
    signing.effectivePayloadHash

/-- The second line of a canonical request is its path. -/
def pathInside (canonical : Bytes) : Bytes :=
  ((canonical.dropWhile (· ≠ newline)).drop 1).takeWhile (· ≠ newline)

def signedPath (encoder : UrlEncoder) (parsed : ParsedS3Url) (signing : Signing) : Bytes :=
  pathInside (canonicalRequest encoder parsed.path signing)

def getHTTPUrl (encoder : UrlEncoder) (parsed : ParsedS3Url) (httpQueryString : Bytes) : Bytes :=
  parsed.httpProto ++ parsed.host ++ encoder.encode parsed.path ++
    if httpQueryString.isEmpty then [] else bytes "?" ++ httpQueryString

/-- `HTTPUtil` splits a URL at the first slash behind the scheme. -/
def pathComponent (httpProto httpUrl : Bytes) : Bytes :=
  match findFrom [slash] httpUrl httpProto.length with
  | some slashPos => httpUrl.drop slashPos
  | none => []

def normalizePathToBeAdded : Bytes → Bytes
  | [] => []
  | c :: addedPath =>
      if 2 < (c :: addedPath).length then
        if startsWith (c :: addedPath) (bytes "//") then normalizePathToBeAdded addedPath
        else if startsWith (c :: addedPath) (bytes "./") then normalizePathToBeAdded addedPath
        else c :: addedPath
      else c :: addedPath

/-- The path that every method of the curl client requests. -/
def sentPath (encoder : UrlEncoder) (parsed : ParsedS3Url) (httpQueryString : Bytes) : Bytes :=
  (normalizePathToBeAdded (pathComponent parsed.httpProto
    (getHTTPUrl encoder parsed httpQueryString))).takeWhile (· ≠ questionMark)

/-- The part of the endpoint behind its host. -/
def subPath (endpoint : Bytes) : Bytes :=
  match findFirstOf slash endpoint with
  | some subPathPos => endpoint.drop subPathPos
  | none => []

/-- The path begins with two slashes: the key does and nothing stands before it, or the
sub path of the endpoint does on its own or with what follows it. Exactly two slashes
without a query are too short to be normalized. -/
def LosesSlash (params : S3AuthParams) (key httpQueryString : Bytes) : Prop :=
  if subPath params.endpoint = [] then
    params.urlStyle ≠ bytes "path" ∧ key.head? = some slash ∧
      (key ≠ [slash] ∨ httpQueryString ≠ [])
  else if subPath params.endpoint = [slash] then
    params.urlStyle = bytes "path" ∨ key ≠ [] ∨ httpQueryString ≠ []
  else startsWith (subPath params.endpoint) (bytes "//") = true

instance (params : S3AuthParams) (key httpQueryString : Bytes) :
    Decidable (LosesSlash params key httpQueryString) :=
  inferInstanceAs (Decidable (ite _ _ _))

variable {encoder : UrlEncoder} {params : S3AuthParams} {url : Bytes} {parsed : ParsedS3Url}
  {signing : Signing}

theorem encode_cons (c : UInt8) (text : Bytes) :
    encoder.encode (c :: text) = encoder.encodeByte c ++ encoder.encode text :=
  rfl

theorem encode_slash_cons (text : Bytes) :
    encoder.encode (slash :: text) = slash :: encoder.encode text := by
  rw [encode_cons, encoder.encode_slash]
  rfl

theorem not_mem_encode {d : UInt8} (hd : ∀ c, d ∉ encoder.encodeByte c) (text : Bytes) :
    d ∉ encoder.encode text := by
  intro hmem
  obtain ⟨c, -, hc⟩ := List.mem_flatMap.mp hmem
  exact hd c hc

theorem questionMark_not_mem_encode (text : Bytes) : questionMark ∉ encoder.encode text := by
  apply not_mem_encode
  intro c
  by_cases hc : c = slash
  · rw [hc, encoder.encode_slash]
    decide
  · exact (encoder.encode_free c hc).2.1

theorem newline_not_mem_encode (text : Bytes) : newline ∉ encoder.encode text := by
  apply not_mem_encode
  intro c
  by_cases hc : c = slash
  · rw [hc, encoder.encode_slash]
    decide
  · exact (encoder.encode_free c hc).2.2

theorem encode_eq_nil {text : Bytes} (hnil : encoder.encode text = []) : text = [] := by
  cases text with
  | nil => rfl
  | cons c text =>
      rw [encode_cons] at hnil
      exact absurd (List.append_eq_nil_iff.mp hnil).1 (encoder.encode_ne_nil c)

theorem head_encode {text : Bytes} (hslash : (encoder.encode text).head? = some slash) :
    ∃ rest, text = slash :: rest := by
  cases text with
  | nil => cases hslash
  | cons c text =>
      by_cases hc : c = slash
      · exact ⟨text, by rw [hc]⟩
      · obtain ⟨d, rest, hd⟩ := List.exists_cons_of_ne_nil (encoder.encode_ne_nil c)
        rw [encode_cons, hd] at hslash
        have hmem : slash ∈ encoder.encodeByte c := by
          rw [hd, ← Option.some.inj hslash]
          exact List.mem_cons_self
        exact absurd hmem (encoder.encode_free c hc).1

theorem takeWhile_split {p : UInt8 → Bool} {first rest : Bytes} (hfirst : ∀ c ∈ first, p c = true)
    (hrest : ∀ c ∈ rest.head?, p c = false) : (first ++ rest).takeWhile p = first := by
  rw [List.takeWhile_append_of_pos hfirst]
  cases rest with
  | nil => rw [List.takeWhile_nil, List.append_nil]
  | cons c rest => rw [List.takeWhile_cons_of_neg (by simp [hrest c rfl]), List.append_nil]

theorem pathInside_lines {method path rest : Bytes} (hmethod : newline ∉ method)
    (hpath : newline ∉ path) :
    pathInside (method ++ newline :: (path ++ newline :: rest)) = path := by
  have hall : ∀ text : Bytes, newline ∉ text → ∀ c ∈ text, decide (c ≠ newline) = true := by
    intro text htext c hc
    rw [decide_eq_true_eq]
    rintro rfl
    exact htext hc
  unfold pathInside
  rw [List.dropWhile_append_of_pos (hall method hmethod),
    List.dropWhile_cons_of_neg (by simp), List.drop_one, List.tail_cons,
    takeWhile_split (hall path hpath) (by simp)]

theorem signedPath_eq (encoder : UrlEncoder) (parsed : ParsedS3Url) (signing : Signing) :
    signedPath encoder parsed signing = encoder.encode parsed.path := by
  have hmethod : newline ∉ signing.method.name := by
    cases signing.method with
    | _ => decide
  have hlines : canonicalRequest encoder parsed.path signing =
      signing.method.name ++ newline :: (encoder.encode parsed.path ++ newline ::
        (signing.query ++ canonicalHeaders signing ++ bytes "\n\n" ++ signedHeaders signing ++
          bytes "\n" ++ signing.effectivePayloadHash)) := by
    simp only [canonicalRequest, show bytes "\n" = [newline] from rfl, List.append_assoc,
      List.cons_append, List.nil_append]
  unfold signedPath
  rw [hlines]
  exact pathInside_lines hmethod (newline_not_mem_encode parsed.path)

theorem normalize_unchanged {path : Bytes}
    (hsame : ¬ (2 < path.length ∧ startsWith path (bytes "//") = true))
    (hslash : path.head? = some slash) :
    normalizePathToBeAdded path = path := by
  cases path with
  | nil => rfl
  | cons c path =>
      have hc : c = slash := Option.some.inj hslash
      have hdot : startsWith (c :: path) (bytes "./") ≠ true := by
        rw [hc]
        exact Bool.eq_false_iff.mp rfl
      by_cases hlong : 2 < (c :: path).length
      · rw [normalizePathToBeAdded, if_pos hlong, if_neg fun hdouble => hsame ⟨hlong, hdouble⟩,
          if_neg hdot]
      · rw [normalizePathToBeAdded, if_neg hlong]

theorem normalize_drops (path : Bytes) :
    ∃ dropped, path = dropped ++ normalizePathToBeAdded path ∧ questionMark ∉ dropped := by
  induction path with
  | nil => exact ⟨[], rfl, List.not_mem_nil⟩
  | cons c path ih =>
      obtain ⟨dropped, hpath, hfree⟩ := ih
      have hmore : c ≠ questionMark →
        normalizePathToBeAdded (c :: path) = normalizePathToBeAdded path →
          ∃ dropped, c :: path = dropped ++ normalizePathToBeAdded (c :: path) ∧
            questionMark ∉ dropped := by
        intro hc hnext
        refine ⟨c :: dropped, ?_, ?_⟩
        · rw [hnext, List.cons_append, ← hpath]
        · rw [List.mem_cons, not_or]
          exact ⟨hc.symm, hfree⟩
      have hhead : ∀ d text, startsWith (c :: path) (d :: text) = true → c = d := by
        intro d text hstarts
        obtain ⟨rest, hrest⟩ := List.isPrefixOf_iff_prefix.mp hstarts
        exact (List.cons.inj hrest).1.symm
      by_cases hlong : 2 < (c :: path).length
      · by_cases hdouble : startsWith (c :: path) (bytes "//") = true
        · apply hmore
          · rw [hhead slash _ hdouble]
            decide
          · rw [normalizePathToBeAdded, if_pos hlong, if_pos hdouble]
        · by_cases hdot : startsWith (c :: path) (bytes "./") = true
          · apply hmore
            · rw [hhead 46 _ hdot]
              decide
            · rw [normalizePathToBeAdded, if_pos hlong, if_neg hdouble, if_pos hdot]
          · refine ⟨[], ?_, List.not_mem_nil⟩
            rw [normalizePathToBeAdded, if_pos hlong, if_neg hdouble, if_neg hdot,
              List.nil_append]
      · refine ⟨[], ?_, List.not_mem_nil⟩
        rw [normalizePathToBeAdded, if_neg hlong, List.nil_append]

theorem normalize_changed {path : Bytes}
    (hlong : 2 < path.length) (hdouble : startsWith path (bytes "//") = true) :
    normalizePathToBeAdded path ≠ path := by
  cases path with
  | nil => cases hdouble
  | cons c path =>
      rw [normalizePathToBeAdded, if_pos hlong, if_pos hdouble]
      intro hsame
      obtain ⟨dropped, hpath, -⟩ := normalize_drops path
      rw [hsame] at hpath
      have hcount := congrArg List.length hpath
      rw [List.length_append, List.length_cons] at hcount
      omega

theorem subPath_cases (endpoint : Bytes) :
    subPath endpoint = [] ∨ ∃ rest, subPath endpoint = slash :: rest := by
  unfold subPath
  by_cases hmem : slash ∈ endpoint
  · obtain ⟨host, rest, rfl, hhost⟩ := exists_split_of_mem hmem
    refine .inr ⟨rest, ?_⟩
    rw [findFirstOf_append hhost]
    simp only [List.drop_left]
  · exact .inl (by rw [findFirstOf_eq_none hmem])

theorem hostAndPath_eq (params : S3AuthParams) (bucket : Bytes) : ∃ host, slash ∉ host ∧
    hostAndPath params bucket =
      if params.urlStyle ∈ [bytes "vhost", bytes "virtual", []] then
        (bucket ++ bytes "." ++ host, subPath params.endpoint)
      else if params.urlStyle = bytes "path" then
        (host, subPath params.endpoint ++ [slash] ++ bucket)
      else (host, subPath params.endpoint) := by
  unfold hostAndPath subPath
  by_cases hmem : slash ∈ params.endpoint
  · obtain ⟨host, rest, hendpoint, hhost⟩ := exists_split_of_mem hmem
    rw [hendpoint, findFirstOf_append hhost]
    simp only [List.take_left, List.drop_left]
    exact ⟨host, hhost, rfl⟩
  · rw [findFirstOf_eq_none hmem]
    exact ⟨params.endpoint, hmem, rfl⟩

theorem host_and_path (hparse : s3UrlParse url params = .ok parsed) :
    slash ∉ parsed.host ∧ parsed.path = subPath params.endpoint ++
      (if params.urlStyle = bytes "path" then slash :: parsed.bucket else []) ++
        slash :: parsed.key := by
  obtain ⟨_, _, _, _, _, _, _, _, _, hhost, hpath⟩ := s3UrlParse_ok hparse
  obtain ⟨_, _, _, _, _, _, hbucket, _⟩ := s3UrlParse_parts hparse
  obtain ⟨host, hfree, hsplit⟩ := hostAndPath_eq params parsed.bucket
  rw [hhost, hpath, hsplit]
  by_cases hvhost : params.urlStyle ∈ [bytes "vhost", bytes "virtual", []]
  · have hstyle : params.urlStyle ≠ bytes "path" := by
      intro heq
      rw [heq] at hvhost
      exact absurd hvhost (by decide)
    rw [if_pos hvhost, if_neg hstyle, List.append_nil]
    refine ⟨?_, rfl⟩
    simp only [List.mem_append, not_or]
    exact ⟨⟨hbucket, by decide⟩, hfree⟩
  · rw [if_neg hvhost]
    split
    · refine ⟨hfree, ?_⟩
      simp only [List.append_assoc, List.cons_append, List.nil_append]
    · exact ⟨hfree, by rw [List.append_nil]⟩

theorem path_cons (hparse : s3UrlParse url params = .ok parsed) :
    ∃ rest, parsed.path = slash :: rest := by
  rcases subPath_cases params.endpoint with hsub | ⟨rest, hsub⟩
  · rw [(host_and_path hparse).2, hsub]
    split
    · exact ⟨_, rfl⟩
    · exact ⟨_, rfl⟩
  · rw [(host_and_path hparse).2, hsub]
    exact ⟨_, rfl⟩

def queryPart (httpQueryString : Bytes) : Bytes :=
  if httpQueryString.isEmpty then [] else bytes "?" ++ httpQueryString

theorem queryPart_cases (httpQueryString : Bytes) :
    httpQueryString = [] ∧ queryPart httpQueryString = [] ∨
      httpQueryString ≠ [] ∧ queryPart httpQueryString = questionMark :: httpQueryString := by
  cases httpQueryString with
  | nil => exact .inl ⟨rfl, rfl⟩
  | cons c query => exact .inr ⟨nofun, rfl⟩

/-- The URL that is requested, from its first slash on: the encoded path and the query. -/
theorem pathComponent_eq (hparse : s3UrlParse url params = .ok parsed) (httpQueryString : Bytes) :
    pathComponent parsed.httpProto (getHTTPUrl encoder parsed httpQueryString) =
      encoder.encode parsed.path ++ queryPart httpQueryString := by
  obtain ⟨hfree, -⟩ := host_and_path hparse
  obtain ⟨rest, hpath⟩ := path_cons hparse
  have hurl : getHTTPUrl encoder parsed httpQueryString =
      parsed.httpProto ++ (parsed.host ++ slash ::
        (encoder.encode rest ++ queryPart httpQueryString)) := by
    unfold getHTTPUrl
    rw [hpath, encode_slash_cons]
    simp only [List.append_assoc, List.cons_append]
    rfl
  have hfound : findFrom [slash] (getHTTPUrl encoder parsed httpQueryString)
      parsed.httpProto.length = some (parsed.host.length + parsed.httpProto.length) := by
    unfold findFrom
    rw [hurl, List.drop_left, find_singleton hfree, Option.map_some]
  unfold pathComponent
  rw [hfound]
  simp only
  rw [hurl, Nat.add_comm, ← List.drop_drop, List.drop_left, List.drop_left, hpath,
    encode_slash_cons, List.cons_append]

/-- The path survives normalization exactly if normalization leaves the whole request
target as it is. -/
theorem takeWhile_normalize_iff (path httpQueryString : Bytes) :
    (normalizePathToBeAdded (encoder.encode path ++ queryPart httpQueryString)).takeWhile
        (· ≠ questionMark) = encoder.encode path ↔
      normalizePathToBeAdded (encoder.encode path ++ queryPart httpQueryString) =
        encoder.encode path ++ queryPart httpQueryString := by
  have hfree : ∀ text : Bytes, questionMark ∉ text →
    ∀ c ∈ text, decide (c ≠ questionMark) = true := by
    intro text htext c hc
    rw [decide_eq_true_eq]
    rintro rfl
    exact htext hc
  have hwhole : (encoder.encode path ++ queryPart httpQueryString).takeWhile (· ≠ questionMark) =
      encoder.encode path := by
    apply takeWhile_split (hfree _ (questionMark_not_mem_encode path))
    rcases queryPart_cases httpQueryString with ⟨-, hquery⟩ | ⟨-, hquery⟩
    · simp [hquery]
    · simp [hquery]
  constructor
  · intro hsame
    obtain ⟨dropped, htarget, hdropped⟩ :=
      normalize_drops (encoder.encode path ++ queryPart httpQueryString)
    have hsplit := hwhole
    rw [htarget, List.takeWhile_append_of_pos (hfree _ hdropped), hsame] at hsplit
    have hnil : dropped = [] := by simpa using hsplit
    rw [hnil, List.nil_append] at htarget
    exact htarget.symm
  · intro hsame
    rw [hsame]
    exact hwhole

theorem doubled_iff (rest httpQueryString : Bytes) :
    2 < (encoder.encode (slash :: rest) ++ queryPart httpQueryString).length ∧
        startsWith (encoder.encode (slash :: rest) ++ queryPart httpQueryString)
          (bytes "//") = true ↔
      ∃ rest', rest = slash :: rest' ∧ (rest' ≠ [] ∨ httpQueryString ≠ []) := by
  rw [encode_slash_cons, List.cons_append]
  constructor
  · rintro ⟨hlong, hdouble⟩
    obtain ⟨behind, hbehind⟩ := List.isPrefixOf_iff_prefix.mp hdouble
    have htail : encoder.encode rest ++ queryPart httpQueryString = slash :: behind :=
      (List.cons.inj hbehind).2.symm
    cases rest with
    | nil =>
        rcases queryPart_cases httpQueryString with ⟨-, hquery⟩ | ⟨-, hquery⟩
        · rw [hquery] at htail
          cases htail
        · rw [hquery] at htail
          cases htail
    | cons c rest =>
        have hhead : (encoder.encode (c :: rest)).head? = some slash := by
          have hne : encoder.encode (c :: rest) ≠ [] := fun hnil => nomatch encode_eq_nil hnil
          obtain ⟨d, text, htext⟩ := List.exists_cons_of_ne_nil hne
          rw [htext] at htail ⊢
          rw [(List.cons.inj htail).1]
          rfl
        obtain ⟨rest', hrest⟩ := head_encode hhead
        refine ⟨rest', hrest, ?_⟩
        by_contra hshort
        simp only [not_or, not_not] at hshort
        rw [hrest, hshort.1, hshort.2, encode_slash_cons] at hlong
        exact absurd (show 2 < [slash, slash].length from hlong) (by decide)
  · rintro ⟨rest', rfl, hmore⟩
    rw [encode_slash_cons, List.cons_append]
    refine ⟨?_, rfl⟩
    have hne : encoder.encode rest' ++ queryPart httpQueryString ≠ [] := by
      intro hnil
      obtain ⟨hrest, hquery⟩ := List.append_eq_nil_iff.mp hnil
      rcases hmore with hmore | hmore
      · exact hmore (encode_eq_nil hrest)
      · rcases queryPart_cases httpQueryString with ⟨hempty, -⟩ | ⟨-, hsome⟩
        · exact hmore hempty
        · rw [hsome] at hquery
          cases hquery
    have hpositive := List.length_pos_iff.mpr hne
    simp only [List.length_cons]
    omega

theorem losesSlash_iff (hparse : s3UrlParse url params = .ok parsed) {rest : Bytes}
    (hpath : parsed.path = slash :: rest) (httpQueryString : Bytes) :
    (∃ rest', rest = slash :: rest' ∧ (rest' ≠ [] ∨ httpQueryString ≠ [])) ↔
      LosesSlash params parsed.key httpQueryString := by
  obtain ⟨_, _, _, _, _, hbucket, hfree, _⟩ := s3UrlParse_parts hparse
  have hwhole := (host_and_path hparse).2
  rw [hpath] at hwhole
  -- by the path in the endpoint, then by the URL style
  rcases subPath_cases params.endpoint with hsub | ⟨behind, hsub⟩
  · unfold LosesSlash
    rw [if_pos hsub]
    rw [hsub, List.nil_append] at hwhole
    by_cases hstyle : params.urlStyle = bytes "path"
    · rw [if_pos hstyle, List.cons_append] at hwhole
      have hrest := (List.cons.inj hwhole).2
      constructor
      · rintro ⟨rest', hslash, -⟩
        -- the path begins with the bucket, and a bucket has no slash
        obtain ⟨c, bucket, hc⟩ := List.exists_cons_of_ne_nil hbucket
        rw [hrest, hc] at hslash
        rw [hc, (List.cons.inj hslash).1] at hfree
        exact absurd List.mem_cons_self hfree
      · rintro ⟨hother, -⟩
        exact absurd hstyle hother
    · rw [if_neg hstyle, List.nil_append] at hwhole
      rw [(List.cons.inj hwhole).2]
      constructor
      · rintro ⟨rest', hkey, hmore⟩
        refine ⟨hstyle, by rw [hkey]; rfl, ?_⟩
        rw [hkey]
        rcases hmore with hmore | hmore
        · exact .inl fun heq => hmore (List.cons.inj heq).2
        · exact .inr hmore
      · rintro ⟨-, hhead, hmore⟩
        obtain ⟨rest', hkey⟩ := List.head?_eq_some_iff.mp hhead
        refine ⟨rest', hkey, ?_⟩
        rw [hkey] at hmore
        rcases hmore with hmore | hmore
        · exact .inl fun heq => hmore (by rw [heq])
        · exact .inr hmore
  · rw [hsub, List.cons_append, List.cons_append] at hwhole
    have hrest := (List.cons.inj hwhole).2
    unfold LosesSlash
    rw [if_neg (by rw [hsub]; exact nofun), hsub]
    cases behind with
    | nil =>
        rw [if_pos rfl]
        rw [List.nil_append] at hrest
        by_cases hstyle : params.urlStyle = bytes "path"
        · rw [if_pos hstyle] at hrest
          constructor
          · rintro -
            exact .inl hstyle
          · rintro -
            exact ⟨_, hrest, .inl (by simp)⟩
        · rw [if_neg hstyle, List.nil_append] at hrest
          rw [hrest]
          constructor
          · rintro ⟨rest', hkey, hmore⟩
            rw [(List.cons.inj hkey).2]
            exact .inr hmore
          · rintro (hother | hmore)
            · exact absurd hother hstyle
            · exact ⟨_, rfl, hmore⟩
    | cons c behind =>
        rw [if_neg (by simp)]
        rw [hrest]
        constructor
        · rintro ⟨rest', hslash, -⟩
          rw [(List.cons.inj hslash).1]
          rfl
        · intro hdouble
          obtain ⟨more, hmore⟩ := List.isPrefixOf_iff_prefix.mp hdouble
          have hc : c = slash := (List.cons.inj (List.cons.inj hmore).2).1.symm
          exact ⟨_, by rw [hc, List.cons_append, List.cons_append], .inl (by simp)⟩

/-- The path that is signed is the path that is sent, exactly if the path of the URL does
not begin with two slashes that are normalized. -/
theorem sentPath_eq_signedPath_iff (encoder : UrlEncoder)
    (hparse : s3UrlParse url params = .ok parsed) (signing : Signing) :
    sentPath encoder parsed signing.query = signedPath encoder parsed signing ↔
      ¬ LosesSlash params parsed.key signing.query := by
  obtain ⟨rest, hpath⟩ := path_cons hparse
  rw [signedPath_eq]
  unfold sentPath
  rw [pathComponent_eq hparse, takeWhile_normalize_iff, ← losesSlash_iff hparse hpath,
    ← doubled_iff, ← hpath]
  constructor
  · rintro hsame ⟨hlong, hdouble⟩
    exact normalize_changed hlong hdouble hsame
  · intro hshort
    apply normalize_unchanged hshort
    rw [hpath, encode_slash_cons]
    rfl

theorem percentEncodeByte_path (c : UInt8) : ListPages.percentEncodeByte c ≠ [] ∧
    (c ≠ slash → slash ∉ ListPages.percentEncodeByte c ∧
      questionMark ∉ ListPages.percentEncodeByte c ∧
      newline ∉ ListPages.percentEncodeByte c) := by
  have hall : ∀ n < 256, ListPages.percentEncodeByte (UInt8.ofNat n) ≠ [] ∧
      (UInt8.ofNat n ≠ slash → slash ∉ ListPages.percentEncodeByte (UInt8.ofNat n) ∧
        questionMark ∉ ListPages.percentEncodeByte (UInt8.ofNat n) ∧
          newline ∉ ListPages.percentEncodeByte (UInt8.ofNat n)) := by
    decide +kernel
  have hc := hall c.toNat c.toNat_lt
  rwa [UInt8.ofNat_toNat] at hc

def percentEncoder : UrlEncoder where
  encodeByte := ListPages.percentEncodeByte
  encode_slash := by decide
  encode_ne_nil c := (percentEncodeByte_path c).1
  encode_free c := (percentEncodeByte_path c).2

def awsParams : S3AuthParams := { endpoint := bytes "s3.amazonaws.com" }

def plainObject : ParsedS3Url :=
  { httpProto := bytes "https://"
    urlPrefix := bytes "s3://"
    host := bytes "b.s3.amazonaws.com"
    bucket := bytes "b"
    key := bytes "dir/k"
    path := bytes "/dir/k"
    queryParam := []
    trimmedS3Url := bytes "s3://b/dir/k" }

theorem sentPath_eq_signedPath_iff_plain :
    sentPath percentEncoder plainObject [] =
      signedPath percentEncoder plainObject { method := .get } :=
  (sentPath_eq_signedPath_iff percentEncoder
    (show s3UrlParse (bytes "s3://b/dir/k") awsParams = .ok plainObject by decide +kernel)
    { method := .get }).mpr (by decide)

/-- The object whose key is `/k`. -/
def slashObject : ParsedS3Url :=
  { plainObject with
    key := bytes "/k"
    path := bytes "//k"
    trimmedS3Url := bytes "s3://b//k" }

theorem leading_slash_not_sent :
    ¬ ∀ url params parsed, s3UrlParse url params = .ok parsed → ∀ signing,
      sentPath percentEncoder parsed signing.query =
        signedPath percentEncoder parsed signing := by
  intro hall
  have hsame :=
    hall (bytes "s3://b//k") awsParams slashObject (by decide +kernel) { method := .get }
  rw [signedPath_eq] at hsame
  exact absurd hsame (by decide +kernel)

end HaybarnHttpfs.RequestPath
