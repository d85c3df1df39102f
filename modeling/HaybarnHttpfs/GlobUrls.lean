import HaybarnHttpfs.S3Glob

/-!
The paths that a glob emits, read back by `S3UrlParse`: the key is printed as it is,
and the parser ends it at the first question mark.
-/

namespace HaybarnHttpfs.GlobUrls

open HaybarnHttpfs.Foundation.ByteStrings HaybarnHttpfs.S3Auth HaybarnHttpfs.S3Url
open HaybarnHttpfs.ReadAuthParams HaybarnHttpfs.S3Glob

variable {urlPrefix bucket url : Bytes} {params : S3AuthParams} {glob parsed : ParsedS3Url}

theorem find_slashes_append (hscheme : urlPrefix ∈ prefixes) (rest : Bytes) :
    (find (bytes "//") (urlPrefix ++ rest)).getD 0 + 2 = urlPrefix.length := by
  simp only [prefixes, List.map_cons, List.map_nil, List.mem_cons, List.not_mem_nil,
    or_false] at hscheme
  rcases hscheme with rfl | rfl | rfl | rfl | rfl | rfl
  all_goals rfl

theorem questionMark_not_mem_scheme (hscheme : urlPrefix ∈ prefixes) :
    questionMark ∉ urlPrefix := by
  simp only [prefixes, List.map_cons, List.map_nil, List.mem_cons, List.not_mem_nil,
    or_false] at hscheme
  rcases hscheme with rfl | rfl | rfl | rfl | rfl | rfl
  all_goals decide

theorem lower_of_mem_prefixes (hscheme : urlPrefix ∈ prefixes) : lower urlPrefix = urlPrefix := by
  have hlower : ∀ p ∈ prefixes, lower p = p := by decide
  exact hlower _ hscheme

theorem lower_mem_prefixes (hscheme : urlPrefix ∈ prefixes) : lower urlPrefix ∈ prefixes := by
  rwa [lower_of_mem_prefixes hscheme]

theorem getPrefix_ok (hok : getPrefix url = .ok urlPrefix) :
    tryGetPrefix url = some urlPrefix := by
  unfold getPrefix at hok
  split at hok
  · rename_i pre hpre
    cases hok
    exact hpre
  · cases hok

theorem questionMark_ne_slash : questionMark ≠ slash := by decide

section SplitQuery

variable {beforeKey printed : Bytes}

theorem splitQuery_early (hcompat : params.s3UrlCompatibilityMode = false)
    (hquestion : questionMark ∈ beforeKey) :
    (splitQuery params (beforeKey ++ slash :: printed) beforeKey.length).1 =
      slash :: printed := by
  obtain ⟨first, rest, rfl, hfirst⟩ := exists_split_of_mem hquestion
  have hfound : findFirstOf questionMark (first ++ questionMark :: rest ++ slash :: printed) =
      some first.length := by
    rw [List.append_assoc]
    exact findFirstOf_append hfirst
  unfold splitQuery
  simp only [hcompat, Bool.false_eq_true, if_false, hfound]
  rw [if_neg (by simp), if_pos (by simp), List.drop_left]

theorem queryParam_early (hcompat : params.s3UrlCompatibilityMode = false)
    (hquestion : questionMark ∈ beforeKey) :
    (splitQuery params (beforeKey ++ slash :: printed) beforeKey.length).2.1 ≠ [] := by
  obtain ⟨first, rest, rfl, hfirst⟩ := exists_split_of_mem hquestion
  have hurl : first ++ questionMark :: rest ++ slash :: printed =
      first ++ questionMark :: (rest ++ slash :: printed) := by simp
  unfold splitQuery
  simp only [hcompat, Bool.false_eq_true, if_false, hurl, findFirstOf_append hfirst]
  rw [← List.drop_drop, List.drop_left]
  simp

theorem splitQuery_plain (hcompat : params.s3UrlCompatibilityMode = false)
    (hbefore : questionMark ∉ beforeKey) (hprinted : questionMark ∉ printed) :
    splitQuery params (beforeKey ++ slash :: printed) beforeKey.length =
      (slash :: printed, [], beforeKey ++ slash :: printed) := by
  have hnone : findFirstOf questionMark (beforeKey ++ slash :: printed) = none := by
    apply findFirstOf_eq_none
    simp [hbefore, hprinted, questionMark_ne_slash]
  unfold splitQuery
  simp only [hcompat, Bool.false_eq_true, if_false, hnone, List.drop_left]

theorem splitQuery_at {first rest : Bytes} (hcompat : params.s3UrlCompatibilityMode = false)
    (hbefore : questionMark ∉ beforeKey) (hprinted : printed = first ++ questionMark :: rest)
    (hfirst : questionMark ∉ first) :
    (splitQuery params (beforeKey ++ slash :: printed) beforeKey.length).1 =
        slash :: (if rest = [] then printed else first) ∧
      (splitQuery params (beforeKey ++ slash :: printed) beforeKey.length).2.1 = rest := by
  have hurl : beforeKey ++ slash :: printed =
      (beforeKey ++ slash :: first) ++ questionMark :: rest := by
    simp [hprinted]
  have hfound : findFirstOf questionMark (beforeKey ++ slash :: printed) =
      some (beforeKey ++ slash :: first).length := by
    rw [hurl]
    apply findFirstOf_append
    simp [hbefore, hfirst, questionMark_ne_slash]
  have hrest : (beforeKey ++ slash :: printed).drop ((beforeKey ++ slash :: first).length + 1) =
      rest := by
    rw [hurl, ← List.drop_drop, List.drop_left, List.drop_one, List.tail_cons]
  have hkey : substr (beforeKey ++ slash :: printed) beforeKey.length
      ((beforeKey ++ slash :: first).length - beforeKey.length) = slash :: first := by
    have hlength : (beforeKey ++ slash :: first).length - beforeKey.length =
        (slash :: first).length := by
      simp
    unfold substr
    rw [List.drop_left, hlength, hprinted, ← List.cons_append, List.take_left]
  unfold splitQuery
  simp only [hcompat, Bool.false_eq_true, if_false, hfound, hrest, hkey, and_true]
  cases rest with
  | nil => simp
  | cons c rest =>
      rw [if_neg (by simp), if_neg (by simp), if_neg (by simp)]

end SplitQuery

theorem lowerByte_eq_iff {c d : UInt8} (hd : d < 65) : lowerByte c = d ↔ c = d := by
  unfold lowerByte
  split
  · rename_i hletter
    have hc : (c + 32).toNat = c.toNat + 32 := by
      have hle := UInt8.le_iff_toNat_le.mp hletter.2
      rw [UInt8.toNat_add]
      have h90 : (90 : UInt8).toNat = 90 := rfl
      have h32 : (32 : UInt8).toNat = 32 := rfl
      rw [h32]
      omega
    have hge := UInt8.le_iff_toNat_le.mp hletter.1
    have hlt := UInt8.lt_iff_toNat_lt.mp hd
    have h65 : (65 : UInt8).toNat = 65 := rfl
    constructor
    · rintro rfl
      omega
    · rintro rfl
      omega
  · exact Iff.rfl

theorem find_slashes_lower (text : Bytes) :
    find (bytes "//") (lower text) = find (bytes "//") text := by
  have hslashes : bytes "//" = [47, 47] := by decide
  have hbyte : ∀ c : UInt8, (47 == lowerByte c) = (47 == c) := by
    intro c
    rw [Bool.eq_iff_iff, beq_iff_eq, beq_iff_eq, eq_comm, lowerByte_eq_iff (by decide), eq_comm]
  rw [hslashes]
  induction text with
  | nil => rfl
  | cons c text ih =>
      have hstarts : List.isPrefixOf [47, 47] (lowerByte c :: lower text) =
          List.isPrefixOf [47, 47] (c :: text) := by
        cases text with
        | nil => simp [lower, List.isPrefixOf]
        | cons d text => simp [lower, List.isPrefixOf, hbyte]
      change find [47, 47] (lowerByte c :: lower text) = _
      rw [find, find, hstarts, ih]

theorem getPrefix_append {scheme : Bytes} (hscheme : lower scheme ∈ prefixes) (rest : Bytes) :
    getPrefix (scheme ++ rest) = .ok (lower scheme) := by
  have hlower : lower (scheme ++ rest) = lower scheme ++ lower rest := List.map_append
  unfold getPrefix tryGetPrefix
  rw [hlower]
  simp only [prefixes, List.map_cons, List.map_nil, List.mem_cons, List.not_mem_nil,
    or_false] at hscheme
  rcases hscheme with h | h | h | h | h | h
  all_goals rw [h]
  all_goals rfl

theorem s3UrlParse_append {scheme rest : Bytes} (hscheme : lower scheme ∈ prefixes)
    (hbucket : bucket ≠ []) (hslash : slash ∉ bucket)
    (hkey : (splitQuery params (scheme ++ bucket ++ slash :: rest)
      (scheme ++ bucket).length).1 ≠ []) :
    ∃ parsed, s3UrlParse (scheme ++ bucket ++ slash :: rest) params = .ok parsed ∧
      parsed.bucket = bucket ∧
      parsed.key = (splitQuery params (scheme ++ bucket ++ slash :: rest)
        (scheme ++ bucket).length).1.drop 1 ∧
      parsed.queryParam = (splitQuery params (scheme ++ bucket ++ slash :: rest)
        (scheme ++ bucket).length).2.1 := by
  have hend : (find (bytes "//") (scheme ++ (bucket ++ slash :: rest))).getD 0 + 2 =
      scheme.length := by
    have hlower : lower (scheme ++ (bucket ++ slash :: rest)) =
        lower scheme ++ lower (bucket ++ slash :: rest) := List.map_append
    rw [← find_slashes_lower, hlower, find_slashes_append hscheme, lower, List.length_map]
  have hfound : findFrom [slash] (scheme ++ bucket ++ slash :: rest) scheme.length =
      some (scheme ++ bucket).length := by
    unfold findFrom
    rw [List.append_assoc, List.drop_left, find_singleton hslash]
    simp [Nat.add_comm]
  have hsubstr : substr (scheme ++ bucket ++ slash :: rest) scheme.length
      ((scheme ++ bucket).length - scheme.length) = bucket := by
    unfold substr
    rw [List.append_assoc, List.drop_left, List.length_append, Nat.add_sub_cancel_left,
      List.take_left]
  unfold s3UrlParse
  rw [List.append_assoc, getPrefix_append hscheme, hend, ← List.append_assoc]
  simp only [bind, Except.bind, pure, Except.pure, hfound, hsubstr]
  rw [if_neg (by simpa using hbucket)]
  generalize splitQuery params (scheme ++ bucket ++ slash :: rest) (scheme ++ bucket).length =
    parts at hkey ⊢
  obtain ⟨key, query, trimmed⟩ := parts
  simp only
  rw [if_neg (by simpa using hkey)]
  exact ⟨_, rfl, rfl, rfl, rfl⟩

theorem splitQuery_key (params : S3AuthParams) {rest : Bytes} {slashPos : Nat}
    (hrest : url.drop slashPos = slash :: rest) :
    (splitQuery params url slashPos).1 = [] ∨
      ∃ key, (splitQuery params url slashPos).1 = slash :: key ∧ key <+: rest := by
  have hwhole : ∃ key, url.drop slashPos = slash :: key ∧ key <+: rest :=
    ⟨rest, hrest, List.prefix_refl rest⟩
  unfold splitQuery
  split
  · exact .inr hwhole
  split
  · exact .inr hwhole
  rename_i questionPos hquestion
  simp only
  split
  · exact .inr hwhole
  split
  · exact .inr hwhole
  rw [substr, hrest]
  cases questionPos - slashPos with
  | zero => exact .inl rfl
  | succ count => exact .inr ⟨rest.take count, rfl, List.take_prefix count rest⟩

theorem s3UrlParse_ok (hparse : s3UrlParse url params = .ok parsed) :
    ∃ slashPos rest, getPrefix url = .ok parsed.urlPrefix ∧
      findFrom [slash] url ((find (bytes "//") url).getD 0 + 2) = some slashPos ∧
      url.drop slashPos = slash :: rest ∧
      parsed.bucket = substr url ((find (bytes "//") url).getD 0 + 2)
        (slashPos - ((find (bytes "//") url).getD 0 + 2)) ∧
      parsed.bucket ≠ [] ∧ splitQuery params url slashPos =
        (slash :: parsed.key, parsed.queryParam, parsed.trimmedS3Url) ∧
      parsed.httpProto = (if params.useSsl then bytes "https://" else bytes "http://") ∧
      parsed.host = (hostAndPath params parsed.bucket).1 ∧
      parsed.path = (hostAndPath params parsed.bucket).2 ++ slash :: parsed.key := by
  unfold s3UrlParse at hparse
  cases hscheme : getPrefix url with
  | error e => simp [hscheme, bind, Except.bind] at hparse
  | ok urlPrefix =>
      simp only [hscheme, bind, Except.bind] at hparse
      split at hparse
      · cases hparse
      rename_i slashPos hslashPos
      obtain ⟨pos, hpos, heq⟩ := Option.map_eq_some_iff.mp hslashPos
      obtain ⟨rest, hrest⟩ := drop_of_find_singleton hpos
      have hdrop : url.drop slashPos = slash :: rest := by
        rw [← heq, Nat.add_comm, ← List.drop_drop]
        exact hrest
      split at hparse
      · cases hparse
      rename_i hnonempty
      split at hparse
      · cases hparse
      rename_i hkey
      obtain ⟨key, hkey', -⟩ := (splitQuery_key params hdrop).resolve_left (by simpa using hkey)
      simp only [pure, Except.pure, Except.ok.injEq] at hparse
      subst hparse
      refine ⟨slashPos, rest, rfl, hslashPos, hdrop, rfl, by simpa using hnonempty, ?_,
        rfl, rfl, ?_⟩
      · rw [hkey']
        exact Prod.ext hkey' rfl
      · rw [hkey']
        rfl

theorem s3UrlParse_parts (hparse : s3UrlParse url params = .ok parsed) :
    ∃ scheme rest, url = scheme ++ parsed.bucket ++ slash :: rest ∧
      lower scheme = parsed.urlPrefix ∧ parsed.urlPrefix ∈ prefixes ∧ parsed.bucket ≠ [] ∧
      slash ∉ parsed.bucket ∧ splitQuery params url (scheme ++ parsed.bucket).length =
        (slash :: parsed.key, parsed.queryParam, parsed.trimmedS3Url) := by
  obtain ⟨slashPos, rest, hscheme, hslashPos, hdrop, hbucket, hnonempty, hsplit, -⟩ :=
    s3UrlParse_ok hparse
  have hfound := getPrefix_ok hscheme
  have hmem : parsed.urlPrefix ∈ prefixes := List.mem_of_find?_eq_some hfound
  have hleading : startsWith (lower url) parsed.urlPrefix = true := by
    simpa using List.find?_some hfound
  have hstarts : parsed.urlPrefix <+: lower url := List.isPrefixOf_iff_prefix.mp hleading
  have hlower : lower (url.take parsed.urlPrefix.length) = parsed.urlPrefix := by
    rw [lower, List.map_take]
    exact (List.prefix_iff_eq_take.mp hstarts).symm
  have hlength : (url.take parsed.urlPrefix.length).length = parsed.urlPrefix.length := by
    have hcount := congrArg List.length hlower
    rwa [lower, List.length_map] at hcount
  have hend : (find (bytes "//") url).getD 0 + 2 = parsed.urlPrefix.length := by
    obtain ⟨rest, hrest⟩ := hstarts
    rw [← find_slashes_lower, ← hrest, find_slashes_append hmem]
  rw [hend] at hslashPos hbucket
  obtain ⟨pos, hpos, rfl⟩ := Option.map_eq_some_iff.mp hslashPos
  obtain ⟨-, hfirst⟩ := of_find_singleton hpos
  rw [Nat.add_sub_cancel] at hbucket
  have hrest : (url.drop parsed.urlPrefix.length).drop pos = slash :: rest := by
    rw [List.drop_drop, Nat.add_comm]
    exact hdrop
  have hurl : url = url.take parsed.urlPrefix.length ++ parsed.bucket ++ slash :: rest := by
    rw [List.append_assoc, ← hrest, hbucket, substr, List.take_append_drop, List.take_append_drop]
  have hslashPos' : (url.take parsed.urlPrefix.length ++ parsed.bucket).length =
      pos + parsed.urlPrefix.length := by
    have hpositive := congrArg List.length hrest
    simp only [List.length_drop, List.length_cons] at hpositive
    rw [List.length_append, hlength, hbucket, substr, List.length_take, List.length_drop]
    omega
  refine ⟨_, rest, hurl, hlower, hmem, hnonempty, ?_, ?_⟩
  · rw [hbucket]
    exact hfirst
  · rw [hslashPos']
    exact hsplit

/-- What the parser has checked of a glob URL. -/
structure Parsed (glob : ParsedS3Url) : Prop where
  urlPrefix : glob.urlPrefix ∈ prefixes
  bucket : glob.bucket ≠ []
  slash : slash ∉ glob.bucket
  query : questionMark ∈ glob.bucket → glob.queryParam ≠ []

theorem parsed_of_s3UrlParse (hcompat : params.s3UrlCompatibilityMode = false)
    (hparse : s3UrlParse url params = .ok glob) : Parsed glob := by
  obtain ⟨scheme, rest, rfl, -, hprefixes, hbucket, hslash, hsplit⟩ := s3UrlParse_parts hparse
  refine ⟨hprefixes, hbucket, hslash, fun hquestion => ?_⟩
  have hquery : (splitQuery params (scheme ++ glob.bucket ++ slash :: rest)
      (scheme ++ glob.bucket).length).2.1 ≠ [] :=
    queryParam_early hcompat (List.mem_append_right scheme hquestion)
  rwa [hsplit] at hquery

def isWildcard (c : UInt8) : Bool := c = 42 || c = 91 || c = 92

/-- A pattern up to its first wildcard. -/
def literalPart (pattern : Bytes) : Bytes := pattern.takeWhile (!isWildcard ·)

theorem splitQuery_trimmed (params : S3AuthParams) (url : Bytes) (slashPos : Nat) :
    (splitQuery params url slashPos).2.2 <+:
      url.take slashPos ++ (splitQuery params url slashPos).1 := by
  have hwhole : ∀ n, url.take n <+: url.take slashPos ++ url.drop slashPos := by
    intro n
    rw [List.take_append_drop]
    exact List.take_prefix n url
  unfold splitQuery
  split
  · simp
  split
  · simp
  rename_i questionPos hquestion
  simp only
  split
  · exact hwhole _
  split
  · exact hwhole _
  · rename_i hbehind
    have hcount : questionPos = slashPos + (questionPos - slashPos) := by omega
    have hwritten : url.take questionPos =
        url.take slashPos ++ substr url slashPos (questionPos - slashPos) := by
      rw [substr, ← List.take_add, ← hcount]
    exact hwritten ▸ List.prefix_refl _

theorem questionMark_not_mem_trimmed (hcompat : params.s3UrlCompatibilityMode = false)
    (url : Bytes) (slashPos : Nat) : questionMark ∉ (splitQuery params url slashPos).2.2 := by
  unfold splitQuery
  simp only [hcompat, Bool.false_eq_true, if_false]
  cases hfound : findFirstOf questionMark url with
  | none =>
      intro hmem
      obtain ⟨first, rest, rfl, hfirst⟩ := exists_split_of_mem hmem
      rw [findFirstOf_append hfirst] at hfound
      cases hfound
  | some questionPos =>
      intro hmem
      obtain ⟨first, rest, rfl, hfirst⟩ := exists_split_of_mem (List.mem_of_mem_take hmem)
      rw [findFirstOf_append hfirst] at hfound
      cases hfound
      simp only [List.take_left] at hmem
      exact hfirst hmem

theorem prefixes_free : ∀ p ∈ prefixes, ∀ q ∈ prefixes, p <+: q → p = q := by
  decide

theorem scheme_unique {scheme scheme' bucket' rest rest' : Bytes}
    (hscheme : lower scheme ∈ prefixes)
    (hscheme' : lower scheme' ∈ prefixes) (hbucket : slash ∉ bucket) (hbucket' : slash ∉ bucket')
    (heq : scheme ++ bucket ++ slash :: rest = scheme' ++ bucket' ++ slash :: rest') :
    scheme = scheme' ∧ bucket = bucket' ∧ rest = rest' := by
  have hlower : ∀ first second : Bytes, lower (first ++ second) = lower first ++ lower second :=
    fun first second => List.map_append
  have hsame : lower scheme = lower scheme' := by
    have htext := congrArg lower heq
    rw [List.append_assoc, List.append_assoc, hlower, hlower scheme'] at htext
    rcases List.append_eq_append_iff.mp htext with ⟨more, hmore, -⟩ | ⟨more, hmore, -⟩
    · exact prefixes_free _ hscheme _ hscheme' ⟨more, hmore.symm⟩
    · exact (prefixes_free _ hscheme' _ hscheme ⟨more, hmore.symm⟩).symm
  have hlength : scheme.length = scheme'.length := by
    have hcount := congrArg List.length hsame
    rwa [lower, lower, List.length_map, List.length_map] at hcount
  rw [List.append_assoc, List.append_assoc] at heq
  obtain ⟨rfl, htail⟩ := List.append_inj heq hlength
  exact ⟨rfl, append_cons_inj_first hbucket hbucket' htail⟩

theorem firstWildcard_split {text : Bytes} {n : Nat} (hfound : firstWildcard text = some n) :
    ∃ c rest, text = text.take n ++ c :: rest ∧ isWildcard c = true ∧
      ∀ d ∈ text.take n, isWildcard d = false := by
  obtain ⟨hn, hwild, hbefore⟩ := List.findIdx?_eq_some_iff_getElem.mp hfound
  refine ⟨text[n], text.drop (n + 1), ?_, by simpa [isWildcard, or_assoc] using hwild, ?_⟩
  · rw [List.getElem_cons_drop, List.take_append_drop]
  · intro d hd
    obtain ⟨i, hi, rfl⟩ := List.mem_take_iff_getElem.mp hd
    have hother := hbefore i (by omega)
    simpa [isWildcard, and_assoc] using hother

theorem request_of_shared {pattern : Bytes} {params' : S3AuthParams}
    {shared : ParsedS3Url} {n : Nat} (hcompat : params.s3UrlCompatibilityMode = false)
    (hcompat' : params'.s3UrlCompatibilityMode = false)
    (hglob : s3UrlParse pattern params = .ok glob)
    (hwildcard : firstWildcard glob.trimmedS3Url = some n)
    (hshared : s3UrlParse (glob.trimmedS3Url.take n) params' = .ok shared) :
    shared.bucket = glob.bucket ∧ shared.key = literalPart glob.key ∧
      questionMark ∉ glob.bucket := by
  obtain ⟨scheme, rest, rfl, hscheme, hprefixes, -, hslash, hsplit⟩ := s3UrlParse_parts hglob
  obtain ⟨scheme', key, hurl, hscheme', hprefixes', -, hslash', hsplit'⟩ :=
    s3UrlParse_parts hshared
  rw [← hscheme] at hprefixes
  rw [← hscheme'] at hprefixes'
  have htrimmed := splitQuery_trimmed params (scheme ++ glob.bucket ++ slash :: rest)
    (scheme ++ glob.bucket).length
  have hquestion := questionMark_not_mem_trimmed hcompat (scheme ++ glob.bucket ++ slash :: rest)
    (scheme ++ glob.bucket).length
  rw [hsplit] at htrimmed hquestion
  simp only [List.take_left] at htrimmed hquestion
  have hplain : questionMark ∉ scheme' ++ shared.bucket ++ slash :: key := by
    rw [← hurl]
    exact fun hmem => hquestion (List.mem_of_mem_take hmem)
  obtain ⟨tail, htail⟩ := htrimmed
  obtain ⟨c, more, hmore, hc, hliteral⟩ := firstWildcard_split hwildcard
  have hwhole : scheme' ++ shared.bucket ++ slash :: (key ++ c :: (more ++ tail)) =
      scheme ++ glob.bucket ++ slash :: glob.key := by
    rw [← htail]
    conv_rhs => rw [hmore, hurl]
    simp
  obtain ⟨rfl, hbucket, hkey⟩ := scheme_unique hprefixes' hprefixes hslash' hslash hwhole
  have hbefore : questionMark ∉ scheme' ++ shared.bucket := fun hmem =>
    hplain (List.mem_append_left _ hmem)
  have hbehind : questionMark ∉ key := fun hmem =>
    hplain (List.mem_append_right _ (List.mem_cons_of_mem _ hmem))
  refine ⟨hbucket, ?_, hbucket ▸ fun hmem => hbefore (List.mem_append_right _ hmem)⟩
  rw [hurl, splitQuery_plain hcompat' hbefore hbehind] at hsplit'
  obtain rfl : key = shared.key := List.tail_eq_of_cons_eq (congrArg Prod.fst hsplit')
  have hplainKey : ∀ d ∈ shared.key, (!isWildcard d) = true := by
    intro d hd
    have hmem : d ∈ glob.trimmedS3Url.take n := by
      rw [hurl]
      exact List.mem_append_right _ (List.mem_cons_of_mem _ hd)
    rw [hliteral d hmem]
    rfl
  rw [← hkey, literalPart, List.takeWhile_append_of_pos hplainKey,
    List.takeWhile_cons_of_neg (by simp [hc]), List.append_nil]

/-- What follows the slash after the bucket in the path of a key. -/
def printedKey (glob : ParsedS3Url) (key : Bytes) : Bytes :=
  if glob.queryParam.isEmpty then key else key ++ questionMark :: glob.queryParam

theorem resultFullUrl_eq (glob : ParsedS3Url) (key : Bytes) :
    resultFullUrl glob key = glob.urlPrefix ++ glob.bucket ++ slash :: printedKey glob key := by
  unfold resultFullUrl printedKey
  split
  · simp
  · simp

/-- The path of the key, opened under any auth parameters, is the object it was
listed for, with the parameters of the glob URL. -/
def Reopens (parseGetParameters : Bytes → QueryParams) (glob : ParsedS3Url)
    (key : Bytes) : Prop :=
  ∀ params : S3AuthParams, params.s3UrlCompatibilityMode = false →
    ∃ parsed, s3UrlParse (resultFullUrl glob key) params = .ok parsed ∧
      parsed.bucket = glob.bucket ∧ parsed.key = key ∧
      ∀ authParams, readQueryParams parseGetParameters parsed.queryParam authParams =
        readQueryParams parseGetParameters glob.queryParam authParams

/-- Neither the bucket nor the key has a question mark, but for a last character of
the key if the glob URL has no query. -/
def Unambiguous (glob : ParsedS3Url) (key : Bytes) : Prop :=
  questionMark ∉ glob.bucket ∧
    (questionMark ∉ key ∨
      (glob.queryParam = [] ∧ ∃ name, key = name ++ [questionMark] ∧ questionMark ∉ name))

theorem s3UrlParse_resultFullUrl (key : Bytes) (hparsed : Parsed glob)
    (hcompat : params.s3UrlCompatibilityMode = false) :
    ∃ parsed, s3UrlParse (resultFullUrl glob key) params = .ok parsed ∧
      parsed.bucket = glob.bucket ∧
      parsed.key = (splitQuery params (resultFullUrl glob key)
        (glob.urlPrefix ++ glob.bucket).length).1.drop 1 ∧
      parsed.queryParam = (splitQuery params (resultFullUrl glob key)
        (glob.urlPrefix ++ glob.bucket).length).2.1 := by
  rw [resultFullUrl_eq]
  apply s3UrlParse_append (lower_mem_prefixes hparsed.urlPrefix) hparsed.bucket hparsed.slash
  by_cases hbefore : questionMark ∈ glob.urlPrefix ++ glob.bucket
  · rw [splitQuery_early hcompat hbefore]
    simp
  · by_cases hprinted : questionMark ∈ printedKey glob key
    · obtain ⟨first, rest, hsplit, hfirst⟩ := exists_split_of_mem hprinted
      rw [(splitQuery_at hcompat hbefore hsplit hfirst).1]
      simp
    · rw [splitQuery_plain hcompat hbefore hprinted]
      simp

/-- A globbed path reopens its object, with the parameters of the glob URL, exactly
if its key prints unambiguously. -/
theorem reopens_iff {parseGetParameters : Bytes → QueryParams}
    (hcompat : params.s3UrlCompatibilityMode = false)
    (hglob : s3UrlParse url params = .ok glob) (key : Bytes) :
    Reopens parseGetParameters glob key ↔ Unambiguous glob key := by
  have hparsed := parsed_of_s3UrlParse hcompat hglob
  constructor
  · intro hreopens
    obtain ⟨parsed, hparse, -, hkey, -⟩ := hreopens params hcompat
    obtain ⟨parsed', hparse', -, hkey', -⟩ := s3UrlParse_resultFullUrl key hparsed hcompat
    rw [hparse] at hparse'
    cases hparse'
    rw [hkey, resultFullUrl_eq] at hkey'
    have hbucket : questionMark ∉ glob.bucket := by
      intro hquestion
      rw [splitQuery_early hcompat (List.mem_append_right _ hquestion)] at hkey'
      have hlength := congrArg List.length hkey'
      simp [printedKey, hparsed.query hquestion] at hlength
    refine ⟨hbucket, ?_⟩
    -- what is read back ends at the first question mark of the printed key
    by_cases hquestion : questionMark ∈ key
    · right
      obtain ⟨name, rest, hsplit, hname⟩ := exists_split_of_mem hquestion
      have hbefore : questionMark ∉ glob.urlPrefix ++ glob.bucket := by
        simp [questionMark_not_mem_scheme hparsed.urlPrefix, hbucket]
      have hlonger : key ≠ name := by
        intro heq
        have hlength := congrArg List.length hsplit
        rw [heq, List.length_append, List.length_cons] at hlength
        omega
      by_cases hnone : glob.queryParam = []
      · have hprinted : printedKey glob key = name ++ questionMark :: rest := by
          simp [printedKey, hnone, hsplit]
        rw [(splitQuery_at hcompat hbefore hprinted hname).1] at hkey'
        by_cases hrest : rest = []
        · exact ⟨hnone, name, by rw [hsplit, hrest], hname⟩
        · rw [if_neg hrest] at hkey'
          exact absurd hkey' hlonger
      · have hprinted : printedKey glob key =
            name ++ questionMark :: (rest ++ questionMark :: glob.queryParam) := by
          simp [printedKey, hnone, hsplit]
        rw [(splitQuery_at hcompat hbefore hprinted hname).1, if_neg (by simp)] at hkey'
        exact absurd hkey' hlonger
    · exact .inl hquestion
  · rintro ⟨hbucket, hunambiguous⟩ params' hcompat'
    obtain ⟨parsed, hparse, hbucket', hkey, hquery⟩ :=
      s3UrlParse_resultFullUrl key hparsed hcompat'
    have hbefore : questionMark ∉ glob.urlPrefix ++ glob.bucket := by
      simp [questionMark_not_mem_scheme hparsed.urlPrefix, hbucket]
    have hboth : parsed.key = key ∧ parsed.queryParam = glob.queryParam := by
      rw [hkey, hquery, resultFullUrl_eq]
      rcases hunambiguous with hplain | ⟨hnone, name, hname, hplain⟩
      · by_cases hnone : glob.queryParam = []
        · have hprinted : printedKey glob key = key := by simp [printedKey, hnone]
          rw [hprinted, splitQuery_plain hcompat' hbefore hplain, hnone]
          exact ⟨rfl, rfl⟩
        · have hprinted : printedKey glob key = key ++ questionMark :: glob.queryParam := by
            simp [printedKey, hnone]
          obtain ⟨hsplit, hrest⟩ := splitQuery_at hcompat' hbefore hprinted hplain
          rw [hsplit, hrest, if_neg hnone]
          exact ⟨rfl, rfl⟩
      · have hprinted : printedKey glob key = name ++ questionMark :: [] := by
          simp [printedKey, hnone, hname]
        obtain ⟨hsplit, hrest⟩ := splitQuery_at hcompat' hbefore hprinted hplain
        rw [hsplit, hrest, if_pos rfl, hprinted, hname, hnone]
        exact ⟨rfl, rfl⟩
    refine ⟨parsed, hparse, hbucket', hboth.1, ?_⟩
    intro authParams
    rw [hboth.2]

/-- A parser of query strings without escapes, for one parameter. -/
def oneParameter (query : Bytes) : QueryParams :=
  match findFirstOf 61 query with
  | none => []
  | some pos => [(query.take pos, query.drop (pos + 1))]

def plainGlob : ParsedS3Url :=
  { noUrl with
    httpProto := bytes "https://", urlPrefix := bytes "s3://", host := bytes "b."
    bucket := bytes "b", key := bytes "*", path := bytes "/*", trimmedS3Url := bytes "s3://b/*" }

theorem plainGlob_parsed : s3UrlParse (bytes "s3://b/*") {} = .ok plainGlob := by decide +kernel

theorem reopens_iff_plain_key :
    Reopens oneParameter plainGlob (bytes "a/b") ↔ Unambiguous plainGlob (bytes "a/b") :=
  reopens_iff rfl plainGlob_parsed _

/-- The key `a?s3_endpoint=x` of the glob `s3://b/*`: its path opens the key `a`, at the
endpoint that the key names. -/
theorem key_taken_for_query :
    ¬ Reopens oneParameter plainGlob (bytes "a?s3_endpoint=x") ∧
      ∃ parsed, s3UrlParse (resultFullUrl plainGlob (bytes "a?s3_endpoint=x")) {} = .ok parsed ∧
        parsed.key = bytes "a" ∧
        readQueryParams oneParameter parsed.queryParam {} =
          .ok ({ endpoint := bytes "x" } : S3AuthParams) := by
  have hparsed : ∃ parsed, s3UrlParse (resultFullUrl plainGlob (bytes "a?s3_endpoint=x")) {} =
      .ok parsed ∧ parsed.key = bytes "a" ∧
        readQueryParams oneParameter parsed.queryParam {} =
          .ok ({ endpoint := bytes "x" } : S3AuthParams) :=
    ⟨_, rfl, by decide +kernel, by decide +kernel⟩
  refine ⟨?_, hparsed⟩
  intro hreopens
  obtain ⟨parsed, hparse, -, hkey, -⟩ := hreopens {} rfl
  obtain ⟨parsed', hparse', hkey', -⟩ := hparsed
  rw [hparse] at hparse'
  cases hparse'
  rw [hkey] at hkey'
  revert hkey'
  decide +kernel

end HaybarnHttpfs.GlobUrls
