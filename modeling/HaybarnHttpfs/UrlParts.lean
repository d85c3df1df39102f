import HaybarnHttpfs.GlobUrls

/-!
How the parts that `S3UrlParse` finds fit together: the URL without its query is the
scheme, the bucket and the key, and the path ends with the key.
-/

namespace HaybarnHttpfs.UrlParts

open HaybarnHttpfs.Foundation.ByteStrings HaybarnHttpfs.S3Auth HaybarnHttpfs.S3Url
open HaybarnHttpfs.GlobUrls

/-- `GetS3BucketPath`. -/
def getS3BucketPath (parsed : ParsedS3Url) : Bytes :=
  let bucketPath := parsed.path.take (parsed.path.length - parsed.key.length)
  if bucketPath.isEmpty then bytes "/" else bucketPath

/-- The scheme as the URL has it, up to its two slashes. -/
def ownScheme (url : Bytes) : Bytes := url.take ((find (bytes "//") url).getD 0 + 2)

/-- A URL up to its first question mark. -/
def beforeQuery (url : Bytes) : Bytes := url.takeWhile (· ≠ questionMark)

structure SplitsConsistently (url : Bytes) (parsed : ParsedS3Url) : Prop where
  trimmed : parsed.trimmedS3Url = beforeQuery url
  parts : parsed.trimmedS3Url = ownScheme url ++ parsed.bucket ++ slash :: parsed.key
  whole : url = parsed.trimmedS3Url ∨
    url = parsed.trimmedS3Url ++ questionMark :: parsed.queryParam
  bucket : slash ∉ parsed.bucket ∧ questionMark ∉ parsed.bucket
  path : ∃ bucketPath, parsed.path = bucketPath ++ slash :: parsed.key ∧
    getS3BucketPath parsed = bucketPath ++ [slash]

/-- A question mark comes behind the slash that ends the bucket, and a query behind it. -/
def QueryBehindKey (url : Bytes) : Prop :=
  ∀ first rest, url = first ++ questionMark :: rest → questionMark ∉ first →
    slash ∈ first.drop (ownScheme url).length ∧ rest ≠ []

variable {url scheme bucket rest : Bytes} {params : S3AuthParams} {parsed : ParsedS3Url}

theorem ownScheme_append (hscheme : lower scheme ∈ prefixes) (rest : Bytes) :
    ownScheme (scheme ++ rest) = scheme := by
  have hlower : lower (scheme ++ rest) = lower scheme ++ lower rest := List.map_append
  rw [ownScheme, ← find_slashes_lower, hlower, find_slashes_append hscheme, lower,
    List.length_map, List.take_left]

theorem questionMark_not_mem_ownScheme (hscheme : lower scheme ∈ prefixes) :
    questionMark ∉ scheme := by
  intro hmem
  exact questionMark_not_mem_scheme hscheme (List.mem_map_of_mem (f := lowerByte) hmem)

theorem beforeQuery_append {first : Bytes} (hfirst : questionMark ∉ first) (rest : Bytes) :
    beforeQuery (first ++ questionMark :: rest) = first := by
  have hall : ∀ c ∈ first, decide (c ≠ questionMark) = true :=
    fun c hc => decide_eq_true fun heq => hfirst (heq ▸ hc)
  rw [beforeQuery, List.takeWhile_append_of_pos hall, List.takeWhile_cons_of_neg (by simp),
    List.append_nil]

theorem beforeQuery_of_notMem (hurl : questionMark ∉ url) : beforeQuery url = url := by
  have hall : ∀ c ∈ url, decide (c ≠ questionMark) = true :=
    fun c hc => decide_eq_true fun heq => hurl (heq ▸ hc)
  have hwhole : (url ++ []).takeWhile (fun c => decide (c ≠ questionMark)) = url ++ [] :=
    List.takeWhile_append_of_pos hall
  rwa [List.append_nil] at hwhole

theorem splitQuery_whole (hcompat : params.s3UrlCompatibilityMode = false) (url : Bytes)
    (slashPos : Nat) :
    (splitQuery params url slashPos).2.2 = beforeQuery url ∧
      (url = (splitQuery params url slashPos).2.2 ∨
        url = (splitQuery params url slashPos).2.2 ++
          questionMark :: (splitQuery params url slashPos).2.1) := by
  unfold splitQuery
  simp only [hcompat, Bool.false_eq_true, if_false]
  by_cases hquestion : questionMark ∈ url
  · obtain ⟨first, rest, rfl, hfirst⟩ := exists_split_of_mem hquestion
    simp only [findFirstOf_append hfirst]
    rw [← List.drop_drop, List.drop_left, List.take_left, beforeQuery_append hfirst]
    exact ⟨rfl, .inr rfl⟩
  · simp only [findFirstOf_eq_none hquestion]
    exact ⟨(beforeQuery_of_notMem hquestion).symm, .inl trivial⟩

theorem getS3BucketPath_append {bucketPath : Bytes}
    (hpath : parsed.path = bucketPath ++ slash :: parsed.key) :
    getS3BucketPath parsed = bucketPath ++ [slash] := by
  have hsplit : parsed.path = (bucketPath ++ [slash]) ++ parsed.key := by simp [hpath]
  have htake : parsed.path.take (parsed.path.length - parsed.key.length) =
      bucketPath ++ [slash] := by
    rw [hsplit, List.length_append, Nat.add_sub_cancel, List.take_left]
  unfold getS3BucketPath
  simp only [htake]
  rw [if_neg (by simp)]

theorem splits_iff (hcompat : params.s3UrlCompatibilityMode = false)
    (hparse : s3UrlParse url params = .ok parsed) :
    SplitsConsistently url parsed ↔
      beforeQuery url = ownScheme url ++ parsed.bucket ++ slash :: parsed.key ∧
        questionMark ∉ parsed.bucket := by
  obtain ⟨slashPos, -, -, -, -, -, -, hsplit, -, -, hpath⟩ := s3UrlParse_ok hparse
  obtain ⟨-, -, -, -, -, -, hslash, -⟩ := s3UrlParse_parts hparse
  obtain ⟨htrimmed, hwhole⟩ := splitQuery_whole hcompat url slashPos
  rw [hsplit] at htrimmed hwhole
  constructor
  · intro hconsistent
    exact ⟨htrimmed ▸ hconsistent.parts, hconsistent.bucket.2⟩
  · rintro ⟨hparts, hquestion⟩
    exact ⟨htrimmed, htrimmed.trans hparts, hwhole, ⟨hslash, hquestion⟩,
      _, hpath, getS3BucketPath_append hpath⟩

theorem not_queryBehindKey_of_bucket (rest : Bytes) (hscheme : lower scheme ∈ prefixes)
    (hslash : slash ∉ bucket) (hquestion : questionMark ∈ bucket) :
    ¬ QueryBehindKey (scheme ++ bucket ++ slash :: rest) := by
  intro hbehind
  obtain ⟨name, behind, rfl, hname⟩ := exists_split_of_mem hquestion
  have hscheme' := questionMark_not_mem_ownScheme hscheme
  obtain ⟨hmem, -⟩ := hbehind (scheme ++ name) (behind ++ slash :: rest) (by simp)
    (by simp [hscheme', hname])
  rw [List.append_assoc, ownScheme_append hscheme, List.drop_left] at hmem
  exact hslash (List.mem_append_left _ hmem)

theorem queryBehindKey_iff {first : Bytes} (query : Bytes) (hscheme : lower scheme ∈ prefixes)
    (hbucket : questionMark ∉ bucket) (hfirst : questionMark ∉ first) :
    QueryBehindKey (scheme ++ bucket ++ slash :: (first ++ questionMark :: query)) ↔
      query ≠ [] := by
  have hurl : scheme ++ bucket ++ slash :: (first ++ questionMark :: query) =
      (scheme ++ bucket ++ slash :: first) ++ questionMark :: query := by simp
  have hbefore : questionMark ∉ scheme ++ bucket ++ slash :: first := by
    simp [questionMark_not_mem_ownScheme hscheme, hbucket, hfirst, questionMark_ne_slash]
  constructor
  · intro hbehind
    exact (hbehind _ _ hurl hbefore).2
  · intro hquery first' rest hsplit hfirst'
    obtain ⟨rfl, rfl⟩ := append_cons_inj_first hbefore hfirst' (hurl.symm.trans hsplit)
    refine ⟨?_, hquery⟩
    rw [hurl, List.append_assoc scheme, List.append_assoc scheme, ownScheme_append hscheme,
      List.drop_left]
    simp

/-- The parts fit together unless a question mark comes before the key or ends the URL. -/
theorem splitsConsistently_iff (url : Bytes) (params : S3AuthParams) (parsed : ParsedS3Url)
    (hcompat : params.s3UrlCompatibilityMode = false)
    (hparse : s3UrlParse url params = .ok parsed) :
    SplitsConsistently url parsed ↔ QueryBehindKey url := by
  rw [splits_iff hcompat hparse]
  obtain ⟨scheme, rest, hurl, hlower, hmem, -, hslash, hsplit⟩ := s3UrlParse_parts hparse
  have hscheme : lower scheme ∈ prefixes := hlower ▸ hmem
  have hown : ownScheme url = scheme := by
    rw [hurl, List.append_assoc, ownScheme_append hscheme]
  rw [hown]
  by_cases hbucket : questionMark ∈ parsed.bucket
  · have hnot := not_queryBehindKey_of_bucket rest hscheme hslash hbucket
    rw [← hurl] at hnot
    exact ⟨fun h => absurd hbucket h.2, fun h => absurd h hnot⟩
  · have hbefore : questionMark ∉ scheme ++ parsed.bucket := by
      simp [questionMark_not_mem_ownScheme hscheme, hbucket]
    by_cases hrest : questionMark ∈ rest
    · obtain ⟨first, query, rfl, hfirst⟩ := exists_split_of_mem hrest
      obtain ⟨hkey, -⟩ := splitQuery_at hcompat hbefore rfl hfirst
      rw [← hurl, hsplit, List.cons.injEq, eq_self, true_and] at hkey
      have htrimmed : beforeQuery url = scheme ++ parsed.bucket ++ slash :: first := by
        have hsplit' : url = (scheme ++ parsed.bucket ++ slash :: first) ++
          questionMark :: query := by
          rw [hurl]
          simp
        rw [hsplit', beforeQuery_append]
        simp [questionMark_not_mem_ownScheme hscheme, hbucket, hfirst, questionMark_ne_slash]
      have hbehind := queryBehindKey_iff query hscheme hbucket hfirst
      rw [← hurl] at hbehind
      rw [hbehind, htrimmed, hkey]
      simp only [hbucket, not_false_eq_true, and_true, List.append_cancel_left_eq,
        List.cons.injEq, true_and]
      split
      · rename_i hempty
        simp [hempty]
      · rename_i hquery
        simp [hquery]
    · have hkey := splitQuery_plain hcompat hbefore hrest
      rw [← hurl, hsplit] at hkey
      have hnone : questionMark ∉ url := by
        rw [hurl]
        simp [questionMark_not_mem_ownScheme hscheme, hbucket, hrest, questionMark_ne_slash]
      have hbehind : QueryBehindKey url := by
        intro first behind hsplit' _
        refine absurd ?_ hnone
        rw [hsplit']
        simp
      simp only [Prod.mk.injEq, List.cons.injEq, true_and] at hkey
      rw [beforeQuery_of_notMem hnone, hkey.1, ← hurl]
      simp [hbucket, hbehind]

theorem splitsConsistently_iff_query :
    ∃ parsed, s3UrlParse (bytes "S3://b/dir/k?s3_region=eu") {} = .ok parsed ∧
      (SplitsConsistently (bytes "S3://b/dir/k?s3_region=eu") parsed ↔
        QueryBehindKey (bytes "S3://b/dir/k?s3_region=eu")) :=
  ⟨_, rfl, splitsConsistently_iff _ {} _ rfl rfl⟩

/-- A last question mark is cut off the URL but stays in the key. -/
theorem last_questionMark_in_key :
    ∃ parsed, s3UrlParse (bytes "s3://b/k?") {} = .ok parsed ∧
      parsed.trimmedS3Url = bytes "s3://b/k" ∧ parsed.key = bytes "k?" ∧
        ¬ SplitsConsistently (bytes "s3://b/k?") parsed := by
  refine ⟨_, rfl, by decide, by decide, fun hconsistent => ?_⟩
  have hparts := hconsistent.parts
  revert hparts
  decide

end HaybarnHttpfs.UrlParts
