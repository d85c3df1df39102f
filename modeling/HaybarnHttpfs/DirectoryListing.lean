import HaybarnHttpfs.Foundation.ShellPatterns
import HaybarnHttpfs.RemoveDirectory

/-!
`S3FileSystem::ListFilesExtended`: a directory is listed by the glob for all that is
behind its path, and the path is cut off what the glob finds.
-/

namespace HaybarnHttpfs.DirectoryListing

open HaybarnHttpfs.Foundation.ByteStrings
open HaybarnHttpfs.Foundation.ShellPatterns (isSpecial matchText matchText_iff)
open HaybarnHttpfs.S3Auth HaybarnHttpfs.S3Url HaybarnHttpfs.ReadAuthParams
open HaybarnHttpfs.ListObjectsV2 HaybarnHttpfs.ListPages HaybarnHttpfs.BucketListing
open HaybarnHttpfs.HuggingFaceFileSystem (matchPath)
open HaybarnHttpfs.HuggingFaceTree
  (Matches matches_segment_iff matches_doubleStar_iff matchPath_iff)
open HaybarnHttpfs.S3Glob HaybarnHttpfs.GlobUrls HaybarnHttpfs.PathMatching
open HaybarnHttpfs.GlobTraversal HaybarnHttpfs.RemoveDirectory

universe u

/-- A path that names a directory: a scheme in letters of either case, a bucket, and the
key of the directory with a slash behind it. -/
structure DirectoryPath extends Directory where
  path : Bytes
  scheme : Bytes
  written : rTrim path ++ [slash] = scheme ++ bucket ++ slash :: leading
  scheme_mem : lower scheme ∈ prefixes
  bucket_ne_nil : bucket ≠ []
  slash_notMem : slash ∉ bucket

/-- `Glob` of the engine reads its pattern as a shell does. -/
def ShellGlob (glob : Bytes → Bytes → Bool) : Prop :=
  ∃ oneOf, ∀ text pattern,
    glob text pattern = true ↔ Foundation.ShellPatterns.Matches oneOf text pattern

variable {σ : Type u} {context : DirectoryContext σ} {s : σ}

/-- `UrlDecode`, `JoinPath` and `Glob` as they are documented. -/
structure Documented (context : DirectoryContext σ) : Prop where
  decoding : DecodesPlainText context.globEnv.core
  joinPath : ∀ first second, context.joinPath first second =
    if first = [] then second else first ++ slash :: second
  glob : ShellGlob context.globEnv.core.glob

/-- The callback is given, once each, the names of the objects below the directory, and
nothing else. -/
def ListsExactly (context : DirectoryContext σ) (bucket : Bucket) (s : σ)
    (directory : DirectoryPath) : Prop :=
  ∃ fuel files, listFilesExtended context fuel s directory.path = some (.ok files) ∧
    (files.map (·.path)).Nodup ∧
    ∀ name, name ∈ files.map (·.path) ↔ ∃ object ∈ bucket.objects,
      directory.Has object.key ∧ object.key = directory.leading ++ name

def serving (context : DirectoryContext σ) (server : ListServer) : DirectoryContext σ :=
  { context with globEnv := { context.globEnv with server } }

/-- Whatever the bucket has and however its pages are cut. -/
def ListsEvery (context : DirectoryContext σ) (encoding : PageEncoding context.globEnv.core)
    (s : σ) (directory : DirectoryPath) : Prop :=
  ∀ (server : ListServer) (bucket : Bucket),
    Conforms encoding server directory.bucket bucket.objects →
      ListsExactly (serving context server) bucket s directory

/-- The path stands for nothing but what it says: globs are on, the scheme is written as the
results are printed, and there is no wildcard or question mark. -/
structure Literal (params : S3AuthParams) (directory : DirectoryPath) : Prop where
  compatibility : params.s3UrlCompatibilityMode = false
  scheme : directory.scheme ∈ prefixes
  plain : ∀ c ∈ directory.path, isSpecial c = false

namespace DirectoryPath

variable (directory : DirectoryPath)

theorem leading_folder : Folder directory.leading := by
  have hbase : Folder (rTrim directory.path ++ [slash]) := .inr ⟨_, rfl⟩
  rw [directory.written, ← List.singleton_append, ← List.append_assoc] at hbase
  exact hbase.suffix

theorem rTrim_ne_nil : rTrim directory.path ≠ [] := by
  intro hempty
  have hlength := congrArg List.length directory.written
  have hpositive := List.length_pos_of_ne_nil directory.bucket_ne_nil
  rw [hempty] at hlength
  simp only [List.nil_append, List.length_append, List.length_cons, List.length_nil] at hlength
  omega

theorem listPattern_eq (hdocumented : Documented context) :
    listPattern context directory.path = directory.scheme ++ directory.bucket ++
      slash :: (directory.leading ++ doubleStar) := by
  have hbase : rTrim directory.path ++ slash :: doubleStar =
      rTrim directory.path ++ [slash] ++ doubleStar := by simp
  rw [listPattern, hdocumented.joinPath, if_neg directory.rTrim_ne_nil, hbase, directory.written]
  simp

end DirectoryPath

section Pattern

variable {core : Core} {leading key : Bytes}

theorem isWildcard_of_isSpecial {c : UInt8} (hplain : isSpecial c = false) :
    isWildcard c = false := by
  simp only [isSpecial, Bool.or_eq_false_iff] at hplain
  simp [isWildcard, hplain]

theorem isWildcard_of_ne {c : UInt8} (hspecial : isSpecial c = true) (hne : c ≠ questionMark) :
    isWildcard c = true := by
  have hquestion : c ≠ 63 := hne
  simpa [isSpecial, isWildcard, hquestion] using hspecial

theorem literalPart_append {front rest : Bytes} {c : UInt8}
    (hfront : ∀ d ∈ front, isSpecial d = false) (hc : isWildcard c = true) :
    literalPart (front ++ c :: rest) = front := by
  have hplain : ∀ d ∈ front, (!isWildcard d) = true := fun d hd => by
    rw [isWildcard_of_isSpecial (hfront d hd)]
    rfl
  rw [literalPart, List.takeWhile_append_of_pos hplain, List.takeWhile_cons_of_neg (by simp [hc]),
    List.append_nil]

theorem fixed_of_plain (hglob : ShellGlob core.glob)
    (hplain : ∀ c ∈ leading, isSpecial c = false) :
    ∀ segment ∈ split leading, segment ≠ doubleStar ∧ core.glob segment segment = true := by
  obtain ⟨oneOf, hglob⟩ := hglob
  intro segment hsegment
  have hfree : ∀ c ∈ segment, isSpecial c = false := fun c hc =>
    hplain c (mem_of_mem_split hsegment hc)
  refine ⟨?_, (hglob _ _).mpr (Foundation.ShellPatterns.matches_plain hfree)⟩
  rintro rfl
  exact absurd (hfree 42 (by decide)) (by decide)

theorem split_doubleStar (hfolder : Folder leading) :
    split (leading ++ doubleStar) = split leading ++ [doubleStar] := by
  rw [split_folder hfolder, split_of_slash_notMem slash_not_mem_doubleStar (by decide)]

theorem matchesPattern_plain (hglob : ShellGlob core.glob) (hfolder : Folder leading)
    (hplain : ∀ c ∈ leading, isSpecial c = false) (hkey : key ≠ []) :
    matchesPattern core (leading ++ doubleStar) key = true ↔
      leading <+: key ∧ key.getLast? ≠ some slash := by
  have hliteral : literalPart (leading ++ doubleStar) = leading :=
    literalPart_append hplain (by decide)
  rw [matchesPattern, hliteral, Bool.and_eq_true, Bool.and_eq_true, decide_eq_true_eq,
    startsWith_iff]
  refine and_congr_right fun hleading => and_iff_left_of_imp fun hlast => ?_
  obtain ⟨name, rfl⟩ := hleading
  have hnamed : name ≠ [] := by
    rintro rfl
    rw [List.append_nil] at hkey hlast
    obtain ⟨front, rfl⟩ := hfolder.resolve_left hkey
    exact hlast List.getLast?_concat
  have hname : split name ≠ [] := by
    rw [List.getLast?_append_of_ne_nil _ hnamed] at hlast
    exact split_ne_nil hnamed hlast
  rw [matchSegments_completed, matchPath_iff, split_doubleStar hfolder, split_folder hfolder,
    matches_append_self (fixed_of_plain hglob hplain)]
  exact .rest hname

/-- The first segment of a directory that has a special byte. -/
structure SpecialSegment (leading : Bytes) where
  before : Bytes
  first : Bytes
  c : UInt8
  after : Bytes
  behind : Bytes
  eq : leading = before ++ (first ++ c :: after) ++ slash :: behind
  before_folder : Folder before
  behind_folder : Folder behind
  slash_notMem : slash ∉ first ++ c :: after
  plain : ∀ d ∈ before ++ first, isSpecial d = false
  special : isSpecial c = true

theorem exists_specialSegment (hfolder : Folder leading)
    (hspecial : ∃ c ∈ leading, isSpecial c = true) : Nonempty (SpecialSegment leading) := by
  obtain ⟨c, hfound⟩ := Option.isSome_iff_exists.mp (List.find?_isSome.mpr hspecial)
  obtain ⟨hc, front, rest, rfl, hfront⟩ := List.find?_eq_some_iff_append.mp hfound
  obtain ⟨before, first, rfl, hbefore, hfirst⟩ := exists_folder front
  have hslash : c ≠ slash := by
    rintro rfl
    exact absurd hc (by decide)
  have hrest : slash ∈ rest := by
    obtain ⟨inner, hinner⟩ := hfolder.suffix.resolve_left (List.cons_ne_nil c rest)
    have hmem : slash ∈ c :: rest := by simp [hinner]
    exact (List.mem_cons.mp hmem).resolve_left hslash.symm
  obtain ⟨after, behind, rfl, hafter⟩ := exists_split_of_mem hrest
  refine ⟨{
    before, first, c, after, behind
    eq := by simp
    before_folder := hbefore
    behind_folder := ?_
    slash_notMem := ?_
    plain := fun d hd => by simpa using hfront d hd
    special := hc }⟩
  · have hwhole : before ++ first ++ c :: (after ++ slash :: behind) =
        before ++ first ++ c :: (after ++ [slash]) ++ behind := by simp
    exact (hwhole ▸ hfolder).suffix
  · simp [hfirst, hafter, hslash.symm]

namespace SpecialSegment

variable (found : SpecialSegment leading)

def segment : Bytes := found.first ++ found.c :: found.after

/-- A key that has another text in place of the segment. -/
def keyWith (name rest : Bytes) : Bytes := found.before ++ (name ++ slash :: rest)

theorem split_keyWith {name : Bytes} (rest : Bytes) (hname : slash ∉ name) (hne : name ≠ []) :
    split (found.keyWith name rest) = split found.before ++ name :: split rest := by
  rw [keyWith, split_folder found.before_folder, split_append, split_of_slash_notMem hname hne,
    List.singleton_append]

theorem matchesPattern_keyWith {name rest : Bytes} (hglob : ShellGlob core.glob)
    (hquestion : found.c ≠ questionMark) (hname : slash ∉ name) (hne : name ≠ [])
    (hlast : (found.keyWith name rest).getLast? ≠ some slash) :
    matchesPattern core (leading ++ doubleStar) (found.keyWith name rest) = true ↔
      found.first <+: name ++ slash :: rest ∧
        Matches core.glob (found.segment :: (split found.behind ++ [doubleStar]))
          (name :: split rest) := by
  have hpattern : leading ++ doubleStar =
      found.keyWith found.segment (found.behind ++ doubleStar) := by
    simp [congrArg (· ++ doubleStar) found.eq, keyWith, segment]
  have hliteral : literalPart (leading ++ doubleStar) = found.before ++ found.first := by
    rw [hpattern, keyWith, segment, List.append_assoc, ← List.append_assoc, List.cons_append]
    exact literalPart_append found.plain (isWildcard_of_ne found.special hquestion)
  have hnamed : found.segment ≠ [] := by simp [segment]
  have hslash : slash ∉ found.segment := found.slash_notMem
  rw [matchesPattern, hliteral, Bool.and_eq_true, Bool.and_eq_true, decide_eq_true_eq,
    startsWith_iff, and_iff_right hlast, matchSegments_completed, matchPath_iff, hpattern,
    found.split_keyWith _ hslash hnamed, split_doubleStar found.behind_folder,
    found.split_keyWith rest hname hne, matches_append_self (fixed_of_plain hglob fun d hd =>
      found.plain d (List.mem_append_left _ hd)), keyWith, List.prefix_append_right_inj]

theorem eq_of_prefix {name rest : Bytes} (hname : slash ∉ name)
    (hbelow : leading <+: found.keyWith name rest) : name = found.segment := by
  obtain ⟨more, hmore⟩ := hbelow
  have hkeys : found.before ++ (found.segment ++ slash :: (found.behind ++ more)) =
      found.before ++ (name ++ slash :: rest) := by
    change _ = found.keyWith name rest
    rw [← hmore]
    simp [congrArg (· ++ more) found.eq, segment]
  exact (append_cons_inj_first found.slash_notMem hname (List.append_cancel_left hkeys)).1.symm

theorem first_eq_nil (hstar : found.segment = doubleStar) : found.first = [] := by
  cases hfirst : found.first with
  | nil => rfl
  | cons d first =>
      rw [segment, hfirst, List.cons_append] at hstar
      have hd := found.plain d (List.mem_append_right _ (hfirst ▸ List.mem_cons_self))
      rw [(List.cons.inj hstar).1] at hd
      exact absurd hd (by decide)

theorem prefix_probe : leading <+: found.keyWith found.segment (found.behind ++ bytes "x") := by
  refine ⟨bytes "x", ?_⟩
  simp [congrArg (· ++ bytes "x") found.eq, keyWith, segment]

end SpecialSegment

theorem getLast?_probe (front : Bytes) : (front ++ bytes "x").getLast? ≠ some slash := by
  have hlast : bytes "x" = [120] := by decide
  rw [hlast, List.getLast?_concat]
  decide

/-- With a special byte some key is matched that is not below the directory, or the other way
round: the segment of the byte takes another text too, or not itself. -/
theorem exists_confused (hglob : ShellGlob core.glob) (hfolder : Folder leading)
    (hspecial : ∃ c ∈ leading, isSpecial c = true) (hquestion : questionMark ∉ leading) :
    ∃ key, key ≠ [] ∧ ¬ (matchesPattern core (leading ++ doubleStar) key = true ↔
      leading <+: key ∧ key.getLast? ≠ some slash) := by
  by_contra hall
  have hsame : ∀ key ≠ [], matchesPattern core (leading ++ doubleStar) key = true ↔
      leading <+: key ∧ key.getLast? ≠ some slash := by
    intro key hkey
    by_contra hdiffers
    exact hall ⟨key, hkey, hdiffers⟩
  obtain ⟨found⟩ := exists_specialSegment hfolder hspecial
  have hc : found.c ≠ questionMark := by
    intro heq
    refine hquestion ?_
    rw [found.eq, ← heq]
    simp
  have hagree : ∀ name rest : Bytes, slash ∉ name → name ≠ [] →
      ((found.first <+: name ++ slash :: (rest ++ bytes "x") ∧
        Matches core.glob (found.segment :: (split found.behind ++ [doubleStar]))
          (name :: split (rest ++ bytes "x"))) ↔
        leading <+: found.keyWith name (rest ++ bytes "x")) := by
    intro name rest hname hne
    have hlast : (found.keyWith name (rest ++ bytes "x")).getLast? ≠ some slash := by
      rw [SpecialSegment.keyWith, ← List.cons_append, ← List.append_assoc, ← List.append_assoc]
      exact getLast?_probe _
    rw [← found.matchesPattern_keyWith hglob hc hname hne hlast, hsame _ (by simp [
      SpecialSegment.keyWith]), and_iff_left hlast]
  have hslash : slash ∉ found.segment := found.slash_notMem
  have hnamed : found.segment ≠ [] := by simp [SpecialSegment.segment]
  obtain ⟨-, hprobe⟩ := (hagree _ found.behind hslash hnamed).mpr found.prefix_probe
  by_cases hstar : found.segment = doubleStar
  · -- a double star takes one more segment in front of it
    have hlonger : Matches core.glob (found.segment :: (split found.behind ++ [doubleStar]))
        (bytes "y" :: split (found.segment ++ slash :: (found.behind ++ bytes "x"))) := by
      rw [split_append, split_of_slash_notMem hslash hnamed, List.singleton_append]
      rw [hstar] at hprobe ⊢
      exact .skip _ hprobe
    have hbelow := (hagree (bytes "y") (found.segment ++ slash :: found.behind) (by decide)
      (by decide)).mp
      ⟨by simp [found.first_eq_nil hstar], by simpa using hlonger⟩
    rw [← found.eq_of_prefix (by decide) hbelow] at hstar
    exact absurd hstar (by decide)
  · obtain ⟨oneOf, hshell⟩ := hglob
    obtain ⟨hself, hrest⟩ := (matches_segment_iff hstar).mp hprobe
    obtain ⟨other, hother, hne, hfree, hmatch⟩ := Foundation.ShellPatterns.exists_other
      ((hshell _ _).mp hself) ⟨found.c, by simp [SpecialSegment.segment], found.special⟩ hslash
    obtain ⟨behind, hbehind, -⟩ := (Foundation.ShellPatterns.matches_append_plain fun d hd =>
      found.plain d (List.mem_append_right _ hd)).mp hmatch
    have hbelow := (hagree other found.behind hfree hne).mp
      ⟨by simp [hbehind], (matches_segment_iff hstar).mpr ⟨(hshell _ _).mpr hmatch, hrest⟩⟩
    exact hother (found.eq_of_prefix hfree hbelow)

end Pattern

def wholePage (objects : List S3Object) (request : ListRequest) : List Entry :=
  if request.useDelimiter then
    (objectsDirectlyUnder objects request.listPrefix).map .inl ++
      (commonPrefixesUnder objects request.listPrefix).map .inr
  else (objectsUnder objects request.listPrefix).map .inl

def wholeServer {core : Core} (encoding : PageEncoding core) (objects : List S3Object) :
    ListServer := fun request =>
  .ok { body := encoding.renderItems (pageOf (wholePage objects request) none).items }

theorem wholeServer_conforms {core : Core} (encoding : PageEncoding core) (bucket : Bytes)
    (objects : List S3Object) :
    Conforms encoding (wholeServer encoding objects) bucket objects where
  recursive listPrefix := by
    have hpages : Pages encoding (fun continuationToken => wholeServer encoding objects {
        bucket, listPrefix, continuationToken, useDelimiter := false }) [] _ _ :=
      .last (pageOf ((objectsUnder objects listPrefix).map .inl) none) rfl
    have hentries := objectsOf_append (objectsUnder objects listPrefix) []
    rw [List.map_nil, List.append_nil] at hentries
    rw [hentries.1, hentries.2] at hpages
    exact ⟨_, List.Perm.refl _, hpages⟩
  delimited listPrefix := by
    have hpages : Pages encoding (fun continuationToken => wholeServer encoding objects {
        bucket, listPrefix, continuationToken, useDelimiter := true }) [] _ _ :=
      .last (pageOf ((objectsDirectlyUnder objects listPrefix).map .inl ++
        (commonPrefixesUnder objects listPrefix).map .inr) none) rfl
    have hentries := objectsOf_append (objectsDirectlyUnder objects listPrefix)
      (commonPrefixesUnder objects listPrefix)
    rw [hentries.1, hentries.2] at hpages
    exact ⟨_, _, List.Perm.refl _, List.Perm.refl _, hpages⟩

theorem foldersAreLarge_wholeServer {core : Core} (encoding : PageEncoding core)
    (objects : List S3Object) (request : ListRequest) :
    foldersAreLarge core (wholeServer encoding objects request) = false := by
  rw [wholeServer, foldersAreLarge_page]
  rfl

section Parsing

variable {directory : DirectoryPath} {params : S3AuthParams} {parsed : ParsedS3Url}

theorem parsed_of_pattern (hparse : s3UrlParse (directory.scheme ++ directory.bucket ++
      slash :: (directory.leading ++ doubleStar)) params = .ok parsed) :
    parsed.urlPrefix = lower directory.scheme ∧ parsed.bucket = directory.bucket ∧
      splitQuery params (directory.scheme ++ directory.bucket ++
        slash :: (directory.leading ++ doubleStar))
        (directory.scheme ++ directory.bucket).length =
          (slash :: parsed.key, parsed.queryParam, parsed.trimmedS3Url) := by
  obtain ⟨scheme, rest, hurl, hlower, hscheme, -, hslash, hsplit⟩ := s3UrlParse_parts hparse
  rw [← hlower] at hscheme
  obtain ⟨rfl, hbucket, -⟩ :=
    scheme_unique directory.scheme_mem hscheme directory.slash_notMem hslash hurl
  rw [← hbucket] at hsplit
  exact ⟨hlower.symm, hbucket.symm, hsplit⟩

theorem mem_path {c : UInt8} (hc : c ≠ slash) : c ∈ directory.path ↔
    c ∈ directory.scheme ++ directory.bucket ++ slash :: directory.leading := by
  have htrimmed : directory.path = rTrim directory.path ++
      directory.path.rtakeWhile (· = slash) := List.rdropWhile_append_rtakeWhile.symm
  have hcut : c ∉ directory.path.rtakeWhile (· = slash) := by
    intro hmem
    exact hc (by simpa using List.mem_rtakeWhile_imp hmem)
  rw [← directory.written, List.mem_append, List.mem_singleton, or_iff_left hc]
  conv_lhs => rw [htrimmed, List.mem_append, or_iff_left hcut]

theorem Literal.base_plain (hliteral : Literal params directory) :
    ∀ c ∈ directory.scheme ++ directory.bucket ++ slash :: directory.leading,
      isSpecial c = false := by
  intro c hc
  by_cases hslash : c = slash
  · rw [hslash]
    decide
  · exact hliteral.plain c ((mem_path hslash).mpr hc)

theorem Literal.leading_plain (hliteral : Literal params directory) :
    ∀ c ∈ directory.leading, isSpecial c = false :=
  fun c hc => hliteral.base_plain c (by simp [hc])

theorem scheme_plain {scheme : Bytes} (hscheme : scheme ∈ prefixes) :
    ∀ c ∈ scheme, isSpecial c = false := by
  have hall : ∀ p ∈ prefixes, ∀ c ∈ p, isSpecial c = false := by decide +kernel
  exact hall scheme hscheme

theorem firstWildcard_append {front rest : Bytes} {c : UInt8}
    (hfront : ∀ d ∈ front, isSpecial d = false) (hc : isWildcard c = true) :
    firstWildcard (front ++ c :: rest) = some front.length := by
  change (front ++ c :: rest).findIdx? isWildcard = some front.length
  have hnone : front.findIdx? isWildcard = none :=
    List.findIdx?_eq_none_iff.mpr fun d hd => isWildcard_of_isSpecial (hfront d hd)
  rw [List.findIdx?_append, hnone, List.findIdx?_cons, if_pos hc]
  simp

theorem questionMark_notMem_of_plain {text : Bytes} (hplain : ∀ c ∈ text, isSpecial c = false) :
    questionMark ∉ text := fun hmem => absurd (hplain _ hmem) (by decide)

theorem splitQuery_pattern (hliteral : Literal params directory) {printed : Bytes}
    (hprinted : questionMark ∉ printed) :
    splitQuery params (directory.scheme ++ directory.bucket ++ slash :: printed)
        (directory.scheme ++ directory.bucket).length =
      (slash :: printed, [], directory.scheme ++ directory.bucket ++ slash :: printed) := by
  refine splitQuery_plain hliteral.compatibility (questionMark_notMem_of_plain fun c hc => ?_)
    hprinted
  exact hliteral.base_plain c (List.mem_append_left _ hc)

theorem s3UrlParse_pattern (hliteral : Literal params directory) {printed : Bytes}
    (hprinted : questionMark ∉ printed) :
    ∃ parsed, s3UrlParse (directory.scheme ++ directory.bucket ++ slash :: printed) params =
      .ok parsed := by
  have hsplit := splitQuery_pattern hliteral hprinted
  obtain ⟨parsed, hparse, -⟩ := s3UrlParse_append directory.scheme_mem directory.bucket_ne_nil
    directory.slash_notMem (by rw [hsplit]; exact List.cons_ne_nil _ _)
  exact ⟨parsed, hparse⟩

theorem opens_of_literal (hdocumented : Documented context)
    (hliteral : Literal (listAuthParams context s directory.path) directory) :
    ∃ g shared, globFilesExtended context s directory.path = .ok g ∧ g.finished = false ∧
      s3UrlParse g.sharedPath g.s3AuthParams = .ok shared ∧
      g.parsedS3Url.urlPrefix = directory.scheme ∧ g.parsedS3Url.bucket = directory.bucket ∧
      g.parsedS3Url.key = directory.leading ++ doubleStar ∧ g.parsedS3Url.queryParam = [] := by
  have hleading : questionMark ∉ directory.leading :=
    questionMark_notMem_of_plain hliteral.leading_plain
  have hstars : doubleStar = 42 :: [42] := by decide
  have hprinted : questionMark ∉ directory.leading ++ doubleStar := by
    rw [List.mem_append, not_or]
    exact ⟨hleading, by decide⟩
  obtain ⟨parsed, hparse⟩ := s3UrlParse_pattern hliteral hprinted
  obtain ⟨shared, hshared⟩ := s3UrlParse_pattern hliteral hleading
  obtain ⟨hlower, hbucket, hsplit⟩ := parsed_of_pattern hparse
  rw [splitQuery_pattern hliteral hprinted, Prod.mk.injEq, Prod.mk.injEq,
    List.cons.injEq] at hsplit
  obtain ⟨⟨-, hkey⟩, hquery, htrimmed⟩ := hsplit
  rw [← List.cons_append, ← List.append_assoc] at htrimmed
  have hwildcard : firstWildcard parsed.trimmedS3Url =
      some (directory.scheme ++ directory.bucket ++ slash :: directory.leading).length := by
    rw [← htrimmed, hstars]
    exact firstWildcard_append hliteral.base_plain (by decide)
  have htake : parsed.trimmedS3Url.take
      (directory.scheme ++ directory.bucket ++ slash :: directory.leading).length =
        directory.scheme ++ directory.bucket ++ slash :: directory.leading := by
    rw [← htrimmed, List.take_left]
  have hread : readQueryParams context.parseGetParameters parsed.queryParam
      (listAuthParams context s directory.path) =
        .ok (listAuthParams context s directory.path) := by
    rw [← hquery]
    rfl
  have hglob : globFilesExtended context s directory.path = .ok {
      s3AuthParams := listAuthParams context s directory.path, parsedS3Url := parsed
      sharedPath := directory.scheme ++ directory.bucket ++ slash :: directory.leading } := by
    rw [globFilesExtended, newS3GlobResult, hliteral.compatibility,
      directory.listPattern_eq hdocumented]
    simp only [Bool.false_eq_true, if_false, hparse, hwildcard, hread, htake, bind, Except.bind,
      pure, Except.pure]
  exact ⟨_, shared, hglob, rfl, hshared, hlower.trans (lower_of_mem_prefixes hliteral.scheme),
    hbucket, hkey.symm, hquery.symm⟩

end Parsing

section Listing

variable {directory : DirectoryPath} {encoding : PageEncoding context.globEnv.core}

theorem mapM_relativeFile {path : Bytes} {files : List OpenFileInfo}
    (hfiles : ∀ file ∈ files, rTrim path ++ [slash] <+: file.path) :
    ∃ relative, files.mapM (relativeFile path) = .ok relative := by
  induction files with
  | nil => exact ⟨[], rfl⟩
  | cons file files ih =>
      rw [List.forall_mem_cons] at hfiles
      obtain ⟨relative, hrelative⟩ := ih hfiles.2
      refine ⟨{ file with path := file.path.drop (rTrim path ++ [slash]).length } :: relative, ?_⟩
      rw [List.mapM_cons, hrelative, relativeFile, if_pos (startsWith_iff.mpr hfiles.1)]
      rfl

theorem names_of_keys {relative : List OpenFileInfo} {bucket : Bucket} {p : Bytes → Bool}
    (hkeys : ((relative.map (·.path)).map (directory.leading ++ ·)).Perm
      ((bucket.objects.map (·.key)).filter p)) :
    (relative.map (·.path)).Nodup ∧ ∀ name, name ∈ relative.map (·.path) ↔
      ∃ object ∈ bucket.objects, p object.key = true ∧
        object.key = directory.leading ++ name := by
  refine ⟨List.Nodup.of_map _ (hkeys.nodup_iff.mpr (bucket.keys_nodup.filter p)), fun name => ?_⟩
  rw [← List.mem_map_of_injective (List.append_right_injective directory.leading), hkeys.mem_iff,
    List.mem_filter]
  constructor
  · rintro ⟨hmem, hp⟩
    obtain ⟨object, hobject, hkey⟩ := List.mem_map.mp hmem
    exact ⟨object, hobject, hkey ▸ hp, hkey⟩
  · rintro ⟨object, hobject, hp, hkey⟩
    exact ⟨hkey ▸ List.mem_map_of_mem hobject, hkey ▸ hp⟩

theorem listsExactly_of_literal {server : ListServer} {bucket : Bucket}
    (hdocumented : Documented context)
    (hliteral : Literal (listAuthParams context s directory.path) directory)
    (hserver : Conforms encoding server directory.bucket bucket.objects) :
    ListsExactly (serving context server) bucket s directory := by
  obtain ⟨g, shared, hglob, hfinished, hshared, hprefix, hbucket, hkey, hquery⟩ :=
    opens_of_literal hdocumented hliteral
  have htraverses : Traverses (serving context server).globEnv g bucket := by
    refine ⟨hfinished, ⟨shared, hshared⟩, fun hinvestigates => ?_⟩
    rw [investigates, hkey, find_doubleStar] at hinvestigates
    cases hinvestigates
  have hdecoding : DecodesPlainText (serving context server).globEnv.core := hdocumented.decoding
  obtain ⟨fuel, files, hcalls, hpaths⟩ :=
    paths_of_traverses hdecoding hglob (hbucket ▸ hserver) htraverses
  have hmatches : ∀ object : S3Object, matchesPattern context.globEnv.core g.parsedS3Url.key
      object.key = true ↔ directory.Has object.key := by
    intro object
    rw [hkey]
    exact matchesPattern_plain hdocumented.glob directory.leading_folder hliteral.leading_plain
      object.nonempty
  have hfiles : ∀ file ∈ files, rTrim directory.path ++ [slash] <+: file.path := by
    intro file hfile
    obtain ⟨key, hfound, hprinted⟩ := List.mem_map.mp (hpaths.subset (List.mem_map_of_mem hfile))
    obtain ⟨hstored, hmatch⟩ := List.mem_filter.mp hfound
    obtain ⟨object, -, rfl⟩ := List.mem_map.mp hstored
    obtain ⟨name, hname⟩ := ((hmatches object).mp hmatch).1
    refine ⟨name, ?_⟩
    rw [directory.written, ← hprinted, resultFullUrl_of_unqueried hquery, hprefix,
      hbucket, ← hname]
    simp
  obtain ⟨relative, hrelative⟩ := mapM_relativeFile hfiles
  rw [paths_of_mapM hrelative] at hpaths
  have hscheme : g.parsedS3Url.urlPrefix ∈ prefixes := hprefix ▸ hliteral.scheme
  have hslash : slash ∉ g.parsedS3Url.bucket := hbucket ▸ directory.slash_notMem
  have hbase : rTrim directory.path ++ [slash] =
      directory.scheme ++ g.parsedS3Url.bucket ++ slash :: directory.leading := by
    rw [hbucket, directory.written]
  obtain ⟨hnodup, hnames⟩ := names_of_keys
    (keys_of_names hscheme hslash hbase directory.scheme_mem hquery hpaths)
  refine ⟨fuel, relative, ?_, hnodup, fun name => ?_⟩
  · have hglob' : globFilesExtended (serving context server) s directory.path = .ok g := hglob
    simp only [listFilesExtended, hglob', hcalls, hrelative, Option.map_some]
  · rw [hnames]
    exact exists_congr fun object => and_congr_right fun _ =>
      and_congr_left fun _ => hmatches object

def oneObject (object : S3Object) : Bucket where
  objects := [object]
  keys_nodup := List.nodup_singleton _

def ListsObject (context : DirectoryContext σ) (encoding : PageEncoding context.globEnv.core)
    (s : σ) (directory : DirectoryPath) (object : S3Object) : Prop :=
  ListsExactly (serving context (wholeServer encoding [object])) (oneObject object) s directory

theorem opens_of_listsObject {object : S3Object} (hdocumented : Documented context)
    (hkey : object.key = directory.leading ++ bytes "x")
    (hlists : ListsObject context encoding s directory object) :
    ∃ g shared, globFilesExtended context s directory.path = .ok g ∧ g.finished = false ∧
      s3UrlParse g.sharedPath g.s3AuthParams = .ok shared := by
  obtain ⟨fuel, relative, hlist, -, hnames⟩ := hlists
  obtain ⟨g, files, hglob, hcalls, hrelative⟩ := listFilesExtended_cases hlist
  rcases newS3GlobResult_cases hglob with ⟨hfinished, hsingle⟩ | ⟨hfinished, hopen⟩
  · have hstars : relative.map (·.path) = [doubleStar] :=
      names_of_single hdocumented.joinPath ((files_of_finished hfinished hcalls).trans hsingle)
        hrelative
    obtain ⟨other, hother, -, hnamed⟩ := (hnames doubleStar).mp (hstars ▸ List.mem_cons_self)
    rw [List.mem_singleton.mp hother, hkey] at hnamed
    exact absurd (List.append_cancel_left hnamed) (by decide)
  · obtain ⟨shared, hshared⟩ := requested_of_expandAll hopen hcalls
    exact ⟨g, shared, hglob, hfinished, hshared⟩

/-- An object that is listed alone is matched exactly if it is below the directory, and then
it is printed behind the path. -/
theorem printed_of_listsObject {object : S3Object} {g : S3GlobResult} {shared : ParsedS3Url}
    (hdocumented : Documented context) (hlists : ListsObject context encoding s directory object)
    (hglob : globFilesExtended context s directory.path = .ok g) (hfinished : g.finished = false)
    (hshared : s3UrlParse g.sharedPath g.s3AuthParams = .ok shared) :
    (matchesPattern context.globEnv.core g.parsedS3Url.key object.key = true ↔
        directory.Has object.key) ∧
      (directory.Has object.key →
        resultFullUrl g.parsedS3Url object.key =
          directory.scheme ++ directory.bucket ++ slash :: object.key) := by
  obtain ⟨fuel, relative, hlist, -, hnames⟩ := hlists
  obtain ⟨g', files, hglob', hcalls, hrelative⟩ := listFilesExtended_cases hlist
  obtain rfl : g = g' := Except.ok.inj (hglob.symm.trans hglob')
  have htraverses : Traverses (serving context (wholeServer encoding [object])).globEnv g
      (oneObject object) := by
    refine ⟨hfinished, ⟨shared, hshared⟩, fun _ hlarge => ?_⟩
    exact absurd ((foldersAreLarge_wholeServer encoding [object] _).symm.trans hlarge) (by decide)
  have hdecoding : DecodesPlainText
      (serving context (wholeServer encoding [object])).globEnv.core := hdocumented.decoding
  obtain ⟨fuel', files', hcalls', hpaths⟩ := paths_of_traverses hdecoding hglob
    (wholeServer_conforms encoding _ _) htraverses
  obtain rfl : files = files' := Except.ok.inj (expandAll_unique hcalls hcalls')
  rw [paths_of_mapM hrelative] at hpaths
  have hfound : ∀ name, directory.Has object.key → object.key = directory.leading ++ name →
      matchesPattern context.globEnv.core g.parsedS3Url.key object.key = true ∧
        resultFullUrl g.parsedS3Url object.key = rTrim directory.path ++ [slash] ++ name := by
    intro name hhas hname
    obtain ⟨file, hfile, rfl⟩ := List.mem_map.mp
      ((hnames name).mpr ⟨object, List.mem_singleton_self _, hhas, hname⟩)
    obtain ⟨key, hkey, hprinted⟩ :=
      List.mem_map.mp (hpaths.subset (List.mem_map_of_mem hfile))
    obtain ⟨hstored, hmatch⟩ := List.mem_filter.mp hkey
    obtain rfl : key = object.key := List.mem_singleton.mp hstored
    exact ⟨hmatch, hprinted⟩
  refine ⟨⟨fun hmatch => ?_, fun hhas => ?_⟩, fun hhas => ?_⟩
  · have hlisted : resultFullUrl g.parsedS3Url object.key ∈
        (((oneObject object).objects.map (·.key)).filter (matchesPattern context.globEnv.core
          g.parsedS3Url.key)).map (resultFullUrl g.parsedS3Url) :=
      List.mem_map_of_mem (List.mem_filter.mpr ⟨List.mem_singleton_self _, hmatch⟩)
    obtain ⟨file, hfile, -⟩ := List.mem_map.mp (hpaths.symm.subset hlisted)
    obtain ⟨other, hother, hhas, -⟩ := (hnames file.path).mp (List.mem_map_of_mem hfile)
    rwa [List.mem_singleton.mp hother] at hhas
  · obtain ⟨name, hname⟩ := hhas.1
    exact (hfound name hhas hname.symm).1
  · obtain ⟨name, hname⟩ := hhas.1
    rw [(hfound name hhas hname.symm).2, directory.written, ← hname]
    simp

theorem literal_parts {g : S3GlobResult} {key : Bytes}
    (hlower : g.parsedS3Url.urlPrefix = lower directory.scheme)
    (hbucket : g.parsedS3Url.bucket = directory.bucket)
    (hprinted : resultFullUrl g.parsedS3Url key =
      directory.scheme ++ directory.bucket ++ slash :: key) :
    lower directory.scheme = directory.scheme ∧ g.parsedS3Url.queryParam = [] := by
  rw [resultFullUrl_eq, hlower, hbucket, List.append_assoc, List.append_assoc] at hprinted
  obtain ⟨hscheme, hrest⟩ := List.append_inj hprinted (by rw [lower, List.length_map])
  refine ⟨hscheme, ?_⟩
  have hkey := List.tail_eq_of_cons_eq (List.append_cancel_left hrest)
  by_contra hquery
  rw [printedKey, if_neg (by simpa using hquery)] at hkey
  have hlength := congrArg List.length hkey
  simp at hlength

theorem bucket_isWildcard {params : S3AuthParams} {pattern : Bytes} {g : S3GlobResult}
    {shared : ParsedS3Url} (hopen : Open params pattern g)
    (hshared : s3UrlParse g.sharedPath g.s3AuthParams = .ok shared) :
    ∀ c ∈ g.parsedS3Url.bucket, isWildcard c = false := by
  obtain ⟨n, hwildcard, hpath⟩ := hopen.wildcard
  obtain ⟨-, -, -, -, hliteral⟩ := firstWildcard_split hwildcard
  obtain ⟨scheme, rest, hurl, -⟩ := s3UrlParse_parts hshared
  obtain ⟨hbucket, -, -⟩ := hopen.request hshared
  intro c hc
  refine hliteral c ?_
  rw [← hpath, hurl, hbucket]
  simp [hc]

theorem literal_of_listsEvery (hdocumented : Documented context)
    (hlists : ListsEvery context encoding s directory) :
    Literal (listAuthParams context s directory.path) directory := by
  have hobject : ∀ object, ListsObject context encoding s directory object :=
    fun object => hlists _ _ (wholeServer_conforms encoding _ _)
  let probe : S3Object :=
    { key := directory.leading ++ bytes "x", nonempty := by simp [bytes] }
  have hname : probe.key = directory.leading ++ bytes "x" := rfl
  have hprobe : directory.Has probe.key := ⟨List.prefix_append _ _, getLast?_probe _⟩
  obtain ⟨g, shared, hglob, hfinished, hshared⟩ :=
    opens_of_listsObject hdocumented hname (hobject probe)
  have hopen := Open.of_new hglob hfinished
  rw [directory.listPattern_eq hdocumented] at hopen
  obtain ⟨hlower, hbucket, hsplit⟩ := parsed_of_pattern hopen.parse
  obtain ⟨hscheme, hquery⟩ := literal_parts hlower hbucket
    ((printed_of_listsObject hdocumented (hobject probe) hglob hfinished hshared).2 hprobe)
  -- without a query there is no question mark
  have hquestion : questionMark ∉
      directory.scheme ++ directory.bucket ++ slash :: directory.leading ++ doubleStar := by
    refine questionMark_not_mem_of_unqueried (directory.scheme ++ directory.bucket).length
      hopen.compatibility ?_
    rw [List.append_assoc, List.cons_append, hsplit, hquery]
  rw [List.mem_append, List.mem_append, List.mem_cons, not_or, not_or, not_or] at hquestion
  obtain ⟨⟨hbefore, -, hleading⟩, hstars⟩ := hquestion
  rw [splitQuery_plain hopen.compatibility hbefore (by rw [List.mem_append]; tauto),
    Prod.mk.injEq, List.cons.injEq] at hsplit
  obtain ⟨⟨-, hkey⟩, -⟩ := hsplit
  have hplain : ∀ c ∈ directory.leading, isSpecial c = false := by
    by_contra hspecial
    push Not at hspecial
    obtain ⟨key, hne, hconfused⟩ := exists_confused hdocumented.glob directory.leading_folder
      (by simpa using hspecial) hleading
    refine hconfused ?_
    rw [hkey]
    exact (printed_of_listsObject hdocumented (hobject { key, nonempty := hne }) hglob hfinished
      hshared).1
  have hprefixes : directory.scheme ∈ prefixes := hscheme ▸ directory.scheme_mem
  refine ⟨hopen.compatibility, hprefixes, fun c hc => ?_⟩
  by_cases hslash : c = slash
  · rw [hslash]
    decide
  rw [mem_path hslash, List.mem_append, List.mem_append, List.mem_cons] at hc
  rcases hc with (hc | hc) | hc | hc
  · exact scheme_plain hprefixes c hc
  · by_contra hspecial
    have hother : c ≠ questionMark := by
      rintro rfl
      exact hbefore (List.mem_append_right _ hc)
    have hwildcard := isWildcard_of_ne (by simpa using hspecial) hother
    rw [bucket_isWildcard hopen hshared c (hbucket ▸ hc)] at hwildcard
    cases hwildcard
  · exact absurd hc hslash
  · exact hplain c hc

/-- `ListFilesExtended` lists whatever a directory has exactly if the path of the directory is
taken literally. -/
theorem listsEvery_iff (hdocumented : Documented context) :
    ListsEvery context encoding s directory ↔
      Literal (listAuthParams context s directory.path) directory :=
  ⟨literal_of_listsEvery hdocumented,
    fun hliteral _ _ hserver => listsExactly_of_literal hdocumented hliteral hserver⟩

end Listing

def shellCore : Core := { percentCore with glob := fun text pattern => matchText pattern text }

def shellEncoding : PageEncoding shellCore where
  encode := percentEncoding.encode
  timestampText := percentEncoding.timestampText
  encode_free := percentEncoding.encode_free
  timestampText_free := percentEncoding.timestampText_free
  decode_encode := percentEncoding.decode_encode
  cast_timestampText := percentEncoding.cast_timestampText
  cast_size := percentEncoding.cast_size

def shellContext : DirectoryContext Unit :=
  { oneFileContext with globEnv := { core := shellCore, server := wholeServer shellEncoding [] } }

theorem shell_documented : Documented shellContext where
  decoding := ⟨percentCore_decodes.nil, percentCore_decodes.append⟩
  joinPath _ _ := rfl
  glob := ⟨fun _ _ => false, fun _ _ => matchText_iff⟩

def plainDirectory : DirectoryPath where
  bucket := bytes "b"
  leading := bytes "d/"
  path := bytes "s3://b/d"
  scheme := bytes "s3://"
  written := by decide
  scheme_mem := by decide
  bucket_ne_nil := by decide
  slash_notMem := by decide

theorem listsEvery_iff_plain : ListsEvery shellContext shellEncoding () plainDirectory :=
  (listsEvery_iff shell_documented).mpr ⟨by decide +kernel, by decide, by decide +kernel⟩

def starDirectory : DirectoryPath where
  bucket := bytes "b"
  leading := bytes "d*/"
  path := bytes "s3://b/d*"
  scheme := bytes "s3://"
  written := by decide
  scheme_mem := by decide
  bucket_ne_nil := by decide
  slash_notMem := by decide

def starBucket : Bucket where
  objects :=
    [{ key := bytes "d*/x", nonempty := by decide },
     { key := bytes "da/y", nonempty := by decide }]
  keys_nodup := by decide

theorem starDirectory_throws :
    listFilesExtended (serving shellContext (wholeServer shellEncoding starBucket.objects)) 2 ()
      starDirectory.path = some (.error (.outsideBase (bytes "s3://b/d*") (bytes "s3://b/da/y")
        (bytes "s3://b/d*/"))) := by
  decide +kernel

/-- The directory `d*` has the file `x`. Its listing also finds the file `y` of the directory
`da`, and throws. -/
theorem sibling_refused : Documented shellContext ∧
    Conforms shellEncoding (wholeServer shellEncoding starBucket.objects) starDirectory.bucket
      starBucket.objects ∧
    ¬ ListsExactly
      (serving shellContext (wholeServer shellEncoding starBucket.objects)) starBucket
      () starDirectory := by
  refine ⟨shell_documented, wholeServer_conforms _ _ _, ?_⟩
  rintro ⟨fuel, files, hlist, -⟩
  cases listFilesExtended_unique starDirectory_throws hlist

end HaybarnHttpfs.DirectoryListing
