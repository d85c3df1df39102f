import HaybarnHttpfs.HuggingFacePages
import Mathlib.Data.List.Forall2

/-!
`HFUrlParse` and `GetHFUrl`: the URLs of HuggingFace files are printed and read back.
The printer leaves out the revision "main", and the parser takes the '@' of a revision
only between the second and the third slash.
-/

namespace HaybarnHttpfs.HuggingFaceUrls

open HaybarnHttpfs.Foundation.ByteStrings HaybarnHttpfs.Foundation.Exceptions
open HaybarnHttpfs.HuggingFaceFileSystem HaybarnHttpfs.HuggingFacePages

def atSign : UInt8 := 64

def repoTypes : List Bytes := [bytes "datasets", bytes "spaces"]

/-- A URL by its parts: the name of the repository comes with its revision. -/
def urlText (repoType user name path : Bytes) : Bytes :=
  bytes "hf://" ++ (repoType ++ slash :: (user ++ slash :: (name ++ path)))

/-- What the parser makes of a URL: a user and a name, neither of them with a delimiter. -/
structure WellFormed (url : ParsedHFUrl) : Prop where
  endpoint : url.endpoint = bytes "https://huggingface.co"
  repoType : url.repoType ∈ repoTypes
  repository : ∃ user name, url.repository = user ++ slash :: name ∧ slash ∉ user ∧
    slash ∉ name ∧ atSign ∉ name
  revision : slash ∉ url.revision
  path : ∃ more, url.path = slash :: more

variable {repoType user name revision rest text path : Bytes} {url parsed : ParsedHFUrl}

theorem slash_not_mem_repoType (hrepoType : repoType ∈ repoTypes) : slash ∉ repoType := by
  revert repoType
  decide

theorem findFrom_mid {c : UInt8} {start : Nat} (hdrop : text.drop start = name ++ c :: rest)
    (hname : c ∉ name) : findFrom [c] text start = some (name.length + start) := by
  rw [findFrom, hdrop, find_singleton hname]
  rfl

theorem drop_mid {c : UInt8} {start : Nat} (hdrop : text.drop start = name ++ c :: rest) :
    text.drop (name.length + start + 1) = rest := by
  rw [Nat.add_right_comm, Nat.add_comm, ← List.drop_drop, hdrop, ← List.drop_drop, List.drop_left]
  rfl

theorem substr_mid {start len : Nat} (rest : Bytes) (hdrop : text.drop start = name ++ rest)
    (hlen : len = name.length) : substr text start len = name := by
  rw [substr, hdrop, hlen, List.take_left]

theorem hfUrlParse_urlText (hrepoType : repoType ∈ repoTypes) (huser : slash ∉ user)
    (hname : slash ∉ name) (more : Bytes) :
    hfUrlParse (urlText repoType user name (slash :: more)) =
      match find [atSign] (name ++ slash :: more) with
      | some nextAt =>
          if nextAt < name.length then
            .ok { path := slash :: more, repoType
                  repository := user ++ slash :: name.take nextAt
                  revision := name.drop (nextAt + 1) }
          else .ok { path := slash :: more, repoType, repository := user ++ slash :: name }
      | none => .ok { path := slash :: more, repoType, repository := user ++ slash :: name } := by
  have hscheme : startsWith (urlText repoType user name (slash :: more)) (bytes "hf://") = true :=
    List.isPrefixOf_iff_prefix.mpr ⟨_, rfl⟩
  have htype : (urlText repoType user name (slash :: more)).drop 5 =
      repoType ++ slash :: (user ++ slash :: (name ++ slash :: more)) := rfl
  generalize urlText repoType user name (slash :: more) = url at hscheme htype ⊢
  have huser' := drop_mid htype
  have hname' := drop_mid huser'
  have hpath : url.drop (name.length + (user.length + (repoType.length + 5 + 1) + 1)) =
      slash :: more := by
    rw [Nat.add_comm, ← List.drop_drop, hname', List.drop_left]
  have hrepository : ∀ pos ≤ name.length, substr url (repoType.length + 5 + 1)
      (pos + (user.length + (repoType.length + 5 + 1) + 1) - (repoType.length + 5) - 1) =
        user ++ slash :: name.take pos := by
    intro pos hpos
    refine substr_mid (name.drop pos ++ slash :: more) ?_ ?_
    · rw [huser', List.append_assoc, List.cons_append, ← List.append_assoc (name.take pos),
        List.take_append_drop]
    · rw [List.length_append, List.length_cons, List.length_take, Nat.min_eq_left hpos]
      omega
  have htypes : ¬ (repoType ≠ bytes "datasets" ∧ repoType ≠ bytes "spaces") := by
    simpa [repoTypes, imp_iff_not_or] using hrepoType
  have hwhole := hrepository name.length (Nat.le_refl _)
  rw [List.take_length] at hwhole
  unfold hfUrlParse
  simp only [hscheme, Bool.not_true, Bool.false_eq_true, if_false,
    findFrom_mid htype (slash_not_mem_repoType hrepoType), findFrom_mid huser' huser,
    findFrom_mid hname' hname, hpath, substr_mid _ htype (Nat.add_sub_cancel _ _), htypes, hwhole]
  have hat : findFrom (bytes "@") url (user.length + (repoType.length + 5 + 1) + 1) =
      (find [atSign] (name ++ slash :: more)).map
        (· + (user.length + (repoType.length + 5 + 1) + 1)) := by
    rw [findFrom, hname']
    rfl
  rw [hat]
  cases find [atSign] (name ++ slash :: more) with
  | none => rfl
  | some nextAt =>
      simp only [Option.map_some]
      by_cases hbefore : nextAt < name.length
      · rw [if_pos hbefore, if_pos (by omega), hrepository nextAt (Nat.le_of_lt hbefore)]
        congr 2
        refine substr_mid (slash :: more) ?_ ?_
        · rw [Nat.add_right_comm, Nat.add_comm, ← List.drop_drop, hname',
            List.drop_append_of_le_length hbefore]
        · rw [List.length_drop]
          omega
      · rw [if_neg hbefore, if_neg (by omega)]

theorem hfUrlParse_plain (hrepoType : repoType ∈ repoTypes) (huser : slash ∉ user)
    (hname : slash ∉ name) (hat : atSign ∉ name) (more : Bytes) :
    hfUrlParse (urlText repoType user name (slash :: more)) =
      .ok { path := slash :: more, repoType, repository := user ++ slash :: name } := by
  rw [hfUrlParse_urlText hrepoType huser hname, find_append_of_notMem hat]
  cases find [atSign] (slash :: more) with
  | none => rfl
  | some behind =>
      simp only [Option.map_some]
      rw [if_neg (by omega)]

theorem hfUrlParse_revision (hrepoType : repoType ∈ repoTypes) (huser : slash ∉ user)
    (hname : slash ∉ name) (hat : atSign ∉ name) (hrevision : slash ∉ revision) (more : Bytes) :
    hfUrlParse (urlText repoType user (name ++ atSign :: revision) (slash :: more)) =
      .ok { path := slash :: more, repoType, repository := user ++ slash :: name, revision } := by
  have hslash : slash ∉ name ++ atSign :: revision := by
    have hne : slash ≠ atSign := by decide
    simp [hname, hrevision, hne]
  have hfound : find [atSign] (name ++ atSign :: revision ++ slash :: more) =
      some name.length := by
    rw [List.append_assoc]
    exact find_singleton hat
  rw [hfUrlParse_urlText hrepoType huser hslash, hfound]
  simp only
  rw [if_pos (by simp), List.take_left, ← List.drop_drop, List.drop_left]
  rfl

theorem parts_of_parse (hparse : hfUrlParse text = .ok parsed) :
    ∃ repoType user name more, repoType ∈ repoTypes ∧ slash ∉ user ∧ slash ∉ name ∧
      text = urlText repoType user name (slash :: more) := by
  unfold hfUrlParse at hparse
  split at hparse
  · cases hparse
  rename_i hscheme
  obtain ⟨rest, rfl⟩ : bytes "hf://" <+: text :=
    List.isPrefixOf_iff_prefix.mp (by simpa [startsWith] using hscheme)
  split at hparse
  · cases hparse
  rename_i currDelim hcurr
  obtain ⟨repoType, rest', hrepo, -, rfl⟩ := findFrom_split hcurr
  have hrest : rest = repoType ++ slash :: rest' := hrepo
  subst hrest
  simp only [substr_mid _ hrepo (Nat.add_sub_cancel_left _ _)] at hparse
  split at hparse
  · cases hparse
  rename_i htype
  split at hparse
  · cases hparse
  rename_i repoDelim hdelim
  obtain ⟨user, rest, huser, hslash, rfl⟩ := findFrom_split hdelim
  rw [Nat.add_comm 5, drop_mid hrepo] at huser
  subst huser
  split at hparse
  · cases hparse
  rename_i nextSlash hnext
  obtain ⟨name, more, hname, hslash', -⟩ := findFrom_split hnext
  have hstart : 5 + repoType.length + 1 + user.length + 1 =
      user.length + (repoType.length + 5 + 1) + 1 := by omega
  rw [hstart, drop_mid (drop_mid hrepo)] at hname
  subst hname
  refine ⟨repoType, user, name, more, ?_, hslash, hslash', rfl⟩
  simpa [repoTypes, imp_iff_not_or] using htype

theorem wellFormed_of_parse (hparse : hfUrlParse text = .ok parsed) : WellFormed parsed := by
  have hmain : slash ∉ bytes "main" := by decide
  obtain ⟨repoType, user, name, more, hrepoType, huser, hname, rfl⟩ := parts_of_parse hparse
  by_cases hat : atSign ∈ name
  · obtain ⟨first, revision, rfl, hfirst⟩ := exists_split_of_mem hat
    simp only [List.mem_append, List.mem_cons, not_or] at hname
    rw [hfUrlParse_revision hrepoType huser hname.1 hfirst hname.2.2] at hparse
    cases hparse
    exact ⟨rfl, hrepoType, ⟨user, first, rfl, huser, hname.1, hfirst⟩, hname.2.2, more, rfl⟩
  · rw [hfUrlParse_plain hrepoType huser hname hat] at hparse
    cases hparse
    exact ⟨rfl, hrepoType, ⟨user, name, rfl, huser, hname, hat⟩, hmain,
      more, rfl⟩

theorem getHFUrl_eq (hrepository : url.repository = user ++ slash :: name) :
    getHFUrl url = urlText url.repoType user
      (if url.revision = bytes "main" then name
        else name ++ atSign :: url.revision) url.path := by
  have hslash : bytes "/" = [slash] := by decide
  have hat : bytes "@" = [atSign] := by decide
  unfold getHFUrl urlText
  rw [hrepository, hslash, hat]
  split
  · simp
  · simp

theorem hfUrlParse_getHFUrl (hurl : WellFormed url) : hfUrlParse (getHFUrl url) = .ok url := by
  obtain ⟨user, name, hrepository, huser, hname, hat⟩ := hurl.repository
  obtain ⟨more, hpath⟩ := hurl.path
  obtain ⟨path, repository, endpoint, revision, repoType⟩ := url
  obtain rfl : endpoint = _ := hurl.endpoint
  obtain rfl : repository = _ := hrepository
  obtain rfl : path = _ := hpath
  rw [getHFUrl_eq rfl]
  split
  · rename_i hmain
    rw [hfUrlParse_plain hurl.repoType huser hname hat]
    exact congrArg Except.ok (by rw [← hmain])
  · rw [hfUrlParse_revision hurl.repoType huser hname hat hurl.revision]

theorem WellFormed.withPath (hurl : WellFormed url) (hpath : ∃ more, path = slash :: more) :
    WellFormed { url with path } :=
  ⟨hurl.endpoint, hurl.repoType, hurl.repository, hurl.revision, hpath⟩

/-- Every file that was found so far has an absolute path. -/
def Rooted (files : List Bytes) : Prop := ∀ file ∈ files, ∃ more, file = slash :: more

theorem endEntry_rooted {s t : ListScan} (hend : s.endEntry = .ok t) (hrooted : Rooted s.files) :
    Rooted t.files := by
  unfold ListScan.endEntry at hend
  split at hend
  · cases hend
  cases hend
  simp only
  split
  · intro file hfile
    rcases List.mem_append.mp hfile with hold | hnew
    · exact hrooted file hold
    · exact ⟨_, List.mem_singleton.mp hnew⟩
  · exact hrooted

theorem listScanStep_rooted {s t : ListScan} {c : UInt8} {left : Bytes}
    (hstep : listScanStep s c rest = .ok (t, left)) (hrooted : Rooted s.files) :
    Rooted t.files := by
  rcases (listScanStep_cases hstep).2 with hend | ⟨hsame, -⟩
  · exact endEntry_rooted hend hrooted
  · rwa [hsame.1]

theorem parseListFrom_rooted {fuel : Nat} {s t : ListScan} {input : Bytes}
    (hparse : parseListFrom fuel s input = .ok t) (hrooted : Rooted s.files) :
    Rooted t.files := by
  induction fuel generalizing s input with
  | zero =>
      cases hparse
      exact hrooted
  | succ fuel ih =>
      cases input with
      | nil =>
          cases hparse
          exact hrooted
      | cons c rest =>
          rw [parseListFrom] at hparse
          cases hstep : listScanStep s c rest with
          | error e =>
              rw [hstep] at hparse
              cases hparse
          | ok next =>
              rw [hstep] at hparse
              exact ih hparse (listScanStep_rooted hstep hrooted)

theorem listPage_rooted {env : HFEnv} {s t : GlobState} (hpage : listPage env s = .ok t)
    (hrooted : Rooted s.files) : Rooted t.files := by
  unfold listPage at hpage
  obtain ⟨⟨response, nextPageUrl⟩, -, hpage⟩ := bind_eq_ok.mp hpage
  obtain ⟨scan, hscan, hpage⟩ := bind_eq_ok.mp hpage
  cases hpage
  exact parseListFrom_rooted hscan hrooted

theorem globRound_rooted {env : HFEnv} {s t : GlobState} (hround : globRound env s = .ok (some t))
    (hrooted : Rooted s.files) : Rooted t.files := by
  unfold globRound at hround
  split at hround
  · split at hround
    · cases hround
    · obtain ⟨next, hpage, hsome⟩ := map_eq_ok.mp hround
      cases hsome
      exact listPage_rooted hpage hrooted
  · obtain ⟨next, hpage, hsome⟩ := map_eq_ok.mp hround
    cases hsome
    exact listPage_rooted hpage hrooted

theorem globLoop_rooted {env : HFEnv} {fuel : Nat} {s t : GlobState}
    (hloop : globLoop env fuel s = some (.ok t)) (hrooted : Rooted s.files) : Rooted t.files := by
  induction fuel generalizing s with
  | zero => cases hloop
  | succ fuel ih =>
      rw [globLoop] at hloop
      cases hround : globRound env s with
      | error e =>
          rw [hround] at hloop
          cases hloop
      | ok next =>
          rw [hround] at hloop
          cases next with
          | none =>
              cases hloop
              exact hrooted
          | some next => exact ih hloop (globRound_rooted hround hrooted)

/-- Each path of a glob is read back as the file that was listed. -/
def OpensListed (env : HFEnv) (fuel : Nat) (parsed : ParsedHFUrl) (paths : List Bytes) : Prop :=
  ∃ s, globLoop env fuel
      { url := { parsed with path := sharedPath parsed.path },
        dirs := [sharedPath parsed.path] } = some (.ok s) ∧
    List.Forall₂ (fun opened file => hfUrlParse opened = .ok { parsed with path := file }) paths
      (s.files.filter fun file => matchPath env.glob (splitPath parsed.path) (splitPath file))

theorem opensListed_of_glob {env : HFEnv} {fuel : Nat} {paths : List Bytes}
    (hparse : hfUrlParse text = .ok parsed) (hwild : parsed.path.any isWildcard = true)
    (hglob : glob env fuel text = some (.ok paths)) : OpensListed env fuel parsed paths := by
  have hparsed := wellFormed_of_parse hparse
  simp only [glob, hparse, hwild, Bool.not_true, Bool.false_eq_true, if_false] at hglob
  obtain ⟨ended, hloop, hpaths⟩ := Option.map_eq_some_iff.mp hglob
  obtain ⟨s, rfl, rfl⟩ := map_eq_ok.mp hpaths
  refine ⟨s, hloop, ?_⟩
  rw [List.forall₂_map_left_iff, List.forall₂_same]
  intro file hfile
  have hrooted : Rooted s.files := globLoop_rooted hloop (fun file hfile => nomatch hfile)
  exact hfUrlParse_getHFUrl (hparsed.withPath (hrooted file (List.mem_of_mem_filter hfile)))

/-- Printing and parsing give a URL back, also with the path of another file; the paths of a
glob are the files it listed. -/
theorem hfUrl_round_trip (text : Bytes) (parsed : ParsedHFUrl)
    (hparse : hfUrlParse text = .ok parsed) :
    hfUrlParse (getHFUrl parsed) = .ok parsed ∧
      (∀ more, hfUrlParse (getHFUrl { parsed with path := slash :: more }) =
        .ok { parsed with path := slash :: more }) ∧
      ∀ env fuel paths, glob env fuel text = some (.ok paths) →
        if parsed.path.any isWildcard = true then OpensListed env fuel parsed paths
        else paths = [text] := by
  have hparsed := wellFormed_of_parse hparse
  refine ⟨hfUrlParse_getHFUrl hparsed, ?_, ?_⟩
  · exact fun more => hfUrlParse_getHFUrl (hparsed.withPath ⟨more, rfl⟩)
  · intro env fuel paths hglob
    split
    · rename_i hwild
      exact opensListed_of_glob hparse hwild hglob
    · rename_i hwild
      rw [Bool.not_eq_true] at hwild
      simp only [glob, hparse, hwild, Bool.not_false, if_true] at hglob
      cases hglob
      rfl

/-- The user and the revision have an '@' of their own. -/
def branchUrl : Bytes := bytes "hf://datasets/me@home/data@v1@beta/dir@x/a.csv"

def branchParsed : ParsedHFUrl where
  path := bytes "/dir@x/a.csv"
  repository := bytes "me@home/data"
  revision := bytes "v1@beta"

theorem hfUrl_round_trip_branch :
    hfUrlParse branchUrl = .ok branchParsed ∧
      hfUrlParse (getHFUrl { branchParsed with path := slash :: bytes "b@2.csv" }) =
        .ok { branchParsed with path := slash :: bytes "b@2.csv" } := by
  have hparse : hfUrlParse branchUrl = .ok branchParsed := by decide
  exact ⟨hparse, (hfUrl_round_trip branchUrl branchParsed hparse).2.1 _⟩

end HaybarnHttpfs.HuggingFaceUrls
