import HaybarnHttpfs.HuggingFaceTree
import Mathlib.Logic.Relation

/-!
What `Glob` finds in a repository whose server lists every directory page by page.
The traversal keeps a stack of directories; what it adds for a directory is what
lies below it.
-/

namespace HaybarnHttpfs.HuggingFaceGlob

open HaybarnHttpfs.Foundation.ByteStrings HaybarnHttpfs.HTTPExchange
open HaybarnHttpfs.HuggingFaceFileSystem HaybarnHttpfs.HuggingFacePages
open HaybarnHttpfs.HuggingFaceTree

def hexValue (c : UInt8) : Option UInt8 :=
  if 48 ≤ c && c ≤ 57 then some (c - 48)
  else if 65 ≤ c && c ≤ 70 then some (c - 55)
  else if 97 ≤ c && c ≤ 102 then some (c - 87)
  else none

def percentDecode : Bytes → Bytes
  | [] => []
  | 37 :: high :: low :: rest =>
      match hexValue high, hexValue low with
      | some h, some l => (16 * h + l) :: percentDecode rest
      | _, _ => 37 :: percentDecode (high :: low :: rest)
  | c :: rest => c :: percentDecode rest

/-- The entries that the pages from a URL on hold. -/
inductive Serves (page : Bytes → Option ServerPage) : Bytes → List Entry → Prop
  | last {url : Bytes} {entries : List Entry} (hpage : page url = some { entries }) :
      Serves page url entries
  | more {url next : Bytes} {entries others : List Entry}
      (hpage : page url = some { entries, next := some next }) (hmore : Serves page next others) :
      Serves page url (entries ++ others)

/-- An entry tells of a child of a directory. -/
def Describes (d : List Name) (entry : Entry) (child : Name × Bool) : Prop :=
  entry.url = pathOf (d ++ [child.1]) ∧ entry.isDirectory = child.2

/-- The server of a repository: it decodes the path of a URL, splits the children of the
directory into pages as it likes and links each page to the next. -/
structure Server (env : HFEnv) (url : ParsedHFUrl) (tree : RepoTree) where
  page : Bytes → Option ServerPage
  lists : ∀ d p, tree.Directory d → (63 : UInt8) ∉ p → (35 : UInt8) ∉ p →
    percentDecode p = pathOf d →
      ∃ entries listed,
        Serves page (treeBase env url ++ p ++ limitQuery env.hfMaxPerPage) entries ∧
        listed.Perm (tree.children d) ∧ List.Forall₂ (Describes d) entries listed
  absolute : ∀ u p next, page u = some p → next ∈ p.next → url.endpoint ++ [slash] <+: next
  transfers : ∀ n u p, page u = some p → TransferOf p (env.transport n u)

/-- What is relied on of the engine. -/
structure CoreFunctions (env : HFEnv) : Prop where
  joinPath : ∀ a b, a ≠ [] → env.joinPath a b = a ++ slash :: b
  glob : LiteralGlob env.glob

/-- The bytes that end or escape the path of a URL. -/
def Unescaped (path : Bytes) : Prop :=
  (63 : UInt8) ∉ path ∧ (35 : UInt8) ∉ path ∧ (37 : UInt8) ∉ path

theorem percentDecode_of_notMem {path : Bytes} (hpercent : (37 : UInt8) ∉ path) :
    percentDecode path = path := by
  induction path with
  | nil => rfl
  | cons c path ih =>
      rw [List.mem_cons, not_or] at hpercent
      rw [percentDecode, ih hpercent.2]
      rintro high low rest rfl
      exact absurd rfl hpercent.1

variable {env : HFEnv} {url : ParsedHFUrl} {tree : RepoTree} {s t : GlobState}

def Rounds (env : HFEnv) : GlobState → GlobState → Prop :=
  Relation.ReflTransGen fun s t => globRound env s = .ok (some t)

theorem globLoop_of_rounds (hrounds : Rounds env s t) (hend : globRound env t = .ok none) :
    ∃ fuel, ∀ more, globLoop env (fuel + more) s = some (.ok t) := by
  induction hrounds using Relation.ReflTransGen.head_induction_on with
  | refl =>
      refine ⟨1, fun more => ?_⟩
      rw [Nat.add_comm, globLoop, hend]
  | head hround _ ih =>
      obtain ⟨fuel, hfuel⟩ := ih
      refine ⟨fuel + 1, fun more => ?_⟩
      rw [Nat.add_right_comm, globLoop, hround]
      exact hfuel more

/-- Between two directories: what was found so far and what is left to list. -/
structure Between (url : ParsedHFUrl) (s : GlobState) (found dirs : List (List Name)) : Prop where
  files_eq : s.files = found.map pathOf
  dirs_eq : s.dirs = dirs.map pathOf
  noPage : s.nextPageUrl = []
  sameRepository : ∃ path, s.url = { url with path }

theorem treeBase_absolute (hcore : CoreFunctions env) (hendpoint : url.endpoint ≠ [])
    (rest : Bytes) :
    url.endpoint ++ [slash] <+: treeBase env url ++ rest := by
  refine ⟨bytes "api" ++ slash :: (url.repoType ++ slash :: (url.repository ++
    slash :: (bytes "tree" ++ slash :: (url.revision ++ rest)))), ?_⟩
  have hjoined : ∀ a b c : Bytes, env.joinPath (a ++ slash :: b) c =
      a ++ slash :: b ++ slash :: c :=
    fun _ _ _ => hcore.joinPath _ _ (by simp)
  simp [treeBase, hcore.joinPath _ _ hendpoint, hjoined]

/-- The links and the attempts that a listing goes through without loss. -/
structure CleanListing (server : Server env url tree) : Prop where
  links : ∀ u p next, server.page u = some p → next ∈ p.next →
    (44 : UInt8) ∉ next ∧ (59 : UInt8) ∉ next
  attempts : ∀ n u p, server.page u = some p → CutBeforeEntries (env.transport n u)

theorem listPage_page {server : Server env url tree} (hclean : CleanListing server)
    {page : ServerPage} {path : Bytes} (hurl : s.url = { url with path })
    (habsolute : url.endpoint ++ [slash] <+: s.nextPageUrl)
    (hpage : server.page s.nextPageUrl = some page) :
    listPage env s = .ok { s with
      nextPageUrl := page.next.getD [], files := s.files ++ filesOf page.entries
      dirs := s.dirs ++ dirsOf page.entries, requests := s.requests + 1 } := by
  obtain ⟨before, hbefore, hrequest⟩ := listHFRequest_page s.requests s.url
    (hurl ▸ habsolute) (server.transfers s.requests _ page hpage)
    (hclean.attempts s.requests _ page hpage) fun next => hclean.links _ page next hpage
  simp only [listPage, hrequest, parseListResult_page hbefore, bind, Except.bind]
  rfl

theorem pages_listed {server : Server env url tree} (hclean : CleanListing server)
    {first : Bytes} {entries : List Entry} (hserves : Serves server.page first entries)
    {path : Bytes} (hurl : s.url = { url with path }) (hfirst : s.nextPageUrl = first)
    (habsolute : url.endpoint ++ [slash] <+: first) :
    ∃ next requests, listPage env s = .ok next ∧ Rounds env next { s with
      nextPageUrl := [], files := s.files ++ filesOf entries
      dirs := s.dirs ++ dirsOf entries, requests } := by
  induction hserves generalizing s with
  | last hpage =>
      subst hfirst
      exact ⟨_, s.requests + 1, listPage_page hclean hurl habsolute hpage, .refl⟩
  | @more first link entries others hpage _ ih =>
      subst hfirst
      have hlist := listPage_page hclean hurl habsolute hpage
      have hlink := server.absolute _ _ link hpage rfl
      obtain ⟨next, requests, hnext, hrounds⟩ := ih (s := { s with
        nextPageUrl := link, files := s.files ++ filesOf entries
        dirs := s.dirs ++ dirsOf entries, requests := s.requests + 1 }) hurl rfl hlink
      refine ⟨_, requests, hlist, .head (b := next) ?_ ?_⟩
      · have hne : link.isEmpty = false := by
          obtain ⟨after, rfl⟩ := hlink
          simp
        simp only [globRound, Option.getD_some, hne, Bool.false_eq_true, if_false, hnext]
        rfl
      · rw [filesOf_append, dirsOf_append, ← List.append_assoc, ← List.append_assoc]
        exact hrounds

def listedOf (directories : Bool) (d : List Name) (listed : List (Name × Bool)) :
    List (List Name) :=
  (listed.filter (·.2 == directories)).map fun child => d ++ [child.1]

theorem listed_of_describes {d : List Name} {entries : List Entry} {listed : List (Name × Bool)}
    (hdescribes : List.Forall₂ (Describes d) entries listed) :
    filesOf entries = (listedOf false d listed).map pathOf ∧
      dirsOf entries = (listedOf true d listed).map pathOf := by
  induction hdescribes with
  | nil => exact ⟨rfl, rfl⟩
  | @cons entry child entries listed hentry _ ih =>
      obtain ⟨hurl, hkind⟩ := hentry
      obtain ⟨hfiles, hdirs⟩ := ih
      obtain ⟨name, kind⟩ := child
      have hrest := And.intro hfiles hdirs
      unfold filesOf dirsOf listedOf at *
      cases kind
      · simpa [List.filter_cons, hkind, hurl] using hrest
      · simpa [List.filter_cons, hkind, hurl] using hrest

theorem listedOf_perm {d : List Name} {listed : List (Name × Bool)} {directories : Bool}
    (hperm : listed.Perm (tree.children d)) :
    (listedOf directories d listed).Perm (tree.childrenOf directories d) :=
  (hperm.filter _).map _

section Drain

variable (hcore : CoreFunctions env) (hendpoint : url.endpoint ≠ [])
  {server : Server env url tree}
  (hclean : CleanListing server) {d : List Name} {found dirs : List (List Name)}

include hcore hendpoint hclean

theorem directory_listed (hd : tree.Directory d) (hplain : Unescaped (pathOf d))
    (hs : Between url s found (dirs ++ [d])) :
    ∃ t files subs, Rounds env s t ∧ Between url t (found ++ files) (dirs ++ subs) ∧
      files.Perm (tree.childrenOf false d) ∧ subs.Perm (tree.childrenOf true d) := by
  obtain ⟨hquestion, hhash, hpercent⟩ := hplain
  obtain ⟨entries, listed, hserves, hperm, hdescribes⟩ :=
    server.lists d (pathOf d) hd hquestion hhash (percentDecode_of_notMem hpercent)
  obtain ⟨path, hurl⟩ := hs.sameRepository
  have htop : s.dirs = dirs.map pathOf ++ [pathOf d] := by rw [hs.dirs_eq, List.map_append]; rfl
  obtain ⟨next, requests, hnext, hrounds⟩ := pages_listed hclean hserves
    (s := { s with
      url := { s.url with path := pathOf d }, dirs := dirs.map pathOf
      nextPageUrl := treeBase env url ++ pathOf d ++ limitQuery env.hfMaxPerPage })
    (show _ = { url with path := pathOf d } by rw [hurl]) rfl
    (by rw [List.append_assoc]; exact treeBase_absolute hcore hendpoint _)
  have hround : globRound env s = .ok (some next) := by
    have htree : getTreeUrl env { s.url with path := pathOf d } env.hfMaxPerPage =
        treeBase env url ++ pathOf d ++ limitQuery env.hfMaxPerPage := by
      rw [hurl]
      rfl
    rw [globRound, hs.noPage, htop, List.getLast?_concat, List.dropLast_concat]
    simp only [List.isEmpty_nil, if_true, htree, hnext]
    rfl
  obtain ⟨hfiles, hdirs⟩ := listed_of_describes hdescribes
  refine ⟨_, listedOf false d listed, listedOf true d listed, .head hround hrounds, ?_,
    listedOf_perm hperm, listedOf_perm hperm⟩
  constructor
  · simp [hs.files_eq, hfiles]
  · simp [hdirs]
  · rfl
  · exact ⟨pathOf d, by rw [hurl]⟩

omit hcore hendpoint hclean in
theorem all_drained {subs : List (List Name)}
    (hdrains : ∀ sub ∈ subs, ∀ s found dirs, Between url s found (dirs ++ [sub]) →
      ∃ t files, Rounds env s t ∧ Between url t (found ++ files) dirs ∧
        files.Perm (tree.below sub)) (hs : Between url s found (dirs ++ subs)) :
    ∃ t files, Rounds env s t ∧ Between url t (found ++ files) dirs ∧
      files.Perm (subs.flatMap tree.below) := by
  -- the loop takes the last directory first
  induction subs using List.reverseRecOn generalizing s found with
  | nil => exact ⟨s, [], .refl, by simpa using hs, .refl _⟩
  | append_singleton subs sub ih =>
      rw [← List.append_assoc] at hs
      obtain ⟨t, files, hfirst, ht, hfiles⟩ := hdrains sub (by simp) s found (dirs ++ subs) hs
      obtain ⟨u, others, hrest, hu, hothers⟩ :=
        ih (fun other hother => hdrains other (by simp [hother])) ht
      refine ⟨u, files ++ others, hfirst.trans hrest, by simpa using hu, ?_⟩
      rw [List.flatMap_append, List.flatMap_singleton]
      exact (hfiles.append hothers).trans List.perm_append_comm

theorem directory_drained (hd : tree.Directory d)
    (hplain : ∀ sub, tree.Directory sub → d <+: sub → Unescaped (pathOf sub))
    (hs : Between url s found (dirs ++ [d])) :
    ∃ t files, Rounds env s t ∧ Between url t (found ++ files) dirs ∧
      files.Perm (tree.below d) := by
  -- on the depth of the tree below the directory
  induction d using RepoTree.below_induction tree generalizing s found dirs with
  | step d ih =>
      obtain ⟨t, files, subs, hlisted, ht, hfiles, hsubs⟩ :=
        directory_listed hcore hendpoint hclean hd (hplain d hd (List.prefix_refl d)) hs
      have hdrains : ∀ sub ∈ subs, ∀ s found dirs, Between url s found (dirs ++ [sub]) →
          ∃ t files, Rounds env s t ∧ Between url t (found ++ files) dirs ∧
            files.Perm (tree.below sub) := by
        intro sub hsub s found dirs hs
        have hmem := hsubs.mem_iff.mp hsub
        obtain ⟨name, hname, rfl⟩ := RepoTree.mem_childrenOf.mp hmem
        refine ih _ hmem (.sub hd hname) (fun below hbelow hunder => ?_) hs
        exact hplain below hbelow ((List.prefix_append _ _).trans hunder)
      obtain ⟨u, others, hrest, hu, hothers⟩ := all_drained hdrains ht
      refine ⟨u, files ++ others, hlisted.trans hrest, by simpa using hu, ?_⟩
      rw [RepoTree.below_eq]
      exact hfiles.append (hothers.trans (hsubs.flatMap_right _))

end Drain

theorem path_of_parse {path : Bytes} (hparse : hfUrlParse path = .ok url) :
    url.endpoint ≠ [] ∧ ∃ more, url.path = slash :: more := by
  have hdefault : bytes "https://huggingface.co" ≠ [] := by decide
  unfold hfUrlParse at hparse
  split at hparse
  · cases hparse
  · split at hparse
    · cases hparse
    · simp only at hparse
      split at hparse
      · cases hparse
      · split at hparse
        · cases hparse
        · split at hparse
          · cases hparse
          · rename_i nextSlash hslash
            obtain ⟨more, hmore⟩ := drop_of_findFrom_singleton hslash
            split at hparse
            · split at hparse
              · cases hparse
                exact ⟨hdefault, more, hmore⟩
              · cases hparse
                exact ⟨hdefault, more, hmore⟩
            · cases hparse
              exact ⟨hdefault, more, hmore⟩

theorem getHFUrl_injective (url : ParsedHFUrl) :
    Function.Injective fun file => getHFUrl { url with path := file } := by
  intro file other heq
  simp only [getHFUrl] at heq
  split at heq
  · exact List.append_cancel_left heq
  · exact List.append_cancel_left heq

/-- `Glob` ends, and its result has every file of the tree that matches the pattern once
and nothing else. -/
def GlobComplete (env : HFEnv) (tree : RepoTree) (url : ParsedHFUrl) (path : Bytes) : Prop :=
  ∃ fuel urls, (∀ more, glob env (fuel + more) path = some (.ok urls)) ∧ urls.Nodup ∧
    ∀ u, u ∈ urls ↔ ∃ f, tree.File f ∧
      Matches env.glob (splitPath url.path) (f.map Name.text) ∧
        u = getHFUrl { url with path := pathOf f }

/-- When nothing is lost: the directories to be listed have names that a URL holds as they
are, the links have no separator of the header, and no failed attempt delivered an entry.
A path without wildcards is not listed at all. -/
inductive GlobHoldsWhen (server : Server env url tree) (path : Bytes) : Prop
  | listed (hwild : url.path.any isWildcard = true) (d : List Name) (hd : tree.Directory d)
      (hshared : sharedPath url.path = pathOf d)
      (hplain : ∀ sub, tree.Directory sub → d <+: sub → Unescaped (pathOf sub))
      (hclean : CleanListing server)
  | file (f : List Name) (hf : tree.File f) (hpath : url.path = pathOf f)
      (hliteral : url.path.any isGlobChar = false) (hurl : getHFUrl url = path)

theorem matches_below {glob : Bytes → Bytes → Bool} (hglob : LiteralGlob glob) {d f : List Name}
    {patterns : List Bytes} (hfixed : ∀ c ∈ pathOf d, isGlobChar c = false)
    (hmatches : Matches glob (d.map Name.text ++ patterns) (f.map Name.text)) : d <+: f := by
  have hsegments : ∀ segment ∈ d.map Name.text, segment.any isGlobChar = false := by
    intro segment hsegment
    obtain ⟨name, hname, rfl⟩ := List.mem_map.mp hsegment
    refine List.any_eq_false.mpr fun c hc => ?_
    have hmem : c ∈ pathOf d :=
      List.mem_flatMap.mpr ⟨name, hname, List.mem_cons_of_mem _ hc⟩
    simp [hfixed c hmem]
  obtain ⟨left, hkeys, -⟩ := (matches_literal hglob hsegments).mp hmatches
  obtain ⟨first, rest, rfl, hfirst, -⟩ := List.map_eq_append_iff.mp hkeys
  have heq := List.map_injective_iff.mpr (fun _ _ => Name.ext) hfirst
  exact ⟨rest, by rw [heq]⟩

theorem globComplete_of_listed (hcore : CoreFunctions env) {server : Server env url tree}
    {path : Bytes} (hparse : hfUrlParse path = .ok url) (hwild : url.path.any isWildcard = true)
    {d : List Name} (hd : tree.Directory d) (hshared : sharedPath url.path = pathOf d)
    (hplain : ∀ sub, tree.Directory sub → d <+: sub → Unescaped (pathOf sub))
    (hclean : CleanListing server) : GlobComplete env tree url path := by
  obtain ⟨hendpoint, more, hslash⟩ := path_of_parse hparse
  obtain ⟨⟨after, hafter⟩, hnowild⟩ := sharedPath_spec hslash
  have hsplit : splitPath url.path = d.map Name.text ++ splitPath after := by
    conv_lhs => rw [hafter]
    rw [splitPath_append, hshared, splitPath_pathOf]
  have hfixed : ∀ c ∈ pathOf d, isGlobChar c = false := by
    intro c hc
    have hwildcard := hnowild c (hshared ▸ hc)
    have hquestion : c ≠ 63 := by
      rintro rfl
      exact (hplain d hd (List.prefix_refl d)).1 hc
    simp only [isWildcard, Bool.or_eq_false_iff, decide_eq_false_iff_not] at hwildcard
    simp [isGlobChar, hwildcard, hquestion]
  have hstart : Between url { url := { url with path := pathOf d }, dirs := [pathOf d] } []
      ([] ++ [d]) := ⟨rfl, rfl, rfl, pathOf d, rfl⟩
  obtain ⟨t, files, hrounds, ht, hfiles⟩ :=
    directory_drained hcore hendpoint hclean hd hplain hstart
  have hend : globRound env t = .ok none := by
    rw [globRound, ht.noPage, ht.dirs_eq]
    rfl
  obtain ⟨fuel, hfuel⟩ := globLoop_of_rounds hrounds hend
  have hfound : t.files = files.map pathOf := ht.files_eq
  refine ⟨fuel, (t.files.filter fun file => matchPath env.glob (splitPath url.path)
    (splitPath file)).map fun file => getHFUrl { url with path := file }, fun more => ?_, ?_,
    fun u => ?_⟩
  · rw [glob, hparse]
    simp only [hwild, hshared, hfuel, Bool.not_true, Bool.false_eq_true, if_false]
    rfl
  · have hnodup : (files.map pathOf).Nodup :=
      ((hfiles.nodup_iff).mpr (RepoTree.below_nodup hd)).map pathOf_injective
    exact ((hfound ▸ hnodup).filter _).map (getHFUrl_injective url)
  · simp only [hfound, List.mem_map, List.mem_filter, matchPath_iff]
    constructor
    · rintro ⟨_, ⟨⟨f, hf, rfl⟩, hmatches⟩, rfl⟩
      rw [splitPath_pathOf] at hmatches
      exact ⟨f, ((RepoTree.mem_below hd).mp (hfiles.mem_iff.mp hf)).1, hmatches, rfl⟩
    · rintro ⟨f, hfile, hmatches, rfl⟩
      refine ⟨pathOf f,
        ⟨⟨f, hfiles.mem_iff.mpr ((RepoTree.mem_below hd).mpr ⟨hfile, ?_⟩), rfl⟩, ?_⟩, rfl⟩
      · exact matches_below hcore.glob hfixed (hsplit ▸ hmatches)
      · rwa [splitPath_pathOf]

/-- Over every run of attempts that meets the condition, whatever the pages are. -/
theorem globComplete_of_holdsWhen (hcore : CoreFunctions env) (server : Server env url tree)
    {path : Bytes} (hparse : hfUrlParse path = .ok url) (hwhen : GlobHoldsWhen server path) :
    GlobComplete env tree url path := by
  cases hwhen with
  | listed hwild d hd hshared hplain hclean =>
      exact globComplete_of_listed hcore hparse hwild hd hshared hplain hclean
  | file f hf hpath hliteral hurl =>
      have hnowild : url.path.any isWildcard = false := by
        refine List.any_eq_false.mpr fun c hc => ?_
        have hglob := List.any_eq_false.mp hliteral c hc
        simp only [isGlobChar, Bool.or_eq_true, decide_eq_true_eq, not_or] at hglob
        simp [isWildcard, hglob]
      have hsegments : ∀ segment ∈ f.map Name.text, segment.any isGlobChar = false := by
        intro segment hsegment
        obtain ⟨name, hname, rfl⟩ := List.mem_map.mp hsegment
        refine List.any_eq_false.mpr fun c hc => List.any_eq_false.mp hliteral c ?_
        rw [hpath]
        exact List.mem_flatMap.mpr ⟨name, hname, List.mem_cons_of_mem _ hc⟩
      refine ⟨0, [path], fun more => ?_, List.nodup_singleton path, fun u => ?_⟩
      · simp [glob, hparse, hnowild]
      · rw [List.mem_singleton, hpath, splitPath_pathOf, ← List.append_nil (f.map Name.text)]
        simp only [matches_literal hcore.glob hsegments, matches_nil_iff]
        constructor
        · rintro rfl
          exact ⟨f, hf, ⟨[], by simp, rfl⟩, by rw [← hpath, hurl]⟩
        · rintro ⟨other, -, ⟨_, hkeys, rfl⟩, rfl⟩
          rw [List.append_nil] at hkeys
          rw [List.map_injective_iff.mpr (fun _ _ => Name.ext) hkeys, ← hpath, hurl]

def fileName : Name := ⟨bytes "a", by decide, by decide +kernel⟩

def oneFile : RepoTree where
  children d := if d = [] then [(fileName, false)] else []
  depth _ := 0
  distinct d := by
    split
    · exact List.nodup_singleton _
    · exact List.nodup_nil
  depth_lt d name hname := by
    split at hname
    · simp at hname
    · exact absurd hname List.not_mem_nil

def onePage : ServerPage where
  entries := [{ path := bytes "a", isDirectory := false, plain := by decide }]

def oneFileEnv (cut : Nat) : HFEnv where
  transport _ _ :=
    { failed := [⟨some { status := 200 }, (renderPage onePage.entries).take cut⟩]
      last := ⟨some { status := 200 }, renderPage onePage.entries⟩ }
  joinPath a b := a ++ slash :: b
  glob key pattern := if pattern.any isGlobChar then pattern = bytes "*" else key = pattern

def oneFilePattern : Bytes := bytes "hf://datasets/o/r/*"

def oneFileUrl : ParsedHFUrl where
  path := bytes "/*"
  repository := bytes "o/r"

def oneFileTree : Bytes := bytes "https://huggingface.co/api/datasets/o/r/tree/main"

theorem oneFile_core (cut : Nat) : CoreFunctions (oneFileEnv cut) where
  joinPath _ _ _ := rfl
  glob key pattern hliteral := by
    simp only [oneFileEnv, hliteral, Bool.false_eq_true, if_false, decide_eq_true_eq]

theorem oneFile_directory {d : List Name} (hd : oneFile.Directory d) : d = [] := by
  cases hd with
  | root => rfl
  | @sub d name _ hname =>
      by_cases hroot : d = []
      · simp [oneFile, hroot] at hname
      · simp [oneFile, hroot] at hname

theorem eq_nil_of_percentDecode {p : Bytes} (hp : percentDecode p = []) : p = [] := by
  unfold percentDecode at hp
  split at hp
  · rfl
  · split at hp
    · cases hp
    · cases hp
  · cases hp

def oneFileServer (cut : Nat) : Server (oneFileEnv cut) oneFileUrl oneFile where
  page u := if u = oneFileTree then some onePage else none
  lists d p hd _ _ hp := by
    obtain rfl := oneFile_directory hd
    obtain rfl := eq_nil_of_percentDecode hp
    refine ⟨onePage.entries, [(fileName, false)], .last ?_, .refl _, ?_⟩
    · have htree : treeBase (oneFileEnv cut) oneFileUrl ++ [] ++
          limitQuery (oneFileEnv cut).hfMaxPerPage = oneFileTree := rfl
      rw [htree]
      rfl
    · exact .cons ⟨by decide, rfl⟩ .nil
  absolute u p next hpage hnext := by
    split at hpage
    · cases hpage
      cases hnext
    · cases hpage
  transfers n u p hpage := by
    have hanswers : Answers onePage { status := 200 } := ⟨rfl, rfl, rfl⟩
    split at hpage
    · cases hpage
      refine ⟨fun attempt hattempt => ?_, ⟨_, rfl, hanswers⟩, rfl⟩
      rw [List.mem_singleton.mp hattempt]
      exact .body _ rfl hanswers (List.take_prefix _ _)
    · cases hpage

/-- A folder beside the file, with a file of the same name in it. -/
def folderName : Name := ⟨bytes "d", by decide, by decide +kernel⟩

def shelf : RepoTree where
  children d :=
    if d = [] then [(fileName, false), (folderName, true)]
    else if d = [folderName] then [(fileName, false)]
    else []
  depth d := if d = [] then 1 else 0
  distinct d := by
    split
    · decide
    · split
      · exact List.nodup_singleton _
      · exact List.nodup_nil
  depth_lt d name hname := by
    split at hname
    · rename_i hroot
      simp [hroot]
    · split at hname
      · simp at hname
      · exact absurd hname List.not_mem_nil

theorem shelf_directory {d : List Name} (hd : shelf.Directory d) : d = [] ∨ d = [folderName] := by
  cases hd with
  | root => exact .inl rfl
  | @sub d name _ hname =>
      by_cases hroot : d = []
      · subst hroot
        simp only [shelf, if_true, List.mem_cons, Prod.mk.injEq, Bool.true_eq_false, and_false,
          and_true, List.not_mem_nil, or_false, false_or] at hname
        exact .inr (by rw [hname]; rfl)
      · by_cases hfolder : d = [folderName]
        · simp [shelf, hfolder] at hname
        · simp [shelf, hroot, hfolder] at hname

/-- The root has two pages. -/
def shelfCursor : Bytes := oneFileTree ++ bytes "?cursor=x"

def folderPage : ServerPage where
  entries := [{ path := bytes "d/a", isDirectory := false, plain := by decide }]

def firstPage : ServerPage := { onePage with next := some shelfCursor }

def secondPage : ServerPage where
  entries := [{ path := bytes "d", isDirectory := true, plain := by decide }]

def shelfPageOf (path : Bytes) : Option ServerPage :=
  if path = [] then some firstPage
  else if path = pathOf [folderName] then some folderPage
  else none

def shelfPage (u : Bytes) : Option ServerPage :=
  if u = shelfCursor then some secondPage
  else if startsWith u oneFileTree then shelfPageOf (percentDecode (u.drop oneFileTree.length))
  else none

theorem shelfPage_path {p : Bytes} (hp : (63 : UInt8) ∉ p) :
    shelfPage (oneFileTree ++ p) = shelfPageOf (percentDecode p) := by
  have hcursor : oneFileTree ++ p ≠ shelfCursor := by
    intro heq
    have hrest : p = bytes "?cursor=x" := List.append_cancel_left heq
    exact hp (hrest ▸ by decide)
  have hleading : startsWith (oneFileTree ++ p) oneFileTree = true :=
    List.isPrefixOf_iff_prefix.mpr (List.prefix_append _ _)
  rw [shelfPage, if_neg hcursor, if_pos hleading, List.drop_left]

theorem shelfPage_cases {u : Bytes} {p : ServerPage} (hpage : shelfPage u = some p) :
    p = firstPage ∨ p = secondPage ∨ p = folderPage := by
  unfold shelfPage shelfPageOf at hpage
  split at hpage
  · cases hpage
    exact .inr (.inl rfl)
  · split at hpage
    · split at hpage
      · cases hpage
        exact .inl rfl
      · split at hpage
        · cases hpage
          exact .inr (.inr rfl)
        · cases hpage
    · cases hpage

def answerOf (page : ServerPage) : HTTPResponse where
  status := 200
  headers :=
    match page.next with
    | none => {}
    | some next => { entries := [(bytes "Link", linkText next)], distinct := by simp }

theorem answers_answerOf (page : ServerPage) : Answers page (answerOf page) := by
  obtain ⟨entries, next⟩ := page
  cases next with
  | none => exact ⟨rfl, rfl, rfl⟩
  | some next => exact ⟨rfl, rfl, rfl⟩

/-- The first attempt is cut after the bracket that a page begins with. -/
def shelfEnv : HFEnv where
  transport _ u :=
    match shelfPage u with
    | none => { failed := [], last := ⟨none, []⟩ }
    | some page =>
        { failed := [⟨some (answerOf page), (renderPage page.entries).take 1⟩]
          last := ⟨some (answerOf page), renderPage page.entries⟩ }
  joinPath a b := a ++ slash :: b
  glob key pattern := if pattern.any isGlobChar then pattern = bytes "*" else key = pattern

def shelfPattern : Bytes := bytes "hf://datasets/o/r/**"

def shelfUrl : ParsedHFUrl where
  path := bytes "/**"
  repository := bytes "o/r"

theorem shelf_core : CoreFunctions shelfEnv where
  joinPath _ _ _ := rfl
  glob key pattern hliteral := by
    simp only [shelfEnv, hliteral, Bool.false_eq_true, if_false, decide_eq_true_eq]

theorem shelf_treeBase (p : Bytes) :
    treeBase shelfEnv shelfUrl ++ p ++ limitQuery shelfEnv.hfMaxPerPage = oneFileTree ++ p :=
  List.append_nil _

def shelfServer : Server shelfEnv shelfUrl shelf where
  page := shelfPage
  lists d p hd hquestion _ hp := by
    have hfirst := shelfPage_path hquestion
    rw [hp] at hfirst
    rw [shelf_treeBase]
    obtain rfl | rfl := shelf_directory hd
    · refine ⟨onePage.entries ++ secondPage.entries, [(fileName, false), (folderName, true)],
        .more hfirst (.last rfl), .refl _, ?_⟩
      exact .cons ⟨by decide, rfl⟩ (.cons ⟨by decide, rfl⟩ .nil)
    · exact ⟨folderPage.entries, [(fileName, false)], .last hfirst, .refl _,
        .cons ⟨by decide, rfl⟩ .nil⟩
  absolute u p next hpage hnext := by
    obtain rfl | rfl | rfl := shelfPage_cases hpage
    · cases hnext
      exact ⟨bytes "api/datasets/o/r/tree/main?cursor=x", by decide⟩
    · cases hnext
    · cases hnext
  transfers n u p hpage := by
    have htransport : shelfEnv.transport n u =
        { failed := [⟨some (answerOf p), (renderPage p.entries).take 1⟩]
          last := ⟨some (answerOf p), renderPage p.entries⟩ } := by
      simp only [shelfEnv, hpage]
    rw [htransport]
    refine ⟨fun attempt hattempt => ?_, ⟨_, rfl, answers_answerOf p⟩, rfl⟩
    rw [List.mem_singleton.mp hattempt]
    exact .body _ rfl (answers_answerOf p) (List.take_prefix _ _)

theorem shelf_listed : GlobHoldsWhen shelfServer shelfPattern := by
  refine .listed (by decide) [] .root (by decide) (fun sub hsub _ => ?_) ⟨?_, ?_⟩
  · obtain rfl | rfl := shelf_directory hsub
    · exact ⟨List.not_mem_nil, List.not_mem_nil, List.not_mem_nil⟩
    · exact ⟨by decide, by decide, by decide⟩
  · intro u p next hpage hnext
    obtain rfl | rfl | rfl := shelfPage_cases hpage
    · cases hnext
      exact ⟨by decide, by decide⟩
    · cases hnext
    · cases hnext
  · intro n u p hpage attempt hattempt _ _ _
    have hpage : shelfPage u = some p := hpage
    simp only [shelfEnv, hpage, List.mem_singleton] at hattempt
    rw [hattempt]
    exact (by decide : (123 : UInt8) ∉ [91])

theorem shelf_complete : GlobComplete shelfEnv shelf shelfUrl shelfPattern :=
  globComplete_of_holdsWhen shelf_core shelfServer (by decide +kernel) shelf_listed

/-- The first attempt delivered the entry before it failed. -/
theorem file_returned_twice : CoreFunctions (oneFileEnv 27) ∧
    Nonempty (Server (oneFileEnv 27) oneFileUrl oneFile) ∧
      hfUrlParse oneFilePattern = .ok oneFileUrl ∧
        ¬ GlobComplete (oneFileEnv 27) oneFile oneFileUrl oneFilePattern := by
  refine ⟨oneFile_core 27, ⟨oneFileServer 27⟩, by decide +kernel, ?_⟩
  rintro ⟨fuel, urls, hurls, hnodup, -⟩
  have hglob : glob (oneFileEnv 27) (fuel + 2) oneFilePattern =
      some (.ok [bytes "hf://datasets/o/r/a", bytes "hf://datasets/o/r/a"]) := by
    have hlist : globRound (oneFileEnv 27)
        { url := { oneFileUrl with path := [] }, dirs := [[]] } =
        .ok (some { url := { oneFileUrl with path := [] }, dirs := [], requests := 1
                    files := [bytes "/a", bytes "/a"] }) := by
      decide +kernel
    have hloop : globLoop (oneFileEnv 27) (fuel + 2)
        { url := { oneFileUrl with path := [] }, dirs := [[]] } =
          some (.ok { url := { oneFileUrl with path := [] }, dirs := [], requests := 1
                      files := [bytes "/a", bytes "/a"] }) := by
      rw [globLoop, hlist]
      rfl
    have hparse : hfUrlParse oneFilePattern = .ok oneFileUrl := by decide +kernel
    have hshared : sharedPath oneFileUrl.path = [] := by decide
    have hwild : oneFileUrl.path.any isWildcard = true := by decide
    rw [glob, hparse]
    simp only [hwild, hshared, hloop, Bool.not_true, Bool.false_eq_true, if_false]
    decide +kernel
  rw [hurls 2] at hglob
  cases hglob
  simp at hnodup

end HaybarnHttpfs.HuggingFaceGlob
