import HaybarnHttpfs.HuggingFacePages
import Mathlib.Data.List.Infix
import Mathlib.Data.List.Nodup
import Mathlib.Data.List.Flatten
import Mathlib.Data.List.TakeWhile

/-!
Repositories as trees of names, and what it means for a file of one to match a
pattern.
-/

namespace HaybarnHttpfs.HuggingFaceTree

open HaybarnHttpfs.Foundation.ByteStrings HaybarnHttpfs.HuggingFaceFileSystem

/-- A name that JSON writes as it is. -/
structure Name where
  text : Bytes
  nonempty : text ≠ []
  plain : ∀ c ∈ text, 32 ≤ c ∧ c ≠ 34 ∧ c ≠ 92 ∧ c ≠ slash
  deriving DecidableEq

@[ext] theorem Name.ext {m n : Name} (htext : m.text = n.text) : m = n := by
  cases m
  cases n
  cases htext
  rfl

def pathOf (names : List Name) : Bytes := names.flatMap fun name => slash :: name.text

/-- A tree of files: every directory, given by its names from the root, has children
with different names, and the tree has no infinite branch. -/
structure RepoTree where
  children : List Name → List (Name × Bool)
  depth : List Name → Nat
  distinct : ∀ d, ((children d).map Prod.fst).Nodup
  depth_lt : ∀ d name, (name, true) ∈ children d → depth (d ++ [name]) < depth d

namespace RepoTree

variable (tree : RepoTree)

inductive Directory : List Name → Prop
  | root : Directory []
  | sub {d : List Name} {name : Name} (hd : Directory d)
      (hname : (name, true) ∈ tree.children d) : Directory (d ++ [name])

inductive File : List Name → Prop
  | mk {d : List Name} {name : Name} (hd : tree.Directory d)
      (hname : (name, false) ∈ tree.children d) : File (d ++ [name])

def childrenOf (directories : Bool) (d : List Name) : List (List Name) :=
  ((tree.children d).filter (·.2 == directories)).map fun child => d ++ [child.1]

variable {tree} {d f : List Name} {name other : Name} {kind directories : Bool}

theorem mem_childrenOf : f ∈ tree.childrenOf directories d ↔
    ∃ name, (name, directories) ∈ tree.children d ∧ f = d ++ [name] := by
  constructor
  · intro hf
    obtain ⟨⟨name, kind⟩, hmem, rfl⟩ := List.mem_map.mp hf
    obtain ⟨hchild, hkind⟩ := List.mem_filter.mp hmem
    exact ⟨name, by rwa [← beq_iff_eq.mp hkind], rfl⟩
  · rintro ⟨name, hchild, rfl⟩
    exact List.mem_map.mpr ⟨_, List.mem_filter.mpr ⟨hchild, beq_self_eq_true _⟩, rfl⟩

variable (tree) in
/-- The files below a directory. -/
def below (d : List Name) : List (List Name) :=
  tree.childrenOf false d ++
    (tree.childrenOf true d).attach.flatMap fun sub => below sub.1
  termination_by tree.depth d
  decreasing_by
    obtain ⟨name, hchild, hsub⟩ := mem_childrenOf.mp sub.2
    rw [hsub]
    exact tree.depth_lt d name hchild

theorem below_eq (d : List Name) :
    tree.below d = tree.childrenOf false d ++ (tree.childrenOf true d).flatMap tree.below := by
  rw [below, List.flatMap_subtype (g := tree.below) fun _ _ => rfl, List.unattach_attach]

variable (tree) in
theorem below_induction {motive : List Name → Prop}
    (step : ∀ d, (∀ sub ∈ tree.childrenOf true d, motive sub) → motive d) (d : List Name) :
    motive d := by
  induction hdepth : tree.depth d using Nat.strongRecOn generalizing d with
  | ind n ih =>
      apply step
      intro sub hsub
      obtain ⟨name, hchild, rfl⟩ := mem_childrenOf.mp hsub
      exact ih _ (hdepth ▸ tree.depth_lt d name hchild) _ rfl

theorem kind_unique (hname : (name, kind) ∈ tree.children d)
    (hother : (name, directories) ∈ tree.children d) : kind = directories := by
  have hdistinct := List.inj_on_of_nodup_map (tree.distinct d) hname hother rfl
  exact congrArg Prod.snd hdistinct

theorem directory_snoc : tree.Directory (d ++ [name]) ↔
    tree.Directory d ∧ (name, true) ∈ tree.children d := by
  constructor
  · intro hdirectory
    generalize hpath : d ++ [name] = path at hdirectory
    cases hdirectory with
    | root => simp at hpath
    | sub hd hname =>
        obtain ⟨rfl, rfl⟩ := List.append_singleton_inj.mp hpath
        exact ⟨hd, hname⟩
  · rintro ⟨hd, hname⟩
    exact .sub hd hname

theorem file_snoc : tree.File (d ++ [name]) ↔
    tree.Directory d ∧ (name, false) ∈ tree.children d := by
  constructor
  · intro hfile
    generalize hpath : d ++ [name] = path at hfile
    cases hfile with
    | mk hd hname =>
        obtain ⟨rfl, rfl⟩ := List.append_singleton_inj.mp hpath
        exact ⟨hd, hname⟩
  · rintro ⟨hd, hname⟩
    exact .mk hd hname

theorem not_file_of_directory (hd : tree.Directory d) : ¬ tree.File d := by
  intro hfile
  cases hfile with
  | mk _ hname => exact Bool.noConfusion (kind_unique hname (directory_snoc.mp hd).2)

theorem directory_of_append {rest : List Name} (hdirectory : tree.Directory (d ++ rest)) :
    tree.Directory d := by
  induction rest using List.reverseRecOn with
  | nil => simpa using hdirectory
  | append_singleton rest name ih =>
      rw [← List.append_assoc] at hdirectory
      exact ih (directory_snoc.mp hdirectory).1

theorem sub_of_directory {rest : List Name} (hdirectory : tree.Directory (d ++ name :: rest)) :
    d ++ [name] ∈ tree.childrenOf true d := by
  have hsub : tree.Directory (d ++ [name]) := by
    have hsplit : tree.Directory ((d ++ [name]) ++ rest) := by simpa using hdirectory
    exact directory_of_append hsplit
  exact mem_childrenOf.mpr ⟨name, (directory_snoc.mp hsub).2, rfl⟩

theorem mem_below (hd : tree.Directory d) : f ∈ tree.below d ↔ tree.File f ∧ d <+: f := by
  induction d using below_induction tree with
  | step d ih =>
      rw [below_eq, List.mem_append, List.mem_flatMap]
      constructor
      · rintro (hf | ⟨sub, hsub, hf⟩)
        · obtain ⟨name, hname, rfl⟩ := mem_childrenOf.mp hf
          exact ⟨.mk hd hname, List.prefix_append _ _⟩
        · have hmem := hsub
          obtain ⟨name, hname, rfl⟩ := mem_childrenOf.mp hsub
          obtain ⟨hfile, hbelow⟩ := (ih _ hmem (.sub hd hname)).mp hf
          exact ⟨hfile, (List.prefix_append _ _).trans hbelow⟩
      · rintro ⟨hfile, rest, rfl⟩
        match rest with
        | [] =>
            rw [List.append_nil] at hfile
            exact absurd hfile (not_file_of_directory hd)
        | [name] => exact .inl (mem_childrenOf.mpr ⟨name, (file_snoc.mp hfile).2, rfl⟩)
        | name :: next :: rest =>
            obtain ⟨init, last, hinit⟩ : ∃ init last, next :: rest = init ++ [last] :=
              ⟨_, _, (List.dropLast_append_getLast (List.cons_ne_nil next rest)).symm⟩
            have hparent : tree.Directory (d ++ name :: init) := by
              rw [hinit, ← List.cons_append, ← List.append_assoc] at hfile
              exact (file_snoc.mp hfile).1
            have hsub := sub_of_directory hparent
            obtain ⟨name', hname', heq⟩ := mem_childrenOf.mp hsub
            refine .inr ⟨d ++ [name], hsub, (ih _ hsub (heq ▸ .sub hd hname')).mpr ⟨hfile, ?_⟩⟩
            exact ⟨next :: rest, by simp⟩

theorem childrenOf_nodup (d : List Name) : (tree.childrenOf directories d).Nodup := by
  have hnames : (((tree.children d).filter (·.2 == directories)).map Prod.fst).Nodup :=
    (tree.distinct d).sublist (List.filter_sublist.map _)
  have hmap : tree.childrenOf directories d =
      (((tree.children d).filter (·.2 == directories)).map Prod.fst).map (d ++ [·]) := by
    simp [childrenOf]
  rw [hmap]
  exact hnames.map fun _ _ heq => List.singleton_inj.mp (List.append_cancel_left heq)

theorem below_nodup (hd : tree.Directory d) : (tree.below d).Nodup := by
  induction d using below_induction tree with
  | step d ih =>
      have hdirectory : ∀ sub ∈ tree.childrenOf true d, tree.Directory sub := by
        intro sub hsub
        obtain ⟨name, hname, rfl⟩ := mem_childrenOf.mp hsub
        exact .sub hd hname
      rw [below_eq]
      refine List.Nodup.append (childrenOf_nodup d) (List.nodup_flatMap.mpr ⟨?_, ?_⟩) ?_
      · exact fun sub hsub => ih sub hsub (hdirectory sub hsub)
      · refine (childrenOf_nodup d).imp_of_mem fun {sub sub'} hsub hsub' hne f hf hf' => hne ?_
        -- two children of one directory that a file lies below are of one length
        obtain ⟨-, hbelow⟩ := (mem_below (hdirectory sub hsub)).mp hf
        obtain ⟨-, hbelow'⟩ := (mem_below (hdirectory sub' hsub')).mp hf'
        obtain ⟨name, -, rfl⟩ := mem_childrenOf.mp hsub
        obtain ⟨name', -, rfl⟩ := mem_childrenOf.mp hsub'
        exact List.IsPrefix.eq_of_length
          (List.prefix_of_prefix_length_le hbelow hbelow' (by simp)) (by simp)
      · intro f hf hsubs
        obtain ⟨sub, hsub, hbelow⟩ := List.mem_flatMap.mp hsubs
        obtain ⟨hfile, hbelow⟩ := (mem_below (hdirectory sub hsub)).mp hbelow
        obtain ⟨name, -, rfl⟩ := mem_childrenOf.mp hf
        obtain ⟨name', -, rfl⟩ := mem_childrenOf.mp hsub
        have heq := hbelow.eq_of_length (by simp)
        exact not_file_of_directory (hdirectory _ hsub) (heq ▸ hfile)

end RepoTree

variable {names : List Name} {name : Name} {text before after : Bytes}

@[simp] theorem pathOf_append (names others : List Name) :
    pathOf (names ++ others) = pathOf names ++ pathOf others := by
  simp [pathOf]

@[simp] theorem pathOf_singleton (name : Name) : pathOf [name] = slash :: name.text := by
  simp [pathOf]

theorem Name.slash_notMem (name : Name) : slash ∉ name.text := by
  intro hslash
  exact (name.plain slash hslash).2.2.2 rfl

theorem splitPath_append (before after : Bytes) :
    splitPath (before ++ slash :: after) = splitPath before ++ splitPath after := by
  have hsplit : (before ++ slash :: after).splitOnP (· == slash) =
      before.splitOnP (· == slash) ++ after.splitOnP (· == slash) :=
    List.splitOnP_append_cons before after (beq_self_eq_true slash)
  rw [splitPath, hsplit, List.filter_append]
  rfl

theorem splitPath_name (name : Name) : splitPath name.text = [name.text] := by
  have hparts : name.text.splitOnP (· == slash) = [name.text] := by
    apply List.splitOnP_eq_singleton
    intro c hc
    exact beq_eq_false_iff_ne.mpr fun heq => name.slash_notMem (heq ▸ hc)
  simp [splitPath, hparts, name.nonempty]

theorem splitPath_pathOf (names : List Name) :
    splitPath (pathOf names) = names.map Name.text := by
  induction names using List.reverseRecOn with
  | nil => rfl
  | append_singleton names name ih =>
      rw [pathOf_append, pathOf_singleton, splitPath_append, ih, splitPath_name, List.map_append,
        List.map_singleton]

theorem pathOf_injective : Function.Injective pathOf := by
  intro names others heq
  have hsplit := congrArg splitPath heq
  rw [splitPath_pathOf, splitPath_pathOf] at hsplit
  exact List.map_injective_iff.mpr (fun _ _ => Name.ext) hsplit

theorem sharedPath_spec {more : Bytes} (hslash : text = slash :: more) :
    (∃ after, text = sharedPath text ++ slash :: after) ∧
      ∀ c ∈ sharedPath text, isWildcard c = false := by
  subst hslash
  have hmem : slash ∈ ((slash :: more).takeWhile fun c => !isWildcard c).reverse := by
    have hplain : isWildcard slash = false := by decide
    simp [hplain]
  obtain ⟨behind, front, hsplit, hbehind⟩ := exists_split_of_mem hmem
  have hshared : (slash :: more).takeWhile (fun c => !isWildcard c) =
      front.reverse ++ slash :: behind.reverse := by
    rw [← List.reverse_reverse ((slash :: more).takeWhile _), hsplit]
    simp
  have hpath : sharedPath (slash :: more) = front.reverse := by
    have hlength : front.length + (behind.length + 1) - behind.length - 1 = front.length := by
      omega
    rw [sharedPath, hsplit, findFirstOf_append hbehind, hshared]
    simp [hlength]
  rw [hpath]
  constructor
  · refine ⟨behind.reverse ++ (slash :: more).dropWhile fun c => !isWildcard c, ?_⟩
    calc slash :: more
        = (slash :: more).takeWhile (fun c => !isWildcard c) ++
            (slash :: more).dropWhile fun c => !isWildcard c :=
              List.takeWhile_append_dropWhile.symm
      _ = _ := by rw [hshared, List.append_assoc, List.cons_append]
  · intro c hc
    have hall := List.mem_takeWhile_imp (hshared ▸ List.mem_append_left _ hc)
    simpa using hall

/-- A file matches a pattern segment by segment; a double star stands for any number of
segments, at the end of a pattern for at least one. -/
inductive Matches (glob : Bytes → Bytes → Bool) : List Bytes → List Bytes → Prop
  | nil : Matches glob [] []
  | segment {pattern key : Bytes} {patterns keys : List Bytes} (hstar : pattern ≠ doubleStar)
      (hkey : glob key pattern = true) (hrest : Matches glob patterns keys) :
      Matches glob (pattern :: patterns) (key :: keys)
  | rest {keys : List Bytes} (hkeys : keys ≠ []) : Matches glob [doubleStar] keys
  | here {patterns keys : List Bytes} (hpatterns : patterns ≠ [])
      (hrest : Matches glob patterns keys) : Matches glob (doubleStar :: patterns) keys
  | skip {patterns keys : List Bytes} (key : Bytes)
      (hrest : Matches glob (doubleStar :: patterns) keys) :
      Matches glob (doubleStar :: patterns) (key :: keys)

variable {glob : Bytes → Bytes → Bool} {pattern key : Bytes} {patterns keys : List Bytes}

theorem not_matches_nil : ¬ Matches glob (pattern :: patterns) [] := by
  induction patterns generalizing pattern with
  | nil =>
      intro hmatches
      cases hmatches with
      | rest hkeys => exact hkeys rfl
      | here hpatterns => exact hpatterns rfl
  | cons next patterns ih =>
      intro hmatches
      cases hmatches with
      | here _ hrest => exact ih hrest

theorem matches_nil_iff : Matches glob [] keys ↔ keys = [] := by
  constructor
  · intro hmatches
    cases hmatches
    rfl
  · rintro rfl
    exact .nil

theorem matches_segment_iff (hstar : pattern ≠ doubleStar) :
    Matches glob (pattern :: patterns) (key :: keys) ↔
      glob key pattern = true ∧ Matches glob patterns keys := by
  constructor
  · intro hmatches
    cases hmatches with
    | segment _ hkey hrest => exact ⟨hkey, hrest⟩
    | rest | here | skip => exact absurd rfl hstar
  · rintro ⟨hkey, hrest⟩
    exact .segment hstar hkey hrest

theorem matches_rest_iff : Matches glob [doubleStar] keys ↔ keys ≠ [] := by
  constructor
  · rintro hmatches rfl
    exact not_matches_nil hmatches
  · exact .rest

theorem matches_doubleStar_iff (hpatterns : patterns ≠ []) :
    Matches glob (doubleStar :: patterns) keys ↔
      ∃ left, left <:+ keys ∧ Matches glob patterns left := by
  constructor
  · intro hmatches
    generalize hall : doubleStar :: patterns = all at hmatches
    induction hmatches with
    | nil => cases hall
    | segment hstar => exact absurd (List.cons.inj hall).1.symm hstar
    | rest => exact absurd (List.cons.inj hall).2 hpatterns
    | here _ hrest =>
        cases hall
        exact ⟨_, List.suffix_refl _, hrest⟩
    | skip key _ ih =>
        obtain ⟨left, hleft, hrest⟩ := ih hall
        exact ⟨left, hleft.trans (List.suffix_cons key _), hrest⟩
  · rintro ⟨left, ⟨skipped, rfl⟩, hrest⟩
    induction skipped with
    | nil => exact .here hpatterns hrest
    | cons key skipped ih => exact .skip key ih

theorem mem_dropLast_tails {left : List Bytes} :
    left ∈ keys.tails.dropLast ↔ left <:+ keys ∧ left ≠ [] := by
  induction keys with
  | nil => simp
  | cons key keys ih =>
      have htails : keys.tails ≠ [] :=
        List.ne_nil_of_mem ((List.mem_tails _ _).mpr (List.suffix_refl keys))
      rw [List.tails_cons, List.dropLast_cons_of_ne_nil htails, List.mem_cons, ih,
        List.suffix_cons_iff]
      constructor
      · rintro (rfl | ⟨hleft, hne⟩)
        · exact ⟨.inl rfl, List.cons_ne_nil _ _⟩
        · exact ⟨.inr hleft, hne⟩
      · rintro ⟨rfl | hleft, hne⟩
        · exact .inl rfl
        · exact .inr ⟨hleft, hne⟩

theorem matchPath_iff : matchPath glob patterns keys = true ↔ Matches glob patterns keys := by
  induction patterns generalizing keys with
  | nil => rw [matchPath, List.isEmpty_iff, matches_nil_iff]
  | cons pattern patterns ih =>
      cases keys with
      | nil =>
          rw [matchPath]
          exact ⟨nofun, fun hmatches => absurd hmatches not_matches_nil⟩
      | cons key keys =>
          rw [matchPath]
          split
          case isTrue hstar =>
            subst hstar
            cases patterns with
            | nil => simp [matches_rest_iff]
            | cons next patterns =>
                rw [matches_doubleStar_iff (List.cons_ne_nil _ _), List.isEmpty_cons,
                  Bool.false_or, List.any_eq_true]
                constructor
                · rintro ⟨left, hleft, hmatch⟩
                  exact ⟨left, (mem_dropLast_tails.mp hleft).1, ih.mp hmatch⟩
                · rintro ⟨left, hleft, hmatches⟩
                  refine ⟨left, mem_dropLast_tails.mpr ⟨hleft, ?_⟩, ih.mpr hmatches⟩
                  rintro rfl
                  exact not_matches_nil hmatches
          case isFalse hstar =>
            rw [Bool.and_eq_true, ih, matches_segment_iff hstar]

def isGlobChar (c : UInt8) : Bool := c = 42 || c = 63 || c = 91 || c = 92

/-- `Glob` of the engine: a segment without wildcards matches itself only. -/
def LiteralGlob (glob : Bytes → Bytes → Bool) : Prop :=
  ∀ key pattern, pattern.any isGlobChar = false → (glob key pattern = true ↔ key = pattern)

theorem matches_literal {fixed : List Bytes} (hglob : LiteralGlob glob)
    (hfixed : ∀ segment ∈ fixed, segment.any isGlobChar = false) :
    Matches glob (fixed ++ patterns) keys ↔
      ∃ left, keys = fixed ++ left ∧ Matches glob patterns left := by
  induction fixed generalizing keys with
  | nil => simp
  | cons segment fixed ih =>
      have hsegment := hfixed segment List.mem_cons_self
      have hstar : segment ≠ doubleStar := by
        rintro rfl
        exact absurd hsegment (by decide)
      rw [List.cons_append]
      cases keys with
      | nil =>
          constructor
          · exact fun hmatches => absurd hmatches not_matches_nil
          · rintro ⟨left, hkeys, -⟩
            cases hkeys
      | cons key keys =>
          rw [matches_segment_iff hstar, hglob key segment hsegment,
            ih fun other hother => hfixed other (List.mem_cons_of_mem _ hother)]
          constructor
          · rintro ⟨rfl, left, rfl, hrest⟩
            exact ⟨left, rfl, hrest⟩
          · rintro ⟨left, hkeys, hrest⟩
            obtain ⟨rfl, rfl⟩ := List.cons.inj hkeys
            exact ⟨rfl, left, rfl, hrest⟩

end HaybarnHttpfs.HuggingFaceTree
