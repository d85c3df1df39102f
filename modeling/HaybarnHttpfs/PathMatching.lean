import HaybarnHttpfs.HuggingFaceTree
import HaybarnHttpfs.S3Glob

/-!
The two functions named `Match`, of the S3 glob and of the HuggingFace glob: both
decide the grammar of `Matches`, and the incomplete mode of the first one never
gives up on a prefix of a key that matches.
-/

namespace HaybarnHttpfs.PathMatching

open HaybarnHttpfs.Foundation.ByteStrings HaybarnHttpfs.S3Url HaybarnHttpfs.S3Glob
open HaybarnHttpfs.HuggingFaceFileSystem (matchPath)
open HaybarnHttpfs.HuggingFaceTree

variable {glob : Bytes → Bytes → Bool} {pattern key : Bytes} {patterns keys leading : List Bytes}

theorem matchSegments_completed :
    matchSegments glob true patterns keys = matchPath glob patterns keys := by
  induction patterns generalizing keys with
  | nil => rfl
  | cons pattern patterns ih =>
      cases keys with
      | nil => rfl
      | cons key keys =>
          have htails : matchSegments glob true patterns = matchPath glob patterns :=
            funext fun keys => ih
          rw [matchSegments, matchPath, htails]
          simp only [Bool.not_true, Bool.or_false]
          rfl

/-- What each segment of a pattern takes of a key. -/
inductive Takes (glob : Bytes → Bytes → Bool) : List Bytes → List (List Bytes) → Prop
  | nil : Takes glob [] []
  | segment {pattern key : Bytes} {patterns : List Bytes} {parts : List (List Bytes)}
      (hstar : pattern ≠ doubleStar) (hkey : glob key pattern = true)
      (hrest : Takes glob patterns parts) : Takes glob (pattern :: patterns) ([key] :: parts)
  | stars {patterns : List Bytes} {parts : List (List Bytes)} (part : List Bytes)
      (hpatterns : patterns ≠ []) (hrest : Takes glob patterns parts) :
      Takes glob (doubleStar :: patterns) (part :: parts)
  | final {part : List Bytes} (hpart : part ≠ []) : Takes glob [doubleStar] [part]

/-- A key is split along a pattern. -/
def SplitsAlong (glob : Bytes → Bytes → Bool) (patterns keys : List Bytes) : Prop :=
  ∃ parts : List (List Bytes), parts.flatten = keys ∧ Takes glob patterns parts

theorem splitsAlong_of_matches (hmatches : Matches glob patterns keys) :
    SplitsAlong glob patterns keys := by
  induction hmatches with
  | nil => exact ⟨[], rfl, .nil⟩
  | segment hstar hkey _ ih =>
      obtain ⟨parts, rfl, htakes⟩ := ih
      exact ⟨_, rfl, .segment hstar hkey htakes⟩
  | rest hkeys => exact ⟨_, List.append_nil _, .final hkeys⟩
  | here hpatterns _ ih =>
      obtain ⟨parts, rfl, htakes⟩ := ih
      exact ⟨[] :: parts, rfl, .stars [] hpatterns htakes⟩
  | skip key _ ih =>
      obtain ⟨parts, rfl, htakes⟩ := ih
      cases htakes with
      | segment hstar => exact absurd rfl hstar
      | stars part hpatterns hrest => exact ⟨_, rfl, .stars (key :: part) hpatterns hrest⟩
      | final => exact ⟨_, rfl, .final (List.cons_ne_nil key _)⟩

theorem matches_of_takes {parts : List (List Bytes)} (htakes : Takes glob patterns parts) :
    Matches glob patterns parts.flatten := by
  induction htakes with
  | nil => exact .nil
  | segment hstar hkey _ ih => exact .segment hstar hkey ih
  | @stars patterns parts part hpatterns _ ih =>
      exact (matches_doubleStar_iff hpatterns).mpr ⟨_, List.suffix_append part _, ih⟩
  | final hpart =>
      rw [List.flatten_singleton]
      exact .rest hpart

/-- Both matchers decide whether a key can be split along a pattern. -/
theorem matchers_agree (glob : Bytes → Bytes → Bool) (patterns keys : List Bytes) :
    matchSegments glob true patterns keys = matchPath glob patterns keys ∧
      (matchPath glob patterns keys = true ↔ SplitsAlong glob patterns keys) := by
  refine ⟨matchSegments_completed, ?_⟩
  rw [matchPath_iff]
  constructor
  · exact splitsAlong_of_matches
  · rintro ⟨parts, rfl, htakes⟩
    exact matches_of_takes htakes

theorem matchSegments_doubleStar (keys : List Bytes) :
    matchSegments glob false (doubleStar :: patterns) keys = true := by
  cases keys with
  | nil => rfl
  | cons key keys => simp [matchSegments]

theorem matchSegments_leading {glob : Bytes → Bytes → Bool} {patterns leading rest : List Bytes}
    (hmatch : matchSegments glob true patterns (leading ++ rest) = true) :
    matchSegments glob false patterns leading = true := by
  induction patterns generalizing leading with
  | nil =>
      rw [matchSegments, List.isEmpty_iff, List.append_eq_nil_iff] at hmatch
      rw [hmatch.1]
      rfl
  | cons pattern patterns ih =>
      by_cases hstar : pattern = doubleStar
      · -- the incomplete mode lets a double star take whatever comes
        subst hstar
        exact matchSegments_doubleStar leading
      · cases leading with
        | nil => rfl
        | cons key leading =>
            rw [List.cons_append, matchSegments, if_neg hstar, Bool.and_eq_true] at hmatch
            rw [matchSegments, if_neg hstar, Bool.and_eq_true]
            exact ⟨hmatch.1, ih hmatch.2⟩

/-- The incomplete mode accepts every prefix of what the complete mode accepts. -/
theorem matchSegments_incomplete {glob : Bytes → Bytes → Bool}
    {patterns keys leading : List Bytes}
    (hleading : leading <+: keys) (hmatch : matchSegments glob true patterns keys = true) :
    matchSegments glob false patterns leading = true := by
  obtain ⟨rest, rfl⟩ := hleading
  exact matchSegments_leading hmatch

theorem split_append (before after : Bytes) :
    split (before ++ slash :: after) = split before ++ split after :=
      splitPath_append before after

theorem split_nil : split [] = [] := by decide

theorem split_leading (directory rest : Bytes) :
    split (directory ++ [slash]) <+: split (directory ++ slash :: rest) := by
  rw [split_append directory [], split_append directory rest, split_nil, List.append_nil]
  exact List.prefix_append _ _

theorem pruned_leads_to_no_match {glob : Bytes → Bytes → Bool} {patternKey directory : Bytes}
    (hpruned : matchSegments glob false (split patternKey) (split (directory ++ [slash])) = false)
    (rest : Bytes) :
    matchSegments glob true (split patternKey) (split (directory ++ slash :: rest)) = false := by
  cases hmatch : matchSegments glob true (split patternKey)
      (split (directory ++ slash :: rest)) with
  | false => rfl
  | true =>
      obtain ⟨segments, hsegments⟩ := split_leading directory rest
      rw [matchSegments_leading (hsegments ▸ hmatch)] at hpruned
      cases hpruned

/-- A pattern with two double stars, a key that it matches and a prefix of that key. -/
theorem incomplete_match_example :
    matchSegments (fun key pattern => key = pattern || pattern = bytes "*") false
      (split (bytes "a/**/b/**/*")) (split (bytes "a/b/c/")) = true :=
  matchSegments_incomplete (split_leading (bytes "a/b/c") (bytes "b/d")) (by decide +kernel)

theorem split_of_slash_notMem {name : Bytes} (hname : slash ∉ name) (hne : name ≠ []) :
    split name = [name] := by
  have hparts : name.splitOnP (· == slash) = [name] := by
    apply List.splitOnP_eq_singleton
    intro c hc
    exact beq_eq_false_iff_ne.mpr fun heq => hname (heq ▸ hc)
  simp [split, hparts, hne]

theorem mem_of_mem_split {text segment : Bytes} {c : UInt8} (hsegment : segment ∈ split text)
    (hc : c ∈ segment) : c ∈ text := by
  induction hlength : text.length using Nat.strong_induction_on generalizing text with
  | _ n ih =>
      by_cases hslash : slash ∈ text
      · obtain ⟨first, rest, rfl, -⟩ := exists_split_of_mem hslash
        rw [List.length_append, List.length_cons] at hlength
        rw [split_append, List.mem_append] at hsegment
        rcases hsegment with hfirst | hrest
        · exact List.mem_append_left _ (ih _ (by omega) hfirst rfl)
        · exact List.mem_append_right _ (List.mem_cons_of_mem _ (ih _ (by omega) hrest rfl))
      · by_cases hempty : text = []
        · rw [hempty, split_nil] at hsegment
          cases hsegment
        · rw [split_of_slash_notMem hslash hempty, List.mem_singleton] at hsegment
          rwa [← hsegment]

/-- Empty, or ending in a slash. -/
def Folder (text : Bytes) : Prop := text = [] ∨ ∃ front, text = front ++ [slash]

theorem Folder.suffix {front text : Bytes} (hfolder : Folder (front ++ text)) : Folder text := by
  rcases List.eq_nil_or_concat' text with rfl | ⟨inner, last, rfl⟩
  · exact .inl rfl
  · rcases hfolder with hempty | ⟨outer, hlast⟩
    · simp at hempty
    · rw [← List.append_assoc] at hlast
      obtain ⟨-, heq⟩ := List.append_inj' hlast rfl
      exact .inr ⟨inner, by rw [heq]⟩

theorem split_folder {folder : Bytes} (hfolder : Folder folder) (rest : Bytes) :
    split (folder ++ rest) = split folder ++ split rest := by
  rcases hfolder with rfl | ⟨front, rfl⟩
  · rw [split_nil]
    rfl
  · rw [List.append_assoc, List.singleton_append, split_append, split_append front [], split_nil,
      List.append_nil]

theorem exists_folder (text : Bytes) : ∃ folder name, text = folder ++ name ∧ Folder folder ∧
    slash ∉ name := by
  by_cases hslash : slash ∈ text.reverse
  · obtain ⟨name, front, hsplit, hname⟩ := exists_split_of_mem hslash
    refine ⟨front.reverse ++ [slash], name.reverse, ?_, .inr ⟨_, rfl⟩, by simpa using hname⟩
    rw [← List.reverse_reverse text, hsplit]
    simp
  · exact ⟨[], text, rfl, .inl rfl, by simpa using hslash⟩

theorem split_ne_nil {text : Bytes} (hne : text ≠ []) (hlast : text.getLast? ≠ some slash) :
    split text ≠ [] := by
  obtain ⟨folder, name, rfl, hfolder, hname⟩ := exists_folder text
  have hnamed : name ≠ [] := by
    rintro rfl
    rw [List.append_nil] at hne hlast
    obtain ⟨front, rfl⟩ := hfolder.resolve_left hne
    exact hlast List.getLast?_concat
  rw [split_folder hfolder, split_of_slash_notMem hname hnamed]
  simp

theorem matches_append_self {fixed : List Bytes}
    (hfixed : ∀ segment ∈ fixed, segment ≠ doubleStar ∧ glob segment segment = true) :
    Matches glob (fixed ++ patterns) (fixed ++ keys) ↔ Matches glob patterns keys := by
  induction fixed with
  | nil => exact Iff.rfl
  | cons segment fixed ih =>
      rw [List.forall_mem_cons] at hfixed
      rw [List.cons_append, List.cons_append, matches_segment_iff hfixed.1.1, ih hfixed.2]
      exact and_iff_right hfixed.1.2

end HaybarnHttpfs.PathMatching
