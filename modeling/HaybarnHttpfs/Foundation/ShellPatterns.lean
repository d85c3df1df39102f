import HaybarnHttpfs.Foundation.ByteStrings
import Mathlib.Data.List.Infix

/-!
Shell patterns: a star for any text, a question mark for any byte, brackets for a byte of
a class, and a backslash in front of a byte that stands for itself.
-/

namespace HaybarnHttpfs.Foundation.ShellPatterns

open HaybarnHttpfs.Foundation.ByteStrings

/-- `*`, `?`, `[` and the backslash. -/
def isSpecial (c : UInt8) : Bool := c = 42 || c = 63 || c = 91 || c = 92

/-- The texts of a pattern; `oneOf` tells which bytes the members of a class stand for. -/
inductive Matches (oneOf : Bytes → UInt8 → Bool) : Bytes → Bytes → Prop
  | nil : Matches oneOf [] []
  | plain {c : UInt8} {text pattern : Bytes} (hc : isSpecial c = false)
      (hrest : Matches oneOf text pattern) : Matches oneOf (c :: text) (c :: pattern)
  | anyByte (c : UInt8) {text pattern : Bytes} (hrest : Matches oneOf text pattern) :
      Matches oneOf (c :: text) (63 :: pattern)
  | escaped (c : UInt8) {text pattern : Bytes} (hrest : Matches oneOf text pattern) :
      Matches oneOf (c :: text) (92 :: c :: pattern)
  | ofClass {members : Bytes} {c : UInt8} {text pattern : Bytes}
      (hmember : oneOf members c = true) (hrest : Matches oneOf text pattern) :
      Matches oneOf (c :: text) (91 :: (members ++ 93 :: pattern))
  | starEnd {text pattern : Bytes} (hrest : Matches oneOf text pattern) :
      Matches oneOf text (42 :: pattern)
  | starByte (c : UInt8) {text pattern : Bytes} (hrest : Matches oneOf text (42 :: pattern)) :
      Matches oneOf (c :: text) (42 :: pattern)

variable {oneOf : Bytes → UInt8 → Bool} {text front pattern : Bytes}

theorem matches_nil_iff : Matches oneOf text [] ↔ text = [] := by
  constructor
  · intro hmatches
    cases hmatches
    rfl
  · rintro rfl
    exact .nil

theorem matches_cons_plain {p : UInt8} (hp : isSpecial p = false) :
    Matches oneOf text (p :: pattern) ↔
      ∃ rest, text = p :: rest ∧ Matches oneOf rest pattern := by
  constructor
  · intro hmatches
    cases hmatches with
    | plain _ hrest => exact ⟨_, rfl, hrest⟩
    | anyByte | escaped | ofClass | starEnd | starByte => exact absurd hp (by decide)
  · rintro ⟨rest, rfl, hrest⟩
    exact .plain hp hrest

theorem matches_append_plain (hfront : ∀ c ∈ front, isSpecial c = false) :
    Matches oneOf text (front ++ pattern) ↔
      ∃ rest, text = front ++ rest ∧ Matches oneOf rest pattern := by
  induction front generalizing text with
  | nil => simp
  | cons p front ih =>
      rw [List.forall_mem_cons] at hfront
      rw [List.cons_append, matches_cons_plain hfront.1]
      constructor
      · rintro ⟨rest, rfl, hrest⟩
        obtain ⟨more, rfl, hmore⟩ := (ih hfront.2).mp hrest
        exact ⟨more, rfl, hmore⟩
      · rintro ⟨rest, rfl, hrest⟩
        exact ⟨_, rfl, (ih hfront.2).mpr ⟨rest, rfl, hrest⟩⟩

theorem matches_plain (hplain : ∀ c ∈ pattern, isSpecial c = false) :
    Matches oneOf pattern pattern := by
  have hwhole : Matches oneOf pattern (pattern ++ []) :=
    (matches_append_plain hplain).mpr ⟨[], (List.append_nil _).symm, .nil⟩
  rwa [List.append_nil] at hwhole

theorem exists_byte (c d : UInt8) : ∃ b : UInt8, b ≠ c ∧ b ≠ d := by
  by_cases hzero : (0 : UInt8) ≠ c ∧ (0 : UInt8) ≠ d
  · exact ⟨0, hzero⟩
  by_cases hone : (1 : UInt8) ≠ c ∧ (1 : UInt8) ≠ d
  · exact ⟨1, hone⟩
  · refine ⟨2, ?_⟩
    grind

theorem exists_other_or_short {avoid : UInt8} (hmatches : Matches oneOf text pattern)
    (havoid : avoid ∉ text) :
    (∃ other, other ≠ text ∧ other ≠ [] ∧ avoid ∉ other ∧ Matches oneOf other pattern) ∨
      (text.length ≤ pattern.length ∧
        (text.length = pattern.length → ∀ c ∈ pattern, isSpecial c = false)) := by
  induction hmatches with
  | nil => exact .inr ⟨Nat.le_refl _, fun _ => List.forall_mem_nil _⟩
  | @plain c text pattern hc hrest ih =>
      rw [List.mem_cons, not_or] at havoid
      rcases ih havoid.2 with ⟨other, hother, -, hfree, hmore⟩ | ⟨hlength, hshort⟩
      · refine .inl ⟨c :: other, by simpa using hother, List.cons_ne_nil _ _, ?_, .plain hc hmore⟩
        simp [havoid.1, hfree]
      · refine .inr ⟨by simpa using hlength, fun heq => ?_⟩
        exact List.forall_mem_cons.mpr ⟨hc, hshort (by simpa using heq)⟩
  | @anyByte c text pattern hrest _ =>
      rw [List.mem_cons, not_or] at havoid
      obtain ⟨b, hb, hfree⟩ := exists_byte c avoid
      refine .inl ⟨b :: text, by simpa using hb, List.cons_ne_nil _ _, ?_, .anyByte b hrest⟩
      simp [hfree.symm, havoid.2]
  | @escaped c text pattern hrest ih =>
      rw [List.mem_cons, not_or] at havoid
      rcases ih havoid.2 with ⟨other, hother, -, hfree, hmore⟩ | ⟨hlength, -⟩
      · refine .inl ⟨c :: other, by simpa using hother, List.cons_ne_nil _ _, ?_,
          .escaped c hmore⟩
        simp [havoid.1, hfree]
      · refine .inr ⟨?_, fun heq => ?_⟩
        · simp only [List.length_cons] at *
          omega
        · simp only [List.length_cons] at *
          omega
  | @ofClass members c text pattern hmember hrest ih =>
      rw [List.mem_cons, not_or] at havoid
      rcases ih havoid.2 with ⟨other, hother, -, hfree, hmore⟩ | ⟨hlength, -⟩
      · refine .inl ⟨c :: other, by simpa using hother, List.cons_ne_nil _ _, ?_,
          .ofClass hmember hmore⟩
        simp [havoid.1, hfree]
      · refine .inr ⟨?_, fun heq => ?_⟩
        · simp only [List.length_cons, List.length_append] at *
          omega
        · simp only [List.length_cons, List.length_append] at *
          omega
  | @starEnd text pattern hrest _ =>
      obtain ⟨b, hb, -⟩ := exists_byte avoid avoid
      refine .inl ⟨b :: text, List.cons_ne_self b text, List.cons_ne_nil _ _, ?_,
        .starByte b (.starEnd hrest)⟩
      simp [hb.symm, havoid]
  | @starByte c text pattern hrest _ =>
      obtain ⟨b, hb, -⟩ := exists_byte avoid avoid
      refine .inl ⟨b :: c :: text, List.cons_ne_self b _, List.cons_ne_nil _ _, ?_,
        .starByte b (.starByte c hrest)⟩
      rw [List.mem_cons, not_or]
      exact ⟨hb.symm, havoid⟩

theorem exists_other {avoid : UInt8} (hself : Matches oneOf pattern pattern)
    (hspecial : ∃ c ∈ pattern, isSpecial c = true) (havoid : avoid ∉ pattern) :
    ∃ other, other ≠ pattern ∧ other ≠ [] ∧ avoid ∉ other ∧ Matches oneOf other pattern := by
  refine (exists_other_or_short hself havoid).resolve_right ?_
  rintro ⟨-, hplain⟩
  obtain ⟨c, hmem, hc⟩ := hspecial
  rw [hplain rfl c hmem] at hc
  cases hc

def matchText : Bytes → Bytes → Bool
  | [], text => text.isEmpty
  | p :: pattern, text =>
      if p = 42 then text.tails.any fun left => matchText pattern left
      else
        match text with
        | [] => false
        | c :: text =>
            if p = 63 then matchText pattern text
            else if p = 91 then false
            else if p = 92 then
              match pattern with
              | [] => false
              | d :: pattern => c = d && matchText pattern text
            else c = p && matchText pattern text

theorem matches_star_iff :
    Matches oneOf text (42 :: pattern) ↔ ∃ left, left <:+ text ∧ Matches oneOf left pattern := by
  constructor
  · intro hmatches
    generalize hstar : 42 :: pattern = whole at hmatches
    induction hmatches with
    | starEnd hrest =>
        cases hstar
        exact ⟨_, List.suffix_refl _, hrest⟩
    | starByte c _ ih =>
        obtain ⟨left, hleft, hrest⟩ := ih hstar
        exact ⟨left, hleft.trans (List.suffix_cons c _), hrest⟩
    | plain hc =>
        cases hstar
        exact absurd hc (by decide)
    | nil | anyByte | escaped | ofClass => cases hstar
  · rintro ⟨left, ⟨skipped, rfl⟩, hrest⟩
    induction skipped with
    | nil => exact .starEnd hrest
    | cons c skipped ih => exact .starByte c ih

theorem matchText_iff :
    matchText pattern text = true ↔ Matches (fun _ _ => false) text pattern := by
  fun_induction matchText pattern text with
  | case1 text => rw [List.isEmpty_iff, matches_nil_iff]
  | case2 pattern text ih =>
      rw [matches_star_iff, List.any_eq_true]
      simp only [List.mem_tails, ih]
  | case3 p pattern hp =>
      refine ⟨nofun, fun hmatches => ?_⟩
      cases hmatches with
      | starEnd => exact absurd rfl hp
  | case4 pattern c text _ ih =>
      rw [ih]
      constructor
      · exact .anyByte c
      · intro hmatches
        cases hmatches with
        | plain hc => exact absurd hc (by decide)
        | anyByte _ hrest => exact hrest
  | case5 pattern c text =>
      refine ⟨nofun, fun hmatches => ?_⟩
      cases hmatches with
      | plain hc => exact absurd hc (by decide)
      | ofClass hmember => cases hmember
  | case6 c text =>
      refine ⟨nofun, fun hmatches => ?_⟩
      cases hmatches with
      | plain hc => exact absurd hc (by decide)
  | case7 c text d pattern _ _ _ ih =>
      rw [Bool.and_eq_true, decide_eq_true_eq, ih]
      constructor
      · rintro ⟨rfl, hrest⟩
        exact .escaped c hrest
      · intro hmatches
        cases hmatches with
        | plain hc => exact absurd hc (by decide)
        | escaped _ hrest => exact ⟨rfl, hrest⟩
  | case8 p pattern hstar c text hany hclass hescape ih =>
      have hp : isSpecial p = false := by simp [isSpecial, hstar, hany, hclass, hescape]
      rw [Bool.and_eq_true, decide_eq_true_eq, ih, matches_cons_plain hp]
      constructor
      · rintro ⟨rfl, hrest⟩
        exact ⟨text, rfl, hrest⟩
      · rintro ⟨rest, heq, hrest⟩
        cases heq
        exact ⟨rfl, hrest⟩

end HaybarnHttpfs.Foundation.ShellPatterns
