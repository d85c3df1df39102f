import Mathlib.Data.List.Basic

/-!
Codes of which no value's code begins the code of another one, and what a
concatenation of such codes says about the values.
-/

namespace HaybarnHttpfs.Foundation.PrefixCodes

universe u v

variable {α : Type u} {β : Type v}

/-- The beginning of a text determines the value that is encoded there, whatever follows. -/
def PrefixFree (encode : α → List β) : Prop :=
  ∀ ⦃a b : α⦄ ⦃rest rest' : List β⦄, encode a ++ rest = encode b ++ rest' → a = b ∧ rest = rest'

theorem PrefixFree.terminated {encode : α → List β} (hfree : PrefixFree encode) (mark : List β) :
    PrefixFree fun a => encode a ++ mark := by
  intro a b rest rest' heq
  rw [List.append_assoc, List.append_assoc] at heq
  obtain ⟨rfl, hbehind⟩ := hfree heq
  exact ⟨rfl, List.append_cancel_left hbehind⟩

theorem prefixFree_of_delimiter {encode : α → List β} (hinjective : Function.Injective encode)
    {c : β} (hfresh : ∀ a, c ∉ encode a) : PrefixFree fun a => encode a ++ [c] := by
  have hsplit : ∀ l l' rest rest' : List β, c ∉ l → c ∉ l' →
      l ++ c :: rest = l' ++ c :: rest' → l = l' ∧ rest = rest' := by
    intro l
    induction l with
    | nil =>
        rintro (_ | ⟨d, l'⟩) rest rest' - hl' heq
        · exact ⟨rfl, List.tail_eq_of_cons_eq heq⟩
        · exact absurd (List.head_eq_of_cons_eq heq ▸ List.mem_cons_self) hl'
    | cons d l ih =>
        rintro (_ | ⟨d', l'⟩) rest rest' hl hl' heq
        · exact absurd (List.head_eq_of_cons_eq heq ▸ List.mem_cons_self) hl
        · obtain ⟨rfl, hbehind⟩ := List.cons_eq_cons.mp heq
          rw [List.mem_cons, not_or] at hl hl'
          obtain ⟨rfl, rfl⟩ := ih l' rest rest' hl.2 hl'.2 hbehind
          exact ⟨rfl, rfl⟩
  intro a b rest rest' heq
  rw [List.append_assoc, List.append_assoc] at heq
  obtain ⟨hcode, rfl⟩ := hsplit _ _ _ _ (hfresh a) (hfresh b) heq
  exact ⟨hinjective hcode, rfl⟩

theorem prefixFree_of_length {count : Nat → List β} (hcount : PrefixFree count) :
    PrefixFree fun l : List β => count l.length ++ l := by
  intro l l' rest rest' heq
  rw [List.append_assoc, List.append_assoc] at heq
  obtain ⟨hlength, heq⟩ := hcount heq
  exact List.append_inj heq hlength

theorem PrefixFree.aligned {encode : α → List β} (hfree : PrefixFree encode) {l l' : List α}
    {rest rest' : List β} (heq : l.flatMap encode ++ rest = l'.flatMap encode ++ rest') :
    (∃ more, l' = l ++ more ∧ rest = more.flatMap encode ++ rest') ∨
      ∃ more, l = l' ++ more ∧ rest' = more.flatMap encode ++ rest := by
  induction l generalizing l' with
  | nil => exact .inl ⟨l', rfl, heq⟩
  | cons a l ih =>
      cases l' with
      | nil => exact .inr ⟨a :: l, rfl, heq.symm⟩
      | cons b l' =>
          rw [List.flatMap_cons, List.flatMap_cons, List.append_assoc, List.append_assoc] at heq
          obtain ⟨rfl, hbehind⟩ := hfree heq
          rcases ih hbehind with ⟨more, rfl, hrest⟩ | ⟨more, rfl, hrest⟩
          · exact .inl ⟨more, rfl, hrest⟩
          · exact .inr ⟨more, rfl, hrest⟩

/-- Codes that are never empty can be concatenated. -/
theorem PrefixFree.flatMap_injective {encode : α → List β} (hfree : PrefixFree encode)
    (hne : ∀ a, encode a ≠ []) : Function.Injective fun l : List α => l.flatMap encode := by
  have hnil : ∀ more : List α, [] = more.flatMap encode ++ [] → more = [] := by
    rintro (_ | ⟨a, more⟩) heq
    · rfl
    · simp [hne] at heq
  intro l l' heq
  rcases hfree.aligned (congrArg (· ++ []) heq) with ⟨more, rfl, hrest⟩ | ⟨more, rfl, hrest⟩
  · rw [hnil more hrest, List.append_nil]
  · rw [hnil more hrest, List.append_nil]

end HaybarnHttpfs.Foundation.PrefixCodes
