import Mathlib.Data.List.Count
import Mathlib.Data.List.Basic

/-!
Things that are handed from one place to another. The places are the rows of tables, a row
holds a list of things, and rows change one at a time.
-/

namespace HaybarnHttpfs.Foundation.Custody

universe u v

variable {ρ : Type u} {τ : Type v} {held : ρ → List τ} {rows : List ρ} {k : Nat}
  {row : ρ}

/-- What the rows hold together. -/
def holdings (held : ρ → List τ) (rows : List ρ) : List τ := rows.flatMap held

@[simp] theorem holdings_cons :
    holdings held (row :: rows) = held row ++ holdings held rows :=
  List.flatMap_cons

theorem mem_holdings {x : τ} : x ∈ holdings held rows ↔ ∃ row ∈ rows, x ∈ held row :=
  List.mem_flatMap

theorem count_holdings_set [BEq τ] (held : ρ → List τ) (row' : ρ) (x : τ)
    (hrow : rows[k]? = some row) :
    (holdings held (rows.set k row')).count x + (held row).count x =
      (holdings held rows).count x + (held row').count x := by
  induction rows generalizing k with
  | nil => simp at hrow
  | cons first rows ih =>
      cases k with
      | zero =>
          rw [List.getElem?_cons_zero, Option.some.injEq] at hrow
          subst hrow
          simp only [List.set_cons_zero, holdings_cons, List.count_append]
          omega
      | succ k =>
          rw [List.getElem?_cons_succ] at hrow
          have hrest := ih hrow
          simp only [List.set_cons_succ, holdings_cons, List.count_append]
          omega

/-- Rows of bounded length: together they are full exactly if each of them is. -/
theorem length_flatten_eq_iff {lists : List (List τ)} {bound : Nat}
    (hbound : ∀ list ∈ lists, list.length ≤ bound) :
    lists.flatten.length ≤ lists.length * bound ∧
      (lists.flatten.length = lists.length * bound ↔ ∀ list ∈ lists, list.length = bound) := by
  induction lists with
  | nil => simp
  | cons list lists ih =>
      rw [List.forall_mem_cons] at hbound
      obtain ⟨hle, hiff⟩ := ih hbound.2
      have hlength := hbound.1
      rw [List.flatten_cons, List.length_append, List.length_cons, List.forall_mem_cons, ← hiff,
        Nat.succ_mul]
      omega

end HaybarnHttpfs.Foundation.Custody
