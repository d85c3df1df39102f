import Mathlib.Data.List.Nodup
import Mathlib.Data.List.Perm.Subperm
import Mathlib.Data.List.Range

/-!
Tables that are numbered without gaps, and lists as tables whose rows change one
at a time.
-/

namespace HaybarnHttpfs.Foundation.Numbering

universe u v

variable {α : Type u}

/-- The numbers are `0` to `l.length - 1`, each once, in any order. -/
structure Numbered (l : List Nat) : Prop where
  nodup : l.Nodup
  lt : ∀ k ∈ l, k < l.length

theorem numbered_nil : Numbered [] := ⟨List.nodup_nil, nofun⟩

theorem Numbered.perm {l l' : List Nat} (hl : Numbered l) (hperm : l.Perm l') :
    Numbered l' := by
  refine ⟨hperm.nodup_iff.mp hl.nodup, ?_⟩
  intro k hk
  rw [← hperm.length_eq]
  exact hl.lt k (hperm.mem_iff.mpr hk)

theorem Numbered.cons {l : List Nat} {k : Nat} (hl : Numbered l) (hk : k = l.length) :
    Numbered (k :: l) := by
  subst hk
  refine ⟨List.nodup_cons.mpr ⟨fun hmem => Nat.lt_irrefl _ (hl.lt _ hmem), hl.nodup⟩, ?_⟩
  intro k hk
  rw [List.length_cons]
  rcases List.mem_cons.mp hk with rfl | hmem
  · omega
  · have hlt := hl.lt k hmem
    omega

theorem Numbered.of_cons {l : List Nat} {k : Nat} (hl : Numbered (k :: l))
    (hk : k = l.length) : Numbered l := by
  obtain ⟨hnot, hnodup⟩ := List.nodup_cons.mp hl.nodup
  refine ⟨hnodup, ?_⟩
  intro i hi
  have hlt := hl.lt i (List.mem_cons_of_mem k hi)
  have hne : i ≠ k := by
    rintro rfl
    exact hnot hi
  rw [List.length_cons] at hlt
  omega

theorem Numbered.perm_range {l : List Nat} (hl : Numbered l) :
    l.Perm (List.range l.length) := by
  have hsubset : l ⊆ List.range l.length := by
    intro k hk
    exact List.mem_range.mpr (hl.lt k hk)
  apply (hl.nodup.subperm hsubset).perm_of_length_le
  rw [List.length_range]

theorem Numbered.mem_iff {l : List Nat} (hl : Numbered l) {k : Nat} :
    k ∈ l ↔ k < l.length := by
  rw [hl.perm_range.mem_iff, List.mem_range]

theorem map_set_of_eq {γ : Type v} {l : List α} {k : Nat} {a b : α} (f : α → γ)
    (ha : l[k]? = some a) (hb : f b = f a) : (l.set k b).map f = l.map f := by
  apply List.ext_getElem?
  intro i
  by_cases hi : k = i
  · subst hi
    obtain ⟨hk, hget⟩ := List.getElem?_eq_some_iff.mp ha
    simp [hb, hk, hget]
  · simp [List.getElem?_set_ne hi]

theorem countP_set_add {l : List α} {k : Nat} {a : α} (p : α → Bool) (b : α)
    (ha : l[k]? = some a) :
    (l.set k b).countP p + (if p a then 1 else 0) = l.countP p + if p b then 1 else 0 := by
  induction l generalizing k with
  | nil => simp at ha
  | cons c l ih =>
      cases k with
      | zero =>
          rw [List.getElem?_cons_zero, Option.some.injEq] at ha
          subst ha
          rw [List.set_cons_zero, List.countP_cons, List.countP_cons]
          omega
      | succ k =>
          rw [List.getElem?_cons_succ] at ha
          rw [List.set_cons_succ, List.countP_cons, List.countP_cons]
          have hrest := ih ha
          omega

theorem mem_set_of_mem {l : List α} {k : Nat} {a b c : α} (ha : l[k]? = some a)
    (hc : c ∈ l) : c = a ∨ c ∈ l.set k b := by
  obtain ⟨i, hi⟩ := List.mem_iff_getElem?.mp hc
  by_cases hik : k = i
  · subst hik
    rw [ha, Option.some.injEq] at hi
    exact .inl hi.symm
  · right
    have hset : (l.set k b)[i]? = some c := by
      rw [List.getElem?_set_ne hik, hi]
    exact List.mem_of_getElem? hset

theorem mem_set_self {l : List α} {k : Nat} {a b : α} (ha : l[k]? = some a) :
    b ∈ l.set k b :=
  List.mem_set (List.getElem?_eq_some_iff.mp ha).1 b

theorem set_of_getElem? {l : List α} {k : Nat} {a : α} (ha : l[k]? = some a) :
    l.set k a = l := by
  obtain ⟨hk, rfl⟩ := List.getElem?_eq_some_iff.mp ha
  exact List.set_getElem_self hk

theorem mapM_eq_some_map {γ : Type v} {f : α → Option γ} {g : α → γ} {l : List α}
    (hf : ∀ a ∈ l, f a = some (g a)) : l.mapM f = some (l.map g) := by
  induction l with
  | nil => rfl
  | cons a l ih =>
      rw [List.forall_mem_cons] at hf
      rw [List.mapM_cons, hf.1, ih hf.2]
      rfl

end HaybarnHttpfs.Foundation.Numbering
