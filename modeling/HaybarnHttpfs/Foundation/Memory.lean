import Mathlib.Data.List.Basic

/-!
Byte memory with uninitialised cells, and slices of the data it holds.
-/

namespace HaybarnHttpfs.Foundation.Memory

universe u

variable {α : Type u}

/-- A cell is `none` until something is written to it. -/
abbrev Cells (α : Type u) := Nat → Option α

def blank : Cells α := fun _ => none

def store (cells : Cells α) (offset : Nat) (data : List α) : Cells α :=
  fun i => if offset ≤ i ∧ i < offset + data.length then data[i - offset]? else cells i

def load (cells : Cells α) (offset len : Nat) : List (Option α) :=
  (List.range len).map fun i => cells (offset + i)

def overlay (written cells : Cells α) : Cells α :=
  fun i => (written i).or (cells i)

def Holds (cells : Cells α) (data : List α) : Prop :=
  ∀ i < data.length, cells i = data[i]?

def slice (data : List α) (offset len : Nat) : List α := (data.drop offset).take len

@[simp] theorem length_load (cells : Cells α) (offset len : Nat) :
    (load cells offset len).length = len := by
  simp [load]

@[simp] theorem load_zero (cells : Cells α) (offset : Nat) : load cells offset 0 = [] :=
  rfl

theorem length_slice {data : List α} {offset len : Nat}
    (hlen : offset + len ≤ data.length) : (slice data offset len).length = len := by
  simp only [slice, List.length_take, List.length_drop]
  omega

@[simp] theorem slice_zero (data : List α) (offset : Nat) : slice data offset 0 = [] := by
  simp [slice]

theorem getElem?_slice {data : List α} {offset len i : Nat} (hi : i < len) :
    (slice data offset len)[i]? = data[offset + i]? := by
  simp [slice, hi, List.getElem?_drop]

theorem slice_append (data : List α) (offset m n : Nat) :
    slice data offset m ++ slice data (offset + m) n = slice data offset (m + n) := by
  simp only [slice]
  rw [← List.drop_drop, List.take_add]

theorem holds_store_append {cells : Cells α} {data more : List α}
    (hcells : Holds cells data) : Holds (store cells data.length more) (data ++ more) := by
  intro i hi
  rw [List.length_append] at hi
  by_cases hin : i < data.length
  · have hout : ¬ (data.length ≤ i ∧ i < data.length + more.length) := by omega
    rw [store, if_neg hout, hcells i hin, List.getElem?_append_left hin]
  · have hge : data.length ≤ i := by omega
    rw [store, if_pos ⟨hge, hi⟩, List.getElem?_append_right hge]

theorem holds_store_zero (cells : Cells α) (data : List α) :
    Holds (store cells 0 data) data := by
  have hnil : Holds cells [] := fun i hi => by simp at hi
  exact holds_store_append hnil

theorem Holds.unique {cells : Cells α} {data data' : List α} (hdata : Holds cells data)
    (hdata' : Holds cells data') (hlength : data.length = data'.length) : data = data' := by
  apply List.ext_getElem?
  intro i
  by_cases hi : i < data.length
  · rw [← hdata i hi, hdata' i (hlength ▸ hi)]
  · rw [List.getElem?_eq_none (by omega), List.getElem?_eq_none (by omega)]

end HaybarnHttpfs.Foundation.Memory
