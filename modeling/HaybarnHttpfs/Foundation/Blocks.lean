import HaybarnHttpfs.Foundation.Memory

/-!
Data cut into blocks of one size, of which the last may be short, and a memory
that takes in a block from its start.
-/

namespace HaybarnHttpfs.Foundation.Blocks

open HaybarnHttpfs.Foundation.Memory

universe u

variable {α : Type u} {size : Nat}

def block (size : Nat) (data : List α) (k : Nat) : List α := slice data (k * size) size

theorem length_block (data : List α) (k : Nat) :
    (block size data k).length = min size (data.length - k * size) := by
  simp [block, slice]

theorem block_append_of_full {data : List α} {k : Nat}
    (hfull : (k + 1) * size ≤ data.length) (more : List α) :
    block size (data ++ more) k = block size data k := by
  rw [Nat.succ_mul] at hfull
  unfold block slice
  rw [List.drop_append_of_le_length (by omega), List.take_append_of_le_length]
  rw [List.length_drop]
  omega

theorem block_append_of_last {data more : List α} {k : Nat} (hstart : k * size ≤ data.length)
    (hend : data.length + more.length ≤ (k + 1) * size) :
    block size (data ++ more) k = block size data k ++ more := by
  rw [Nat.succ_mul] at hend
  unfold block slice
  rw [List.drop_append_of_le_length hstart, List.take_of_length_le, List.take_of_length_le]
  · rw [List.length_drop]
    omega
  · rw [List.length_append, List.length_drop]
    omega

theorem block_zero_of_le {data : List α} (hlen : data.length ≤ size) :
    block size data 0 = data := by
  unfold block slice
  rw [Nat.zero_mul, List.drop_zero, List.take_of_length_le hlen]

theorem flatMap_block (data : List α) (n : Nat) :
    (List.range n).flatMap (block size data) = data.take (n * size) := by
  induction n with
  | zero => simp
  | succ n ih =>
      have hjoin := slice_append data 0 (n * size) size
      rw [Nat.zero_add] at hjoin
      rw [List.range_succ, List.flatMap_append, ih, Nat.succ_mul]
      simpa [block, slice] using hjoin

theorem flatMap_block_of_le {data : List α} {n : Nat} (hlen : data.length ≤ n * size) :
    (List.range n).flatMap (block size data) = data := by
  rw [flatMap_block, List.take_of_length_le hlen]

theorem length_block_of_full {data : List α} {k : Nat}
    (hfull : (k + 1) * size ≤ data.length) : (block size data k).length = size := by
  rw [length_block]
  rw [Nat.succ_mul] at hfull
  omega

theorem load_store_end (cells : Cells α) (len : Nat) (data : List α) :
    load (store cells len data) 0 (len + data.length) = load cells 0 len ++ data.map some := by
  apply List.ext_getElem?
  intro i
  by_cases hi : i < len
  · have hbefore : ¬ len ≤ i := by omega
    have hin : i < len + data.length := by omega
    rw [List.getElem?_append_left (by simpa using hi)]
    simp [load, store, hi, hbefore, hin]
  · have hge : len ≤ i := by omega
    rw [List.getElem?_append_right (by simpa using hge)]
    by_cases hin : i < len + data.length
    · have hdata : i - len < data.length := by omega
      simp [load, store, hge, hin, hdata]
    · have hout : data.length ≤ i - len := by omega
      simp [load, hin, hout]

end HaybarnHttpfs.Foundation.Blocks
