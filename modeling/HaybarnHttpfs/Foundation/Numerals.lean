import HaybarnHttpfs.Foundation.ByteStrings
import Mathlib.Algebra.GroupWithZero.Nat
import Mathlib.Data.List.TakeWhile

/-!
Numbers in texts: `std::stoull` and the numerals it reads back.
-/

namespace HaybarnHttpfs.Foundation.Numerals

open HaybarnHttpfs.Foundation.ByteStrings

def isSpace (c : UInt8) : Bool := c = 32 || (9 ≤ c && c ≤ 13)

def isDigit (c : UInt8) : Bool := 48 ≤ c && c ≤ 57

def digitsValue (digits : Bytes) : Nat :=
  digits.foldl (fun value c => 10 * value + (c.toNat - 48)) 0

/-- A sign in front of the digits, whether it is a minus, and what is behind it. -/
def splitSign : Bytes → Bool × Bytes
  | 43 :: text => (false, text)
  | 45 :: text => (true, text)
  | text => (false, text)

/-- `std::stoull` to base 10; nothing if it throws. A minus negates modulo 2^64. -/
def stoull (text : Bytes) : Option Nat :=
  let (negative, text) := splitSign (text.dropWhile isSpace)
  let digits := text.takeWhile isDigit
  if digits.isEmpty then none
  else if 2 ^ 64 ≤ digitsValue digits then none
  else if negative then some ((2 ^ 64 - digitsValue digits) % 2 ^ 64)
  else some (digitsValue digits)

/-- One or more digits, with or without leading zeros. -/
structure Numeral (text : Bytes) (n : Nat) : Prop where
  nonempty : text ≠ []
  digits : ∀ c ∈ text, isDigit c = true
  value : digitsValue text = n

instance (text : Bytes) (n : Nat) : Decidable (Numeral text n) :=
  decidable_of_iff (text ≠ [] ∧ text.all isDigit = true ∧ digitsValue text = n)
    ⟨fun h => ⟨h.1, List.all_eq_true.mp h.2.1, h.2.2⟩,
      fun h => ⟨h.nonempty, List.all_eq_true.mpr h.digits, h.value⟩⟩

theorem not_isSpace_of_isDigit {c : UInt8} (hdigit : isDigit c = true) : isSpace c = false := by
  simp only [isDigit, isSpace, Bool.and_eq_true, decide_eq_true_eq, Bool.or_eq_false_iff,
    Bool.and_eq_false_iff, decide_eq_false_iff_not, UInt8.le_iff_toNat_le,
    ← UInt8.toNat_inj] at hdigit ⊢
  simp at hdigit ⊢
  omega

theorem splitSign_of_isDigit {c : UInt8} {text : Bytes} (hdigit : isDigit c = true) :
    splitSign (c :: text) = (false, c :: text) := by
  have hplus : c ≠ 43 := by
    rintro rfl
    exact absurd hdigit (by decide)
  have hminus : c ≠ 45 := by
    rintro rfl
    exact absurd hdigit (by decide)
  simp [splitSign, hplus, hminus]

theorem Numeral.stoull {text : Bytes} {n : Nat} (hnumeral : Numeral text n) :
    stoull text = if n < 2 ^ 64 then some n else none := by
  obtain ⟨c, rest, rfl⟩ := List.exists_cons_of_ne_nil hnumeral.nonempty
  have hfirst : isDigit c = true := hnumeral.digits c List.mem_cons_self
  have hall : (c :: rest).takeWhile isDigit = c :: rest :=
    List.takeWhile_eq_self_iff.mpr hnumeral.digits
  have hspace : (c :: rest).dropWhile isSpace = c :: rest := by
    simp [not_isSpace_of_isDigit hfirst]
  unfold Numerals.stoull
  rw [hspace, splitSign_of_isDigit hfirst]
  simp only [hall, hnumeral.value, List.isEmpty_cons, Bool.false_eq_true, if_false]
  by_cases hfits : n < 2 ^ 64
  · rw [if_pos hfits, if_neg (by omega)]
  · rw [if_neg hfits, if_pos (by omega)]

theorem not_mem_decimal {c : UInt8} (hc : isDigit c = false) (n : Nat) : c ∉ decimal n := by
  intro hmem
  obtain ⟨d, hd, rfl⟩ := List.mem_map.mp hmem
  have hdigit := Nat.isDigit_of_mem_toDigits (by decide) (by decide) hd
  simp only [Char.isDigit, Bool.and_eq_true, decide_eq_true_eq, ge_iff_le,
    UInt32.le_iff_toNat_le] at hdigit
  rw [← Bool.not_eq_true] at hc
  apply hc
  simp only [isDigit, Bool.and_eq_true, decide_eq_true_eq, UInt8.le_iff_toNat_le, Char.toUInt8,
    UInt32.toNat_toUInt8]
  exact ⟨by simp at hdigit ⊢; omega, by simp at hdigit ⊢; omega⟩

theorem ne_decimal_of_mem {text : Bytes} {c : UInt8} (hmem : c ∈ text) (hc : isDigit c = false)
    (n : Nat) : text ≠ decimal n := by
  rintro rfl
  exact not_mem_decimal hc n hmem

end HaybarnHttpfs.Foundation.Numerals
