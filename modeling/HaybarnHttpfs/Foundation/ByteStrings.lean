import Mathlib.Data.List.Basic

/-!
Byte strings with the operations of C++ `std::string` that a position-based
parser uses: search from a position, `substr`, prefix and suffix tests.
-/

namespace HaybarnHttpfs.Foundation.ByteStrings

abbrev Bytes := List UInt8

instance : LawfulBEq Bytes := inferInstanceAs (LawfulBEq (List UInt8))

def bytes (s : String) : Bytes := s.toList.map Char.toUInt8

/-- `std::string::find`: the least position at which `needle` occurs. -/
def find (needle : Bytes) : Bytes → Option Nat
  | [] => if needle.isEmpty then some 0 else none
  | c :: text =>
      if needle.isPrefixOf (c :: text) then some 0
      else (find needle text).map (· + 1)

def findFrom (needle text : Bytes) (pos : Nat) : Option Nat :=
  (find needle (text.drop pos)).map (· + pos)

def findFirstOf (c : UInt8) (text : Bytes) : Option Nat :=
  text.findIdx? (· == c)

def substr (text : Bytes) (pos len : Nat) : Bytes := (text.drop pos).take len

def startsWith (text leading : Bytes) : Bool := leading.isPrefixOf text

def endsWith (text trailing : Bytes) : Bool := trailing.isSuffixOf text

def lowerByte (c : UInt8) : UInt8 :=
  if 65 ≤ c ∧ c ≤ 90 then c + 32 else c

def lower (text : Bytes) : Bytes := text.map lowerByte

theorem lowerByte_lowerByte (c : UInt8) : lowerByte (lowerByte c) = lowerByte c := by
  by_cases hupper : 65 ≤ c ∧ c ≤ 90
  · rw [lowerByte, lowerByte, if_pos hupper, if_neg]
    rintro ⟨-, hle⟩
    rw [UInt8.le_iff_toNat_le, UInt8.le_iff_toNat_le] at hupper
    rw [UInt8.le_iff_toNat_le, UInt8.toNat_add] at hle
    simp at hupper hle
    omega
  · rw [lowerByte, lowerByte, if_neg hupper, if_neg hupper]

theorem lower_lower (text : Bytes) : lower (lower text) = lower text := by
  unfold lower
  rw [List.map_map]
  exact List.map_congr_left fun c _ => lowerByte_lowerByte c

theorem find_singleton {c : UInt8} {text rest : Bytes} (hfirst : c ∉ text) :
    find [c] (text ++ c :: rest) = some text.length := by
  induction text with
  | nil => simp [find]
  | cons d text ih =>
      rw [List.mem_cons, not_or] at hfirst
      simp [find, ih hfirst.2, hfirst.1]

theorem of_find_singleton {c : UInt8} {text : Bytes} {pos : Nat}
    (hfind : find [c] text = some pos) : pos < text.length ∧ c ∉ text.take pos := by
  induction text generalizing pos with
  | nil => simp [find] at hfind
  | cons d text ih =>
      unfold find at hfind
      split at hfind
      · cases hfind
        simp
      · rename_i hother
        obtain ⟨pos', hfind', rfl⟩ := Option.map_eq_some_iff.mp hfind
        obtain ⟨hpos, hfirst⟩ := ih hfind'
        have hne : c ≠ d := by
          rintro rfl
          exact hother (by simp)
        rw [List.take_succ_cons, List.mem_cons, not_or, List.length_cons]
        exact ⟨by omega, hne, hfirst⟩

theorem drop_of_find_singleton {c : UInt8} {text : Bytes} {pos : Nat}
    (hfind : find [c] text = some pos) : ∃ rest, text.drop pos = c :: rest := by
  induction text generalizing pos with
  | nil => simp [find] at hfind
  | cons d text ih =>
      unfold find at hfind
      split at hfind
      · rename_i hstarts
        cases hfind
        have hcd : c = d := by simpa using hstarts
        exact ⟨text, by rw [List.drop_zero, hcd]⟩
      · obtain ⟨pos', hfind', rfl⟩ := Option.map_eq_some_iff.mp hfind
        exact ih hfind'

theorem drop_of_findFrom_singleton {c : UInt8} {text : Bytes} {start pos : Nat}
    (hfind : findFrom [c] text start = some pos) : ∃ rest, text.drop pos = c :: rest := by
  obtain ⟨behind, hbehind, rfl⟩ := Option.map_eq_some_iff.mp hfind
  rw [Nat.add_comm, ← List.drop_drop]
  exact drop_of_find_singleton hbehind

theorem append_cons_inj_first {c : UInt8} {first first' rest rest' : Bytes} (hfirst : c ∉ first)
    (hfirst' : c ∉ first') (heq : first ++ c :: rest = first' ++ c :: rest') :
    first = first' ∧ rest = rest' := by
  have hpos : find [c] (first ++ c :: rest) = some first.length := find_singleton hfirst
  rw [heq, find_singleton hfirst'] at hpos
  obtain ⟨hsame, hrest⟩ := List.append_inj heq (Option.some.inj hpos).symm
  exact ⟨hsame, List.tail_eq_of_cons_eq hrest⟩

theorem find_append_of_notMem {c : UInt8} {text : Bytes} (hfirst : c ∉ text) (rest : Bytes) :
    find [c] (text ++ rest) = (find [c] rest).map (· + text.length) := by
  induction text with
  | nil => simp
  | cons d text ih =>
      rw [List.mem_cons, not_or] at hfirst
      rw [List.cons_append, find, if_neg (by simp [hfirst.1]), ih hfirst.2, Option.map_map]
      rfl

theorem findFrom_split {c : UInt8} {text : Bytes} {start pos : Nat}
    (hfind : findFrom [c] text start = some pos) :
    ∃ middle rest, text.drop start = middle ++ c :: rest ∧ c ∉ middle ∧
      pos = start + middle.length := by
  obtain ⟨behind, hbehind, rfl⟩ := Option.map_eq_some_iff.mp hfind
  obtain ⟨hlength, hfirst⟩ := of_find_singleton hbehind
  obtain ⟨rest, hrest⟩ := drop_of_find_singleton hbehind
  refine ⟨(text.drop start).take behind, rest, ?_, hfirst, ?_⟩
  · rw [← hrest, List.take_append_drop]
  · rw [List.length_take, Nat.min_eq_left (Nat.le_of_lt hlength), Nat.add_comm]

theorem findFirstOf_append {c : UInt8} {text rest : Bytes} (hfirst : c ∉ text) :
    findFirstOf c (text ++ c :: rest) = some text.length := by
  induction text with
  | nil => simp [findFirstOf, List.findIdx?_cons]
  | cons d text ih =>
      rw [List.mem_cons, not_or] at hfirst
      have htext := ih hfirst.2
      unfold findFirstOf at htext ⊢
      rw [List.cons_append, List.findIdx?_cons, htext]
      simp [Ne.symm hfirst.1]

theorem findFirstOf_eq_none {c : UInt8} {text : Bytes} (hnone : c ∉ text) :
    findFirstOf c text = none := by
  unfold findFirstOf
  rw [List.findIdx?_eq_none_iff]
  intro d hd
  rw [beq_eq_false_iff_ne]
  rintro rfl
  exact hnone hd

theorem exists_split_of_mem {c : UInt8} {text : Bytes} (hmem : c ∈ text) :
    ∃ first rest, text = first ++ c :: rest ∧ c ∉ first := by
  induction text with
  | nil => cases hmem
  | cons d text ih =>
      by_cases hd : d = c
      · exact ⟨[], text, by rw [hd]; rfl, List.not_mem_nil⟩
      · have htext : c ∈ text := by simpa [Ne.symm hd] using hmem
        obtain ⟨first, rest, rfl, hfirst⟩ := ih htext
        refine ⟨d :: first, rest, rfl, ?_⟩
        rw [List.mem_cons, not_or]
        exact ⟨Ne.symm hd, hfirst⟩

/-- `std::to_string` of an unsigned integer. -/
def decimal (n : Nat) : Bytes := (Nat.toDigits 10 n).map Char.toUInt8

theorem ofNat_toUInt8_of_isDigit {c : Char} (hdigit : c.isDigit) :
    Char.ofNat c.toUInt8.toNat = c := by
  have hsmall : c.toNat < 256 := by
    simp only [Char.isDigit, Bool.and_eq_true, decide_eq_true_eq] at hdigit
    have hle : c.val ≤ 57 := hdigit.2
    rw [UInt32.le_iff_toNat_le] at hle
    exact Nat.lt_of_le_of_lt hle (by decide)
  have hbyte : c.toUInt8.toNat = c.toNat := by
    simp only [Char.toUInt8, UInt32.toNat_toUInt8]
    exact Nat.mod_eq_of_lt hsmall
  rw [hbyte, Char.ofNat_toNat]

theorem decimal_chars (n : Nat) :
    (decimal n).map (fun b => Char.ofNat b.toNat) = Nat.toDigits 10 n := by
  rw [decimal, List.map_map]
  refine (List.map_congr_left ?_).trans (List.map_id _)
  intro c hc
  exact ofNat_toUInt8_of_isDigit (Nat.isDigit_of_mem_toDigits (by decide) (by decide) hc)

theorem decimal_ne_nil (n : Nat) : decimal n ≠ [] := by
  simp [decimal, Nat.toDigits_ne_nil]

theorem decimal_injective {m n : Nat} (heq : decimal m = decimal n) : m = n := by
  have hdigits : Nat.toDigits 10 m = Nat.toDigits 10 n := by
    rw [← decimal_chars m, ← decimal_chars n, heq]
  rw [← Nat.ofDigitChars_toDigits (b := 10) (n := m) (by decide) (by decide), hdigits,
    Nat.ofDigitChars_toDigits (by decide) (by decide)]

end HaybarnHttpfs.Foundation.ByteStrings
