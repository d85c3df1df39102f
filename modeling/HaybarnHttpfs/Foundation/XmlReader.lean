import HaybarnHttpfs.Foundation.ByteStrings

/-!
A reader of XML documents in UTF-8 that have no document type declaration. It takes
one byte at a time and reports start tags, character data and end tags to a handler.
-/

namespace HaybarnHttpfs.Foundation.XmlReader

open HaybarnHttpfs.Foundation.ByteStrings

universe u

/-- What is still owed of the character that is being read. -/
inductive Utf8 where
  | start
  | tail1
  | tail2
  | tail3
  | afterE0
  | afterED
  | afterEF
  | afterEFBF
  | afterF0
  | afterF4
  deriving DecidableEq, Repr

/-- A first byte: of the control characters an XML document has three. -/
def Utf8.first (b : UInt8) : Option Utf8 :=
  if b < 0x20 then if b = 9 ∨ b = 10 ∨ b = 13 then some .start else none
  else if b < 0x80 then some .start
  else if 0xC2 ≤ b ∧ b ≤ 0xDF then some .tail1
  else if b = 0xE0 then some .afterE0
  else if b = 0xED then some .afterED
  else if b = 0xEF then some .afterEF
  else if 0xE1 ≤ b ∧ b ≤ 0xEE then some .tail2
  else if b = 0xF0 then some .afterF0
  else if 0xF1 ≤ b ∧ b ≤ 0xF3 then some .tail3
  else if b = 0xF4 then some .afterF4
  else none

def within (low high b : UInt8) (next : Utf8) : Option Utf8 :=
  if low ≤ b ∧ b ≤ high then some next else none

def Utf8.next : Utf8 → UInt8 → Option Utf8
  | .start, b => Utf8.first b
  | .tail1, b => within 0x80 0xBF b .start
  | .tail2, b => within 0x80 0xBF b .tail1
  | .tail3, b => within 0x80 0xBF b .tail2
  | .afterE0, b => within 0xA0 0xBF b .tail1
  | .afterED, b => within 0x80 0x9F b .tail1
  | .afterEF, b => if b = 0xBF then some .afterEFBF else within 0x80 0xBF b .tail1
  | .afterEFBF, b => within 0x80 0xBD b .start
  | .afterF0, b => within 0x90 0xBF b .tail2
  | .afterF4, b => within 0x80 0x8F b .tail2

/-- Well-formed UTF-8 that spells characters of XML only. -/
def isText (doc : Bytes) : Bool := doc.foldlM Utf8.next .start = some .start

/-- Line ends as a document means them; `afterReturn` holds right after a carriage
return. -/
def normalizeLineEnds (afterReturn : Bool) : Bytes → Bytes
  | [] => []
  | b :: doc =>
      if b = 13 then 10 :: normalizeLineEnds true doc
      else if b = 10 ∧ afterReturn then normalizeLineEnds false doc
      else b :: normalizeLineEnds false doc

def isSpace (b : UInt8) : Bool := b = 32 || b = 9 || b = 10 || b = 13

def isNameStart (b : UInt8) : Bool :=
  (65 ≤ b && b ≤ 90) || (97 ≤ b && b ≤ 122) || b = 95 || b = 58 || 128 ≤ b

def isNameByte (b : UInt8) : Bool :=
  isNameStart b || (48 ≤ b && b ≤ 57) || b = 45 || b = 46

def isChar (n : Nat) : Bool :=
  n = 9 || n = 10 || n = 13 || (0x20 ≤ n && n ≤ 0xD7FF) || (0xE000 ≤ n && n ≤ 0xFFFD) ||
    (0x10000 ≤ n && n ≤ 0x10FFFF)

def encode (n : Nat) : Bytes :=
  if n < 0x80 then [UInt8.ofNat n]
  else if n < 0x800 then [UInt8.ofNat (0xC0 + n / 64), UInt8.ofNat (0x80 + n % 64)]
  else if n < 0x10000 then
    [UInt8.ofNat (0xE0 + n / 4096), UInt8.ofNat (0x80 + n / 64 % 64),
      UInt8.ofNat (0x80 + n % 64)]
  else
    [UInt8.ofNat (0xF0 + n / 262144), UInt8.ofNat (0x80 + n / 4096 % 64),
      UInt8.ofNat (0x80 + n / 64 % 64), UInt8.ofNat (0x80 + n % 64)]

def digitValue (base : Nat) (b : UInt8) : Option Nat :=
  let value :=
    if 48 ≤ b ∧ b ≤ 57 then some (b.toNat - 48)
    else if 97 ≤ b ∧ b ≤ 102 then some (b.toNat - 87)
    else if 65 ≤ b ∧ b ≤ 70 then some (b.toNat - 55)
    else none
  value.filter (· < base)

def number (base : Nat) (digits : Bytes) : Option Nat :=
  if digits.isEmpty then none
  else digits.foldlM (fun n b => (digitValue base b).map (n * base + ·)) 0

def predefinedEntities : List (Bytes × UInt8) :=
  [(bytes "lt", 60), (bytes "gt", 62), (bytes "amp", 38), (bytes "quot", 34),
    (bytes "apos", 39)]

/-- The text that a character or entity reference stands for. -/
def resolve (name : Bytes) : Option Bytes :=
  if startsWith name (bytes "#") then
    let n :=
      if startsWith name (bytes "#x") then number 16 (name.drop 2)
      else number 10 (name.drop 1)
    (n.filter isChar).map encode
  else (predefinedEntities.lookup name).map ([·])

/-- Where the reader is in the markup. Attributes are read over. -/
inductive Mode where
  | text (run : Bytes)
  | reference (name : Bytes)
  | tagOpen
  | startTag (name : Bytes)
  | inTag (name : Bytes)
  | attributeName (name : Bytes)
  | attributeEq (name : Bytes)
  | attributeValue (name : Bytes) (quote : Option UInt8)
  | afterAttribute (name : Bytes)
  | emptyTag (name : Bytes)
  | endTag (name : Bytes)
  | afterEndTag (name : Bytes)
  | declaration (start : Bytes)
  | comment (dashes : Nat)
  | cdata (run : Bytes)
  | instruction (questionMark : Bool)
  deriving DecidableEq, Repr

/-- What is done with the parts of a document, in the state `α`. -/
structure Handler (α : Type u) where
  start : α → Bytes → Option α
  text : α → Bytes → Option α
  stop : α → Bytes → Option α

/-- `verbatim`: no reference, no CDATA section and, inside of the root, no comment or
processing instruction has been read, so that character data stood in the document
as it was reported, in one piece. -/
structure Reader (α : Type u) where
  mode : Mode := .text []
  elements : List Bytes := []
  rootSeen : Bool := false
  verbatim : Bool := true
  handled : α
  deriving DecidableEq, Repr

variable {α : Type u}

/-- Reports the character data read so far. -/
def flush (h : Handler α) (s : Reader α) (run : Bytes) : Option α :=
  if (find (bytes "]]>") run).isSome then none
  else if s.elements.isEmpty then if run.all isSpace then some s.handled else none
  else h.text s.handled run

def openElement (h : Handler α) (s : Reader α) (name : Bytes) : Option (Reader α) :=
  if s.elements.isEmpty && s.rootSeen then none
  else
    (h.start s.handled name).map fun handled =>
      { s with mode := .text [], elements := name :: s.elements, rootSeen := true, handled }

def closeElement (h : Handler α) (s : Reader α) (name : Bytes) : Option (Reader α) :=
  match s.elements with
  | [] => none
  | last :: elements =>
      if last = name then
        (h.stop s.handled name).map fun handled => { s with mode := .text [], elements, handled }
      else none

/-- After a name or an attribute: the tag ends or goes on. -/
def continueTag (h : Handler α) (s : Reader α) (name : Bytes) (b : UInt8) :
    Option (Reader α) :=
  if b = 62 then openElement h s name
  else if b = 47 then some { s with mode := .emptyTag name }
  else if isSpace b then some { s with mode := .inTag name }
  else none

/-- After `<!`: a comment or a CDATA section. -/
def declare (s : Reader α) (start : Bytes) : Option (Reader α) :=
  if start = bytes "--" then some { s with mode := .comment 0 }
  else if start = bytes "[CDATA[" then
    if s.elements.isEmpty then none else some { s with mode := .cdata [] }
  else if start.isPrefixOf (bytes "--") || start.isPrefixOf (bytes "[CDATA[") then
    some { s with mode := .declaration start }
  else none

def step (h : Handler α) (s : Reader α) (b : UInt8) : Option (Reader α) :=
  match s.mode with
  | .text run =>
      if b = 60 then
        (flush h s run).map fun handled => { s with mode := .tagOpen, handled }
      else if b = 38 then
        (flush h s run).map fun handled => { s with mode := .reference [], handled }
      else some { s with mode := .text (run ++ [b]) }
  | .reference name =>
      if b = 59 then
        if s.elements.isEmpty then none
        else
          (resolve name).bind fun text => (h.text s.handled text).map fun handled =>
            { s with mode := .text [], verbatim := false, handled }
      else some { s with mode := .reference (name ++ [b]) }
  | .tagOpen =>
      if b = 47 then some { s with mode := .endTag [] }
      else if b = 33 then some { s with mode := .declaration [], verbatim := false }
      else if b = 63 then
        some { s with
          mode := .instruction false
          verbatim := s.verbatim && s.elements.isEmpty }
      else if isNameStart b then some { s with mode := .startTag [b] }
      else none
  | .startTag name =>
      if isNameByte b then some { s with mode := .startTag (name ++ [b]) }
      else continueTag h s name b
  | .inTag name =>
      if isNameStart b then some { s with mode := .attributeName name }
      else continueTag h s name b
  | .attributeName name =>
      if isNameByte b then some s
      else if b = 61 then some { s with mode := .attributeValue name none }
      else if isSpace b then some { s with mode := .attributeEq name }
      else none
  | .attributeEq name =>
      if b = 61 then some { s with mode := .attributeValue name none }
      else if isSpace b then some s
      else none
  | .attributeValue name none =>
      if b = 34 ∨ b = 39 then some { s with mode := .attributeValue name (some b) }
      else if isSpace b then some s
      else none
  | .attributeValue name (some quote) =>
      if b = 60 then none
      else if b = quote then some { s with mode := .afterAttribute name }
      else some s
  | .afterAttribute name => continueTag h s name b
  | .emptyTag name =>
      if b = 62 then (openElement h s name).bind fun s => closeElement h s name else none
  | .endTag name =>
      if isNameByte b then some { s with mode := .endTag (name ++ [b]) }
      else if b = 62 then closeElement h s name
      else if isSpace b then some { s with mode := .afterEndTag name }
      else none
  | .afterEndTag name =>
      if b = 62 then closeElement h s name
      else if isSpace b then some s
      else none
  | .declaration start => declare s (start ++ [b])
  | .comment dashes =>
      if dashes = 2 then if b = 62 then some { s with mode := .text [] } else none
      else if b = 45 then some { s with mode := .comment (dashes + 1) }
      else some { s with mode := .comment 0 }
  | .cdata run =>
      let run := run ++ [b]
      if endsWith run (bytes "]]>") then
        (h.text s.handled (run.take (run.length - 3))).map fun handled =>
          { s with mode := .text [], handled }
      else some { s with mode := .cdata run }
  | .instruction questionMark =>
      if b = 62 ∧ questionMark then some { s with mode := .text [] }
      else some { s with mode := .instruction (b = 63) }

abbrev run (h : Handler α) (s : Reader α) (doc : Bytes) : Option (Reader α) :=
  doc.foldlM (step h) s

/-- The root element is closed, and only white space stands behind it. -/
def Reader.accepts (s : Reader α) : Bool :=
  match s.mode with
  | .text run => s.elements.isEmpty && s.rootSeen && run.all isSpace
  | _ => false

/-- The state of the handler once the document is read; there is none if the
document is not well formed or the handler refuses one of its parts. -/
def readXml (h : Handler α) (initial : α) (doc : Bytes) : Option α :=
  if !isText doc then none
  else
    match run h { handled := initial } (normalizeLineEnds false doc) with
    | none => none
    | some s => if s.accepts then some s.handled else none

theorem isText_append {first : Bytes} (hfirst : isText first = true) (rest : Bytes) :
    isText (first ++ rest) = isText rest := by
  unfold isText at hfirst ⊢
  rw [List.foldlM_append, of_decide_eq_true hfirst]
  rfl

theorem start_of_next {s s' : Utf8} {b : UInt8} (hascii : b < 0x80)
    (hnext : s.next b = some s') : s = .start := by
  have hlow : ∀ low high next, (0x80 : UInt8) ≤ low → within low high b next = none := by
    intro low high next hle
    unfold within
    rw [if_neg]
    rintro ⟨hb, -⟩
    exact absurd (UInt8.lt_of_lt_of_le hascii (UInt8.le_trans hle hb)) (UInt8.lt_irrefl b)
  cases s with
  | start => rfl
  | afterEF =>
      have hne : b ≠ 0xBF := by
        rintro rfl
        exact absurd hascii (by decide)
      rw [Utf8.next, if_neg hne, hlow _ _ _ (by decide)] at hnext
      cases hnext
  | tail1 | tail2 | tail3 | afterE0 | afterED | afterEFBF | afterF0 | afterF4 =>
      rw [Utf8.next, hlow _ _ _ (by decide)] at hnext
      cases hnext

theorem isText_of_append_cons {first rest : Bytes} {b : UInt8} (hascii : b < 0x80)
    (htext : isText (first ++ b :: rest) = true) :
    isText first = true ∧ isText (b :: rest) = true := by
  have hrun := of_decide_eq_true htext
  rw [List.foldlM_append] at hrun
  obtain ⟨s, hfirst, hrest⟩ := Option.bind_eq_some_iff.mp hrun
  have hstart : s = .start := by
    rw [List.foldlM_cons] at hrest
    obtain ⟨s', hnext, -⟩ := Option.bind_eq_some_iff.mp hrest
    exact start_of_next hascii hnext
  subst hstart
  exact ⟨decide_eq_true hfirst, decide_eq_true hrest⟩

/-- A carriage return counts twice: the reader drops it or reads it as one character. -/
def weight (doc : Bytes) : Nat := doc.length + doc.count 13

theorem weight_append (first rest : Bytes) :
    weight (first ++ rest) = weight first + weight rest := by
  simp [weight]
  omega

theorem weight_cons (b : UInt8) (doc : Bytes) : weight (b :: doc) = weight [b] + weight doc :=
  weight_append [b] doc

theorem weight_take (doc : Bytes) (n : Nat) : weight (doc.take n) ≤ weight doc := by
  have hsplit := weight_append (doc.take n) (doc.drop n)
  rw [List.take_append_drop] at hsplit
  omega

theorem weight_pos (b : UInt8) : 1 ≤ weight [b] := by
  simp [weight]

theorem weight_normalizeLineEnds (doc : Bytes) :
    ∀ afterReturn, weight (normalizeLineEnds afterReturn doc) + doc.count 13 ≤ weight doc := by
  induction doc with
  | nil => intro _; simp [normalizeLineEnds, weight]
  | cons b doc ih =>
      intro afterReturn
      have hnext := ih (decide (b = 13))
      have hten : weight [10] = 1 := by decide
      unfold normalizeLineEnds
      rw [weight_cons, List.count_cons]
      split
      · rename_i hreturn
        subst hreturn
        have hthirteen : weight [13] = 2 := by decide
        rw [weight_cons]
        simp only [decide_true, BEq.rfl, if_true] at hnext ⊢
        omega
      · rename_i hother
        have hcount : (b == 13) = false := by simpa using hother
        have hb := weight_pos b
        simp only [hother, decide_false] at hnext
        rw [hcount]
        split
        · simp only [Bool.false_eq_true, if_false]
          omega
        · rw [weight_cons]
          simp only [Bool.false_eq_true, if_false]
          omega

theorem normalizeLineEnds_append {first : Bytes} (hreturn : (13 : UInt8) ∉ first)
    (rest : Bytes) : normalizeLineEnds false (first ++ rest) =
      first ++ normalizeLineEnds false rest := by
  induction first with
  | nil => rfl
  | cons b first ih =>
      rw [List.mem_cons, not_or] at hreturn
      simp [normalizeLineEnds, Ne.symm hreturn.1, ih hreturn.2]

theorem normalizeLineEnds_of_not_mem {doc : Bytes} (hreturn : (13 : UInt8) ∉ doc) :
    normalizeLineEnds false doc = doc := by
  simpa [normalizeLineEnds] using normalizeLineEnds_append hreturn []

theorem normalizeLineEnds_append_cons {b : UInt8} (hb : b ≠ 10) (first rest : Bytes) :
    ∀ afterReturn, normalizeLineEnds afterReturn (first ++ b :: rest) =
      normalizeLineEnds afterReturn first ++ normalizeLineEnds false (b :: rest) := by
  induction first with
  | nil => intro afterReturn; simp [normalizeLineEnds, hb]
  | cons c first ih =>
      intro afterReturn
      rw [List.cons_append, normalizeLineEnds, normalizeLineEnds, ih, ih]
      split
      · rw [List.cons_append]
      · split
        · rfl
        · rw [List.cons_append]

theorem weight_encode_of_small {n : Nat} (hsmall : n < 0x80) : weight (encode n) ≤ 2 := by
  rw [encode, if_pos hsmall]
  unfold weight
  have hcount := List.count_le_length (a := (13 : UInt8)) (l := [UInt8.ofNat n])
  simp only [List.length_singleton] at hcount ⊢
  omega

theorem ofNat_ne_return {n : Nat} (hlow : 0x80 ≤ n) (hhigh : n < 0x100) :
    (UInt8.ofNat n == 13) = false := by
  rw [beq_eq_false_iff_ne]
  intro heq
  have hnat : n % 256 = 13 := by simpa using congrArg UInt8.toNat heq
  omega

theorem weight_encode {n : Nat} (hchar : isChar n = true) : weight (encode n) ≤ 4 := by
  have hbound : n ≤ 0x10FFFF := by
    simp only [isChar, Bool.or_eq_true, Bool.and_eq_true, decide_eq_true_eq] at hchar
    omega
  by_cases hone : n < 0x80
  · exact Nat.le_trans (weight_encode_of_small hone) (by decide)
  · unfold encode weight
    rw [if_neg hone]
    split
    · simp only [List.count_cons, List.count_nil, List.length_cons, List.length_nil]
      rw [ofNat_ne_return (by omega) (by omega), ofNat_ne_return (by omega) (by omega)]
      simp
    · split
      · simp only [List.count_cons, List.count_nil, List.length_cons, List.length_nil]
        rw [ofNat_ne_return (by omega) (by omega), ofNat_ne_return (by omega) (by omega),
          ofNat_ne_return (by omega) (by omega)]
        simp
      · simp only [List.count_cons, List.count_nil, List.length_cons, List.length_nil]
        rw [ofNat_ne_return (by omega) (by omega), ofNat_ne_return (by omega) (by omega),
          ofNat_ne_return (by omega) (by omega), ofNat_ne_return (by omega) (by omega)]
        simp

theorem ne_nil_of_number {base n : Nat} {digits : Bytes} (hnumber : number base digits = some n) :
    digits ≠ [] := by
  rintro rfl
  cases hnumber

theorem lt_of_number_singleton {base n : Nat} {digit : UInt8}
    (hnumber : number base [digit] = some n) : n < base := by
  simp only [number, List.isEmpty_cons, Bool.false_eq_true, if_false, List.foldlM_cons,
    List.foldlM_nil, Nat.zero_mul, Nat.zero_add] at hnumber
  obtain ⟨m, hdigit, hm⟩ := Option.bind_eq_some_iff.mp hnumber
  cases hm
  obtain ⟨m, hfilter, rfl⟩ := Option.map_eq_some_iff.mp hdigit
  rw [digitValue, Option.filter_eq_some_iff] at hfilter
  exact of_decide_eq_true hfilter.2

theorem weight_resolve {name text : Bytes} (hresolve : resolve name = some text) :
    weight text < name.length + 2 := by
  unfold resolve at hresolve
  split at hresolve
  · obtain ⟨n, hfilter, rfl⟩ := Option.map_eq_some_iff.mp hresolve
    rw [Option.filter_eq_some_iff] at hfilter
    obtain ⟨hnumber, hchar⟩ := hfilter
    have hfour := weight_encode hchar
    by_cases hlong : 3 ≤ name.length
    · omega
    · split at hnumber
      · have hdigits := ne_nil_of_number hnumber
        rw [ne_eq, List.drop_eq_nil_iff] at hdigits
        omega
      · have hdigits := ne_nil_of_number hnumber
        rw [ne_eq, List.drop_eq_nil_iff] at hdigits
        have hlength : (name.drop 1).length = 1 := by
          rw [List.length_drop]
          omega
        obtain ⟨digit, hdigit⟩ := List.length_eq_one_iff.mp hlength
        rw [hdigit] at hnumber
        have hten := lt_of_number_singleton hnumber
        have htwo := weight_encode_of_small (n := n) (by omega)
        omega
  · obtain ⟨b, hlookup, rfl⟩ := Option.map_eq_some_iff.mp hresolve
    have hname : name ≠ [] := by
      rintro rfl
      cases hlookup
    have hlength := List.length_pos_iff.mpr hname
    have hcount := List.count_le_length (a := (13 : UInt8)) (l := [b])
    simp only [weight, List.length_singleton] at hcount ⊢
    omega

def Mode.pending : Mode → Nat
  | .text run => weight run
  | .reference name | .startTag name | .inTag name | .attributeName name | .attributeEq name
  | .attributeValue name _ | .afterAttribute name => 1 + name.length
  | .tagOpen => 1
  | .emptyTag name | .endTag name | .afterEndTag name => 2 + name.length
  | .cdata run => weight run
  | .declaration _ | .comment _ | .instruction _ => 0

def Mode.hidden : Mode → Bool
  | .declaration _ | .comment _ | .cdata _ => true
  | _ => false

/-- The modes inside of a tag or a reference. -/
def Mode.inside : Mode → Bool
  | .text _ | .declaration _ | .comment _ | .cdata _ | .instruction _ => false
  | _ => true

/-- What a byte can do. -/
inductive Moves (h : Handler α) (s : Reader α) (b : UInt8) : Reader α → Prop
  | stays : Moves h s b s
  | character {run : Bytes} (hmode : s.mode = .text run) (hopen : b ≠ 60) (hreference : b ≠ 38) :
      Moves h s b { s with mode := .text (run ++ [b]) }
  | reports {run : Bytes} {mode : Mode} {a : α} (hmode : s.mode = .text run)
      (hnext : mode = .tagOpen ∨ mode = .reference []) (hflush : flush h s run = some a) :
      Moves h s b { s with mode, handled := a }
  | resolves {name text : Bytes} {a : α} (hmode : s.mode = .reference name)
      (hresolve : resolve name = some text) (htext : h.text s.handled text = some a) :
      Moves h s b { s with mode := .text [], verbatim := false, handled := a }
  | goesOn {mode : Mode} (hinside : mode.inside = true)
      (hpaid : mode.pending ≤ s.mode.pending + weight [b]) : Moves h s b { s with mode }
  | declares (hmode : s.mode = .tagOpen) :
      Moves h s b { s with mode := .declaration [], verbatim := false }
  | instructs (hmode : s.mode = .tagOpen) :
      Moves h s b { s with
        mode := .instruction false
        verbatim := s.verbatim && s.elements.isEmpty }
  | opens {name : Bytes} {s' : Reader α} (hpending : s.mode.pending = 1 + name.length)
      (hopen : openElement h s name = some s') : Moves h s b s'
  | empties {name : Bytes} {t s' : Reader α} (hmode : s.mode = .emptyTag name)
      (hopen : openElement h s name = some t) (hclose : closeElement h t name = some s') :
      Moves h s b s'
  | closes {name : Bytes} {s' : Reader α} (hpending : s.mode.pending = 2 + name.length)
      (hclose : closeElement h s name = some s') : Moves h s b s'
  | passes {mode : Mode} (hhidden : s.mode.hidden = true)
      (hrun : ∀ run, mode = .text run → run = [])
      (hpaid : mode.pending ≤ s.mode.pending + weight [b]) : Moves h s b { s with mode }
  | tells {run : Bytes} {a : α} (hmode : s.mode = .cdata run)
      (htext : h.text s.handled ((run ++ [b]).take ((run ++ [b]).length - 3)) = some a) :
      Moves h s b { s with mode := .text [], handled := a }
  | instructed {questionMark : Bool} {mode : Mode} (hmode : s.mode = .instruction questionMark)
      (hnext : mode = .text [] ∨ ∃ q, mode = .instruction q) : Moves h s b { s with mode }

section Moves

variable {h : Handler α} {s s' : Reader α} {name run : Bytes} {b : UInt8}

theorem moves_on {mode : Mode} {n : Nat} (hinside : mode.inside = true)
    (hbefore : s.mode.pending = n) (hpending : mode.pending ≤ n + 1) :
    Moves h s b { s with mode } := by
  have hpos := weight_pos b
  exact .goesOn hinside (by omega)

theorem moves_of_text (hmode : s.mode = .text run) (hstep : step h s b = some s') :
    Moves h s b s' := by
  simp only [step, hmode] at hstep
  split at hstep
  · obtain ⟨a, hflush, rfl⟩ := Option.map_eq_some_iff.mp hstep
    exact .reports hmode (.inl rfl) hflush
  · rename_i hopen
    split at hstep
    · obtain ⟨a, hflush, rfl⟩ := Option.map_eq_some_iff.mp hstep
      exact .reports hmode (.inr rfl) hflush
    · rename_i hreference
      cases hstep
      exact .character hmode hopen hreference

theorem moves_of_reference (hmode : s.mode = .reference name) (hstep : step h s b = some s') :
    Moves h s b s' := by
  simp only [step, hmode] at hstep
  split at hstep
  · split at hstep
    · cases hstep
    · obtain ⟨text, hresolve, hreport⟩ := Option.bind_eq_some_iff.mp hstep
      obtain ⟨a, htext, rfl⟩ := Option.map_eq_some_iff.mp hreport
      exact .resolves hmode hresolve htext
  · cases hstep
    have hpending : s.mode.pending = 1 + name.length := by rw [hmode]; rfl
    refine moves_on rfl hpending ?_
    simp [Mode.pending, Nat.add_assoc]

theorem moves_of_tagOpen (hmode : s.mode = .tagOpen) (hstep : step h s b = some s') :
    Moves h s b s' := by
  have hpending : s.mode.pending = 1 := by rw [hmode]; rfl
  simp only [step, hmode] at hstep
  split at hstep
  · cases hstep
    exact moves_on rfl hpending (Nat.le_refl _)
  · split at hstep
    · cases hstep
      exact .declares hmode
    · split at hstep
      · cases hstep
        exact .instructs hmode
      · split at hstep
        · cases hstep
          exact moves_on rfl hpending (Nat.le_refl _)
        · cases hstep

theorem moves_of_continueTag (hpending : s.mode.pending = 1 + name.length)
    (hcontinue : continueTag h s name b = some s') : Moves h s b s' := by
  unfold continueTag at hcontinue
  split at hcontinue
  · exact .opens hpending hcontinue
  · split at hcontinue
    · cases hcontinue
      refine moves_on rfl hpending ?_
      simp only [Mode.pending]
      omega
    · split at hcontinue
      · cases hcontinue
        exact moves_on rfl hpending (Nat.le_succ _)
      · cases hcontinue

theorem moves_of_startTag (hmode : s.mode = .startTag name) (hstep : step h s b = some s') :
    Moves h s b s' := by
  have hpending : s.mode.pending = 1 + name.length := by rw [hmode]; rfl
  simp only [step, hmode] at hstep
  split at hstep
  · cases hstep
    refine moves_on rfl hpending ?_
    simp [Mode.pending, Nat.add_assoc]
  · exact moves_of_continueTag hpending hstep

theorem moves_of_inTag (hmode : s.mode = .inTag name) (hstep : step h s b = some s') :
    Moves h s b s' := by
  have hpending : s.mode.pending = 1 + name.length := by rw [hmode]; rfl
  simp only [step, hmode] at hstep
  split at hstep
  · cases hstep
    exact moves_on rfl hpending (Nat.le_succ _)
  · exact moves_of_continueTag hpending hstep

theorem moves_within {mode : Mode} (hinside : mode.inside = true)
    (hpending : mode.pending = s.mode.pending) : Moves h s b { s with mode } :=
  .goesOn hinside (hpending ▸ Nat.le_add_right _ _)

theorem moves_of_attributeName (hmode : s.mode = .attributeName name)
    (hstep : step h s b = some s') : Moves h s b s' := by
  simp only [step, hmode] at hstep
  split at hstep
  · cases hstep
    exact .stays
  · split at hstep
    · cases hstep
      exact moves_within rfl (by rw [hmode]; rfl)
    · split at hstep
      · cases hstep
        exact moves_within rfl (by rw [hmode]; rfl)
      · cases hstep

theorem moves_of_attributeEq (hmode : s.mode = .attributeEq name) (hstep : step h s b = some s') :
    Moves h s b s' := by
  simp only [step, hmode] at hstep
  split at hstep
  · cases hstep
    exact moves_within rfl (by rw [hmode]; rfl)
  · split at hstep
    · cases hstep
      exact .stays
    · cases hstep

theorem moves_of_attributeValue {quote : Option UInt8}
    (hmode : s.mode = .attributeValue name quote)
    (hstep : step h s b = some s') : Moves h s b s' := by
  cases quote with
  | none =>
      simp only [step, hmode] at hstep
      split at hstep
      · cases hstep
        exact moves_within rfl (by rw [hmode]; rfl)
      · split at hstep
        · cases hstep
          exact .stays
        · cases hstep
  | some quote =>
      simp only [step, hmode] at hstep
      split at hstep
      · cases hstep
      · split at hstep
        · cases hstep
          exact moves_within rfl (by rw [hmode]; rfl)
        · cases hstep
          exact .stays

theorem moves_of_emptyTag (hmode : s.mode = .emptyTag name) (hstep : step h s b = some s') :
    Moves h s b s' := by
  simp only [step, hmode] at hstep
  split at hstep
  · obtain ⟨t, hopen, hclose⟩ := Option.bind_eq_some_iff.mp hstep
    exact .empties hmode hopen hclose
  · cases hstep

theorem moves_of_endTag (hmode : s.mode = .endTag name) (hstep : step h s b = some s') :
    Moves h s b s' := by
  have hpending : s.mode.pending = 2 + name.length := by rw [hmode]; rfl
  simp only [step, hmode] at hstep
  split at hstep
  · cases hstep
    refine moves_on rfl hpending ?_
    simp [Mode.pending, Nat.add_assoc]
  · split at hstep
    · exact .closes hpending hstep
    · split at hstep
      · cases hstep
        exact moves_within rfl (by rw [hmode]; rfl)
      · cases hstep

theorem moves_of_afterEndTag (hmode : s.mode = .afterEndTag name)
    (hstep : step h s b = some s') : Moves h s b s' := by
  simp only [step, hmode] at hstep
  split at hstep
  · exact .closes (by rw [hmode]; rfl) hstep
  · split at hstep
    · cases hstep
      exact .stays
    · cases hstep

theorem moves_of_declaration {start : Bytes} (hmode : s.mode = .declaration start)
    (hstep : step h s b = some s') : Moves h s b s' := by
  have hhidden : s.mode.hidden = true := by rw [hmode]; rfl
  simp only [step, hmode, declare] at hstep
  split at hstep
  · cases hstep
    exact .passes hhidden nofun (Nat.zero_le _)
  · split at hstep
    · split at hstep
      · cases hstep
      · cases hstep
        exact .passes hhidden nofun (Nat.zero_le _)
    · split at hstep
      · cases hstep
        exact .passes hhidden nofun (Nat.zero_le _)
      · cases hstep

theorem moves_of_comment {dashes : Nat} (hmode : s.mode = .comment dashes)
    (hstep : step h s b = some s') : Moves h s b s' := by
  have hhidden : s.mode.hidden = true := by rw [hmode]; rfl
  simp only [step, hmode] at hstep
  split at hstep
  · split at hstep
    · cases hstep
      exact .passes hhidden (fun _ hrun => (Mode.text.inj hrun).symm) (Nat.zero_le _)
    · cases hstep
  · split at hstep
    · cases hstep
      exact .passes hhidden nofun (Nat.zero_le _)
    · cases hstep
      exact .passes hhidden nofun (Nat.zero_le _)

theorem moves_of_cdata (hmode : s.mode = .cdata run) (hstep : step h s b = some s') :
    Moves h s b s' := by
  simp only [step, hmode] at hstep
  split at hstep
  · obtain ⟨a, htext, rfl⟩ := Option.map_eq_some_iff.mp hstep
    exact .tells hmode htext
  · cases hstep
    refine .passes (by rw [hmode]; rfl) nofun ?_
    rw [hmode]
    exact Nat.le_of_eq (weight_append run [b])

theorem moves_of_instruction {questionMark : Bool} (hmode : s.mode = .instruction questionMark)
    (hstep : step h s b = some s') : Moves h s b s' := by
  simp only [step, hmode] at hstep
  split at hstep
  · cases hstep
    exact .instructed hmode (.inl rfl)
  · cases hstep
    exact .instructed hmode (.inr ⟨_, rfl⟩)

theorem moves_of_step (hstep : step h s b = some s') : Moves h s b s' := by
  cases hmode : s.mode with
  | text run => exact moves_of_text hmode hstep
  | reference name => exact moves_of_reference hmode hstep
  | tagOpen => exact moves_of_tagOpen hmode hstep
  | startTag name => exact moves_of_startTag hmode hstep
  | inTag name => exact moves_of_inTag hmode hstep
  | attributeName name => exact moves_of_attributeName hmode hstep
  | attributeEq name => exact moves_of_attributeEq hmode hstep
  | attributeValue name quote => exact moves_of_attributeValue hmode hstep
  | afterAttribute name =>
      simp only [step, hmode] at hstep
      exact moves_of_continueTag (by rw [hmode]; rfl) hstep
  | emptyTag name => exact moves_of_emptyTag hmode hstep
  | endTag name => exact moves_of_endTag hmode hstep
  | afterEndTag name => exact moves_of_afterEndTag hmode hstep
  | declaration start => exact moves_of_declaration hmode hstep
  | comment dashes => exact moves_of_comment hmode hstep
  | cdata run => exact moves_of_cdata hmode hstep
  | instruction questionMark => exact moves_of_instruction hmode hstep

end Moves

/-- What the handler keeps of a tag is no longer than the tag, and what it keeps of
character data no longer than the data. -/
structure Priced (h : Handler α) (price : α → Nat) : Prop where
  start : ∀ {a a' name}, h.start a name = some a' → price a' ≤ price a + name.length + 2
  stop : ∀ {a a' name}, h.stop a name = some a' → price a' ≤ price a + name.length + 3
  empty : ∀ {a a' a'' name}, h.start a name = some a' → h.stop a' name = some a'' →
    price a'' ≤ price a + name.length + 3
  text : ∀ {a a' run}, h.text a run = some a' → price a' ≤ price a + weight run

def cost (price : α → Nat) (s : Reader α) : Nat :=
  price s.handled + s.mode.pending + if s.verbatim then 0 else 1

variable {h : Handler α} {price : α → Nat} {s s' : Reader α} {name : Bytes} {b : UInt8} {a : α}

theorem Priced.flush (hpriced : Priced h price) {data : Bytes}
    (hflush : flush h s data = some a) : price a ≤ price s.handled + weight data := by
  unfold XmlReader.flush at hflush
  split at hflush
  · cases hflush
  · split at hflush
    · split at hflush
      · cases hflush
        omega
      · cases hflush
    · exact hpriced.text hflush

theorem Priced.openElement (hpriced : Priced h price)
    (hopen : openElement h s name = some s') :
    s'.mode = .text [] ∧ s'.verbatim = s.verbatim ∧
      price s'.handled ≤ price s.handled + name.length + 2 := by
  unfold XmlReader.openElement at hopen
  split at hopen
  · cases hopen
  · obtain ⟨a, hstart, rfl⟩ := Option.map_eq_some_iff.mp hopen
    exact ⟨rfl, rfl, hpriced.start hstart⟩

theorem Priced.closeElement (hpriced : Priced h price)
    (hclose : closeElement h s name = some s') :
    s'.mode = .text [] ∧ s'.verbatim = s.verbatim ∧
      price s'.handled ≤ price s.handled + name.length + 3 := by
  unfold XmlReader.closeElement at hclose
  split at hclose
  · cases hclose
  · split at hclose
    · obtain ⟨a, hstop, rfl⟩ := Option.map_eq_some_iff.mp hclose
      exact ⟨rfl, rfl, hpriced.stop hstop⟩
    · cases hclose

theorem Priced.emptyElement (hpriced : Priced h price) {t : Reader α}
    (hopen : XmlReader.openElement h s name = some t)
    (hclose : XmlReader.closeElement h t name = some s') :
    s'.mode = .text [] ∧ s'.verbatim = s.verbatim ∧
      price s'.handled ≤ price s.handled + name.length + 3 := by
  unfold XmlReader.openElement at hopen
  split at hopen
  · cases hopen
  · obtain ⟨a, hstart, rfl⟩ := Option.map_eq_some_iff.mp hopen
    simp only [XmlReader.closeElement, if_true] at hclose
    obtain ⟨a', hstop, rfl⟩ := Option.map_eq_some_iff.mp hclose
    exact ⟨rfl, rfl, hpriced.empty hstart hstop⟩

theorem Priced.step (hpriced : Priced h price) (hstep : step h s b = some s') :
    cost price s' ≤ cost price s + weight [b] := by
  have hpos := weight_pos b
  have hempty : (Mode.text []).pending = 0 := rfl
  have hloss : (if s.verbatim then 0 else 1) ≤ 1 := by
    split
    · omega
    · omega
  cases moves_of_step hstep with
  | stays => exact Nat.le_add_right _ _
  | character hmode =>
      simp only [cost, hmode, Mode.pending, weight_append]
      omega
  | @reports run mode a hmode hnext hflush =>
      have hprice := hpriced.flush hflush
      have hpending : mode.pending = 1 := by
        rcases hnext with rfl | rfl
        · rfl
        · rfl
      have hbefore : s.mode.pending = weight run := by rw [hmode]; rfl
      simp only [cost, hpending, hbefore]
      omega
  | @resolves name text a hmode hresolve htext =>
      have hlonger := weight_resolve hresolve
      have hprice := hpriced.text htext
      have hbefore : s.mode.pending = 1 + name.length := by rw [hmode]; rfl
      simp only [cost, hempty, hbefore, Bool.false_eq_true, if_false]
      omega
  | goesOn _ hpaid | passes _ _ hpaid =>
      simp only [cost]
      omega
  | declares hmode =>
      simp only [cost, hmode, Mode.pending, Bool.false_eq_true, if_false]
      omega
  | instructs hmode =>
      have hlost : (if (s.verbatim && s.elements.isEmpty) then 0 else 1) ≤ 1 := by
        split
        · omega
        · omega
      simp only [cost, hmode, Mode.pending]
      omega
  | opens hpending hopen =>
      obtain ⟨hmode, hverbatim, hprice⟩ := hpriced.openElement hopen
      simp only [cost, hmode, hverbatim, hempty]
      omega
  | @empties name t s' hmode hopen hclose =>
      obtain ⟨hmode', hverbatim, hprice⟩ := hpriced.emptyElement hopen hclose
      have hbefore : s.mode.pending = 2 + name.length := by rw [hmode]; rfl
      simp only [cost, hbefore, hmode', hverbatim, hempty]
      omega
  | closes hpending hclose =>
      obtain ⟨hmode, hverbatim, hprice⟩ := hpriced.closeElement hclose
      simp only [cost, hmode, hverbatim, hempty]
      omega
  | @tells run a hmode htext =>
      have hprice := hpriced.text htext
      have htake := weight_take (run ++ [b]) ((run ++ [b]).length - 3)
      have hrun := weight_append run [b]
      have hbefore : s.mode.pending = weight run := by rw [hmode]; rfl
      simp only [cost, hempty, hbefore]
      omega
  | @instructed questionMark mode hmode hnext =>
      have hpending : mode.pending = 0 := by
        rcases hnext with rfl | ⟨q, rfl⟩
        · rfl
        · rfl
      simp only [cost, hpending]
      omega

theorem run_cons {doc : Bytes} (hrun : run h s (b :: doc) = some s') :
    ∃ t, XmlReader.step h s b = some t ∧ run h t doc = some s' :=
  Option.bind_eq_some_iff.mp hrun

theorem Priced.run {doc : Bytes} (hpriced : Priced h price) (hrun : run h s doc = some s') :
    cost price s' ≤ cost price s + weight doc := by
  induction doc generalizing s with
  | nil =>
      cases hrun
      exact Nat.le_add_right _ _
  | cons b doc ih =>
      obtain ⟨t, hstep, hrest⟩ := run_cons hrun
      have hb := hpriced.step hstep
      have hdoc := ih hrest
      rw [weight_cons]
      omega

/-- Bytes that a document may hold as they are between two tags. -/
structure CharData (data : Bytes) : Prop where
  noMarkup : ∀ b ∈ data, b ≠ 60 ∧ b ≠ 38
  noEnd : find (bytes "]]>") data = none

instance (data : Bytes) : Decidable (CharData data) :=
  decidable_of_iff ((data.all fun b => b ≠ 60 ∧ b ≠ 38) = true ∧ find (bytes "]]>") data = none)
    ⟨fun h => ⟨by simpa using h.1, h.2⟩, fun h => ⟨by simpa using h.noMarkup, h.noEnd⟩⟩

/-- `fresh` holds where no character data has been reported since the last tag. -/
structure Faithful (h : Handler α) (fresh clean : α → Prop) : Prop where
  weaken : ∀ {a}, fresh a → clean a
  start : ∀ {a a' name}, clean a → h.start a name = some a' → fresh a'
  stop : ∀ {a a' name}, clean a → h.stop a name = some a' → fresh a'
  text : ∀ {a a' run}, fresh a → CharData run → h.text a run = some a' → clean a'

def Mode.isText : Mode → Bool
  | .text _ => true
  | _ => false

structure Told (fresh clean : α → Prop) (s : Reader α) : Prop where
  data : ∀ run, s.mode = .text run → ∀ b ∈ run, b ≠ 60 ∧ b ≠ 38
  hidden : s.mode.hidden = true → s.verbatim = false
  instruction : ∀ questionMark, s.mode = .instruction questionMark → s.verbatim = true →
    s.elements = []
  clean : s.verbatim = true → clean s.handled
  fresh : s.verbatim = true → s.elements = [] ∨ s.mode.isText = true → fresh s.handled

variable {fresh clean : α → Prop}

theorem Told.move (htold : Told fresh clean s) {mode : Mode}
    (hhidden : mode.hidden = true → s.verbatim = false)
    (hinstruction : ∀ questionMark, mode = .instruction questionMark → s.verbatim = true →
      s.elements = [])
    (htext : mode.isText = true → mode = .text [] ∧ (s.verbatim = true → s.elements = [])) :
    Told fresh clean { s with mode } where
  data run hmode := by
    rintro b hb
    change mode = .text run at hmode
    obtain ⟨hempty, -⟩ := htext (by rw [hmode]; rfl)
    rw [hempty] at hmode
    cases hmode
    cases hb
  hidden := hhidden
  instruction := hinstruction
  clean := htold.clean
  fresh hverbatim hplace := by
    refine htold.fresh hverbatim (.inl ?_)
    rcases hplace with helements | hmode
    · exact helements
    · exact (htext hmode).2 hverbatim

theorem Mode.inside_spec {mode : Mode} (hinside : mode.inside = true) :
    mode.hidden = false ∧ mode.isText = false ∧
      ∀ questionMark, mode ≠ .instruction questionMark := by
  cases mode with
  | text | declaration | comment | cdata | instruction => cases hinside
  | _ => exact ⟨rfl, rfl, nofun⟩

theorem Told.tag (htold : Told fresh clean s) {mode : Mode} (hinside : mode.inside = true) :
    Told fresh clean { s with mode } := by
  obtain ⟨hhidden, htext, hinstruction⟩ := Mode.inside_spec hinside
  exact htold.move (by simp [hhidden]) (fun q hq => absurd hq (hinstruction q)) (by simp [htext])

theorem Faithful.flush (hfaithful : Faithful h fresh clean) (htold : Told fresh clean s)
    {data : Bytes} (hmode : s.mode = .text data) {mode : Mode} (hinside : mode.inside = true)
    (hflush : flush h s data = some a) : Told fresh clean { s with mode, handled := a } := by
  obtain ⟨hhidden, htext, hinstruction⟩ := Mode.inside_spec hinside
  unfold XmlReader.flush at hflush
  split at hflush
  · cases hflush
  · rename_i hend
    split at hflush
    · split at hflush
      · cases hflush
        exact htold.tag hinside
      · cases hflush
    · rename_i helements
      refine ⟨fun run hrun => ?_, fun hh => ?_, fun q hq => absurd hq (hinstruction q), ?_, ?_⟩
      · change mode = .text run at hrun
        rw [hrun] at htext
        cases htext
      · rw [hhidden] at hh
        cases hh
      · intro hverbatim
        have hdata : CharData data := ⟨htold.data data hmode, by simpa using hend⟩
        exact hfaithful.text (htold.fresh hverbatim (.inr (by rw [hmode]; rfl))) hdata hflush
      · rintro - (hempty | hmode')
        · exact absurd (List.isEmpty_iff.mpr hempty) helements
        · rw [htext] at hmode'
          cases hmode'

theorem Faithful.openElement (hfaithful : Faithful h fresh clean) (htold : Told fresh clean s)
    (hopen : openElement h s name = some s') : Told fresh clean s' := by
  unfold XmlReader.openElement at hopen
  split at hopen
  · cases hopen
  · obtain ⟨a, hstart, rfl⟩ := Option.map_eq_some_iff.mp hopen
    refine ⟨?_, nofun, nofun, ?_, ?_⟩
    · rintro run hrun b hb
      cases hrun
      cases hb
    · exact fun hverbatim => hfaithful.weaken (hfaithful.start (htold.clean hverbatim) hstart)
    · exact fun hverbatim _ => hfaithful.start (htold.clean hverbatim) hstart

theorem Faithful.closeElement (hfaithful : Faithful h fresh clean) (htold : Told fresh clean s)
    (hclose : closeElement h s name = some s') : Told fresh clean s' := by
  unfold XmlReader.closeElement at hclose
  split at hclose
  · cases hclose
  · split at hclose
    · obtain ⟨a, hstop, rfl⟩ := Option.map_eq_some_iff.mp hclose
      refine ⟨?_, nofun, nofun, ?_, ?_⟩
      · rintro run hrun b hb
        cases hrun
        cases hb
      · exact fun hverbatim => hfaithful.weaken (hfaithful.stop (htold.clean hverbatim) hstop)
      · exact fun hverbatim _ => hfaithful.stop (htold.clean hverbatim) hstop
    · cases hclose

theorem told_of_not_verbatim (hverbatim : s.verbatim = false)
    (hdata : ∀ run, s.mode = .text run → run = []) : Told fresh clean s where
  data run hmode b hb := by
    rw [hdata run hmode] at hb
    cases hb
  hidden _ := hverbatim
  instruction _ _ htrue := by
    rw [hverbatim] at htrue
    cases htrue
  clean htrue := by
    rw [hverbatim] at htrue
    cases htrue
  fresh htrue := by
    rw [hverbatim] at htrue
    cases htrue

theorem Told.character (htold : Told fresh clean s) {run : Bytes} (hmode : s.mode = .text run)
    (hopen : b ≠ 60) (hreference : b ≠ 38) :
    Told fresh clean { s with mode := .text (run ++ [b]) } := by
  refine ⟨?_, nofun, nofun, htold.clean, fun hverbatim _ => ?_⟩
  · rintro run' hrun c hc
    cases hrun
    rcases List.mem_append.mp hc with hold | hnew
    · exact htold.data run hmode c hold
    · rw [List.mem_singleton] at hnew
      subst hnew
      exact ⟨hopen, hreference⟩
  · exact htold.fresh hverbatim (.inr (by rw [hmode]; rfl))

theorem Told.instructs (htold : Told fresh clean s) :
    Told fresh clean { s with
      mode := .instruction false
      verbatim := s.verbatim && s.elements.isEmpty } := by
  refine ⟨nofun, nofun, ?_, ?_, ?_⟩
  · rintro _ _ hverbatim
    simpa using (Bool.and_eq_true_iff.mp hverbatim).2
  · exact fun hverbatim => htold.clean (Bool.and_eq_true_iff.mp hverbatim).1
  · intro hverbatim _
    obtain ⟨hverbatim, helements⟩ := Bool.and_eq_true_iff.mp hverbatim
    exact htold.fresh hverbatim (.inl (List.isEmpty_iff.mp helements))

theorem Faithful.step (hfaithful : Faithful h fresh clean) (htold : Told fresh clean s)
    (hstep : step h s b = some s') : Told fresh clean s' := by
  cases moves_of_step hstep with
  | stays => exact htold
  | character hmode hopen hreference => exact htold.character hmode hopen hreference
  | reports hmode hnext hflush =>
      refine hfaithful.flush htold hmode ?_ hflush
      rcases hnext with rfl | rfl
      · rfl
      · rfl
  | resolves => exact told_of_not_verbatim rfl fun _ hrun => (Mode.text.inj hrun).symm
  | goesOn hinside => exact htold.tag hinside
  | declares => exact told_of_not_verbatim rfl nofun
  | instructs => exact htold.instructs
  | opens _ hopen => exact hfaithful.openElement htold hopen
  | empties _ hopen hclose =>
      exact hfaithful.closeElement (hfaithful.openElement htold hopen) hclose
  | closes _ hclose => exact hfaithful.closeElement htold hclose
  | passes hhidden hrun => exact told_of_not_verbatim (htold.hidden hhidden) hrun
  | tells hmode =>
      have hverbatim := htold.hidden (by rw [hmode]; rfl)
      exact told_of_not_verbatim hverbatim fun _ hrun => (Mode.text.inj hrun).symm
  | @instructed questionMark mode hmode hnext =>
      have helements := htold.instruction questionMark hmode
      rcases hnext with rfl | ⟨q, rfl⟩
      · exact htold.move nofun nofun fun _ => ⟨rfl, helements⟩
      · exact htold.move nofun (fun _ _ => helements) nofun

theorem Faithful.run {doc : Bytes} (hfaithful : Faithful h fresh clean)
    (htold : Told fresh clean s) (hrun : run h s doc = some s') : Told fresh clean s' := by
  induction doc generalizing s with
  | nil =>
      cases hrun
      exact htold
  | cons b doc ih =>
      obtain ⟨t, hstep, hrest⟩ := run_cons hrun
      exact ih (hfaithful.step htold hstep) hrest

theorem run_append (first rest : Bytes) :
    run h s (first ++ rest) = (run h s first).bind fun t => run h t rest :=
  List.foldlM_append

theorem run_text {data run' : Bytes} (hmode : s.mode = .text run')
    (hdata : ∀ b ∈ data, b ≠ 60 ∧ b ≠ 38) :
    run h s data = some { s with mode := .text (run' ++ data) } := by
  induction data generalizing s run' with
  | nil => simp [← hmode]
  | cons b data ih =>
      have hb := hdata b List.mem_cons_self
      have hstep : XmlReader.step h s b = some { s with mode := .text (run' ++ [b]) } := by
        simp [XmlReader.step, hmode, hb.1, hb.2]
      rw [run, List.foldlM_cons, hstep]
      have hrest := ih (s := { s with mode := .text (run' ++ [b]) }) rfl
        fun c hc => hdata c (List.mem_cons_of_mem b hc)
      simpa using hrest

theorem run_name (name : Bytes) {rest : Bytes} {mode : Bytes → Mode}
    (hmode : mode = .startTag ∨ mode = .endTag) (hrest : rest.all isNameByte = true) :
    run h { s with mode := mode name } rest = some { s with mode := mode (name ++ rest) } := by
  induction rest generalizing name with
  | nil => simp
  | cons b rest ih =>
      rw [List.all_cons, Bool.and_eq_true] at hrest
      have hstep : XmlReader.step h { s with mode := mode name } b =
          some { s with mode := mode (name ++ [b]) } := by
        rcases hmode with rfl | rfl
        · simp [XmlReader.step, hrest.1]
        · simp [XmlReader.step, hrest.1]
      rw [run, List.foldlM_cons, hstep]
      simpa using ih (name ++ [b]) hrest.2

theorem run_startTag {data : Bytes} (hmode : s.mode = .text data) {first : UInt8} {rest : Bytes}
    (hfirst : isNameStart first = true ∧ first ≠ 47 ∧ first ≠ 33 ∧ first ≠ 63)
    (hrest : rest.all isNameByte = true) :
    run h s (60 :: first :: rest ++ [62]) =
      (flush h s data).bind fun handled => openElement h { s with handled } (first :: rest) := by
  have hopen : XmlReader.step h s 60 =
      (flush h s data).map fun handled => { s with mode := .tagOpen, handled } := by
    simp [XmlReader.step, hmode]
  rw [List.cons_append, run, List.foldlM_cons, hopen]
  cases hflush : flush h s data with
  | none => rfl
  | some handled =>
      have hstart : XmlReader.step h { s with mode := .tagOpen, handled } first =
          some { s with mode := .startTag [first], handled } := by
        simp [XmlReader.step, hfirst.1, hfirst.2.1, hfirst.2.2.1, hfirst.2.2.2]
      have hname := run_name (h := h) (s := { s with handled }) [first] (.inl rfl) hrest
      simp only [Option.map_some, Option.bind_some, Option.bind_eq_bind, List.cons_append,
        List.foldlM_cons, hstart]
      rw [List.foldlM_append]
      simp only [run] at hname
      rw [hname]
      simp [XmlReader.step, continueTag, openElement, isNameByte, isNameStart]

theorem run_endTag {data : Bytes} (hmode : s.mode = .text data)
    (hname : name.all isNameByte = true) :
    run h s (60 :: 47 :: name ++ [62]) =
      (flush h s data).bind fun handled => closeElement h { s with handled } name := by
  have hopen : XmlReader.step h s 60 =
      (flush h s data).map fun handled => { s with mode := .tagOpen, handled } := by
    simp [XmlReader.step, hmode]
  rw [List.cons_append, run, List.foldlM_cons, hopen]
  cases hflush : flush h s data with
  | none => rfl
  | some handled =>
      have hend : XmlReader.step h { s with mode := .tagOpen, handled } 47 =
          some { s with mode := .endTag [], handled } := by
        simp [XmlReader.step]
      have hread := run_name (h := h) (s := { s with handled }) [] (.inr rfl) hname
      simp only [Option.map_some, Option.bind_some, Option.bind_eq_bind, List.cons_append,
        List.foldlM_cons, hend]
      rw [List.foldlM_append]
      simp only [run, List.nil_append] at hread
      rw [hread]
      simp [XmlReader.step, closeElement, isNameByte, isNameStart]

/-- A reference, a section, a comment or an instruction that goes on. -/
def Mode.goesOn : Mode → Bool
  | .reference _ | .comment 0 | .instruction false => true
  | .cdata run => run.getLast? ≠ some 93
  | _ => false

/-- None of the bytes that end what goes on. -/
def endsNothing (doc : Bytes) : Prop := ∀ b ∈ doc, b ≠ 59 ∧ b ≠ 45 ∧ b ≠ 63 ∧ b ≠ 93

instance (doc : Bytes) : Decidable (endsNothing doc) :=
  inferInstanceAs (Decidable (∀ b ∈ doc, b ≠ 59 ∧ b ≠ 45 ∧ b ≠ 63 ∧ b ≠ 93))

theorem endsWith_cdata {run : Bytes} (hlast : run.getLast? ≠ some 93) (b : UInt8) :
    endsWith (run ++ [b]) (bytes "]]>") = false := by
  rw [← Bool.not_eq_true, endsWith, List.isSuffixOf_iff_suffix]
  rintro ⟨first, hsplit⟩
  have hbytes : bytes "]]>" = [93, 93] ++ [62] := by decide
  rw [hbytes, ← List.append_assoc] at hsplit
  obtain ⟨rfl, -⟩ := List.append_inj' hsplit rfl
  exact hlast (by simp)

theorem goesOn_step (hmode : s.mode.goesOn = true) (hb : b ≠ 59 ∧ b ≠ 45 ∧ b ≠ 63 ∧ b ≠ 93)
    (hstep : step h s b = some s') : s'.mode.goesOn = true := by
  unfold XmlReader.step at hstep
  cases hcase : s.mode with
  | reference name =>
      simp only [hcase, hb.1, if_false] at hstep
      cases hstep
      rfl
  | comment dashes =>
      cases dashes with
      | zero =>
          simp only [hcase, hb.2.1, if_false, show ¬(0 = 2) by decide] at hstep
          cases hstep
          rfl
      | succ dashes =>
          rw [hcase] at hmode
          cases hmode
  | cdata run =>
      rw [hcase] at hmode
      have hlast : run.getLast? ≠ some 93 := by simpa [Mode.goesOn] using hmode
      simp only [hcase, endsWith_cdata hlast, Bool.false_eq_true, if_false] at hstep
      cases hstep
      simpa [Mode.goesOn] using hb.2.2.2
  | instruction questionMark =>
      cases questionMark with
      | true =>
          rw [hcase] at hmode
          cases hmode
      | false =>
          simp only [hcase, Bool.false_eq_true, and_false, if_false] at hstep
          cases hstep
          simp [Mode.goesOn, hb.2.2.1]
  | text _ | tagOpen | startTag _ | inTag _ | attributeName _ | attributeEq _
  | attributeValue _ _ | afterAttribute _ | emptyTag _ | endTag _ | afterEndTag _
  | declaration _ =>
      rw [hcase] at hmode
      cases hmode

theorem goesOn_run {doc : Bytes} (hmode : s.mode.goesOn = true) (hdoc : endsNothing doc)
    (hrun : run h s doc = some s') : s'.mode.goesOn = true := by
  induction doc generalizing s with
  | nil =>
      cases hrun
      exact hmode
  | cons b doc ih =>
      obtain ⟨t, hstep, hrest⟩ := run_cons hrun
      exact ih (goesOn_step hmode (hdoc b List.mem_cons_self) hstep)
        (fun c hc => hdoc c (List.mem_cons_of_mem b hc)) hrest

/-- A markup is not ended by a bracket that opens one. -/
theorem goesOn_step_lt (hstep : step h s 60 = some s') (htext : ¬ s.mode.isText = true) :
    s'.mode.goesOn = true := by
  have hcontinue : ∀ name, continueTag h s name 60 = none := by
    intro name
    simp [continueTag, isSpace]
  unfold XmlReader.step at hstep
  cases hcase : s.mode with
  | text run =>
      rw [hcase] at htext
      exact absurd rfl htext
  | reference name =>
      simp only [hcase, show ¬((60 : UInt8) = 59) by decide, if_false] at hstep
      cases hstep
      rfl
  | comment dashes =>
      simp only [hcase, show ¬((60 : UInt8) = 62) by decide,
        show ¬((60 : UInt8) = 45) by decide, if_false] at hstep
      split at hstep
      · cases hstep
      · cases hstep
        rfl
  | cdata run =>
      simp only [hcase] at hstep
      split at hstep
      · rename_i hsuffix
        rw [endsWith, List.isSuffixOf_iff_suffix] at hsuffix
        obtain ⟨first, hsplit⟩ := hsuffix
        have hbytes : bytes "]]>" = [93, 93] ++ [62] := by decide
        rw [hbytes, ← List.append_assoc] at hsplit
        obtain ⟨-, hlast⟩ := List.append_inj' hsplit rfl
        cases hlast
      · cases hstep
        simp [Mode.goesOn]
  | instruction questionMark =>
      simp only [hcase, show ¬((60 : UInt8) = 62) by decide, false_and, if_false] at hstep
      cases hstep
      rfl
  | declaration start =>
      simp only [hcase] at hstep
      have hlast : ∀ more : Bytes, start ++ [60] ++ more ≠ bytes "--" ∧
          start ++ [60] ++ more ≠ bytes "[CDATA[" := by
        intro more
        constructor
        · intro heq
          have hmem : (60 : UInt8) ∈ bytes "--" := by rw [← heq]; simp
          exact absurd hmem (by decide)
        · intro heq
          have hmem : (60 : UInt8) ∈ bytes "[CDATA[" := by rw [← heq]; simp
          exact absurd hmem (by decide)
      have hnone : declare s (start ++ [60]) = none := by
        have hnil := hlast []
        rw [List.append_nil] at hnil
        unfold declare
        rw [if_neg hnil.1, if_neg hnil.2, if_neg]
        rw [Bool.or_eq_true, List.isPrefixOf_iff_prefix, List.isPrefixOf_iff_prefix]
        rintro (⟨more, heq⟩ | ⟨more, heq⟩)
        · exact (hlast more).1 heq
        · exact (hlast more).2 heq
      rw [hnone] at hstep
      cases hstep
  | attributeValue name quote =>
      cases quote with
      | none => simp [hcase, isSpace] at hstep
      | some quote => simp [hcase] at hstep
  | tagOpen | startTag _ | inTag _ | attributeName _ | attributeEq _ | afterAttribute _
  | emptyTag _ | endTag _ | afterEndTag _ =>
      simp [hcase, hcontinue, isSpace, isNameByte, isNameStart] at hstep

theorem isText_of_accepts {doc : Bytes} (hdoc : endsNothing doc)
    (hrun : run h s (60 :: doc) = some s') (haccepts : s'.accepts = true) :
    s.mode.isText = true := by
  have hend : s'.mode.goesOn = false := by
    unfold Reader.accepts at haccepts
    split at haccepts
    · rename_i run hmode
      rw [hmode]
      rfl
    · cases haccepts
  obtain ⟨t, hstep, hrest⟩ := run_cons hrun
  by_contra htext
  rw [goesOn_run (goesOn_step_lt hstep htext) hdoc hrest] at hend
  cases hend

end HaybarnHttpfs.Foundation.XmlReader
