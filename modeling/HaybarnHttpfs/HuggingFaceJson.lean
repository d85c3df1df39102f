import HaybarnHttpfs.HuggingFacePages

/-!
A listing as any server may print it: entries with further members in any order, in compact
JSON. The scanner looks for three pieces of text and counts braces, whether they stand in a
string or not.
-/

namespace HaybarnHttpfs.HuggingFaceJson

open HaybarnHttpfs.Foundation.ByteStrings HaybarnHttpfs.Foundation.Exceptions
open HaybarnHttpfs.HuggingFaceFileSystem HaybarnHttpfs.HuggingFacePages

def hexDigit (n : UInt8) : UInt8 := if n < 10 then 48 + n else 87 + n

/-- The standard escape of a character in a string. -/
def escapeByte (c : UInt8) : Bytes :=
  if c = 34 then [92, 34]
  else if c = 92 then [92, 92]
  else if c = 8 then [92, 98]
  else if c = 9 then [92, 116]
  else if c = 10 then [92, 110]
  else if c = 12 then [92, 102]
  else if c = 13 then [92, 114]
  else if c < 32 then [92, 117, 48, 48, hexDigit (c / 16), hexDigit (c % 16)]
  else [c]

def escape (text : Bytes) : Bytes := text.flatMap escapeByte

def quoted (text : Bytes) : Bytes := 34 :: (escape text ++ [34])

/-- The characters of numbers and of the names `true`, `false` and `null`. -/
def literalBytes : Bytes := bytes "0123456789+-.eEtrufalsn"

structure Literal where
  text : Bytes
  nonempty : text ≠ []
  plain : ∀ c ∈ text, c ∈ literalBytes

mutual

inductive Json where
  | string (text : Bytes)
  | literal (token : Literal)
  | object (members : Members)

inductive Members where
  | nil
  | cons (key : Bytes) (value : Json) (rest : Members)

end

mutual

def Json.render : Json → Bytes
  | .string text => quoted text
  | .literal token => token.text
  | .object members => 123 :: (members.render ++ [125])

def Members.render : Members → Bytes
  | .nil => []
  | .cons key value .nil => quoted key ++ 58 :: value.render
  | .cons key value rest => quoted key ++ 58 :: (value.render ++ 44 :: rest.render)

end

/-- Texts with commas between them. -/
def joined : List Bytes → Bytes
  | [] => []
  | [text] => text
  | text :: texts => text ++ 44 :: joined texts

def typeName (isDirectory : Bool) : Bytes :=
    if isDirectory then bytes "directory" else bytes "file"

/-- An entry of a tree; its type and its path stand anywhere between the other members. -/
structure TreeEntry where
  isDirectory : Bool
  path : Bytes
  typeFirst : Bool := true
  before : List (Bytes × Json) := []
  between : List (Bytes × Json) := []
  after : List (Bytes × Json) := []
  others : ∀ member ∈ before ++ (between ++ after),
    member.1 ≠ bytes "type" ∧ member.1 ≠ bytes "path"

def memberText (member : Bytes × Json) : Bytes := quoted member.1 ++ 58 :: member.2.render

def TreeEntry.typeText (e : TreeEntry) : Bytes :=
  memberText (bytes "type", .string (typeName e.isDirectory))

def TreeEntry.pathText (e : TreeEntry) : Bytes := memberText (bytes "path", .string e.path)

def TreeEntry.first (e : TreeEntry) : Bytes := if e.typeFirst then e.typeText else e.pathText

def TreeEntry.second (e : TreeEntry) : Bytes := if e.typeFirst then e.pathText else e.typeText

def TreeEntry.render (e : TreeEntry) : Bytes :=
  123 :: (joined (e.before.map memberText ++
    e.first :: (e.between.map memberText ++ e.second :: e.after.map memberText)) ++ [125])

def renderList (es : List TreeEntry) : Bytes := 91 :: (joined (es.map TreeEntry.render) ++ [93])

/-- The entries of one kind, each as a path. -/
def listed (isDirectory : Bool) (text : TreeEntry → Bytes) (es : List TreeEntry) : List Bytes :=
  (es.filter (·.isDirectory == isDirectory)).map fun e => slash :: text e

/-- The files and the directories are appended in their order. -/
def Inverts (es : List TreeEntry) : Prop :=
  ∀ files directories, ∃ scan, parseListResult (renderList es) files directories = .ok scan ∧
    scan.files = files ++ listed false TreeEntry.path es ∧
    scan.directories = directories ++ listed true TreeEntry.path es

/-- The depth after a text in which every brace is counted, unless one closes at depth zero. -/
def nestAfter : Nat → Bytes → Option Nat
  | depth, [] => some depth
  | depth, c :: text =>
      if c = 125 then if 0 < depth then nestAfter (depth - 1) text else none
      else if c = 123 then nestAfter (depth + 1) text
      else nestAfter depth text

/-- Every text followed by a comma. -/
def trailing (texts : List Bytes) : Bytes := texts.flatMap fun text => text ++ [44]

/-- Every text after a comma. -/
def leading (texts : List Bytes) : Bytes := texts.flatMap fun text => 44 :: text

/-- With the braces in strings counted, the entry is not closed before its type and its path are
there; then its own brace closes it, or one in a string after which no brace opens. -/
def Settled (e : TreeEntry) : Prop :=
  ∃ depth depth', nestAfter 0 (trailing (e.before.map memberText)) = some depth ∧
    nestAfter depth (44 :: trailing (e.between.map memberText)) = some depth' ∧
    (nestAfter depth' (leading (e.after.map memberText)) = some 0 ∨
      ∃ inside outside, leading (e.after.map memberText) = inside ++ 125 :: outside ∧
        nestAfter depth' inside = some 0 ∧ (123 : UInt8) ∉ outside)

/-- A member that reads like a type or a path from some quote of its key on. -/
def Disguises (content : Bytes) : Json → Prop
  | .string text =>
      content = bytes "path" ∨
        content = bytes "type" ∧ (text = bytes "directory" ∨ text = bytes "file")
  | _ => False

/-- The key is not one of the two, and no quote in it stands in front of one of them. -/
def KeyQuiet (key : Bytes) (value : Json) : Prop :=
  ∀ content, content = key ∨ (∃ leading, key = leading ++ 34 :: content) →
    ¬ Disguises content value

mutual

def Json.Undisguised : Json → Prop
  | .string _ => True
  | .literal _ => True
  | .object members => members.Undisguised

def Members.Undisguised : Members → Prop
  | .nil => True
  | .cons key value rest => KeyQuiet key value ∧ value.Undisguised ∧ rest.Undisguised

end

def MemberUndisguised (member : Bytes × Json) : Prop :=
  KeyQuiet member.1 member.2 ∧ member.2.Undisguised

/-- The other members of the entry do not mislead the scanner. -/
structure Calm (e : TreeEntry) : Prop where
  settled : Settled e
  undisguised : ∀ member ∈ e.before ++ (e.between ++ e.after), MemberUndisguised member

variable {s : ListScan} {c : UInt8} {text more rest word tail content key : Bytes} {value : Json}
  {e : TreeEntry} {es : List TreeEntry} {files directories : List Bytes} {depth : Nat}

theorem escapeByte_eq_self : escapeByte c = [c] → c ≠ 34 ∧ c ≠ 92 := by
  intro hplain
  constructor
  · rintro rfl
    cases hplain
  · rintro rfl
    cases hplain

theorem escapeByte_cases (c : UInt8) :
    escapeByte c = [c] ∨ ∃ more, more ≠ [] ∧ escapeByte c = 92 :: more := by
  unfold escapeByte
  repeat' split
  · exact .inr ⟨_, List.cons_ne_nil _ _, rfl⟩
  · exact .inr ⟨_, List.cons_ne_nil _ _, rfl⟩
  · exact .inr ⟨_, List.cons_ne_nil _ _, rfl⟩
  · exact .inr ⟨_, List.cons_ne_nil _ _, rfl⟩
  · exact .inr ⟨_, List.cons_ne_nil _ _, rfl⟩
  · exact .inr ⟨_, List.cons_ne_nil _ _, rfl⟩
  · exact .inr ⟨_, List.cons_ne_nil _ _, rfl⟩
  · exact .inr ⟨_, List.cons_ne_nil _ _, rfl⟩
  · exact .inl rfl

theorem quote_notMem_controls : ∀ n : Fin 32, (34 : UInt8) ∉ escapeByte (UInt8.ofNat n.val) := by
  decide

theorem quote_notMem_escapeByte (hc : c ≠ 34) : (34 : UInt8) ∉ escapeByte c := by
  by_cases hcontrol : c < 32
  · have hlt : c.toNat < 32 := UInt8.lt_iff_toNat_lt.mp hcontrol
    have hsame := quote_notMem_controls ⟨c.toNat, hlt⟩
    rwa [UInt8.ofNat_toNat] at hsame
  · unfold escapeByte
    rw [if_neg hc]
    repeat' split
    · decide
    · decide
    · decide
    · decide
    · decide
    · decide
    · exact fun hmem => hc (List.mem_singleton.mp hmem).symm

theorem escape_cons (c : UInt8) (text : Bytes) :
    escape (c :: text) = escapeByte c ++ escape text :=
  rfl

theorem quote_notMem_escape (htext : (34 : UInt8) ∉ text) : (34 : UInt8) ∉ escape text := by
  intro hquote
  obtain ⟨c, hc, hescape⟩ := List.mem_flatMap.mp hquote
  exact quote_notMem_escapeByte (fun heq => htext (heq ▸ hc)) hescape

theorem length_escape (text : Bytes) : text.length ≤ (escape text).length := by
  induction text with
  | nil => exact Nat.le_refl _
  | cons c text ih =>
      have hpositive : 0 < (escapeByte c).length := by
        rcases escapeByte_cases c with hplain | ⟨more, -, hescape⟩
        · rw [hplain]
          exact Nat.one_pos
        · rw [hescape]
          exact Nat.succ_pos _
      rw [escape_cons, List.length_append, List.length_cons]
      omega

theorem startsWith_escape (hword : ∀ c ∈ word, escapeByte c = [c]) :
    startsWith (escape text ++ 34 :: more) (word ++ 34 :: tail) = true ↔
      text = word ∧ startsWith more tail = true := by
  induction word generalizing text with
  | nil =>
      cases text with
      | nil => simp [escape, startsWith_cons]
      | cons c text =>
          refine iff_of_false ?_ nofun
          rcases escapeByte_cases c with hplain | ⟨more', -, hescape⟩
          · have hquote := (escapeByte_eq_self hplain).1
            simp [escape_cons, hplain, startsWith_cons, Ne.symm hquote]
          · simp [escape_cons, hescape, startsWith_cons]
  | cons w word ih =>
      rw [List.forall_mem_cons] at hword
      obtain ⟨hquote, hbackslash⟩ := escapeByte_eq_self hword.1
      cases text with
      | nil =>
          refine iff_of_false ?_ nofun
          simp [escape, startsWith_cons, hquote]
      | cons c text =>
          rcases escapeByte_cases c with hplain | ⟨more', hmore, hescape⟩
          · simp only [escape_cons, hplain, List.cons_append, List.nil_append, startsWith_cons,
              Bool.and_eq_true, beq_iff_eq, ih hword.2, List.cons.injEq]
            constructor
            · rintro ⟨rfl, rfl, htail⟩
              exact ⟨⟨rfl, rfl⟩, htail⟩
            · rintro ⟨⟨rfl, rfl⟩, htail⟩
              exact ⟨rfl, rfl, htail⟩
          · refine iff_of_false ?_ ?_
            · simp [escape_cons, hescape, startsWith_cons, hbackslash]
            · rintro ⟨heq, -⟩
              rw [List.cons.injEq] at heq
              rw [heq.1, hword.1] at hescape
              exact hbackslash (List.cons.inj hescape).1

/-- What the three pieces are after their first quote. -/
def openings : List Bytes :=
  [bytes "type\":\"directory\"", bytes "type\":\"file\"", bytes "path\":\""]

def OpeningFree (text : Bytes) : Prop := ∀ opening ∈ openings, startsWith text opening = false

/-- No quote of the text starts one of the three pieces. -/
def Silent : Bytes → Bytes → Prop
  | [], _ => True
  | c :: text, rest => (c = 34 → OpeningFree (text ++ rest)) ∧ Silent text rest

theorem silent_append {first second : Bytes} :
    Silent (first ++ second) rest ↔ Silent first (second ++ rest) ∧ Silent second rest := by
  induction first with
  | nil => exact (and_iff_right trivial).symm
  | cons c first ih =>
      simp only [List.cons_append, Silent, List.append_assoc, ih, and_assoc]

theorem silent_of_notMem (htext : (34 : UInt8) ∉ text) : Silent text rest := by
  induction text with
  | nil => trivial
  | cons c text ih =>
      rw [List.mem_cons, not_or] at htext
      exact ⟨fun heq => absurd heq.symm htext.1, ih htext.2⟩

theorem pieces_eq : bytes "\"type\":\"directory\"" = 34 :: bytes "type\":\"directory\"" ∧
    bytes "\"type\":\"file\"" = 34 :: bytes "type\":\"file\"" ∧
    bytes "\"path\":\"" = 34 :: bytes "path\":\"" := by
  decide

theorem scanAll_silent (hentry : s.label = .entry) (hsilent : Silent text rest)
    (hnest : nestAfter s.nested text = some depth) :
    scanAll s (text ++ rest) = scanAll { s with nested := depth } rest := by
  obtain ⟨hdirectory, hfile, hpath⟩ := pieces_eq
  induction text generalizing s with
  | nil =>
      cases hnest
      rfl
  | cons c text ih =>
      obtain ⟨hquote, hsilent⟩ := hsilent
      rw [List.cons_append]
      unfold nestAfter at hnest
      by_cases hclose : c = 125
      · rw [if_pos hclose] at hnest
        by_cases hnested : 0 < s.nested
        · rw [if_pos hnested] at hnest
          have hstep : listScanStep s c (text ++ rest) =
              .ok ({ s with nested := s.nested - 1 }, text ++ rest) := by
            simp only [listScanStep, hentry, if_pos hclose, if_pos hnested]
          rw [scanAll_cons hstep,
            ih (s := { s with nested := s.nested - 1 }) hentry hsilent hnest]
        · rw [if_neg hnested] at hnest
          cases hnest
      · rw [if_neg hclose] at hnest
        by_cases hopen : c = 123
        · rw [if_pos hopen] at hnest
          have hstep : listScanStep s c (text ++ rest) =
              .ok ({ s with nested := s.nested + 1 }, text ++ rest) := by
            simp only [listScanStep, hentry, if_neg hclose, if_pos hopen]
          rw [scanAll_cons hstep,
            ih (s := { s with nested := s.nested + 1 }) hentry hsilent hnest]
        · rw [if_neg hopen] at hnest
          have hstep : listScanStep s c (text ++ rest) = .ok (s, text ++ rest) := by
            simp only [listScanStep, hentry, if_neg hclose, if_neg hopen, hdirectory,
              hfile, hpath, startsWith_cons]
            by_cases hc : c = 34
            · have hfree := hquote hc
              rw [hfree _ (by decide), hfree _ (by decide), hfree _ (by decide)]
              simp
            · simp [Ne.symm hc]
          rw [scanAll_cons hstep, ih hentry hsilent hnest]

/-- A text behind a value: it starts neither like a colon nor like a word that is looked for. -/
def Follows (rest : Bytes) : Prop := ∀ c ∈ rest.head?, c ≠ 58 ∧ c ≠ 112 ∧ c ≠ 116

/-- The string, with what stands behind its closing quote, reads like one of the pieces. -/
def Reads (content more : Bytes) : Prop :=
  content = bytes "path" ∧ startsWith more (bytes ":\"") = true ∨
    content = bytes "type" ∧ (startsWith more (bytes ":\"directory\"") = true ∨
      startsWith more (bytes ":\"file\"") = true)

theorem openings_split : openings = [bytes "type" ++ 34 :: bytes ":\"directory\"",
    bytes "type" ++ 34 :: bytes ":\"file\"", bytes "path" ++ 34 :: bytes ":\""] := by
  decide

theorem openingFree_string (hreads : ¬ Reads content more) :
    OpeningFree (escape content ++ 34 :: more) := by
  unfold OpeningFree
  rw [openings_split]
  simp only [List.forall_mem_cons, List.not_mem_nil, false_imp_iff, implies_true, and_true,
    ← Bool.not_eq_true]
  refine ⟨fun hstarts => hreads (.inr ?_), fun hstarts => hreads (.inr ?_),
    fun hstarts => hreads (.inl ?_)⟩
  · exact ((startsWith_escape (by decide +kernel)).mp hstarts).imp_right .inl
  · exact ((startsWith_escape (by decide +kernel)).mp hstarts).imp_right .inr
  · exact (startsWith_escape (by decide +kernel)).mp hstarts

theorem startsWith_head {first : UInt8} (hne : ∀ c ∈ rest.head?, c ≠ first) :
    startsWith rest (first :: tail) = false := by
  cases rest with
  | nil => rfl
  | cons c rest => simp [startsWith_cons, Ne.symm (hne c rfl)]

theorem openingFree_of_head (hhead : ∀ c ∈ rest.head?, c ≠ 112 ∧ c ≠ 116) : OpeningFree rest := by
  have htype : ∀ c ∈ rest.head?, c ≠ 116 := fun c hc => (hhead c hc).2
  have hpath : ∀ c ∈ rest.head?, c ≠ 112 := fun c hc => (hhead c hc).1
  unfold OpeningFree
  rw [openings_split]
  simp only [List.forall_mem_cons, List.not_mem_nil, false_imp_iff, implies_true, and_true]
  exact ⟨startsWith_head htype, startsWith_head htype, startsWith_head hpath⟩

theorem not_reads_of_follows (hfollows : Follows rest) : ¬ Reads content rest := by
  have hcolon : ∀ c ∈ rest.head?, c ≠ 58 := fun c hc => (hfollows c hc).1
  have hnone : ∀ tail, startsWith rest (58 :: tail) = true → False := by
    intro tail hstarts
    rw [startsWith_head hcolon] at hstarts
    cases hstarts
  rintro (⟨-, hstarts⟩ | ⟨-, hstarts | hstarts⟩)
  · exact hnone _ hstarts
  · exact hnone _ hstarts
  · exact hnone _ hstarts

theorem silent_escape (hreads : ∀ content, (∃ before, text = before ++ 34 :: content) →
    ¬ Reads content more) : Silent (escape text) (34 :: more) := by
  induction text with
  | nil => trivial
  | cons c text ih =>
      have hlater : ∀ content, (∃ before, text = before ++ 34 :: content) →
        ¬ Reads content more := by
        rintro content ⟨before, hsplit⟩
        exact hreads content ⟨c :: before, by rw [hsplit]; rfl⟩
      rw [escape_cons, silent_append]
      refine ⟨?_, ih hlater⟩
      by_cases hc : c = 34
      · subst hc
        refine ⟨fun heq => absurd heq (by decide), fun _ => ?_, trivial⟩
        exact openingFree_string (hreads text ⟨[], rfl⟩)
      · exact silent_of_notMem (quote_notMem_escapeByte hc)

theorem silent_quoted (hself : ¬ Reads text more)
    (hreads : ∀ content, (∃ before, text = before ++ 34 :: content) → ¬ Reads content more)
    (hhead : ∀ c ∈ more.head?, c ≠ 112 ∧ c ≠ 116) : Silent (quoted text) more := by
  refine ⟨fun _ => ?_, silent_append.mpr ⟨silent_escape hreads, fun _ => ?_, trivial⟩⟩
  · rw [List.append_assoc]
    exact openingFree_string hself
  · exact openingFree_of_head hhead

theorem quote_notMem_literalBytes : (34 : UInt8) ∉ literalBytes := by
  decide

theorem disguises_of_reads (hreads : Reads content (58 :: (value.render ++ rest))) :
    Disguises content value := by
  have hcolon : bytes ":\"" = 58 :: ([] ++ 34 :: []) := by decide
  have hdirectory : bytes ":\"directory\"" =
      58 :: 34 :: (bytes "directory" ++ 34 :: []) := by decide
  have hfile : bytes ":\"file\"" = 58 :: 34 :: (bytes "file" ++ 34 :: []) := by decide
  unfold Reads at hreads
  rw [hcolon, hdirectory, hfile] at hreads
  simp only [startsWith_cons, beq_self_eq_true, Bool.true_and] at hreads
  cases value with
  | string text =>
      simp only [Json.render, quoted, List.cons_append, List.append_assoc, List.nil_append,
        startsWith_cons, beq_self_eq_true, Bool.true_and] at hreads
      rcases hreads with ⟨hpath, -⟩ | ⟨htype, hname | hname⟩
      · exact .inl hpath
      · exact .inr ⟨htype, .inl ((startsWith_escape (by decide +kernel)).mp hname).1⟩
      · exact .inr ⟨htype, .inr ((startsWith_escape (by decide +kernel)).mp hname).1⟩
  | literal token =>
      exfalso
      obtain ⟨text, hnonempty, hplain⟩ := token
      cases text with
      | nil => exact hnonempty rfl
      | cons c text =>
          have hc : 34 ≠ c := by
            rintro rfl
            exact quote_notMem_literalBytes (hplain 34 List.mem_cons_self)
          simp [Json.render, startsWith_cons, hc] at hreads
  | object members =>
      exfalso
      simp [Json.render, startsWith_cons] at hreads

theorem silent_key (hquiet : KeyQuiet key value) :
    Silent (quoted key) (58 :: (value.render ++ rest)) := by
  refine silent_quoted ?_ ?_ ?_
  · exact fun hreads => hquiet key (.inl rfl) (disguises_of_reads hreads)
  · exact fun content hsplit hreads => hquiet content (.inr hsplit) (disguises_of_reads hreads)
  · intro c hc
    cases hc
    decide

theorem follows_cons (hc : c ≠ 58 ∧ c ≠ 112 ∧ c ≠ 116) : Follows (c :: rest) := by
  intro d hd
  cases hd
  exact hc

mutual

theorem silent_value {rest : Bytes} (value : Json) (hquiet : value.Undisguised)
    (hfollows : Follows rest) : Silent value.render rest := by
  cases value with
  | string text =>
      exact silent_quoted (not_reads_of_follows hfollows)
        (fun _ _ => not_reads_of_follows hfollows) fun c hc => (hfollows c hc).2
  | literal token =>
      exact silent_of_notMem fun hquote => quote_notMem_literalBytes (token.plain 34 hquote)
  | object members =>
      refine ⟨fun heq => absurd heq (by decide), silent_append.mpr ⟨?_, ?_⟩⟩
      · exact silent_members members hquiet (follows_cons (by decide))
      · exact ⟨fun heq => absurd heq (by decide), trivial⟩

theorem silent_members {rest : Bytes} (members : Members) (hquiet : members.Undisguised)
    (hfollows : Follows rest) : Silent members.render rest := by
  cases members with
  | nil => trivial
  | cons key value others =>
      obtain ⟨hkey, hvalue, hothers⟩ := hquiet
      cases others with
      | nil =>
          refine silent_append.mpr ⟨?_, fun heq => absurd heq (by decide), ?_⟩
          · exact silent_key hkey
          · exact silent_value value hvalue hfollows
      | cons key' value' others =>
          refine silent_append.mpr ⟨?_, fun heq => absurd heq (by decide),
            silent_append.mpr ⟨?_, ?_⟩⟩
          · rw [List.cons_append, List.append_assoc]
            exact silent_key hkey
          · exact silent_value value hvalue (follows_cons (by decide))
          · exact ⟨fun heq => absurd heq (by decide),
              silent_members (.cons key' value' others) hothers hfollows⟩

end

theorem silent_member {member : Bytes × Json} (hquiet : MemberUndisguised member)
    (hfollows : Follows rest) : Silent (memberText member) rest :=
  silent_append.mpr ⟨silent_key hquiet.1, fun heq => absurd heq (by decide),
    silent_value member.2 hquiet.2 hfollows⟩

theorem silent_trailing {members : List (Bytes × Json)}
    (hquiet : ∀ member ∈ members, MemberUndisguised member) :
    Silent (trailing (members.map memberText)) rest := by
  induction members with
  | nil => trivial
  | cons member members ih =>
      rw [List.forall_mem_cons] at hquiet
      refine silent_append.mpr ⟨silent_append.mpr ⟨?_, ?_⟩, ih hquiet.2⟩
      · exact silent_member hquiet.1 (follows_cons (by decide))
      · exact ⟨fun heq => absurd heq (by decide), trivial⟩

theorem silent_leading {members : List (Bytes × Json)}
    (hquiet : ∀ member ∈ members, MemberUndisguised member) (hfollows : Follows rest) :
    Silent (leading (members.map memberText)) rest := by
  induction members with
  | nil => trivial
  | cons member members ih =>
      rw [List.forall_mem_cons] at hquiet
      refine silent_append.mpr ⟨⟨fun heq => absurd heq (by decide), ?_⟩, ih hquiet.2⟩
      refine silent_member hquiet.1 ?_
      cases members with
      | nil => exact hfollows
      | cons member' members => exact follows_cons (by decide)

theorem joined_cons (text : Bytes) (texts : List Bytes) :
    joined (text :: texts) = text ++ leading texts := by
  induction texts generalizing text with
  | nil => exact (List.append_nil text).symm
  | cons next texts ih =>
      rw [joined, ih]
      · rfl
      · exact List.cons_ne_nil _ _

theorem joined_append (texts : List Bytes) (text : Bytes) (others : List Bytes) :
    joined (texts ++ text :: others) = trailing texts ++ (text ++ leading others) := by
  induction texts with
  | nil => exact joined_cons text others
  | cons first texts ih =>
      have hjoined : joined (first :: (texts ++ text :: others)) =
          first ++ 44 :: joined (texts ++ text :: others) := by
        rw [joined]
        exact List.append_ne_nil_of_right_ne_nil _ (List.cons_ne_nil _ _)
      rw [List.cons_append, hjoined, ih]
      simp [trailing]

theorem leading_append (texts : List Bytes) (text : Bytes) (others : List Bytes) :
    leading (texts ++ text :: others) = 44 :: (trailing texts ++ (text ++ leading others)) := by
  induction texts with
  | nil => rfl
  | cons first texts ih =>
      change 44 :: first ++ leading (texts ++ text :: others) = _
      rw [ih]
      simp [trailing]

theorem render_eq (e : TreeEntry) : e.render =
    123 :: (trailing (e.before.map memberText) ++ (e.first ++
      (44 :: trailing (e.between.map memberText) ++ (e.second ++
        (leading (e.after.map memberText) ++ [125]))))) := by
  unfold TreeEntry.render
  rw [joined_append, leading_append]
  simp only [List.cons_append, List.append_assoc]

def scanType (isDirectory : Bool) : ParseEntry := if isDirectory then .dir else .file

theorem scanAll_typeText (hentry : s.label = .entry) (e : TreeEntry) (rest : Bytes) :
    scanAll s (e.typeText ++ rest) = scanAll { s with type := scanType e.isDirectory } rest := by
  obtain ⟨label, nested, foundPath, type, currentString, files, directories⟩ := s
  cases hentry
  unfold TreeEntry.typeText scanType
  cases e.isDirectory with
  | true => exact scanAll_cons rfl
  | false => exact scanAll_cons rfl

theorem scanAll_pathText (hentry : s.label = .entry) (hempty : s.currentString = [])
    (hquote : (34 : UInt8) ∉ e.path) (rest : Bytes) :
    scanAll s (e.pathText ++ rest) =
      scanAll { s with foundPath := true, currentString := escape e.path } rest := by
  have htext : e.pathText ++ rest = bytes "\"path\":\"" ++ (escape e.path ++ 34 :: rest) := by
    have hleading : bytes "\"path\":\"" = quoted (bytes "path") ++ [58, 34] := by decide
    rw [hleading]
    simp [TreeEntry.pathText, memberText, Json.render, quoted]
  rw [htext, scanAll_path hentry, scanAll_pathname rfl (quote_notMem_escape hquote), hempty]
  obtain ⟨label, nested, foundPath, type, currentString, files, directories⟩ := s
  cases hentry
  rfl

/-- The scanner in an entry whose type and path it has seen. -/
def seen (e : TreeEntry) (files directories : List Bytes) (depth : Nat) : ListScan where
  label := .entry
  nested := depth
  foundPath := true
  type := scanType e.isDirectory
  currentString := escape e.path
  files := files
  directories := directories

theorem scanAll_closed (e : TreeEntry) (files directories : List Bytes) (rest : Bytes) :
    scanAll (seen e files directories 0) (125 :: rest) =
      scanAll (ready (files ++ listed false (fun e => escape e.path) [e])
        (directories ++ listed true (fun e => escape e.path) [e])) rest := by
  cases hdirectory : e.isDirectory with
  | true =>
      refine scanAll_cons ?_
      simp [listScanStep, seen, scanType, ready, ListScan.endEntry, Except.map,
        listed, hdirectory]
  | false =>
      refine scanAll_cons ?_
      simp [listScanStep, seen, scanType, ready, ListScan.endEntry, Except.map,
        listed, hdirectory]

theorem scanAll_inside (hcalm : Calm e) (hquote : (34 : UInt8) ∉ e.path)
    (files directories : List Bytes) (rest : Bytes) {depth depth' : Nat}
    (hbefore : nestAfter 0 (trailing (e.before.map memberText)) = some depth)
    (hbetween : nestAfter depth (44 :: trailing (e.between.map memberText)) = some depth') :
    scanAll (ready files directories) (123 :: (trailing (e.before.map memberText) ++ (e.first ++
        (44 :: trailing (e.between.map memberText) ++ (e.second ++ rest))))) =
      scanAll (seen e files directories depth') rest := by
  have hundisguised := hcalm.undisguised
  rw [List.forall_mem_append, List.forall_mem_append] at hundisguised
  have hopen : ∀ more, listScanStep (ready files directories) 123 more =
      .ok ({ ready files directories with label := .entry }, more) := fun _ => rfl
  have hsilent : ∀ rest, Silent (44 :: trailing (e.between.map memberText)) rest := fun rest =>
    ⟨fun heq => absurd heq (by decide), silent_trailing hundisguised.2.1⟩
  rw [scanAll_cons (hopen _), scanAll_silent rfl (silent_trailing hundisguised.1) hbefore]
  unfold TreeEntry.first TreeEntry.second
  cases e.typeFirst with
  | true =>
      simp only [if_true]
      rw [scanAll_typeText rfl, scanAll_silent rfl (hsilent _) hbetween,
        scanAll_pathText rfl rfl hquote]
      rfl
  | false =>
      simp only [Bool.false_eq_true, if_false]
      rw [scanAll_pathText rfl rfl hquote, scanAll_silent rfl (hsilent _) hbetween,
        scanAll_typeText rfl]
      rfl

theorem scanAll_treeEntry (hcalm : Calm e) (hquote : (34 : UInt8) ∉ e.path)
    (files directories : List Bytes) (rest : Bytes) :
    scanAll (ready files directories) (e.render ++ rest) =
      scanAll (ready (files ++ listed false (fun e => escape e.path) [e])
        (directories ++ listed true (fun e => escape e.path) [e])) rest := by
  have hundisguised := hcalm.undisguised
  rw [List.forall_mem_append, List.forall_mem_append] at hundisguised
  obtain ⟨depth, depth', hbefore, hbetween, hafter⟩ := hcalm.settled
  have hfollows : Follows (125 :: rest) := follows_cons (by decide)
  have hsilent := silent_leading hundisguised.2.2 hfollows
  rw [render_eq]
  simp only [List.cons_append, List.append_assoc, List.nil_append]
  have hinside := scanAll_inside hcalm hquote files directories
    (leading (e.after.map memberText) ++ 125 :: rest) hbefore hbetween
  simp only [List.cons_append] at hinside
  rw [hinside]
  rcases hafter with hclosed | ⟨inside, outside, hsplit, hclosed, hopen⟩
  · rw [scanAll_silent rfl hsilent hclosed]
    exact scanAll_closed e files directories rest
  · rw [hsplit] at hsilent ⊢
    rw [List.append_assoc]
    rw [scanAll_silent rfl (silent_append.mp hsilent).1 hclosed, List.cons_append]
    refine (scanAll_closed e files directories (outside ++ 125 :: rest)).trans ?_
    have hpassed := scanAll_between (s := ready
        (files ++ listed false (fun e => escape e.path) [e])
        (directories ++ listed true (fun e => escape e.path) [e])) rfl (outside ++ [125])
      (by rw [List.mem_append, not_or]; exact ⟨hopen, by decide⟩) rest
    rwa [List.append_assoc] at hpassed

theorem listed_cons (isDirectory : Bool) (text : TreeEntry → Bytes) (e : TreeEntry)
    (es : List TreeEntry) :
    listed isDirectory text (e :: es) =
      listed isDirectory text [e] ++ listed isDirectory text es := by
  rw [← List.singleton_append]
  simp only [listed, List.filter_append, List.map_append]

theorem scanAll_leading (hcalm : ∀ e ∈ es, Calm e) (hquote : ∀ e ∈ es, (34 : UInt8) ∉ e.path)
    (files directories : List Bytes) (rest : Bytes) :
    scanAll (ready files directories) (leading (es.map TreeEntry.render) ++ rest) =
      scanAll (ready (files ++ listed false (fun e => escape e.path) es)
        (directories ++ listed true (fun e => escape e.path) es)) rest := by
  induction es generalizing files directories with
  | nil => simp [leading, listed]
  | cons e es ih =>
      rw [List.forall_mem_cons] at hcalm hquote
      have hcomma := scanAll_between (s := ready files directories) rfl [44] (by decide)
        (e.render ++ (leading (es.map TreeEntry.render) ++ rest))
      have hleading : leading ((e :: es).map TreeEntry.render) ++ rest =
          [44] ++ (e.render ++ (leading (es.map TreeEntry.render) ++ rest)) := by
        simp [leading]
      rw [hleading, hcomma, scanAll_treeEntry hcalm.1 hquote.1, ih hcalm.2 hquote.2,
        listed_cons false _ e es, listed_cons true _ e es, List.append_assoc, List.append_assoc]

theorem parseListResult_calm (hcalm : ∀ e ∈ es, Calm e)
    (hquote : ∀ e ∈ es, (34 : UInt8) ∉ e.path) (files directories : List Bytes) :
    parseListResult (renderList es) files directories =
      .ok (ready (files ++ listed false (fun e => escape e.path) es)
        (directories ++ listed true (fun e => escape e.path) es)) := by
  change scanAll (ready files directories) (renderList es) = _
  unfold renderList
  have hopen := scanAll_between (s := ready files directories) rfl [91] (by decide)
    (joined (es.map TreeEntry.render) ++ [93])
  rw [List.singleton_append] at hopen
  rw [hopen]
  have hclose := fun found : ListScan => fun hbase : found.label = .base =>
    scanAll_between hbase [93] (by decide) []
  cases es with
  | nil =>
      refine (hclose _ rfl).trans ?_
      simp only [listed, List.filter_nil, List.map_nil, List.append_nil]
      rfl
  | cons e es =>
      rw [List.forall_mem_cons] at hcalm hquote
      rw [List.map_cons, joined_cons, List.append_assoc, scanAll_treeEntry hcalm.1 hquote.1,
        scanAll_leading hcalm.2 hquote.2, listed_cons false _ e es, listed_cons true _ e es,
        List.append_assoc, List.append_assoc]
      exact hclose _ rfl

/-- No path has a quote in it, whatever the input is. -/
structure Quoteless (s : ListScan) : Prop where
  currentString : (34 : UInt8) ∉ s.currentString
  files : ∀ file ∈ s.files, (34 : UInt8) ∉ file
  directories : ∀ directory ∈ s.directories, (34 : UInt8) ∉ directory

theorem quoteless_of_endEntry {s' : ListScan} (hquoteless : Quoteless s)
    (hend : s.endEntry = .ok s') : Quoteless s' := by
  unfold ListScan.endEntry at hend
  split at hend
  · cases hend
  · cases hend
    have hpath : (34 : UInt8) ∉ slash :: s.currentString := by
      rw [List.mem_cons, not_or]
      exact ⟨by decide, hquoteless.currentString⟩
    have happend : ∀ {paths : List Bytes}, (∀ path ∈ paths, (34 : UInt8) ∉ path) →
        ∀ path ∈ paths ++ [slash :: s.currentString], (34 : UInt8) ∉ path := by
      intro paths hpaths path hmem
      rcases List.mem_append.mp hmem with hold | hnew
      · exact hpaths path hold
      · rw [List.mem_singleton.mp hnew]
        exact hpath
    refine ⟨nofun, ?_, ?_⟩
    · simp only
      split
      · exact happend hquoteless.files
      · exact hquoteless.files
    · simp only
      split
      · exact hquoteless.directories
      · exact happend hquoteless.directories

theorem quoteless_of_step {s' : ListScan} {left : Bytes} (hquoteless : Quoteless s)
    (hstep : listScanStep s c rest = .ok (s', left)) : Quoteless s' := by
  rcases (listScanStep_cases hstep).2 with hend | ⟨⟨hfiles, hdirectories⟩, hcurrent⟩
  · exact quoteless_of_endEntry hquoteless hend
  · refine ⟨?_, by rw [hfiles]; exact hquoteless.files,
      by rw [hdirectories]; exact hquoteless.directories⟩
    rcases hcurrent with hsame | ⟨hc, happended⟩
    · rw [hsame]
      exact hquoteless.currentString
    · rw [happended, List.mem_append, not_or]
      exact ⟨hquoteless.currentString, fun hmem => hc (List.mem_singleton.mp hmem).symm⟩

theorem quoteless_of_parse {fuel : Nat} {s' : ListScan} {input : Bytes} (hquoteless : Quoteless s)
    (hparse : parseListFrom fuel s input = .ok s') : Quoteless s' := by
  induction fuel generalizing s input with
  | zero =>
      cases hparse
      exact hquoteless
  | succ fuel ih =>
      cases input with
      | nil =>
          cases hparse
          exact hquoteless
      | cons c rest =>
          rw [parseListFrom] at hparse
          cases hstep : listScanStep s c rest with
          | error e =>
              rw [hstep] at hparse
              cases hparse
          | ok next =>
              rw [hstep] at hparse
              exact ih (quoteless_of_step hquoteless hstep) hparse

theorem mem_listed {isDirectory : Bool} {file : Bytes} {read : TreeEntry → Bytes} :
    file ∈ listed isDirectory read es ↔
      ∃ e ∈ es, e.isDirectory = isDirectory ∧ file = slash :: read e := by
  unfold listed
  rw [List.mem_map]
  constructor
  · rintro ⟨e, he, rfl⟩
    obtain ⟨hmem, hkind⟩ := List.mem_filter.mp he
    exact ⟨e, hmem, by simpa using hkind, rfl⟩
  · rintro ⟨e, hmem, hkind, rfl⟩
    exact ⟨e, List.mem_filter.mpr ⟨hmem, by simpa using hkind⟩, rfl⟩

theorem quote_notMem_of_inverts (hinverts : Inverts es) (he : e ∈ es) :
    (34 : UInt8) ∉ e.path := by
  obtain ⟨scan, hparse, hfiles, hdirectories⟩ := hinverts [] []
  have hstart : Quoteless (ready [] []) :=
    ⟨List.not_mem_nil, List.forall_mem_nil _, List.forall_mem_nil _⟩
  have hquoteless : Quoteless scan := quoteless_of_parse hstart hparse
  intro hquote
  cases hkind : e.isDirectory with
  | true =>
      refine hquoteless.directories (slash :: e.path) ?_ (List.mem_cons_of_mem _ hquote)
      rw [hdirectories, List.nil_append]
      exact mem_listed.mpr ⟨e, he, hkind, rfl⟩
  | false =>
      refine hquoteless.files (slash :: e.path) ?_ (List.mem_cons_of_mem _ hquote)
      rw [hfiles, List.nil_append]
      exact mem_listed.mpr ⟨e, he, hkind, rfl⟩

/-- A key that is none of the two and has no quote and no brace. -/
structure KeyPlain (key : Bytes) : Prop where
  type : key ≠ bytes "type"
  path : key ≠ bytes "path"
  quote : (34 : UInt8) ∉ key
  opening : (123 : UInt8) ∉ key
  closing : (125 : UInt8) ∉ key

mutual

def Json.Plain : Json → Prop
  | .string text => (123 : UInt8) ∉ text ∧ (125 : UInt8) ∉ text
  | .literal _ => True
  | .object members => members.Plain

def Members.Plain : Members → Prop
  | .nil => True
  | .cons key value rest => KeyPlain key ∧ value.Plain ∧ rest.Plain

end

def MemberPlain (member : Bytes × Json) : Prop := KeyPlain member.1 ∧ member.2.Plain

theorem keyQuiet_of_plain (hplain : KeyPlain key) (value : Json) : KeyQuiet key value := by
  rintro content (rfl | ⟨before, rfl⟩) hdisguises
  · cases value with
    | string text =>
        exact hdisguises.elim hplain.path fun htype => hplain.type htype.1
    | _ => exact hdisguises
  · exact hplain.quote (List.mem_append_right before List.mem_cons_self)

mutual

theorem undisguised_of_plain (value : Json) (hplain : value.Plain) : value.Undisguised := by
  cases value with
  | string text => trivial
  | literal token => trivial
  | object members => exact undisguised_members members hplain

theorem undisguised_members (members : Members) (hplain : members.Plain) :
    members.Undisguised := by
  cases members with
  | nil => trivial
  | cons key value rest =>
      obtain ⟨hkey, hvalue, hrest⟩ := hplain
      exact ⟨keyQuiet_of_plain hkey value, undisguised_of_plain value hvalue,
        undisguised_members rest hrest⟩

end

theorem brace_notMem_controls : ∀ n : Fin 32, (123 : UInt8) ∉ escapeByte (UInt8.ofNat n.val) ∧
    (125 : UInt8) ∉ escapeByte (UInt8.ofNat n.val) := by
  decide

theorem brace_notMem_escapeByte (hopening : c ≠ 123) (hclosing : c ≠ 125) :
    (123 : UInt8) ∉ escapeByte c ∧ (125 : UInt8) ∉ escapeByte c := by
  by_cases hcontrol : c < 32
  · have hlt : c.toNat < 32 := UInt8.lt_iff_toNat_lt.mp hcontrol
    have hsame := brace_notMem_controls ⟨c.toNat, hlt⟩
    rwa [UInt8.ofNat_toNat] at hsame
  · unfold escapeByte
    repeat' split
    · decide
    · decide
    · decide
    · decide
    · decide
    · decide
    · decide
    · exact ⟨fun hmem => hopening (List.mem_singleton.mp hmem).symm,
        fun hmem => hclosing (List.mem_singleton.mp hmem).symm⟩

theorem nestAfter_append (depth : Nat) (first second : Bytes) :
    nestAfter depth (first ++ second) = (nestAfter depth first).bind (nestAfter · second) := by
  induction first generalizing depth with
  | nil => rfl
  | cons c first ih =>
      simp only [List.cons_append, nestAfter]
      split
      · split
        · exact ih _
        · rfl
      · split
        · exact ih _
        · exact ih _

theorem nestAfter_of_notMem (hopening : (123 : UInt8) ∉ text) (hclosing : (125 : UInt8) ∉ text)
    (depth : Nat) : nestAfter depth text = some depth := by
  induction text with
  | nil => rfl
  | cons c text ih =>
      rw [List.mem_cons, not_or] at hopening hclosing
      rw [nestAfter, if_neg (Ne.symm hclosing.1), if_neg (Ne.symm hopening.1)]
      exact ih hopening.2 hclosing.2

theorem nestAfter_quoted (hopening : (123 : UInt8) ∉ text) (hclosing : (125 : UInt8) ∉ text)
    (depth : Nat) : nestAfter depth (quoted text) = some depth := by
  have hescaped : ∀ c ∈ text, (123 : UInt8) ∉ escapeByte c ∧ (125 : UInt8) ∉ escapeByte c :=
    fun c hc => brace_notMem_escapeByte (fun heq => hopening (heq ▸ hc))
      (fun heq => hclosing (heq ▸ hc))
  refine nestAfter_of_notMem ?_ ?_ depth
  · simp only [quoted, escape, List.mem_cons, List.mem_append, List.mem_flatMap, List.not_mem_nil,
      or_false, not_or]
    refine ⟨by decide, ?_, by decide⟩
    rintro ⟨c, hc, hmem⟩
    exact (hescaped c hc).1 hmem
  · simp only [quoted, escape, List.mem_cons, List.mem_append, List.mem_flatMap, List.not_mem_nil,
      or_false, not_or]
    refine ⟨by decide, ?_, by decide⟩
    rintro ⟨c, hc, hmem⟩
    exact (hescaped c hc).2 hmem

theorem brace_notMem_literalBytes :
    (123 : UInt8) ∉ literalBytes ∧ (125 : UInt8) ∉ literalBytes := by
  decide

mutual

theorem nestAfter_value (value : Json) (hplain : value.Plain) (depth : Nat) :
    nestAfter depth value.render = some depth := by
  cases value with
  | string text => exact nestAfter_quoted hplain.1 hplain.2 depth
  | literal token =>
      exact nestAfter_of_notMem (fun hmem => brace_notMem_literalBytes.1 (token.plain 123 hmem))
        (fun hmem => brace_notMem_literalBytes.2 (token.plain 125 hmem)) depth
  | object members =>
      have hmembers := nestAfter_members members hplain (depth + 1)
      change nestAfter (depth + 1) (members.render ++ [125]) = some depth
      rw [nestAfter_append, hmembers]
      rfl

theorem nestAfter_members (members : Members) (hplain : members.Plain) (depth : Nat) :
    nestAfter depth members.render = some depth := by
  cases members with
  | nil => rfl
  | cons key value others =>
      obtain ⟨hkey, hvalue, hothers⟩ := hplain
      have hkey' := nestAfter_quoted hkey.opening hkey.closing depth
      have hvalue' := nestAfter_value value hvalue depth
      cases others with
      | nil =>
          change nestAfter depth (quoted key ++ ([58] ++ value.render)) = some depth
          rw [nestAfter_append, hkey']
          exact hvalue'
      | cons key' value' others =>
          have hothers' := nestAfter_members (.cons key' value' others) hothers depth
          change nestAfter depth (quoted key ++ ([58] ++ (value.render ++
            ([44] ++ (Members.cons key' value' others).render)))) = some depth
          rw [nestAfter_append, hkey']
          change nestAfter depth (value.render ++ ([44] ++
            (Members.cons key' value' others).render)) = some depth
          rw [nestAfter_append, hvalue']
          exact hothers'

end

theorem nestAfter_member {member : Bytes × Json} (hplain : MemberPlain member) (depth : Nat) :
    nestAfter depth (memberText member) = some depth := by
  change nestAfter depth (quoted member.1 ++ ([58] ++ member.2.render)) = some depth
  rw [nestAfter_append, nestAfter_quoted hplain.1.opening hplain.1.closing]
  exact nestAfter_value member.2 hplain.2 depth

theorem nestAfter_trailing {members : List (Bytes × Json)}
    (hplain : ∀ member ∈ members, MemberPlain member) (depth : Nat) :
    nestAfter depth (trailing (members.map memberText)) = some depth := by
  induction members with
  | nil => rfl
  | cons member members ih =>
      rw [List.forall_mem_cons] at hplain
      change nestAfter depth (memberText member ++ [44] ++ trailing (members.map memberText)) = _
      rw [List.append_assoc, nestAfter_append, nestAfter_member hplain.1]
      exact ih hplain.2

theorem nestAfter_leading {members : List (Bytes × Json)}
    (hplain : ∀ member ∈ members, MemberPlain member) (depth : Nat) :
    nestAfter depth (leading (members.map memberText)) = some depth := by
  induction members with
  | nil => rfl
  | cons member members ih =>
      rw [List.forall_mem_cons] at hplain
      change nestAfter depth (memberText member ++ leading (members.map memberText)) = _
      rw [nestAfter_append, nestAfter_member hplain.1]
      exact ih hplain.2

theorem calm_of_plain
    (hplain : ∀ member ∈ e.before ++ (e.between ++ e.after), MemberPlain member) :
    Calm e := by
  refine ⟨?_, fun member hmember => ?_⟩
  · rw [List.forall_mem_append, List.forall_mem_append] at hplain
    exact ⟨0, 0, nestAfter_trailing hplain.1 0, nestAfter_trailing hplain.2.1 0,
      .inl (nestAfter_leading hplain.2.2 0)⟩
  · obtain ⟨hkey, hvalue⟩ := hplain member hmember
    exact ⟨keyQuiet_of_plain hkey member.2, undisguised_of_plain member.2 hvalue⟩

theorem listed_eq_iff {read : TreeEntry → Bytes} {isDirectory : Bool} :
    listed isDirectory read es = listed isDirectory TreeEntry.path es ↔
      ∀ e ∈ es, e.isDirectory = isDirectory → read e = e.path := by
  unfold listed
  rw [List.map_inj_left]
  constructor
  · intro hall e he hkind
    exact (List.cons.inj (hall e (List.mem_filter.mpr ⟨he, by simpa using hkind⟩))).2
  · intro hall e he
    obtain ⟨hmem, hkind⟩ := List.mem_filter.mp he
    rw [hall e hmem (by simpa using hkind)]

/-- The scanner copies a path as it is escaped, counts the braces in strings and takes an escaped
quote for the start of a member: calm entries are inverted exactly if no path needs an escape,
and a quote in a path is always lost. -/
theorem inverts_iff (es : List TreeEntry) (hcalm : ∀ e ∈ es, Calm e) :
    Inverts es ↔ ∀ e ∈ es, escape e.path = e.path := by
  constructor
  · intro hinverts
    have hquote : ∀ e ∈ es, (34 : UInt8) ∉ e.path :=
      fun e he => quote_notMem_of_inverts hinverts he
    obtain ⟨scan, hparse, hfiles, hdirectories⟩ := hinverts [] []
    rw [parseListResult_calm hcalm hquote] at hparse
    cases hparse
    have hfilePaths := listed_eq_iff.mp hfiles
    have hdirectoryPaths := listed_eq_iff.mp hdirectories
    intro e he
    cases hkind : e.isDirectory with
    | true => exact hdirectoryPaths e he hkind
    | false => exact hfilePaths e he hkind
  · intro hplain files directories
    have hquote : ∀ e ∈ es, (34 : UInt8) ∉ e.path := by
      intro e he hmem
      have hescaped := hplain e he
      have hlong : (escape e.path).length = e.path.length := congrArg List.length hescaped
      obtain ⟨before, after, hsplit⟩ := List.append_of_mem hmem
      have hbefore := length_escape before
      have hafter := length_escape after
      rw [hsplit] at hlong
      simp only [escape, List.flatMap_append, List.flatMap_cons, List.length_append,
        List.length_cons] at hlong hbefore hafter
      have htwo : (escapeByte 34).length = 2 := rfl
      omega
    refine ⟨_, parseListResult_calm hcalm hquote files directories, ?_, ?_⟩
    · exact congrArg (files ++ ·) (listed_eq_iff.mpr fun e he _ => hplain e he)
    · exact congrArg (directories ++ ·) (listed_eq_iff.mpr fun e he _ => hplain e he)

/-- A file with a record of its size, and a directory whose name has braces. -/
def plainEntries : List TreeEntry :=
  [{ isDirectory := false
     path := bytes "a.parquet"
     before := [(bytes "oid", .string (bytes "0a")),
       (bytes "lfs", .object (.cons (bytes "size")
         (.literal
           { text := bytes "12", nonempty := by decide, plain := by decide +kernel }) .nil))]
     others := by decide },
   { isDirectory := true
     path := bytes "dir{1}"
     typeFirst := false
     others := List.forall_mem_nil _ }]

theorem inverts_iff_plain :
    Inverts plainEntries ↔ ∀ e ∈ plainEntries, escape e.path = e.path := by
  refine inverts_iff plainEntries ?_
  rw [plainEntries, List.forall_mem_cons, List.forall_mem_singleton]
  refine ⟨calm_of_plain ?_, calm_of_plain (List.forall_mem_nil _)⟩
  simp only [List.append_nil, List.forall_mem_cons, List.not_mem_nil, false_imp_iff, implies_true,
    and_true]
  refine ⟨⟨⟨?_, ?_, ?_, ?_, ?_⟩, ?_, ?_⟩, ⟨?_, ?_, ?_, ?_, ?_⟩, ⟨?_, ?_, ?_, ?_, ?_⟩,
    trivial, trivial⟩
  all_goals decide

/-- A file whose name has a quote in it. -/
def quotedEntry : TreeEntry where
  isDirectory := false
  path := bytes "a\"b"
  others := List.forall_mem_nil _

/-- The path ends at the escaped quote. -/
theorem quotedEntry_cut :
    parseListResult (renderList [quotedEntry]) [] [] = .ok (ready [bytes "/a\\"] []) ∧
      ¬ Inverts [quotedEntry] := by
  have hcut : parseListResult (renderList [quotedEntry]) [] [] = .ok (ready [bytes "/a\\"] []) :=
    rfl
  refine ⟨hcut, fun hinverts => ?_⟩
  obtain ⟨scan, hparse, hfiles, -⟩ := hinverts [] []
  rw [hcut] at hparse
  cases hparse
  revert hfiles
  decide

end HaybarnHttpfs.HuggingFaceJson
