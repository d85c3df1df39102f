import HaybarnHttpfs.Foundation.ByteStrings

/-!
Texts with tags between them, and where a search for a tag ends up in their bytes.
-/

namespace HaybarnHttpfs.Foundation.Markup

open HaybarnHttpfs.Foundation.ByteStrings

/-- A search that starts in front of `part` finds nothing before its end. -/
def Skips (needle part : Bytes) : Prop :=
  ∀ rest, find needle (part ++ rest) = (find needle rest).map (· + part.length)

theorem Skips.nil (needle : Bytes) : Skips needle [] := by
  intro rest
  simp

theorem Skips.append {needle part part' : Bytes} (hpart : Skips needle part)
    (hpart' : Skips needle part') : Skips needle (part ++ part') := by
  intro rest
  rw [List.append_assoc, hpart, hpart', Option.map_map, List.length_append]
  congr 1
  funext pos
  simp only [Function.comp_apply]
  omega

theorem Skips.cons {needle part : Bytes} {c : UInt8}
    (hfirst : ∀ rest, needle.isPrefixOf (c :: (part ++ rest)) = false)
    (hpart : Skips needle part) :
    Skips needle (c :: part) := by
  intro rest
  rw [List.cons_append, find, hfirst, hpart, Option.map_map]
  rfl

theorem skips_of_not_mem {needle part : Bytes} {c : UInt8} (hpart : c ∉ part) :
    Skips (c :: needle) part := by
  induction part with
  | nil => exact Skips.nil _
  | cons d part ih =>
      rw [List.mem_cons, not_or] at hpart
      refine Skips.cons (fun rest => ?_) (ih hpart.2)
      rw [List.isPrefixOf_cons_cons, beq_eq_false_iff_ne.mpr hpart.1, Bool.false_and]

theorem find_append_self {needle : Bytes} (hne : needle ≠ []) (rest : Bytes) :
    find needle (needle ++ rest) = some 0 := by
  obtain ⟨c, needle, rfl⟩ := List.exists_cons_of_ne_nil hne
  rw [List.cons_append, find, if_pos]
  exact List.isPrefixOf_iff_prefix.mpr ⟨rest, rfl⟩

theorem Skips.find_append {needle part : Bytes} (hpart : Skips needle part) (hne : needle ≠ [])
    (rest : Bytes) : find needle (part ++ (needle ++ rest)) = some part.length := by
  rw [hpart, find_append_self hne]
  simp

theorem Skips.find_eq_none {needle part : Bytes} (hpart : Skips needle part) (hne : needle ≠ []) :
    find needle part = none := by
  have hend := hpart []
  rw [List.append_nil] at hend
  rw [hend]
  cases needle with
  | nil => exact absurd rfl hne
  | cons c needle => rfl

def lessThan : UInt8 := 60

def greaterThan : UInt8 := 62

abbrev Text := { text : Bytes // lessThan ∉ text }

abbrev Name := { name : Bytes // lessThan ∉ name ∧ greaterThan ∉ name }

def tagBytes (name : Bytes) : Bytes := lessThan :: (name ++ [greaterThan])

/-- A close tag has a name that begins with a slash. -/
inductive Token where
  | text (content : Text)
  | tag (name : Name)
  deriving DecidableEq

def Token.render : Token → Bytes
  | .text content => content
  | .tag name => tagBytes name

def render (tokens : List Token) : Bytes := tokens.flatMap Token.render

@[simp] theorem render_nil : render [] = [] := rfl

@[simp] theorem render_cons (token : Token) (tokens : List Token) :
    render (token :: tokens) = token.render ++ render tokens := rfl

@[simp] theorem render_append (tokens tokens' : List Token) :
    render (tokens ++ tokens') = render tokens ++ render tokens' := List.flatMap_append

theorem tagBytes_ne_nil (name : Bytes) : tagBytes name ≠ [] := List.cons_ne_nil _ _

theorem not_isPrefixOf_tagBytes {name name' : Name} (hne : name ≠ name') (rest : Bytes) :
    (tagBytes name).isPrefixOf (tagBytes name' ++ rest) = false := by
  rw [← Bool.not_eq_true, List.isPrefixOf_iff_prefix]
  rintro ⟨behind, heq⟩
  simp only [tagBytes, List.cons_append, List.append_assoc, List.nil_append, List.cons.injEq,
    true_and] at heq
  have hsame : (name : Bytes) = name' := by
    have hleft : find [greaterThan] ((name : Bytes) ++ greaterThan :: behind) = _ :=
      find_singleton name.2.2
    rw [heq, find_singleton name'.2.2] at hleft
    exact (List.append_inj heq (Option.some.inj hleft).symm).1
  exact hne (Subtype.ext hsame)

theorem skips_token {name : Name} {token : Token} (hne : token ≠ .tag name) :
    Skips (tagBytes name) token.render := by
  cases token with
  | text content =>
      have hcontent : Skips (tagBytes name) (content : Bytes) := skips_of_not_mem content.2
      exact hcontent
  | tag name' =>
      have hnames : name ≠ name' := by
        rintro rfl
        exact hne rfl
      have hbehind : Skips (tagBytes name) ((name' : Bytes) ++ [greaterThan]) :=
        skips_of_not_mem (by
          rw [List.mem_append, not_or]
          exact ⟨name'.2.1, by decide⟩)
      exact Skips.cons (not_isPrefixOf_tagBytes hnames) hbehind

def Name.closing (name : Name) : Name :=
  ⟨47 :: name, by
    simp only [List.mem_cons, not_or]
    exact ⟨⟨by decide, name.2.1⟩, by decide, name.2.2⟩⟩

/-- A tag, what is inside it and its close tag. -/
def element (name : Name) (inner : List Token) : List Token :=
  .tag name :: (inner ++ [.tag name.closing])

theorem skips_render {name : Name} {tokens : List Token} (hfresh : Token.tag name ∉ tokens) :
    Skips (tagBytes name) (render tokens) := by
  induction tokens with
  | nil => exact Skips.nil _
  | cons token tokens ih =>
      rw [List.mem_cons, not_or] at hfresh
      exact (skips_token (Ne.symm hfresh.1)).append (ih hfresh.2)

end HaybarnHttpfs.Foundation.Markup
