import HaybarnHttpfs.Foundation.Markup
import HaybarnHttpfs.Foundation.Numerals
import HaybarnHttpfs.ListObjectsV2

/-!
The pages of a listing as a server writes them, and what the scanners of
`AWSListObjectV2` read from them.
-/

namespace HaybarnHttpfs.ListPages

open HaybarnHttpfs.Foundation.ByteStrings HaybarnHttpfs.Foundation.Markup
open HaybarnHttpfs.Foundation.Numerals
open HaybarnHttpfs.S3Url HaybarnHttpfs.S3Xml HaybarnHttpfs.ListObjectsV2

/-- A character of a text as it is written: `&` and `<` stand there as references only, a
quote and `>` may. -/
inductive PageChar where
  | plain (c : { c : UInt8 // c ≠ 60 ∧ c ≠ 38 })
  | namedQuote
  | numericQuote
  | ampersand
  | lessThan
  | greaterThan
  deriving DecidableEq

def PageChar.value : PageChar → UInt8
  | .plain c => c
  | .namedQuote | .numericQuote => 34
  | .ampersand => 38
  | .lessThan => 60
  | .greaterThan => 62

def PageChar.render : PageChar → Bytes
  | .plain c => [c]
  | .namedQuote => bytes "&quot;"
  | .numericQuote => bytes "&#34;"
  | .ampersand => bytes "&amp;"
  | .lessThan => bytes "&lt;"
  | .greaterThan => bytes "&gt;"

/-- What the client makes of it in an ETag: it knows the references to quotes. -/
def PageChar.unquoted : PageChar → Bytes
  | .plain c => [c]
  | .namedQuote | .numericQuote => [34]
  | .ampersand => bytes "&amp;"
  | .lessThan => bytes "&lt;"
  | .greaterThan => bytes "&gt;"

structure S3Object where
  key : Bytes
  nonempty : key ≠ []
  lastModified : Option Nat := none
  etag : Option (List PageChar) := none
  size : Option UInt64 := none

/-- How the server writes keys, times and sizes, and that the client reads them back. -/
structure PageEncoding (core : Core) where
  encode : Bytes → Bytes
  timestampText : Nat → Bytes
  encode_free : ∀ key, lessThan ∉ encode key
  timestampText_free : ∀ time, lessThan ∉ timestampText time
  decode_encode : ∀ key, core.urlDecode (encode key) = key
  cast_timestampText : ∀ time, core.castTimestamp (timestampText time) = some time
  cast_size : ∀ size : UInt64, core.castUBigInt (decimal size.toNat) = some size.toNat

def contentsName : Name := ⟨bytes "Contents", by decide⟩
def keyName : Name := ⟨bytes "Key", by decide⟩
def lastModifiedName : Name := ⟨bytes "LastModified", by decide⟩
def etagName : Name := ⟨bytes "ETag", by decide⟩
def sizeName : Name := ⟨bytes "Size", by decide⟩
def commonPrefixesName : Name := ⟨bytes "CommonPrefixes", by decide⟩
def prefixName : Name := ⟨bytes "Prefix", by decide⟩
def tokenName : Name := ⟨tokenTag, by decide⟩

/-- The tags that a page has only around what they stand for. -/
def pageTags : List Name := [contentsName, contentsName.closing, commonPrefixesName, tokenName]

def objectTags : List Name := [keyName, lastModifiedName, etagName, sizeName]

/-- Anything else on a page: white space, and elements like `KeyCount` or `Owner`. -/
def Free (tags : List Name) (tokens : List Token) : Prop := ∀ name ∈ tags, Token.tag name ∉ tokens

inductive Part where
  | key
  | lastModified
  | etag
  | size
  deriving DecidableEq

def Part.name : Part → Name
  | key => keyName
  | lastModified => lastModifiedName
  | etag => etagName
  | size => sizeName

inductive Field where
  | part (part : Part)
  | other (tokens : { tokens : List Token // Free (pageTags ++ objectTags) tokens })

/-- The order in which the parts of an object are written, with what is between them. -/
abbrev Layout := { fields : List Field // ∀ part, .part part ∈ fields }

/-- The elements of a page, in the order in which they are written. -/
inductive Item where
  | contents (object : S3Object) (layout : Layout)
  | commonPrefix (value : Bytes) (before after : Text)
  | continuationToken (token : Text)
  | other (tokens : { tokens : List Token // Free pageTags tokens })

def Item.object? : Item → Option S3Object
  | .contents object _ => some object
  | _ => none

def Item.commonPrefix? : Item → Option Bytes
  | .commonPrefix value _ _ => some value
  | _ => none

def Item.continuationToken? : Item → Option Text
  | .continuationToken token => some token
  | _ => none

/-- A page for these objects, common prefixes and continuation token. -/
structure Page (objects : List S3Object) (commonPrefixes : List Bytes)
    (continuationToken : Option Text) where
  items : List Item
  objects_eq : items.filterMap Item.object? = objects
  commonPrefixes_eq : items.filterMap Item.commonPrefix? = commonPrefixes
  continuationToken_eq : items.filterMap Item.continuationToken? = continuationToken.toList

variable {core : Core}

def renderChars (chars : List PageChar) : Bytes := chars.flatMap PageChar.render

theorem lessThan_notMem_render (c : PageChar) : Foundation.Markup.lessThan ∉ c.render := by
  cases c with
  | plain c => exact fun hc => c.2.1 (List.mem_singleton.mp hc).symm
  | namedQuote => decide
  | numericQuote => decide
  | ampersand => decide
  | lessThan => decide
  | greaterThan => decide

theorem renderChars_free (chars : List PageChar) :
    Foundation.Markup.lessThan ∉ renderChars chars := by
  intro hmem
  obtain ⟨c, -, hc⟩ := List.mem_flatMap.mp hmem
  exact lessThan_notMem_render c hc

/-- A text of the server as it stands on the page. -/
def written (chars : List PageChar) : Text := ⟨renderChars chars, renderChars_free chars⟩

def PageEncoding.text (encoding : PageEncoding core) (object : S3Object) : Part → Option Text
  | .key => some ⟨encoding.encode object.key, encoding.encode_free _⟩
  | .lastModified =>
      object.lastModified.map fun time =>
        ⟨encoding.timestampText time, encoding.timestampText_free _⟩
  | .etag => object.etag.map written
  | .size => object.size.map fun size => ⟨decimal size.toNat, not_mem_decimal (by decide) _⟩

def PageEncoding.fieldTokens (encoding : PageEncoding core) (object : S3Object) :
    Field → List Token
  | .part part =>
      (encoding.text object part).elim [] fun text => element part.name [.text text]
  | .other tokens => tokens

def PageEncoding.itemTokens (encoding : PageEncoding core) : Item → List Token
  | .contents object layout =>
      element contentsName (layout.1.flatMap (encoding.fieldTokens object))
  | .commonPrefix value before after =>
      element commonPrefixesName
        (.text before ::
          element prefixName [.text ⟨encoding.encode value, encoding.encode_free _⟩] ++
          [.text after])
  | .continuationToken token => element tokenName [.text token]
  | .other tokens => tokens

def PageEncoding.renderItems (encoding : PageEncoding core) (items : List Item) : Bytes :=
  render (items.flatMap encoding.itemTokens)

/-- What the listing has for an object; a key that ends in a slash is a directory. -/
def fileInfo (object : S3Object) : Option OpenFileInfo :=
  if object.key.getLast? = some slash then none
  else
    some {
      path := object.key
      lastModified := object.lastModified
      etag := object.etag.map fun etag => etag.flatMap PageChar.unquoted
      fileSize := object.size.map UInt64.toNat }

/-- What it should have: the ETag as the server has it. -/
def exactInfo (object : S3Object) : Option OpenFileInfo :=
  (fileInfo object).map fun file =>
    { file with etag := object.etag.map fun etag => etag.map PageChar.value }

theorem openTag_eq (tag : Bytes) : openTag tag = tagBytes tag := by
  have hopen : bytes "<" = [60] := by decide
  have hclose : bytes ">" = [62] := by decide
  rw [openTag, hopen, hclose]
  rfl

theorem closeTag_eq (name : Name) : closeTag name = tagBytes name.closing := by
  have hopen : bytes "</" = [60, 47] := by decide
  have hclose : bytes ">" = [62] := by decide
  rw [closeTag, hopen, hclose]
  rfl

theorem findFrom_of_drop {needle text part rest : Bytes} {pos : Nat}
    (hdrop : text.drop pos = part ++ (needle ++ rest)) (hpart : Skips needle part)
    (hne : needle ≠ []) : findFrom needle text pos = some (pos + part.length) := by
  rw [findFrom, hdrop, hpart.find_append hne, Option.map_some, Nat.add_comm]

theorem findFrom_of_skips {needle text : Bytes} {pos : Nat}
    (hskips : Skips needle (text.drop pos))
    (hne : needle ≠ []) : findFrom needle text pos = none := by
  rw [findFrom, hskips.find_eq_none hne, Option.map_none]

theorem drop_of_drop {text part rest : Bytes} {pos : Nat} (hdrop : text.drop pos = part ++ rest) :
    text.drop (pos + part.length) = rest := by
  rw [← List.drop_drop, hdrop, List.drop_left]

theorem findTagContents_element {response before rest : Bytes} {name : Name} {inner : List Token}
    {curPos : Nat}
    (hdrop : response.drop curPos = before ++ (render (element name inner) ++ rest))
    (hbefore : Skips (tagBytes name) before) (hinner : Token.tag name.closing ∉ inner) :
    ∃ nextPos, findTagContents response name curPos = .ok (some (render inner, nextPos)) ∧
      curPos < nextPos ∧ response.drop nextPos = rest := by
  have helement : render (element name inner) ++ rest =
      tagBytes name ++ (render inner ++ (tagBytes name.closing ++ rest)) := by
    simp [element, Token.render]
  rw [helement] at hdrop
  have hopen := findFrom_of_drop hdrop hbefore (tagBytes_ne_nil _)
  have hinside := drop_of_drop (drop_of_drop hdrop)
  have hclose := findFrom_of_drop hinside (skips_render hinner) (tagBytes_ne_nil _)
  have hrest := drop_of_drop (drop_of_drop hinside)
  refine ⟨_, ?_, ?_, hrest⟩
  · simp only [findTagContents, tryFindTagContents, openTag_eq, closeTag_eq, hopen,
      hclose, substr, hinside]
    have hcount : curPos + before.length + (tagBytes name).length + (render inner).length -
        (curPos + before.length) - (tagBytes name).length = (render inner).length := by omega
    rw [hcount, List.take_left]
  · have hpositive := List.length_pos_of_ne_nil (tagBytes_ne_nil name)
    omega

theorem findTagContents_none {response : Bytes} {name : Name} {curPos : Nat}
    (hskips : Skips (tagBytes name) (response.drop curPos)) :
    findTagContents response name curPos = .ok none := by
  rw [findTagContents, openTag_eq, findFrom_of_skips hskips (tagBytes_ne_nil _)]

theorem replaceAll_append {target replacement part : Bytes} (hpart : Skips target part)
    (fuel : Nat) (rest : Bytes) :
    replaceAll target replacement fuel (part ++ rest) =
      part ++ replaceAll target replacement fuel rest := by
  cases fuel with
  | zero => rfl
  | succ fuel =>
      unfold replaceAll
      rw [hpart]
      cases find target rest with
      | none => rfl
      | some pos =>
          have htake : (part ++ rest).take (pos + part.length) = part ++ rest.take pos := by
            rw [Nat.add_comm, List.take_length_add_append]
          have hdrop : (part ++ rest).drop (pos + part.length + target.length) =
              rest.drop (pos + target.length) := by
            rw [Nat.add_comm pos, Nat.add_assoc, List.drop_length_add_append]
          simp only [Option.map_some, htake, hdrop, List.append_assoc]

theorem replaceAll_flatMap {γ : Type} {target replacement : Bytes} {written read : γ → Bytes}
    (hne : target ≠ [])
    (hpiece : ∀ c, (Skips target (written c) ∧ read c = written c) ∨
      (written c = target ∧ read c = replacement)) {pieces : List γ} {fuel : Nat}
    (hfuel : pieces.length ≤ fuel) :
    replaceAll target replacement fuel (pieces.flatMap written) = pieces.flatMap read := by
  induction pieces generalizing fuel with
  | nil =>
      cases fuel with
      | zero => rfl
      | succ fuel =>
          have hnone : find target [] = none := (Skips.nil target).find_eq_none hne
          rw [List.flatMap_nil, replaceAll, hnone]
          rfl
  | cons c pieces ih =>
      rw [List.flatMap_cons, List.flatMap_cons]
      rcases hpiece c with ⟨hskips, hsame⟩ | ⟨htarget, hreplacement⟩
      · rw [replaceAll_append hskips, hsame, ih (Nat.le_of_succ_le hfuel)]
      · obtain ⟨fuel, rfl⟩ : ∃ more, fuel = more + 1 :=
          Nat.exists_eq_add_one_of_ne_zero (by rintro rfl; simp at hfuel)
        rw [htarget, hreplacement, replaceAll, find_append_self hne]
        simp only [List.take_zero, List.nil_append, Nat.zero_add, List.drop_left]
        rw [ih (Nat.le_of_succ_le_succ hfuel)]

theorem length_le_flatMap {γ : Type} {written : γ → Bytes} (hwritten : ∀ c, written c ≠ [])
    (pieces : List γ) : pieces.length ≤ (pieces.flatMap written).length := by
  induction pieces with
  | nil => exact Nat.le_refl 0
  | cons c pieces ih =>
      have hpositive := List.length_pos_of_ne_nil (hwritten c)
      rw [List.flatMap_cons, List.length_append, List.length_cons]
      omega

theorem replace_flatMap {γ : Type} {target replacement : Bytes} {written read : γ → Bytes}
    (hne : target ≠ [])
    (hpiece : ∀ c, (Skips target (written c) ∧ read c = written c) ∨
      (written c = target ∧ read c = replacement))
    (hwritten : ∀ c, written c ≠ []) (pieces : List γ) :
    replace (pieces.flatMap written) target replacement = pieces.flatMap read := by
  exact replaceAll_flatMap hne hpiece (length_le_flatMap hwritten pieces)

/-- What is left to be replaced once the named quotes are. -/
def PageChar.renderNumeric : PageChar → Bytes
  | .namedQuote => [34]
  | c => c.render

theorem PageChar.render_ne_nil (c : PageChar) : c.render ≠ [] := by
  cases c with
  | plain c => exact List.cons_ne_nil _ _
  | namedQuote => decide
  | numericQuote => decide
  | ampersand => decide
  | lessThan => decide
  | greaterThan => decide

theorem PageChar.renderNumeric_ne_nil (c : PageChar) : c.renderNumeric ≠ [] := by
  cases c with
  | namedQuote => exact List.cons_ne_nil _ _
  | plain c => exact (PageChar.plain c).render_ne_nil
  | numericQuote => exact PageChar.numericQuote.render_ne_nil
  | ampersand => exact PageChar.ampersand.render_ne_nil
  | lessThan => exact PageChar.lessThan.render_ne_nil
  | greaterThan => exact PageChar.greaterThan.render_ne_nil

theorem skips_of_ne_ampersand {c : UInt8} (hc : c ≠ 38) (needle : Bytes) :
    Skips (38 :: needle) [c] := skips_of_not_mem (by simpa using Ne.symm hc)

theorem skips_reference {needle : Bytes} (name : Bytes) (hname : (38 : UInt8) ∉ name)
    (hother : ∀ rest, (38 :: needle).isPrefixOf (38 :: (name ++ rest)) = false) :
    Skips (38 :: needle) (38 :: name) :=
  Skips.cons hother (skips_of_not_mem hname)

theorem replace_quotes (etag : List PageChar) :
    replace (replace (renderChars etag) (bytes "&quot;") (bytes "\"")) (bytes "&#34;")
      (bytes "\"") = etag.flatMap PageChar.unquoted := by
  have hnamed : bytes "&quot;" = 38 :: bytes "quot;" := by decide
  have hnumeric : bytes "&#34;" = 38 :: bytes "#34;" := by decide
  have hquote : bytes "\"" = [34] := by decide
  have hfirst : replace (renderChars etag) (bytes "&quot;") (bytes "\"") =
      etag.flatMap PageChar.renderNumeric := by
    refine replace_flatMap (by decide) ?_ PageChar.render_ne_nil etag
    rw [hnamed]
    intro c
    cases c with
    | plain c => exact .inl ⟨skips_of_ne_ampersand c.2.2 _, rfl⟩
    | namedQuote => exact .inr ⟨hnamed, hquote.symm⟩
    | numericQuote => exact .inl ⟨skips_reference (bytes "#34;") (by decide) fun _ => rfl, rfl⟩
    | ampersand => exact .inl ⟨skips_reference (bytes "amp;") (by decide) fun _ => rfl, rfl⟩
    | lessThan => exact .inl ⟨skips_reference (bytes "lt;") (by decide) fun _ => rfl, rfl⟩
    | greaterThan => exact .inl ⟨skips_reference (bytes "gt;") (by decide) fun _ => rfl, rfl⟩
  have hsecond : replace (etag.flatMap PageChar.renderNumeric) (bytes "&#34;") (bytes "\"") =
      etag.flatMap PageChar.unquoted := by
    refine replace_flatMap (by decide) ?_ PageChar.renderNumeric_ne_nil etag
    rw [hnumeric]
    intro c
    cases c with
    | plain c => exact .inl ⟨skips_of_ne_ampersand c.2.2 _, rfl⟩
    | namedQuote => exact .inl ⟨skips_of_ne_ampersand (by decide) _, rfl⟩
    | numericQuote => exact .inr ⟨hnumeric, hquote.symm⟩
    | ampersand => exact .inl ⟨skips_reference (bytes "amp;") (by decide) fun _ => rfl, rfl⟩
    | lessThan => exact .inl ⟨skips_reference (bytes "lt;") (by decide) fun _ => rfl, rfl⟩
    | greaterThan => exact .inl ⟨skips_reference (bytes "gt;") (by decide) fun _ => rfl, rfl⟩
  rw [hfirst, hsecond]

variable {encoding : PageEncoding core} {object : S3Object} {fields : List Field}

theorem text_not_mem {name : Name} {content : Text} : Token.tag name ∉ [Token.text content] := by
  simp

theorem mem_element_text {name name' : Name} {content : Text}
    (hmem : Token.tag name ∈ element name' [.text content]) :
    name = name' ∨ name = name'.closing := by
  simpa [element] using hmem

theorem Part.name_injective : Function.Injective Part.name := by
  intro part other hname
  cases part with
  | _ =>
      cases other with
      | _ => first | rfl | exact absurd hname (by decide)

theorem part_of_mem_fieldTokens {name : Name} {field : Field}
    (hname : name ∈ pageTags ++ objectTags)
    (hmem : Token.tag name ∈ encoding.fieldTokens object field) :
    ∃ part, field = .part part ∧ name = part.name := by
  cases field with
  | part part =>
      refine ⟨part, rfl, ?_⟩
      cases htext : encoding.text object part with
      | none => simp [PageEncoding.fieldTokens, htext] at hmem
      | some text =>
          simp only [PageEncoding.fieldTokens, htext, Option.elim_some] at hmem
          rcases mem_element_text hmem with hown | hclosing
          · exact hown
          · rw [hclosing] at hname
            cases part with
            | _ => exact absurd hname (by decide)
  | other tokens => exact absurd hmem (tokens.2 name hname)

theorem skips_fields {name : Name}
    (hfresh : ∀ field ∈ fields, Token.tag name ∉ encoding.fieldTokens object field) :
    Skips (tagBytes name) (render (fields.flatMap (encoding.fieldTokens object))) := by
  refine skips_render ?_
  rw [List.mem_flatMap]
  rintro ⟨field, hfield, htag⟩
  exact hfresh field hfield htag

theorem findTagContents_part (encoding : PageEncoding core) (object : S3Object)
    (layout : Layout) (part : Part) :
    ∃ nextPos, findTagContents (render (layout.1.flatMap (encoding.fieldTokens object)))
        part.name 0 =
      .ok ((encoding.text object part).map fun text => (text.1, nextPos)) := by
  have hlooked : part.name ∈ pageTags ++ objectTags := by
    cases part with
    | _ => decide
  have hothers : ∀ field, field ≠ .part part →
      Token.tag part.name ∉ encoding.fieldTokens object field := by
    intro field hfield htag
    obtain ⟨other, rfl, hname⟩ := part_of_mem_fieldTokens hlooked htag
    rw [Part.name_injective hname] at hfield
    exact hfield rfl
  cases htext : encoding.text object part with
  | none =>
      refine ⟨0, findTagContents_none ?_⟩
      rw [List.drop_zero]
      refine skips_fields fun field _ => ?_
      by_cases hfield : field = .part part
      · simp [hfield, PageEncoding.fieldTokens, htext]
      · exact hothers field hfield
  | some text =>
      obtain ⟨before, after, hlayout, hbefore⟩ := List.eq_append_cons_of_mem (layout.2 part)
      have hskips : Skips (tagBytes part.name)
          (render (before.flatMap (encoding.fieldTokens object))) := by
        refine skips_fields fun field hfield => hothers field ?_
        rintro rfl
        exact hbefore hfield
      have hdrop : (render (layout.1.flatMap (encoding.fieldTokens object))).drop 0 =
          render (before.flatMap (encoding.fieldTokens object)) ++
            (render (element part.name [.text text]) ++
              render (after.flatMap (encoding.fieldTokens object))) := by
        simp [hlayout, PageEncoding.fieldTokens, htext]
      obtain ⟨nextPos, hfound, -, -⟩ := findTagContents_element hdrop hskips text_not_mem
      refine ⟨nextPos, hfound.trans ?_⟩
      simp [Token.render]

theorem scan_eq {response : Bytes} {tag : String} {curPos : Nat} {found : Option (Bytes × Nat)}
    (hfound : findTagContents response (bytes tag) curPos = .ok found) :
    scan response tag curPos = .ok found := by
  rw [scan, hfound]

theorem castAttribute_written {γ : Type} {cast : Bytes → Option Nat} {written : γ → Bytes}
    {value : γ → Nat} (hcast : ∀ c, cast (written c) = some (value c)) (found : Option γ)
    (pos : Nat) :
    castAttribute cast (found.map fun c => (written c, pos)) = .ok (found.map value) := by
  cases found with
  | none => rfl
  | some c => simp [castAttribute, hcast]

theorem parseContents_render (encoding : PageEncoding core) (object : S3Object)
    (layout : Layout) :
    parseContents core (render (layout.1.flatMap (encoding.fieldTokens object))) =
      .ok (fileInfo object) := by
  obtain ⟨_, hkey⟩ := findTagContents_part encoding object layout .key
  obtain ⟨_, htime⟩ := findTagContents_part encoding object layout .lastModified
  obtain ⟨_, hetag⟩ := findTagContents_part encoding object layout .etag
  obtain ⟨_, hsize⟩ := findTagContents_part encoding object layout .size
  obtain ⟨first, last, hlast⟩ : ∃ first last, object.key = first ++ [last] :=
    ⟨_, _, (List.dropLast_append_getLast object.nonempty).symm⟩
  have hgetLast : object.key.getLast? = some last := by rw [hlast, List.getLast?_concat]
  simp only [parseContents, scan_eq hkey, bind, Except.bind, PageEncoding.text, Option.map_some,
    encoding.decode_encode, hgetLast, fileInfo, Option.some.injEq]
  split
  · rfl
  · rw [scan_eq htime, scan_eq hetag, scan_eq hsize]
    simp only [PageEncoding.text, Option.map_map, Function.comp_def, written, replace_quotes,
      castAttribute_written encoding.cast_timestampText, castAttribute_written encoding.cast_size,
      Option.map_id']
    rfl

def Item.name : Item → Option Name
  | .contents _ _ => some contentsName
  | .commonPrefix _ _ _ => some commonPrefixesName
  | .continuationToken _ => some tokenName
  | .other _ => none

theorem mem_element {name name' : Name} {inner : List Token}
    (hmem : Token.tag name ∈ element name' inner) :
    name = name' ∨ name = name'.closing ∨ Token.tag name ∈ inner := by
  simp only [element, List.mem_cons, List.mem_append, Token.tag.injEq, List.not_mem_nil,
    or_false] at hmem
  rcases hmem with hopen | hinner | hclose
  · exact .inl hopen
  · exact .inr (.inr hinner)
  · exact .inr (.inl hclose)

theorem pageTag_not_mem_fields (encoding : PageEncoding core) (object : S3Object) {name : Name}
    (hname : name ∈ pageTags) (layout : Layout) :
    Token.tag name ∉ layout.1.flatMap (encoding.fieldTokens object) := by
  rw [List.mem_flatMap]
  rintro ⟨field, -, htag⟩
  obtain ⟨part, -, rfl⟩ := part_of_mem_fieldTokens (List.mem_append_left _ hname) htag
  cases part with
  | _ => exact absurd hname (by decide)

/-- The tags that the scanners of a page look for. -/
def scannedTags : List Name := [contentsName, commonPrefixesName, tokenName]

theorem mem_pageTags_of_scanned : ∀ name ∈ scannedTags, name ∈ pageTags := by decide

theorem scanned_ne_closing :
    ∀ name ∈ scannedTags, ∀ own ∈ scannedTags, name ≠ own.closing := by decide

theorem scanned_ne_prefixName :
    ∀ name ∈ scannedTags, name ≠ prefixName ∧ name ≠ prefixName.closing := by decide

theorem name_of_mem_itemTokens {name : Name} {item : Item} (hname : name ∈ scannedTags)
    (hmem : Token.tag name ∈ encoding.itemTokens item) : item.name = some name := by
  cases item with
  | contents object layout =>
      rcases mem_element hmem with rfl | hclosing | hinner
      · rfl
      · exact absurd hclosing (scanned_ne_closing name hname contentsName (by decide))
      · exact absurd hinner
          (pageTag_not_mem_fields encoding object (mem_pageTags_of_scanned name hname) layout)
  | commonPrefix value before after =>
      rcases mem_element hmem with rfl | hclosing | hinner
      · rfl
      · exact absurd hclosing (scanned_ne_closing name hname commonPrefixesName (by decide))
      · have hprefix : Token.tag name ∈ element prefixName
            [.text ⟨encoding.encode value, encoding.encode_free value⟩] := by
          simpa using hinner
        obtain ⟨hopen, hclose⟩ := scanned_ne_prefixName name hname
        rcases mem_element_text hprefix with hsame | hsame
        · exact absurd hsame hopen
        · exact absurd hsame hclose
  | continuationToken token =>
      rcases mem_element_text hmem with rfl | hclosing
      · rfl
      · exact absurd hclosing (scanned_ne_closing name hname tokenName (by decide))
  | other tokens => exact absurd hmem (tokens.2 name (mem_pageTags_of_scanned name hname))

theorem skips_item {name : Name} {item : Item} (hname : name ∈ scannedTags)
    (hitem : item.name ≠ some name) :
    Skips (tagBytes name) (render (encoding.itemTokens item)) :=
  skips_render fun hmem => hitem (name_of_mem_itemTokens hname hmem)

theorem skips_contents {item : Item} (hnone : item.object? = none) :
    Skips (tagBytes contentsName) (render (encoding.itemTokens item)) := by
  refine skips_item (by decide) ?_
  cases item with
  | contents => cases hnone
  | commonPrefix => exact (by decide : some commonPrefixesName ≠ some contentsName)
  | continuationToken => exact (by decide : some tokenName ≠ some contentsName)
  | other => exact nofun

theorem skips_commonPrefix {item : Item} (hnone : item.commonPrefix? = none) :
    Skips (tagBytes commonPrefixesName) (render (encoding.itemTokens item)) := by
  refine skips_item (by decide) ?_
  cases item with
  | contents => exact (by decide : some contentsName ≠ some commonPrefixesName)
  | commonPrefix => cases hnone
  | continuationToken => exact (by decide : some tokenName ≠ some commonPrefixesName)
  | other => exact nofun

theorem skips_continuationToken {item : Item} (hnone : item.continuationToken? = none) :
    Skips (tagBytes tokenName) (render (encoding.itemTokens item)) := by
  refine skips_item (by decide) ?_
  cases item with
  | contents => exact (by decide : some contentsName ≠ some tokenName)
  | commonPrefix => exact (by decide : some commonPrefixesName ≠ some tokenName)
  | continuationToken => cases hnone
  | other => exact nofun

theorem renderItems_cons (item : Item) (items : List Item) :
    encoding.renderItems (item :: items) =
      render (encoding.itemTokens item) ++ encoding.renderItems items := by
  simp [PageEncoding.renderItems]

theorem skips_tokenless {items : List Item}
    (hnone : ∀ item ∈ items, item.continuationToken? = none) :
    Skips (tagBytes tokenName) (encoding.renderItems items) := by
  induction items with
  | nil => exact Skips.nil _
  | cons item items ih =>
      rw [List.forall_mem_cons] at hnone
      rw [renderItems_cons]
      exact (skips_continuationToken hnone.1).append (ih hnone.2)

theorem length_objects_le (items : List Item) :
    (items.filterMap Item.object?).length ≤ (encoding.renderItems items).length := by
  induction items with
  | nil => exact Nat.zero_le _
  | cons item items ih =>
      rw [renderItems_cons, List.length_append]
      cases item with
      | contents object layout =>
          have hone : 1 ≤ (render (encoding.itemTokens (.contents object layout))).length := by
            simp only [PageEncoding.itemTokens, element, render_cons, Token.render, tagBytes,
              List.length_append, List.length_cons]
            omega
          simp only [List.filterMap_cons, Item.object?, List.length_cons]
          omega
      | _ =>
          simp only [List.filterMap_cons, Item.object?]
          omega

theorem parseFileListFrom_items {response skipped : Bytes} {items : List Item} {fuel pos : Nat}
    (hdrop : response.drop pos = skipped ++ encoding.renderItems items)
    (hskipped : Skips (tagBytes contentsName) skipped)
    (hfuel : (items.filterMap Item.object?).length ≤ fuel) :
    parseFileListFrom core response fuel pos =
      .ok ((items.filterMap Item.object?).filterMap fileInfo) := by
  -- `skipped` is what lies between the cursor and the next item
  induction items generalizing skipped fuel pos with
  | nil =>
      cases fuel with
      | zero => rfl
      | succ fuel =>
          have hnone : findTagContents response contentsName pos = .ok none :=
            findTagContents_none (by rw [hdrop]; exact hskipped.append (Skips.nil _))
          rw [parseFileListFrom, scan_eq hnone]
          rfl
  | cons item items ih =>
      rw [renderItems_cons] at hdrop
      cases item with
      | contents object layout =>
          obtain ⟨fuel, rfl⟩ : ∃ more, fuel = more + 1 :=
            Nat.exists_eq_add_one_of_ne_zero (by rintro rfl; simp [Item.object?] at hfuel)
          have hclosing := pageTag_not_mem_fields encoding object
            (by decide : contentsName.closing ∈ pageTags) layout
          obtain ⟨nextPos, hfound, -, hrest⟩ := findTagContents_element hdrop hskipped hclosing
          have hbehind : response.drop nextPos = [] ++ encoding.renderItems items := hrest
          have hobjects := ih hbehind (Skips.nil _)
            (Nat.le_of_succ_le_succ (by simpa [Item.object?] using hfuel))
          rw [parseFileListFrom, scan_eq hfound]
          simp only [bind, Except.bind, parseContents_render, hobjects, List.filterMap_cons,
            Item.object?]
          cases fileInfo object with
          | _ => rfl
      | _ =>
          rw [← List.append_assoc] at hdrop
          exact ih hdrop (hskipped.append (skips_contents rfl)) hfuel

theorem length_commonPrefixes_le (items : List Item) :
    (items.filterMap Item.commonPrefix?).length ≤ (encoding.renderItems items).length := by
  induction items with
  | nil => exact Nat.zero_le _
  | cons item items ih =>
      rw [renderItems_cons, List.length_append]
      cases item with
      | commonPrefix value before after =>
          have hone : 1 ≤
            (render (encoding.itemTokens (.commonPrefix value before after))).length := by
            simp only [PageEncoding.itemTokens, element, render_cons, Token.render, tagBytes,
              List.length_append, List.length_cons]
            omega
          simp only [List.filterMap_cons, Item.commonPrefix?, List.length_cons]
          omega
      | _ =>
          simp only [List.filterMap_cons, Item.commonPrefix?]
          omega

/-- What is behind the text of a common prefix where the scanner goes on: it only skips
six of the nine bytes of the close tag. -/
def behindPrefix (after : Text) : Bytes :=
  bytes "ix>" ++ render [.text after, .tag commonPrefixesName.closing]

theorem skips_behindPrefix (after : Text) :
    Skips (tagBytes commonPrefixesName) (behindPrefix after) := by
  refine Skips.append (skips_of_not_mem (by decide)) (skips_render ?_)
  have hne : commonPrefixesName ≠ commonPrefixesName.closing := by decide
  simp [hne]

theorem parseCommonPrefixFrom_next {response skipped rest value : Bytes} {before after : Text}
    {fuel pos : Nat}
    (hdrop : response.drop pos = skipped ++
      (render (encoding.itemTokens (.commonPrefix value before after)) ++ rest))
    (hskipped : Skips (tagBytes commonPrefixesName) skipped) :
    ∃ nextPos, response.drop nextPos = behindPrefix after ++ rest ∧
      parseCommonPrefixFrom response (fuel + 1) pos =
        (parseCommonPrefixFrom response fuel nextPos).map (encoding.encode value :: ·) := by
  have hitem : render (encoding.itemTokens (.commonPrefix value before after)) ++ rest =
      tagBytes commonPrefixesName ++ (before.1 ++ (tagBytes prefixName ++
        (encoding.encode value ++ (tagBytes prefixName.closing ++
          (after.1 ++ (tagBytes commonPrefixesName.closing ++ rest)))))) := by
    simp [PageEncoding.itemTokens, element, Token.render]
  have hclosing : tagBytes prefixName.closing = bytes "</Pref" ++ bytes "ix>" := by decide
  rw [hitem] at hdrop
  have hopen := findFrom_of_drop hdrop hskipped (tagBytes_ne_nil _)
  have hstart := drop_of_drop hdrop
  rw [← List.append_assoc] at hstart
  have hmarker : Skips (tagBytes prefixName) (Token.tag commonPrefixesName).render :=
    skips_token (by decide)
  have hbefore : Skips (tagBytes prefixName) (tagBytes commonPrefixesName ++ before.1) :=
    hmarker.append (skips_of_not_mem before.2)
  have hprefix := findFrom_of_drop hstart hbefore (tagBytes_ne_nil _)
  have hvalue := drop_of_drop (drop_of_drop hstart)
  have hfree : Skips (tagBytes prefixName.closing) (encoding.encode value) :=
    skips_of_not_mem (encoding.encode_free value)
  have hclose := findFrom_of_drop hvalue hfree (tagBytes_ne_nil _)
  have hbehind := drop_of_drop hvalue
  rw [hclosing, List.append_assoc] at hbehind
  have height : (tagBytes prefixName).length = 8 := by decide
  rw [height] at hvalue hclose hbehind
  refine ⟨_, (drop_of_drop hbehind).trans ?_, ?_⟩
  · simp [behindPrefix, Token.render]
  · have hopenTag : openTag (bytes "CommonPrefixes") = tagBytes commonPrefixesName := openTag_eq _
    have hprefixTag : openTag (bytes "Prefix") = tagBytes prefixName := openTag_eq _
    have hcloseTag : closeTag (bytes "Prefix") = tagBytes prefixName.closing :=
      closeTag_eq prefixName
    rw [parseCommonPrefixFrom, hopenTag, hopen]
    simp only [hprefixTag, hprefix, hcloseTag, hclose, substr, hvalue]
    have hcount : ∀ start length : Nat, start + 8 + length - start - 8 = length := by omega
    rw [hcount, List.take_left]
    have hsix : (bytes "</Pref").length = 6 := by decide
    rw [hsix]
    cases parseCommonPrefixFrom response fuel _ with
    | _ => rfl

theorem parseCommonPrefixFrom_items {response skipped : Bytes} {items : List Item}
    {fuel pos : Nat}
    (hdrop : response.drop pos = skipped ++ encoding.renderItems items)
    (hskipped : Skips (tagBytes commonPrefixesName) skipped)
    (hfuel : (items.filterMap Item.commonPrefix?).length ≤ fuel) :
    parseCommonPrefixFrom response fuel pos =
      .ok ((items.filterMap Item.commonPrefix?).map encoding.encode) := by
  induction items generalizing skipped fuel pos with
  | nil =>
      cases fuel with
      | zero => rfl
      | succ fuel =>
          have hnone : findFrom (openTag (bytes "CommonPrefixes")) response pos = none := by
            rw [openTag_eq]
            exact findFrom_of_skips (by rw [hdrop]; exact hskipped.append (Skips.nil _))
              (tagBytes_ne_nil _)
          rw [parseCommonPrefixFrom, hnone]
          rfl
  | cons item items ih =>
      rw [renderItems_cons] at hdrop
      cases item with
      | commonPrefix value before after =>
          obtain ⟨fuel, rfl⟩ : ∃ more, fuel = more + 1 :=
            Nat.exists_eq_add_one_of_ne_zero (by rintro rfl; simp [Item.commonPrefix?] at hfuel)
          obtain ⟨nextPos, hrest, hnext⟩ := parseCommonPrefixFrom_next hdrop hskipped
          rw [hnext, ih hrest (skips_behindPrefix after)
            (Nat.le_of_succ_le_succ (by simpa [Item.commonPrefix?] using hfuel))]
          rfl
      | _ =>
          rw [← List.append_assoc] at hdrop
          exact ih hdrop (hskipped.append (skips_commonPrefix rfl)) hfuel

theorem parseContinuationToken_items {items : List Item} {token : Option Text}
    (htoken : items.filterMap Item.continuationToken? = token.toList) :
    parseContinuationToken (encoding.renderItems items) = .ok (token.elim [] Subtype.val) := by
  have hopenTag : openTag tokenTag = tagBytes tokenName := openTag_eq _
  have hcloseTag : closeTag tokenTag = tagBytes tokenName.closing := closeTag_eq tokenName
  cases token with
  | none =>
      have hnone := List.filterMap_eq_nil_iff.mp htoken
      rw [parseContinuationToken, hopenTag,
        (skips_tokenless hnone).find_eq_none (tagBytes_ne_nil _)]
      rfl
  | some token =>
      obtain ⟨before, item, after, rfl, hbefore, hitem, -⟩ := List.filterMap_eq_cons_iff.mp htoken
      obtain rfl : item = .continuationToken token := by
        cases item
        · cases hitem
        · cases hitem
        · cases hitem
          rfl
        · cases hitem
      have hrender : encoding.renderItems (before ++ .continuationToken token :: after) =
          encoding.renderItems before ++ (tagBytes tokenName ++ (token.1 ++
            (tagBytes tokenName.closing ++ encoding.renderItems after))) := by
        simp [PageEncoding.renderItems, PageEncoding.itemTokens, element, Token.render]
      have hskips : Skips (tagBytes tokenName) (encoding.renderItems before) :=
        skips_tokenless hbefore
      have hlength : (tagBytes tokenName).length = 23 := by decide
      have hinside := drop_of_drop (drop_of_drop (List.drop_zero.trans hrender))
      rw [Nat.zero_add, hlength] at hinside
      have hfree : Skips (tagBytes tokenName.closing) token.1 := skips_of_not_mem token.2
      have hopen : find (tagBytes tokenName) (encoding.renderItems
          (before ++ .continuationToken token :: after)) =
          some (encoding.renderItems before).length := by
        rw [hrender]
        exact hskips.find_append (tagBytes_ne_nil _) _
      have hclose := findFrom_of_drop hinside hfree (tagBytes_ne_nil _)
      rw [parseContinuationToken, hopenTag, hopen]
      simp only [hcloseTag, hclose, substr, hinside]
      have hcount : ∀ start length : Nat, start + 23 + length - start - 23 = length := by omega
      rw [hcount, List.take_left]
      rfl

/-- A run of the loop of `ParseFileList` from `cur_pos` on to its end. -/
inductive FileListRun (core : Core) (response : Bytes) :
    Nat → Except ListError (List OpenFileInfo) → Prop where
  | exhausted {curPos : Nat} (hscan : scan response "Contents" curPos = .ok none) :
      FileListRun core response curPos (.ok [])
  | unclosed {curPos : Nat} {e : ListError} (hscan : scan response "Contents" curPos = .error e) :
      FileListRun core response curPos (.error e)
  | malformed {curPos nextPos : Nat} {contents : Bytes} {e : ListError}
      (hscan : scan response "Contents" curPos = .ok (some (contents, nextPos)))
      (hcontents : parseContents core contents = .error e) :
      FileListRun core response curPos (.error e)
  | next {curPos nextPos : Nat} {contents : Bytes} {file : Option OpenFileInfo}
      {result : Except ListError (List OpenFileInfo)}
      (hscan : scan response "Contents" curPos = .ok (some (contents, nextPos)))
      (hcontents : parseContents core contents = .ok file)
      (hrest : FileListRun core response nextPos result) :
      FileListRun core response curPos (result.map (file.toList ++ ·))

theorem le_of_findFrom {needle text : Bytes} {start pos : Nat}
    (hfind : findFrom needle text start = some pos) : start ≤ pos := by
  obtain ⟨behind, -, rfl⟩ := Option.map_eq_some_iff.mp hfind
  exact Nat.le_add_left _ _

theorem lt_of_scan {response contents : Bytes} {tag : String} {curPos nextPos : Nat}
    (hscan : scan response tag curPos = .ok (some (contents, nextPos))) : curPos < nextPos := by
  unfold scan findTagContents at hscan
  cases hopen : findFrom (openTag (bytes tag)) response curPos with
  | none =>
      rw [hopen] at hscan
      cases hscan
  | some openTagPos =>
      have hfirst := le_of_findFrom hopen
      simp only [hopen, tryFindTagContents] at hscan
      cases hclose : findFrom (closeTag (bytes tag)) response
          (openTagPos + (openTag (bytes tag)).length) with
      | none =>
          rw [hclose] at hscan
          cases hscan
      | some closeTagPos =>
          have hsecond := le_of_findFrom hclose
          have hpositive := List.length_pos_of_ne_nil (tagBytes_ne_nil (bytes tag))
          rw [← openTag_eq] at hpositive
          rw [hclose] at hscan
          cases hscan
          omega

theorem findFrom_end {needle text : Bytes} {pos : Nat} (hne : needle ≠ [])
    (hend : text.length ≤ pos) : findFrom needle text pos = none := by
  rw [findFrom, List.drop_eq_nil_of_le hend, (Skips.nil needle).find_eq_none hne]
  rfl

theorem fileListRun_of_fuel (core : Core) (response : Bytes) {fuel curPos : Nat}
    (hfuel : response.length ≤ curPos + fuel) :
    FileListRun core response curPos (parseFileListFrom core response fuel curPos) := by
  induction fuel generalizing curPos with
  | zero =>
      have hend : response.length ≤ curPos := hfuel
      refine .exhausted (scan_eq ?_)
      rw [findTagContents, openTag_eq, findFrom_end (tagBytes_ne_nil _) hend]
  | succ fuel ih =>
      cases hscan : scan response "Contents" curPos with
      | error e =>
          rw [parseFileListFrom, hscan]
          exact .unclosed hscan
      | ok found =>
          cases found with
          | none =>
              rw [parseFileListFrom, hscan]
              exact .exhausted hscan
          | some found =>
              obtain ⟨contents, nextPos⟩ := found
              have hlt := lt_of_scan hscan
              rw [parseFileListFrom, hscan]
              cases hcontents : parseContents core contents with
              | error e =>
                  simp only [bind, Except.bind, hcontents]
                  exact .malformed hscan hcontents
              | ok file =>
                  have hrest := ih (by omega : response.length ≤ nextPos + fuel)
                  have hrun := FileListRun.next hscan hcontents hrest
                  simp only [bind, Except.bind, hcontents]
                  cases hfiles : parseFileListFrom core response fuel nextPos with
                  | error e => rwa [hfiles] at hrun
                  | ok files => rwa [hfiles] at hrun

/-- A run of the loop of `ParseCommonPrefix` from `cur_pos` on to its end. -/
inductive CommonPrefixRun (response : Bytes) : Nat → Except ListError (List Bytes) → Prop where
  | exhausted {curPos : Nat}
      (hmarker : findFrom (openTag (bytes "CommonPrefixes")) response curPos = none) :
      CommonPrefixRun response curPos (.ok [])
  | unopened {curPos markerPos : Nat}
      (hmarker : findFrom (openTag (bytes "CommonPrefixes")) response curPos = some markerPos)
      (hopen : findFrom (openTag (bytes "Prefix")) response markerPos = none) :
      CommonPrefixRun response curPos (.error .commonPrefixOpenTag)
  | unclosed {curPos markerPos openTagPos : Nat}
      (hmarker : findFrom (openTag (bytes "CommonPrefixes")) response curPos = some markerPos)
      (hopen : findFrom (openTag (bytes "Prefix")) response markerPos = some openTagPos)
      (hclose : findFrom (closeTag (bytes "Prefix")) response (openTagPos + 8) = none) :
      CommonPrefixRun response curPos (.error .commonPrefixCloseTag)
  | next {curPos markerPos openTagPos closeTagPos : Nat} {result : Except ListError (List Bytes)}
      (hmarker : findFrom (openTag (bytes "CommonPrefixes")) response curPos = some markerPos)
      (hopen : findFrom (openTag (bytes "Prefix")) response markerPos = some openTagPos)
      (hclose : findFrom (closeTag (bytes "Prefix")) response (openTagPos + 8) = some closeTagPos)
      (hrest : CommonPrefixRun response (closeTagPos + 6) result) :
      CommonPrefixRun response curPos
        (result.map (substr response (openTagPos + 8) (closeTagPos - openTagPos - 8) :: ·))

theorem commonPrefixRun_of_fuel (response : Bytes) {fuel curPos : Nat}
    (hfuel : response.length ≤ curPos + fuel) :
    CommonPrefixRun response curPos (parseCommonPrefixFrom response fuel curPos) := by
  induction fuel generalizing curPos with
  | zero =>
      have hend : response.length ≤ curPos := hfuel
      refine .exhausted ?_
      rw [openTag_eq, findFrom_end (tagBytes_ne_nil _) hend]
  | succ fuel ih =>
      rw [parseCommonPrefixFrom]
      cases hmarker : findFrom (openTag (bytes "CommonPrefixes")) response curPos with
      | none => exact .exhausted hmarker
      | some markerPos =>
          cases hopen : findFrom (openTag (bytes "Prefix")) response markerPos with
          | none =>
              simp only [hopen]
              exact .unopened hmarker hopen
          | some openTagPos =>
              cases hclose : findFrom (closeTag (bytes "Prefix")) response (openTagPos + 8) with
              | none =>
                  simp only [hopen, hclose]
                  exact .unclosed hmarker hopen hclose
              | some closeTagPos =>
                  have hfirst := le_of_findFrom hmarker
                  have hsecond := le_of_findFrom hopen
                  have hthird := le_of_findFrom hclose
                  have hrest := ih (by omega : response.length ≤ closeTagPos + 6 + fuel)
                  have hrun := CommonPrefixRun.next hmarker hopen hclose hrest
                  simp only [hopen, hclose]
                  cases hprefixes : parseCommonPrefixFrom response fuel (closeTagPos + 6) with
                  | error e => rwa [hprefixes] at hrun
                  | ok s3Prefixes => rwa [hprefixes] at hrun

theorem page_read (encoding : PageEncoding core) {objects : List S3Object}
    {commonPrefixes : List Bytes} {continuationToken : Option Text}
    (page : Page objects commonPrefixes continuationToken) :
    parseFileList core (encoding.renderItems page.items) = .ok (objects.filterMap fileInfo) ∧
      parseCommonPrefix (encoding.renderItems page.items) =
        .ok (commonPrefixes.map encoding.encode) ∧
      parseContinuationToken (encoding.renderItems page.items) =
        .ok (continuationToken.elim [] Subtype.val) := by
  obtain ⟨items, rfl, rfl, htoken⟩ := page
  refine ⟨?_, ?_, parseContinuationToken_items htoken⟩
  · exact parseFileListFrom_items List.drop_zero (Skips.nil _) (length_objects_le _)
  · exact parseCommonPrefixFrom_items List.drop_zero (Skips.nil _) (length_commonPrefixes_le _)

/-- No piece is empty, so what is read as a text character by character has one character
a piece. -/
theorem flatMap_eq_map_value {read : PageChar → Bytes} (hread : ∀ c, read c ≠ [])
    {chars : List PageChar} :
    chars.flatMap read = chars.map PageChar.value ↔ ∀ c ∈ chars, read c = [c.value] := by
  constructor
  · intro hsame
    induction chars with
    | nil => exact fun _ hc => absurd hc List.not_mem_nil
    | cons c chars ih =>
        obtain ⟨first, others, hfirst⟩ := List.exists_cons_of_ne_nil (hread c)
        rw [List.flatMap_cons, hfirst, List.cons_append, List.map_cons,
          List.cons_eq_cons] at hsame
        obtain ⟨rfl, hrest⟩ := hsame
        have hlength := congrArg List.length hrest
        rw [List.length_append, List.length_map] at hlength
        have hpieces := length_le_flatMap hread chars
        obtain rfl := List.eq_nil_of_length_eq_zero (by omega : others.length = 0)
        rw [List.forall_mem_cons]
        exact ⟨hfirst, ih hrest⟩
  · intro hall
    rw [List.map_eq_flatMap]
    exact List.flatMap_congr hall

theorem unquoted_ne_nil (c : PageChar) : c.unquoted ≠ [] := by
  cases c with
  | plain c => exact List.cons_ne_nil _ _
  | namedQuote => exact List.cons_ne_nil _ _
  | numericQuote => exact List.cons_ne_nil _ _
  | ampersand => decide
  | lessThan => decide
  | greaterThan => decide

theorem unquoted_eq_value_iff (c : PageChar) :
    c.unquoted = [c.value] ↔ c ∉ [.ampersand, .lessThan, .greaterThan] := by
  cases c with
  | plain c => simp [PageChar.unquoted, PageChar.value]
  | namedQuote => decide
  | numericQuote => decide
  | ampersand => decide
  | lessThan => decide
  | greaterThan => decide

theorem render_eq_value_iff (c : PageChar) :
    c.render = [c.value] ↔ ∃ value, c = .plain value := by
  cases c with
  | plain c => exact ⟨fun _ => ⟨c, rfl⟩, fun _ => rfl⟩
  | namedQuote => exact ⟨fun habsurd => absurd habsurd (by decide), nofun⟩
  | numericQuote => exact ⟨fun habsurd => absurd habsurd (by decide), nofun⟩
  | ampersand => exact ⟨fun habsurd => absurd habsurd (by decide), nofun⟩
  | lessThan => exact ⟨fun habsurd => absurd habsurd (by decide), nofun⟩
  | greaterThan => exact ⟨fun habsurd => absurd habsurd (by decide), nofun⟩

/-- The lists of a page are those of the server. -/
structure Decoded (encoding : PageEncoding core) (objects : List S3Object)
    (commonPrefixes : List Bytes) (continuationToken : Option (List PageChar))
    (response : Bytes) : Prop where
  files : parseFileList core response = .ok (objects.filterMap exactInfo)
  commonPrefixes : parseCommonPrefix response = .ok (commonPrefixes.map encoding.encode)
  continuationToken : parseContinuationToken response =
    .ok (continuationToken.elim [] fun chars => chars.map PageChar.value)

/-- There is no reference in an ETag of a file but to a quote, and none in the token. -/
structure Unescaped (objects : List S3Object) (continuationToken : Option (List PageChar)) :
    Prop where
  etags : ∀ object ∈ objects, object.key.getLast? ≠ some slash → ∀ etag ∈ object.etag,
    ∀ c ∈ etag, c ∉ [.ampersand, .lessThan, .greaterThan]
  continuationToken : ∀ chars ∈ continuationToken, ∀ c ∈ chars, ∃ value, c = .plain value

/-- Of one object: a directory is left out in any case. -/
theorem fileInfo_eq_exactInfo_iff (object : S3Object) :
    fileInfo object = exactInfo object ↔ (object.key.getLast? ≠ some slash →
      ∀ etag ∈ object.etag, ∀ c ∈ etag, c ∉ [.ampersand, .lessThan, .greaterThan]) := by
  have hetag : ∀ etag : List PageChar, etag.flatMap PageChar.unquoted = etag.map PageChar.value ↔
      ∀ c ∈ etag, c ∉ [.ampersand, .lessThan, .greaterThan] := fun etag =>
    (flatMap_eq_map_value unquoted_ne_nil).trans
      (forall₂_congr fun c _ => unquoted_eq_value_iff c)
  unfold exactInfo fileInfo
  split
  · rename_i hmarker
    exact ⟨fun _ hfile => absurd hmarker hfile, fun _ => rfl⟩
  · rename_i hfile
    cases hobject : object.etag with
    | none => simp
    | some etag => simpa [hfile] using hetag etag

theorem filterMap_fileInfo_eq_iff {objects : List S3Object} :
    objects.filterMap fileInfo = objects.filterMap exactInfo ↔
      ∀ object ∈ objects, fileInfo object = exactInfo object := by
  constructor
  · intro hsame
    induction objects with
    | nil => exact fun _ hobject => absurd hobject List.not_mem_nil
    | cons object objects ih =>
        rw [List.filterMap_cons, List.filterMap_cons] at hsame
        rw [List.forall_mem_cons]
        cases hfile : fileInfo object with
        | none =>
            have hexact : exactInfo object = none := by rw [exactInfo, hfile, Option.map_none]
            rw [hfile, hexact] at hsame
            exact ⟨hexact.symm, ih hsame⟩
        | some file =>
            have hexact : exactInfo object = some { file with
                etag := object.etag.map fun etag => etag.map PageChar.value } := by
              rw [exactInfo, hfile, Option.map_some]
            rw [hfile, hexact] at hsame
            obtain ⟨hfirst, hrest⟩ := List.cons_eq_cons.mp hsame
            exact ⟨hexact.symm ▸ congrArg some hfirst, ih hrest⟩
  · intro hall
    exact List.filterMap_congr hall

/-- A page gives its objects but for the directories, its common prefixes as they are
written and its continuation token, exactly if nothing but quotes is escaped in an ETag and
nothing in the token; and on any text at all both loops come to an end. -/
theorem decoded_iff_unescaped (core : Core) :
    (∀ (encoding : PageEncoding core) (objects : List S3Object) (commonPrefixes : List Bytes)
      (continuationToken : Option (List PageChar))
      (page : Page objects commonPrefixes (continuationToken.map written)),
      Decoded encoding objects commonPrefixes continuationToken
          (encoding.renderItems page.items) ↔
        Unescaped objects continuationToken) ∧
      ∀ response, FileListRun core response 0 (parseFileList core response) ∧
        CommonPrefixRun response 0 (parseCommonPrefix response) := by
  constructor
  · intro encoding objects commonPrefixes continuationToken page
    obtain ⟨hfiles, hprefixes, htoken⟩ := page_read encoding page
    have hobjects : parseFileList core (encoding.renderItems page.items) =
        .ok (objects.filterMap exactInfo) ↔ ∀ object ∈ objects,
          object.key.getLast? ≠ some slash → ∀ etag ∈ object.etag,
            ∀ c ∈ etag, c ∉ [.ampersand, .lessThan, .greaterThan] := by
      rw [hfiles, Except.ok.injEq, filterMap_fileInfo_eq_iff]
      exact forall₂_congr fun object _ => fileInfo_eq_exactInfo_iff object
    have hread : parseContinuationToken (encoding.renderItems page.items) =
        .ok (continuationToken.elim [] fun chars => chars.map PageChar.value) ↔
          ∀ chars ∈ continuationToken, ∀ c ∈ chars, ∃ value, c = .plain value := by
      rw [htoken, Except.ok.injEq]
      cases continuationToken with
      | none => simp
      | some chars =>
          have hchars : chars.flatMap PageChar.render = chars.map PageChar.value ↔ _ :=
            flatMap_eq_map_value PageChar.render_ne_nil
          simp only [Option.map_some, Option.elim_some, Option.mem_def, Option.some.injEq,
            forall_eq']
          exact hchars.trans (forall₂_congr fun c _ => render_eq_value_iff c)
    exact ⟨fun ⟨hf, _, ht⟩ => ⟨hobjects.mp hf, hread.mp ht⟩,
      fun ⟨he, ht⟩ => ⟨hobjects.mpr he, hprefixes, hread.mpr ht⟩⟩
  · intro response
    exact ⟨fileListRun_of_fuel core response (by omega),
      commonPrefixRun_of_fuel response (by omega)⟩

def hexDigit (n : UInt8) : UInt8 := if n < 10 then 48 + n else 55 + n

def hexValue (c : UInt8) : UInt8 := if c < 58 then c - 48 else c - 55

def isUnreserved (c : UInt8) : Bool :=
  isDigit c || (65 ≤ c && c ≤ 90) || (97 ≤ c && c ≤ 122) || c ∈ bytes "-_.~/"

def percentEncodeByte (c : UInt8) : Bytes :=
  if isUnreserved c then [c] else [37, hexDigit (c / 16), hexDigit (c % 16)]

def percentDecode : Bytes → Bytes
  | 37 :: high :: low :: text => (hexValue high * 16 + hexValue low) :: percentDecode text
  | c :: text => c :: percentDecode text
  | [] => []

def readDecimal (text : Bytes) : Option Nat :=
  some (Nat.ofDigitChars 10 (text.map fun c => Char.ofNat c.toNat) 0)

def plus : UInt8 := 43

/-- `StringUtil::URLDecode` with `plus_to_space`. -/
def formDecode (text : Bytes) : Bytes :=
    percentDecode (text.map fun c => if c = plus then 32 else c)

def percentCore : Core where
  urlDecode := formDecode
  glob _ _ := true
  castTimestamp := readDecimal
  castUBigInt := readDecimal

theorem readDecimal_decimal (n : Nat) : readDecimal (decimal n) = some n := by
  rw [readDecimal, decimal_chars, Nat.ofDigitChars_toDigits (by decide) (by decide)]

theorem percentEncodeByte_cases (c : UInt8) :
    lessThan ∉ percentEncodeByte c ∧
      ((percentEncodeByte c = [c] ∧ c ≠ 37) ∨
        (percentEncodeByte c = [37, hexDigit (c / 16), hexDigit (c % 16)] ∧
          hexValue (hexDigit (c / 16)) * 16 + hexValue (hexDigit (c % 16)) = c)) := by
  have hall : ∀ n < 256, lessThan ∉ percentEncodeByte (UInt8.ofNat n) ∧
      ((percentEncodeByte (UInt8.ofNat n) = [UInt8.ofNat n] ∧ UInt8.ofNat n ≠ 37) ∨
        (percentEncodeByte (UInt8.ofNat n) =
            [37, hexDigit (UInt8.ofNat n / 16), hexDigit (UInt8.ofNat n % 16)] ∧
          hexValue (hexDigit (UInt8.ofNat n / 16)) * 16 +
            hexValue (hexDigit (UInt8.ofNat n % 16)) = UInt8.ofNat n)) := by
    decide +kernel
  have hc := hall c.toNat c.toNat_lt
  rwa [UInt8.ofNat_toNat] at hc

theorem plus_notMem_percentEncodeByte (c : UInt8) : plus ∉ percentEncodeByte c := by
  have hall : ∀ n < 256, plus ∉ percentEncodeByte (UInt8.ofNat n) := by decide +kernel
  have hc := hall c.toNat c.toNat_lt
  rwa [UInt8.ofNat_toNat] at hc

theorem map_plus_of_notMem {text : Bytes} (htext : plus ∉ text) :
    text.map (fun c => if c = plus then 32 else c) = text := by
  have hsame : ∀ c ∈ text, (if c = plus then 32 else c) = c := by
    intro c hc
    refine if_neg ?_
    rintro rfl
    exact htext hc
  rw [List.map_congr_left hsame, List.map_id']

theorem percentDecode_encode (key : Bytes) :
    percentDecode (key.flatMap percentEncodeByte) = key := by
  induction key with
  | nil => rfl
  | cons c key ih =>
      rw [List.flatMap_cons]
      obtain ⟨-, ⟨hplain, hc⟩ | ⟨hescaped, hc⟩⟩ := percentEncodeByte_cases c
      · rw [hplain, List.singleton_append, percentDecode, ih]
        intro high low text hpercent
        exact absurd hpercent hc
      · rw [hescaped]
        simp only [List.cons_append, List.nil_append, percentDecode, ih, hc]

theorem formDecode_encode (key : Bytes) : formDecode (key.flatMap percentEncodeByte) = key := by
  rw [formDecode, map_plus_of_notMem, percentDecode_encode]
  rw [List.mem_flatMap]
  rintro ⟨c, -, hmem⟩
  exact plus_notMem_percentEncodeByte c hmem

def percentEncoding : PageEncoding percentCore where
  encode key := key.flatMap percentEncodeByte
  timestampText := decimal
  encode_free key := by
    rw [List.mem_flatMap]
    rintro ⟨c, -, hmem⟩
    exact (percentEncodeByte_cases c).1 hmem
  timestampText_free := not_mem_decimal (by decide)
  decode_encode := formDecode_encode
  cast_timestampText := readDecimal_decimal
  cast_size size := readDecimal_decimal _

def plainChars (text : Bytes) (hplain : text.all fun c => c ≠ 60 ∧ c ≠ 38) : List PageChar :=
  text.attach.map fun c => .plain ⟨c.1, of_decide_eq_true (List.all_eq_true.mp hplain c.1 c.2)⟩

def smallToken : List PageChar := plainChars (bytes "1A==") (by decide)

def smallObjects : List S3Object :=
  [{ key := bytes "a/", nonempty := by decide },
    { key := bytes "a/b c", nonempty := by decide, etag := some [.namedQuote, .numericQuote]
      size := some 3 }]

theorem part_mem_layout (part : Part) :
    .part part ∈ ([.part .size, .part .key, .part .lastModified, .part .etag] : List Field) := by
  cases part with
  | key => simp
  | lastModified => simp
  | etag => simp
  | size => simp

/-- A page with a directory, a file and a common prefix. -/
def smallPage : Page smallObjects [bytes "a/d/"] ((some smallToken).map written) where
  items :=
    .other ⟨[.tag prefixName, .text ⟨bytes "a/", by decide⟩, .tag prefixName.closing], by
        unfold Free
        decide⟩ ::
      .continuationToken (written smallToken) ::
      .commonPrefix (bytes "a/d/") ⟨[], by decide⟩ ⟨[], by decide⟩ ::
      smallObjects.map fun object => .contents object ⟨_, part_mem_layout⟩
  objects_eq := rfl
  commonPrefixes_eq := rfl
  continuationToken_eq := rfl

theorem decoded_iff_unescaped_small :
    Decoded percentEncoding smallObjects [bytes "a/d/"] (some smallToken)
      (percentEncoding.renderItems smallPage.items) := by
  refine ((decoded_iff_unescaped percentCore).1 percentEncoding _ _ _ smallPage).mpr ⟨?_, ?_⟩
  · simp [smallObjects]
  · rintro _ ⟨⟩ c hc
    obtain ⟨value, -, rfl⟩ := List.mem_map.mp hc
    exact ⟨_, rfl⟩

/-- The ETag `a&b`. -/
def ampersandObject : S3Object where
  key := bytes "k"
  nonempty := by decide
  etag := some (plainChars (bytes "a") (by decide) ++
    .ampersand :: plainChars (bytes "b") (by decide))

/-- The token `t&k`. -/
def ampersandToken : List PageChar :=
  plainChars (bytes "t") (by decide) ++ .ampersand :: plainChars (bytes "k") (by decide)

def ampersandPage : Page [ampersandObject] [] ((some ampersandToken).map written) where
  items := [
    .contents ampersandObject ⟨_, part_mem_layout⟩,
    .continuationToken (written ampersandToken)]
  objects_eq := rfl
  commonPrefixes_eq := rfl
  continuationToken_eq := rfl

/-- Both come back with the reference in them. -/
theorem ampersands_stay_escaped :
    parseFileList percentCore (percentEncoding.renderItems ampersandPage.items) =
        .ok [{ path := bytes "k", etag := some (bytes "a&amp;b") }] ∧
      parseContinuationToken (percentEncoding.renderItems ampersandPage.items) =
        .ok (bytes "t&amp;k") ∧
      ¬ Decoded percentEncoding [ampersandObject] [] (some ampersandToken)
        (percentEncoding.renderItems ampersandPage.items) := by
  obtain ⟨hfiles, -, htoken⟩ := page_read percentEncoding ampersandPage
  refine ⟨hfiles.trans rfl, htoken.trans rfl, fun hdecoded => ?_⟩
  have hsame := htoken.symm.trans hdecoded.continuationToken
  exact absurd (Except.ok.inj hsame) (by decide)

end HaybarnHttpfs.ListPages
