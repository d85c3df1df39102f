import HaybarnHttpfs.RemoveFiles
import HaybarnHttpfs.Foundation.XmlReader
import Mathlib.Algebra.GroupWithZero.Nat

/-!
What a `DeleteObjects` body says to an XML parser. `RemoveFiles` writes the keys into
the body as they are.
-/

namespace HaybarnHttpfs.DeleteDocument

open HaybarnHttpfs.Foundation.ByteStrings HaybarnHttpfs.Foundation.XmlReader
open HaybarnHttpfs.RemoveFiles

inductive Place where
  | outside
  | delete
  | object (key : Option Bytes)
  | key (text : Bytes)
  | quiet
  deriving DecidableEq, Repr

/-- The objects that a document names so far. -/
structure Deletion where
  names : List Bytes := []
  place : Place := .outside
  deriving DecidableEq, Repr

def deletionStart (deletion : Deletion) (name : Bytes) : Option Deletion :=
  match deletion.place with
  | .outside => if name = bytes "Delete" then some { deletion with place := .delete } else none
  | .delete =>
      if name = bytes "Object" then some { deletion with place := .object none }
      else if name = bytes "Quiet" then some { deletion with place := .quiet }
      else none
  | .object none => if name = bytes "Key" then some { deletion with place := .key [] } else none
  | _ => none

def deletionText (deletion : Deletion) (run : Bytes) : Option Deletion :=
  match deletion.place with
  | .key text => some { deletion with place := .key (text ++ run) }
  | .quiet => some deletion
  | _ => if run.all isSpace then some deletion else none

/-- A key has at least one character. -/
def deletionStop (deletion : Deletion) (name : Bytes) : Option Deletion :=
  match deletion.place with
  | .key text =>
      if name = bytes "Key" ∧ text ≠ [] then
        some { deletion with place := .object (some text) }
      else none
  | .object (some key) =>
      if name = bytes "Object" then
        some { names := deletion.names ++ [key], place := .delete }
      else none
  | .quiet => if name = bytes "Quiet" then some { deletion with place := .delete } else none
  | .delete => if name = bytes "Delete" then some { deletion with place := .outside } else none
  | _ => none

def deletionHandler : Handler Deletion :=
  { start := deletionStart, text := deletionText, stop := deletionStop }

/-- The keys of the objects that a document asks to delete, in its order. -/
def readDeletion (doc : Bytes) : Option (List Bytes) :=
  (readXml deletionHandler {} doc).map Deletion.names

/-- A key that stands for itself in a document. -/
structure PlainKey (key : Bytes) : Prop where
  nonempty : key ≠ []
  text : isText key = true
  data : CharData key
  noReturn : (13 : UInt8) ∉ key

instance (key : Bytes) : Decidable (PlainKey key) :=
  decidable_of_iff (key ≠ [] ∧ isText key = true ∧ CharData key ∧ (13 : UInt8) ∉ key)
    ⟨fun ⟨hnonempty, htext, hdata, hreturn⟩ => ⟨hnonempty, htext, hdata, hreturn⟩,
      fun hkey => ⟨hkey.nonempty, hkey.text, hkey.data, hkey.noReturn⟩⟩

/-- The reader of a document whose header has been read. -/
def inDelete (names : List Bytes) : Reader Deletion :=
  { mode := .text [], elements := [bytes "Delete"], rootSeen := true
    handled := { names, place := .delete } }

theorem run_header : run deletionHandler { handled := {} } header = some (inDelete []) := by
  decide +kernel

theorem objectXml_eq (key : Bytes) :
    objectXml key = bytes "<Object>" ++ (bytes "<Key>" ++ (key ++
      (bytes "</Key>" ++ bytes "</Object>"))) := by
  have hopen : bytes "<Object><Key>" = bytes "<Object>" ++ bytes "<Key>" := by decide
  have hclose : bytes "</Key></Object>" = bytes "</Key>" ++ bytes "</Object>" := by decide
  rw [objectXml, hopen, hclose]
  simp only [List.append_assoc]

theorem run_objectXml {key : Bytes} (hkey : PlainKey key) (names : List Bytes) :
    run deletionHandler (inDelete names) (objectXml key) =
      some (inDelete (names ++ [key])) := by
  have hobject : run deletionHandler (inDelete names) (bytes "<Object>") =
      some { inDelete names with
        elements := [bytes "Object", bytes "Delete"]
        handled := { names, place := .object none } } := by
    rfl
  have hopen : run deletionHandler { inDelete names with
        elements := [bytes "Object", bytes "Delete"]
        handled := { names, place := .object none } } (bytes "<Key>") =
      some { inDelete names with
        elements := [bytes "Key", bytes "Object", bytes "Delete"]
        handled := { names, place := .key [] } } := by
    rfl
  have htext := run_text (h := deletionHandler) (s := { inDelete names with
    elements := [bytes "Key", bytes "Object", bytes "Delete"]
    handled := { names, place := .key [] } }) rfl hkey.data.noMarkup
  have hname : (bytes "Key").all isNameByte = true := by decide
  have hclose := run_endTag (h := deletionHandler)
    (s := { inDelete names with
      mode := .text key
      elements := [bytes "Key", bytes "Object", bytes "Delete"]
      handled := { names, place := .key [] } }) rfl hname
  have hend : run deletionHandler { inDelete names with
        elements := [bytes "Object", bytes "Delete"]
        handled := { names, place := .object (some key) } } (bytes "</Object>") =
      some (inDelete (names ++ [key])) := by
    rfl
  rw [objectXml_eq, run_append, hobject, Option.bind_some, run_append, hopen,
    Option.bind_some, run_append, htext, Option.bind_some, run_append]
  have htag : bytes "</Key>" = 60 :: 47 :: bytes "Key" ++ [62] := by decide
  rw [List.nil_append, htag, hclose]
  simp only [flush, hkey.data.noEnd, Option.isSome_none, Bool.false_eq_true, if_false,
    List.isEmpty_cons, deletionHandler, deletionText, List.nil_append, Option.bind_some,
    closeElement, if_true, deletionStop, true_and, hkey.nonempty, ne_eq, not_false_eq_true,
    Option.map_some]
  exact hend

theorem run_objectXmls {keys : List Bytes} (hkeys : ∀ key ∈ keys, PlainKey key)
    (names : List Bytes) :
    run deletionHandler (inDelete names) (keys.flatMap objectXml) =
      some (inDelete (names ++ keys)) := by
  induction keys generalizing names with
  | nil => simp
  | cons key keys ih =>
      rw [List.flatMap_cons, run_append, run_objectXml (hkeys key List.mem_cons_self),
        Option.bind_some, ih fun other hother => hkeys other (List.mem_cons_of_mem key hother),
        List.append_assoc, List.singleton_append]

theorem isText_objectXml {key : Bytes} (hkey : isText key = true) :
    isText (objectXml key) = true := by
  rw [objectXml, List.append_assoc, isText_append (by decide), isText_append hkey]
  decide

theorem isText_objectXmls {keys : List Bytes} (hkeys : ∀ key ∈ keys, isText key = true) :
    isText (keys.flatMap objectXml) = true := by
  induction keys with
  | nil => rfl
  | cons key keys ih =>
      rw [List.flatMap_cons, isText_append (isText_objectXml (hkeys key List.mem_cons_self))]
      exact ih fun other hother => hkeys other (List.mem_cons_of_mem key hother)

theorem not_mem_objectXmls {keys : List Bytes} (hkeys : ∀ key ∈ keys, (13 : UInt8) ∉ key) :
    (13 : UInt8) ∉ keys.flatMap objectXml := by
  have hopen : (13 : UInt8) ∉ bytes "<Object><Key>" := by decide
  have hclose : (13 : UInt8) ∉ bytes "</Key></Object>" := by decide
  simp only [List.mem_flatMap, objectXml, List.mem_append, not_exists, not_and, not_or]
  exact fun key hkey => ⟨⟨hopen, hkeys key hkey⟩, hclose⟩

theorem readDeletion_xmlBody {keys : List Bytes} (hkeys : ∀ key ∈ keys, PlainKey key) :
    readDeletion (xmlBody keys) = some keys := by
  have hheader : isText header = true := by decide +kernel
  have hfooter : isText footer = true := by decide
  have htext : isText (xmlBody keys) = true := by
    rw [xmlBody, List.append_assoc, isText_append hheader,
      isText_append (isText_objectXmls fun key hkey => (hkeys key hkey).text), hfooter]
  have hreturn : (13 : UInt8) ∉ xmlBody keys := by
    have hbefore : (13 : UInt8) ∉ header := by decide +kernel
    have hafter : (13 : UInt8) ∉ footer := by decide
    simp only [xmlBody, List.mem_append, not_or]
    exact ⟨⟨hbefore, not_mem_objectXmls fun key hkey => (hkeys key hkey).noReturn⟩, hafter⟩
  have hend : run deletionHandler (inDelete keys) footer = some
      { mode := .text [], elements := [], rootSeen := true
        handled := { names := keys, place := .outside } } := by
    rfl
  rw [readDeletion, readXml, htext, normalizeLineEnds_of_not_mem hreturn, xmlBody,
    List.append_assoc, run_append, run_header, Option.bind_some, run_append,
    run_objectXmls hkeys, Option.bind_some, List.nil_append, hend]
  rfl

/-- What a key takes up in a document, with its tags. -/
def keyWeight (key : Bytes) : Nat := weight key + 28

def Place.price : Place → Nat
  | .outside | .delete | .quiet => 0
  | .object none => 8
  | .key text => weight text + 13
  | .object (some name) => weight name + 19

def price (deletion : Deletion) : Nat :=
  (deletion.names.map keyWeight).sum + deletion.place.price

variable {deletion deletion' : Deletion} {name data : Bytes} {names keys : List Bytes}

theorem price_start (hstart : deletionStart deletion name = some deletion') :
    price deletion' ≤ price deletion + name.length + 2 := by
  obtain ⟨names, place⟩ := deletion
  cases place with
  | outside =>
      obtain ⟨-, rfl⟩ : _ ∧ _ := by simpa [deletionStart] using hstart
      simp [price, Place.price]
      omega
  | delete =>
      simp only [deletionStart] at hstart
      split at hstart
      · rename_i hname
        cases hstart
        have hlength : name.length = 6 := by rw [hname]; decide
        simp only [price, Place.price]
        omega
      · split at hstart
        · cases hstart
          simp only [price, Place.price]
          omega
        · cases hstart
  | object key =>
      cases key with
      | none =>
          simp only [deletionStart] at hstart
          split at hstart
          · rename_i hname
            cases hstart
            have hlength : name.length = 3 := by rw [hname]; decide
            have hnil : weight [] = 0 := rfl
            simp only [price, Place.price, hnil]
            omega
          · cases hstart
      | some key => cases hstart
  | key text | quiet => cases hstart

theorem price_stop (hstop : deletionStop deletion name = some deletion') :
    price deletion' ≤ price deletion + name.length + 3 := by
  obtain ⟨names, place⟩ := deletion
  cases place with
  | key text =>
      obtain ⟨⟨rfl, -⟩, rfl⟩ : _ ∧ _ := by simpa [deletionStop] using hstop
      have hlength : (bytes "Key").length = 3 := by decide
      simp only [price, Place.price, hlength]
      omega
  | object key =>
      cases key with
      | none => cases hstop
      | some key =>
          obtain ⟨rfl, rfl⟩ : _ ∧ _ := by simpa [deletionStop] using hstop
          have hlength : (bytes "Object").length = 6 := by decide
          simp [price, Place.price, keyWeight, hlength]
          omega
  | quiet | delete =>
      obtain ⟨-, rfl⟩ : _ ∧ _ := by simpa [deletionStop] using hstop
      simp only [price, Place.price]
      omega
  | outside => cases hstop

theorem price_empty {between : Deletion} (hstart : deletionStart deletion name = some between)
    (hstop : deletionStop between name = some deletion') :
    price deletion' ≤ price deletion + name.length + 3 := by
  obtain ⟨names, place⟩ := deletion
  cases place with
  | outside =>
      obtain ⟨-, rfl⟩ : _ ∧ _ := by simpa [deletionStart] using hstart
      obtain ⟨-, rfl⟩ : _ ∧ _ := by simpa [deletionStop] using hstop
      simp only [price, Place.price]
      omega
  | delete =>
      simp only [deletionStart] at hstart
      split at hstart
      · cases hstart
        cases hstop
      · split at hstart
        · cases hstart
          obtain ⟨-, rfl⟩ : _ ∧ _ := by simpa [deletionStop] using hstop
          simp only [price, Place.price]
          omega
        · cases hstart
  | object key =>
      cases key with
      | none =>
          obtain ⟨-, rfl⟩ : _ ∧ _ := by simpa [deletionStart] using hstart
          simp [deletionStop] at hstop
      | some key => cases hstart
  | key text | quiet => cases hstart

theorem price_text (htext : deletionText deletion data = some deletion') :
    price deletion' ≤ price deletion + weight data := by
  obtain ⟨names, place⟩ := deletion
  cases place with
  | key text =>
      cases htext
      simp only [price, Place.price, weight_append]
      omega
  | quiet =>
      cases htext
      omega
  | outside | delete | object key =>
      obtain ⟨-, rfl⟩ : _ ∧ _ := by simpa [deletionText] using htext
      omega

theorem priced : Priced deletionHandler price where
  start := price_start
  stop := price_stop
  empty := price_empty
  text := price_text

/-- A name that stood in the document as it is. -/
def Verbatim (name : Bytes) : Prop := name ≠ [] ∧ CharData name

def Clean (deletion : Deletion) : Prop :=
  (∀ name ∈ deletion.names, Verbatim name) ∧
    match deletion.place with
    | .key text => CharData text
    | .object (some key) => Verbatim key
    | _ => True

def Fresh (deletion : Deletion) : Prop :=
  Clean deletion ∧ ∀ text, deletion.place = .key text → text = []

theorem faithful : Faithful deletionHandler Fresh Clean where
  weaken hfresh := hfresh.1
  start := by
    rintro ⟨names, place⟩ deletion' name ⟨hnames, hplace⟩ hstart
    change deletionStart _ _ = _ at hstart
    cases place with
    | outside =>
        obtain ⟨-, rfl⟩ : _ ∧ _ := by simpa [deletionStart] using hstart
        exact ⟨⟨hnames, trivial⟩, nofun⟩
    | delete =>
        simp only [deletionStart] at hstart
        split at hstart
        · cases hstart
          exact ⟨⟨hnames, trivial⟩, nofun⟩
        · split at hstart
          · cases hstart
            exact ⟨⟨hnames, trivial⟩, nofun⟩
          · cases hstart
    | object key =>
        cases key with
        | none =>
            obtain ⟨-, rfl⟩ : _ ∧ _ := by simpa [deletionStart] using hstart
            refine ⟨⟨hnames, (⟨nofun, rfl⟩ : CharData [])⟩, ?_⟩
            rintro text htext
            cases htext
            rfl
        | some key => cases hstart
    | key text | quiet => cases hstart
  stop := by
    rintro ⟨names, place⟩ deletion' name ⟨hnames, hplace⟩ hstop
    change deletionStop _ _ = _ at hstop
    cases place with
    | key text =>
        obtain ⟨⟨-, hnonempty⟩, rfl⟩ : _ ∧ _ := by simpa [deletionStop] using hstop
        exact ⟨⟨hnames, hnonempty, hplace⟩, nofun⟩
    | object key =>
        cases key with
        | none => cases hstop
        | some key =>
            obtain ⟨-, rfl⟩ : _ ∧ _ := by simpa [deletionStop] using hstop
            refine ⟨⟨fun other hother => ?_, trivial⟩, nofun⟩
            rcases List.mem_append.mp hother with hold | hnew
            · exact hnames other hold
            · rw [List.mem_singleton.mp hnew]
              exact hplace
    | quiet | delete =>
        obtain ⟨-, rfl⟩ : _ ∧ _ := by simpa [deletionStop] using hstop
        exact ⟨⟨hnames, trivial⟩, nofun⟩
    | outside => cases hstop
  text := by
    rintro ⟨names, place⟩ deletion' run ⟨⟨hnames, hplace⟩, hfirst⟩ hrun htext
    change deletionText _ _ = _ at htext
    cases place with
    | key text =>
        cases htext
        -- the key has had no text so far
        rw [hfirst text rfl]
        exact ⟨hnames, hrun⟩
    | quiet =>
        cases htext
        exact ⟨hnames, trivial⟩
    | outside | delete =>
        obtain ⟨-, rfl⟩ : _ ∧ _ := by simpa [deletionText] using htext
        exact ⟨hnames, trivial⟩
    | object key =>
        obtain ⟨-, rfl⟩ : _ ∧ _ := by simpa [deletionText] using htext
        exact ⟨hnames, hplace⟩

theorem weight_objectXmls (keys : List Bytes) :
    weight (keys.flatMap objectXml) = (keys.map keyWeight).sum := by
  induction keys with
  | nil => rfl
  | cons key keys ih =>
      have hopen : weight (bytes "<Object><Key>") = 13 := by decide
      have hclose : weight (bytes "</Key></Object>") = 15 := by decide
      rw [List.flatMap_cons, weight_append, ih, List.map_cons, List.sum_cons, objectXml,
        weight_append, weight_append, hopen, hclose, keyWeight]
      omega

theorem price_flush {s : Reader Deletion} {deletion : Deletion} {data : Bytes}
    (hmode : s.mode = .text data) (hflush : flush deletionHandler s data = some deletion) :
    price deletion + (if s.verbatim then 0 else 1) ≤ cost price s := by
  have hprice := priced.flush hflush
  rw [cost, hmode, Mode.pending]
  omega

theorem read_footer {s s' : Reader Deletion} (hrun : run deletionHandler s footer = some s')
    (haccepts : s'.accepts = true) :
    (s'.handled.names.map keyWeight).sum + (if s.verbatim then 0 else 1) ≤ cost price s ∧
      s'.verbatim = s.verbatim := by
  have hfooter : footer = (60 :: 81 :: bytes "uiet" ++ [62]) ++
      (bytes "true" ++ ((60 :: 47 :: bytes "Quiet" ++ [62]) ++
        (60 :: 47 :: bytes "Delete" ++ [62]))) := by decide
  have hmode : s.mode.isText = true := by
    have hrest : ∃ rest, footer = 60 :: rest ∧ endsNothing rest :=
      ⟨footer.tail, by decide, by decide +kernel⟩
    obtain ⟨rest, hsplit, hends⟩ := hrest
    rw [hsplit] at hrun
    exact isText_of_accepts hends hrun haccepts
  obtain ⟨data, hdata⟩ : ∃ data, s.mode = .text data := by
    cases hcase : s.mode with
    | text data => exact ⟨data, rfl⟩
    | _ =>
        rw [hcase] at hmode
        cases hmode
  rw [hfooter, run_append, run_startTag hdata (by decide) (by decide)] at hrun
  obtain ⟨t, hquiet, hrun⟩ := Option.bind_eq_some_iff.mp hrun
  obtain ⟨deletion, hflush, hopen⟩ := Option.bind_eq_some_iff.mp hquiet
  have hprice := price_flush hdata hflush
  obtain ⟨names, place⟩ := deletion
  unfold openElement at hopen
  split at hopen
  · cases hopen
  obtain ⟨started, hstart, rfl⟩ := Option.map_eq_some_iff.mp hopen
  change deletionStart _ _ = _ at hstart
  -- a `Quiet` element opens only between two objects
  have hplace : place = .delete := by
    cases place with
    | delete => rfl
    | object key =>
        cases key with
        | _ => cases hstart
    | outside | key text | quiet => cases hstart
  subst hplace
  cases hstart
  have htrue : ∀ b ∈ bytes "true", b ≠ 60 ∧ b ≠ 38 := by decide +kernel
  rw [run_append, run_text rfl htrue, Option.bind_some, run_append,
    run_endTag rfl (by decide)] at hrun
  obtain ⟨u, hclose, hrun⟩ := Option.bind_eq_some_iff.mp hrun
  cases hclose
  rw [run_endTag rfl (by decide)] at hrun
  obtain ⟨deletion, hflush', hclose⟩ := Option.bind_eq_some_iff.mp hrun
  have hdeletion : deletion = { names, place := .delete } := by
    unfold flush at hflush'
    simp only [Option.isSome_iff_exists] at hflush'
    split at hflush'
    · cases hflush'
    · split at hflush'
      · (cases hflush'; rfl)
      · (cases hflush'; rfl)
  subst hdeletion
  unfold closeElement at hclose
  split at hclose
  · cases hclose
  · split at hclose
    · cases hclose
      exact ⟨by simpa [price, Place.price] using hprice, rfl⟩
    · cases hclose

theorem isText_keys (htext : isText (keys.flatMap objectXml ++ footer) = true) :
    ∀ key ∈ keys, isText key = true := by
  induction keys with
  | nil => nofun
  | cons key keys ih =>
      rw [List.flatMap_cons, objectXml, List.append_assoc, List.append_assoc, List.append_assoc,
        isText_append (by decide)] at htext
      have hclose : bytes "</Key></Object>" = 60 :: bytes "/Key></Object>" := by decide
      rw [hclose, List.cons_append] at htext
      obtain ⟨hkey, hrest⟩ := isText_of_append_cons (by decide) htext
      rw [← List.cons_append, isText_append (by decide)] at hrest
      rintro other hother
      rcases List.mem_cons.mp hother with rfl | hmem
      · exact hkey
      · exact ih hrest other hmem

theorem told_inDelete : Told Fresh Clean (inDelete []) where
  data run hmode b hb := by
    cases hmode
    cases hb
  hidden := nofun
  instruction := nofun
  clean _ := ⟨nofun, trivial⟩
  fresh _ _ := ⟨⟨nofun, trivial⟩, nofun⟩

/-- What a body says, whatever its keys are: the names that are read take up no more
than the keys that were written, and as much only if they are read as they stand. -/
structure ReadBack (keys names : List Bytes) : Prop where
  text : ∀ key ∈ keys, isText key = true
  weight : (names.map keyWeight).sum ≤ (keys.map keyWeight).sum
  verbatim : (names.map keyWeight).sum = (keys.map keyWeight).sum →
    (∀ name ∈ names, Verbatim name) ∧ ∀ key ∈ keys, (13 : UInt8) ∉ key

theorem readBack_of_readDeletion (hread : readDeletion (xmlBody keys) = some names) :
    ReadBack keys names := by
  obtain ⟨deletion, hxml, rfl⟩ := Option.map_eq_some_iff.mp hread
  unfold readXml at hxml
  split at hxml
  · cases hxml
  rename_i htext
  split at hxml
  · cases hxml
  rename_i s hrun
  split at hxml
  swap
  · cases hxml
  rename_i haccepts
  cases hxml
  have htext : isText (keys.flatMap objectXml ++ footer) = true := by
    have hheader : isText header = true := by decide +kernel
    have hbody : isText (xmlBody keys) = true := by simpa using htext
    rwa [xmlBody, List.append_assoc, isText_append hheader] at hbody
  have hheader : (13 : UInt8) ∉ header := by decide +kernel
  have hfooter : normalizeLineEnds false footer = footer :=
    normalizeLineEnds_of_not_mem (by decide)
  obtain ⟨rest, hrest⟩ : ∃ rest, footer = 60 :: rest := ⟨footer.tail, by decide⟩
  have hparts : normalizeLineEnds false (xmlBody keys) =
      header ++ (normalizeLineEnds false (keys.flatMap objectXml) ++ footer) := by
    rw [xmlBody, List.append_assoc, normalizeLineEnds_append hheader, hrest,
      normalizeLineEnds_append_cons (by decide), ← hrest, hfooter]
  rw [hparts, run_append, run_header, Option.bind_some, run_append] at hrun
  obtain ⟨t, hobjects, hend⟩ := Option.bind_eq_some_iff.mp hrun
  obtain ⟨hnames, hsame⟩ := read_footer hend haccepts
  have hcost := priced.run hobjects
  have hlines := weight_normalizeLineEnds (keys.flatMap objectXml) false
  have hstart : cost price (inDelete []) = 0 := rfl
  rw [weight_objectXmls] at hlines
  rw [hstart, Nat.zero_add] at hcost
  refine ⟨isText_keys htext, by omega, fun hequal => ⟨?_, ?_⟩⟩
  · have hverbatim : t.verbatim = true := by
      by_contra hlost
      rw [if_neg hlost] at hnames
      omega
    have hafter := faithful.run (faithful.run told_inDelete hobjects) hend
    exact (hafter.clean (hsame.trans hverbatim)).1
  · have hcount : (keys.flatMap objectXml).count 13 = 0 := by omega
    rw [List.count_eq_zero] at hcount
    intro key hkey hmem
    refine hcount (List.mem_flatMap.mpr ⟨key, hkey, ?_⟩)
    rw [objectXml, List.mem_append, List.mem_append]
    exact .inl (.inr hmem)

end HaybarnHttpfs.DeleteDocument
