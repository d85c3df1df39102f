import HaybarnHttpfs.ListPages
import Mathlib.Data.List.Dedup

/-!
What a bucket has under a prefix, with and without a delimiter, and the pages in which
a server that conforms to ListObjectsV2 gives it.
-/

namespace HaybarnHttpfs.BucketListing

open HaybarnHttpfs.Foundation.ByteStrings HaybarnHttpfs.Foundation.Markup
open HaybarnHttpfs.Foundation.Numerals
open HaybarnHttpfs.S3Url HaybarnHttpfs.ListObjectsV2 HaybarnHttpfs.ListPages

/-- The common prefix that stands for a key: up to the first slash behind what was
asked for. -/
def folderBehind (leading key : Bytes) : Option Bytes :=
  if startsWith key leading then
    (findFirstOf slash (key.drop leading.length)).map fun pos =>
      key.take (leading.length + (pos + 1))
  else none

def objectsUnder (objects : List S3Object) (leading : Bytes) : List S3Object :=
  objects.filter fun object => startsWith object.key leading

def objectsDirectlyUnder (objects : List S3Object) (leading : Bytes) : List S3Object :=
  (objectsUnder objects leading).filter fun object => (folderBehind leading object.key).isNone

def commonPrefixesUnder (objects : List S3Object) (leading : Bytes) : List Bytes :=
  (objects.filterMap fun object => folderBehind leading object.key).dedup

variable {leading folder key : Bytes} {objects : List S3Object}

theorem startsWith_iff : startsWith key leading = true ↔ leading <+: key :=
  List.isPrefixOf_iff_prefix

theorem mem_objectsUnder {object : S3Object} :
    object ∈ objectsUnder objects leading ↔ object ∈ objects ∧ leading <+: object.key := by
  rw [objectsUnder, List.mem_filter, startsWith_iff]

theorem folderBehind_eq_some (hfolder : folderBehind leading key = some folder) :
    ∃ name, slash ∉ name ∧ folder = leading ++ name ++ [slash] ∧ folder <+: key := by
  unfold folderBehind at hfolder
  split at hfolder
  · rename_i hstarts
    obtain ⟨rest, rfl⟩ := startsWith_iff.mp hstarts
    obtain ⟨pos, hpos, rfl⟩ := Option.map_eq_some_iff.mp hfolder
    rw [List.drop_left] at hpos
    by_cases hslash : slash ∈ rest
    · obtain ⟨name, behind, rfl, hname⟩ := exists_split_of_mem hslash
      rw [findFirstOf_append hname] at hpos
      cases hpos
      refine ⟨name, hname, ?_, List.take_prefix _ _⟩
      rw [List.take_length_add_append, List.append_assoc]
      congr 1
      rw [← List.singleton_append, ← List.append_assoc]
      exact List.take_left' (by simp)
    · rw [findFirstOf_eq_none hslash] at hpos
      cases hpos
  · cases hfolder

theorem folderBehind_of_prefixed {name : Bytes} (hname : slash ∉ name)
    (hkey : leading ++ name ++ [slash] <+: key) :
    folderBehind leading key = some (leading ++ name ++ [slash]) := by
  obtain ⟨rest, rfl⟩ := hkey
  have hsplit : leading ++ name ++ [slash] ++ rest = leading ++ (name ++ slash :: rest) := by simp
  have hstarts : startsWith (leading ++ name ++ [slash] ++ rest) leading = true :=
    startsWith_iff.mpr ⟨_, hsplit.symm⟩
  unfold folderBehind
  rw [if_pos hstarts, hsplit, List.drop_left, findFirstOf_append hname, Option.map_some,
    ← hsplit]
  congr 1
  exact List.take_left' (by simp)

theorem folderBehind_iff (hfolder : folder ∈ commonPrefixesUnder objects leading) :
    folderBehind leading key = some folder ↔ folder <+: key := by
  obtain ⟨object, -, hobject⟩ := List.mem_filterMap.mp (List.mem_dedup.mp hfolder)
  obtain ⟨name, hname, rfl, -⟩ := folderBehind_eq_some hobject
  constructor
  · intro hkey
    obtain ⟨-, -, -, hprefixed⟩ := folderBehind_eq_some hkey
    exact hprefixed
  · exact folderBehind_of_prefixed hname

theorem mem_commonPrefixesUnder (hfolder : folder ∈ commonPrefixesUnder objects leading) :
    leading.length < folder.length ∧ (∃ directory, folder = directory ++ [slash]) ∧
      leading <+: folder ∧ ∃ object ∈ objects, folder <+: object.key := by
  obtain ⟨object, hobject, hbehind⟩ := List.mem_filterMap.mp (List.mem_dedup.mp hfolder)
  obtain ⟨name, -, rfl, hkey⟩ := folderBehind_eq_some hbehind
  refine ⟨?_, ⟨_, rfl⟩, ?_, object, hobject, hkey⟩
  · simp
  · rw [List.append_assoc]
    exact List.prefix_append _ _

theorem filter_perm_flatMap {α β : Type*} {p : β → α → Bool} {l : List α} {bs : List β}
    (hnodup : bs.Nodup) (hone : ∀ a ∈ l, ∀ b ∈ bs, ∀ b' ∈ bs, p b a → p b' a → b = b') :
    (l.filter fun a => bs.any fun b => p b a).Perm (bs.flatMap fun b => l.filter (p b)) := by
  induction bs with
  | nil => simp
  | cons b bs ih =>
      rw [List.nodup_cons] at hnodup
      have hrest := ih hnodup.2 fun a ha b hb b' hb' =>
        hone a ha b (List.mem_cons_of_mem _ hb) b' (List.mem_cons_of_mem _ hb')
      rw [List.flatMap_cons]
      refine (List.filter_append_perm (p b) _).symm.trans (List.Perm.append ?_ ?_)
      · rw [List.filter_filter]
        refine List.Perm.of_eq (List.filter_congr fun a _ => ?_)
        cases hb : p b a with
        | _ => simp [hb]
      · rw [List.filter_filter]
        refine (List.Perm.of_eq (List.filter_congr fun a ha => ?_)).trans hrest
        cases hb : p b a
        · simp [hb]
        · have hother : bs.any (fun b' => p b' a) = false := by
            rw [List.any_eq_false]
            intro b' hb' hp
            have hsame := hone a ha b List.mem_cons_self b' (List.mem_cons_of_mem _ hb') hb hp
            exact hnodup.1 (hsame ▸ hb')
          simp [hother]

theorem objectsUnder_perm (objects : List S3Object) (leading : Bytes) :
    (objectsUnder objects leading).Perm (objectsDirectlyUnder objects leading ++
      (commonPrefixesUnder objects leading).flatMap (objectsUnder objects)) := by
  refine (List.filter_append_perm
    (fun object => (folderBehind leading object.key).isNone) _).symm.trans
      (List.Perm.append_left _ ?_)
  have hfolders : (objectsUnder objects leading).filter
      (fun object => !(folderBehind leading object.key).isNone) =
      objects.filter fun object =>
        (commonPrefixesUnder objects leading).any fun folder => startsWith object.key folder := by
    rw [objectsUnder, List.filter_filter]
    refine List.filter_congr fun object hobject => ?_
    rw [Bool.eq_iff_iff]
    simp only [Bool.and_eq_true, List.any_eq_true, Bool.not_eq_true',
      Option.isNone_eq_false_iff, Option.isSome_iff_exists]
    constructor
    · rintro ⟨⟨folder, hfolder⟩, -⟩
      obtain ⟨-, -, -, hkey⟩ := folderBehind_eq_some hfolder
      exact ⟨folder, List.mem_dedup.mpr (List.mem_filterMap.mpr ⟨object, hobject, hfolder⟩),
        startsWith_iff.mpr hkey⟩
    · rintro ⟨folder, hfolder, hkey⟩
      obtain ⟨-, -, hleading, -⟩ := mem_commonPrefixesUnder hfolder
      exact ⟨⟨folder, (folderBehind_iff hfolder).mpr (startsWith_iff.mp hkey)⟩,
        startsWith_iff.mpr (hleading.trans (startsWith_iff.mp hkey))⟩
  rw [hfolders]
  refine filter_perm_flatMap (List.nodup_dedup _) ?_
  intro object hobject folder hfolder folder' hfolder' hkey hkey'
  have hfirst := (folderBehind_iff hfolder).mpr (startsWith_iff.mp hkey)
  have hsecond := (folderBehind_iff hfolder').mpr (startsWith_iff.mp hkey')
  exact Option.some.inj (hfirst.symm.trans hsecond)

variable {core : Core}

/-- From this continuation token on the answers are pages with these objects and common
prefixes in all, up to one without a token. -/
inductive Pages (encoding : PageEncoding core) (answer : Bytes → Except ListError ListReply) :
    Bytes → List S3Object → List Bytes → Prop where
  | last {token : Bytes} {objects : List S3Object} {folders : List Bytes}
      (page : Page objects folders none)
      (hanswer : answer token = .ok { body := encoding.renderItems page.items }) :
      Pages encoding answer token objects folders
  | next {token : Bytes} {objects more : List S3Object} {folders moreFolders : List Bytes}
      {nextToken : Text} (page : Page objects folders (some nextToken))
      (hanswer : answer token = .ok { body := encoding.renderItems page.items })
      (htoken : nextToken.1 ≠ []) (hrest : Pages encoding answer nextToken.1 more moreFolders) :
      Pages encoding answer token (objects ++ more) (folders ++ moreFolders)

theorem Pages.answered {encoding : PageEncoding core}
    {answer : Bytes → Except ListError ListReply} {token : Bytes} {folders : List Bytes}
    (hpages : Pages encoding answer token objects folders) :
    ∃ body, answer token = .ok { body } := by
  cases hpages with
  | last page hanswer => exact ⟨_, hanswer⟩
  | next page hanswer => exact ⟨_, hanswer⟩

structure Bucket where
  objects : List S3Object
  keys_nodup : (objects.map (·.key)).Nodup

/-- The server lists what the bucket has under a prefix, each object and each common
prefix on one of its pages. -/
structure Conforms (encoding : PageEncoding core) (server : ListServer) (bucket : Bytes)
    (objects : List S3Object) : Prop where
  recursive : ∀ listPrefix, ∃ listed, listed.Perm (objectsUnder objects listPrefix) ∧
    Pages encoding (fun continuationToken =>
      server { bucket, listPrefix, continuationToken, useDelimiter := false }) [] listed []
  delimited : ∀ listPrefix, ∃ listed folders,
    listed.Perm (objectsDirectlyUnder objects listPrefix) ∧
    folders.Perm (commonPrefixesUnder objects listPrefix) ∧
    Pages encoding (fun continuationToken =>
      server { bucket, listPrefix, continuationToken, useDelimiter := true }) [] listed folders

/-- What a page has: an object or a common prefix. -/
abbrev Entry := S3Object ⊕ Bytes

def objectsOf (entries : List Entry) : List S3Object := entries.filterMap Sum.getLeft?

def foldersOf (entries : List Entry) : List Bytes := entries.filterMap Sum.getRight?

theorem part_mem_plainFields (part : Part) :
    .part part ∈ ([.part .key, .part .lastModified, .part .etag, .part .size] : List Field) := by
  cases part with
  | _ => simp

def plainLayout : Layout :=
  ⟨[.part .key, .part .lastModified, .part .etag, .part .size], part_mem_plainFields⟩

def emptyText : Text := ⟨[], List.not_mem_nil⟩

def itemOf : Entry → Item
  | .inl object => .contents object plainLayout
  | .inr folder => .commonPrefix folder emptyText emptyText

theorem parts_itemOf (entry : Entry) : (itemOf entry).object? = entry.getLeft? ∧
    (itemOf entry).commonPrefix? = entry.getRight? ∧
    (itemOf entry).continuationToken? = none := by
  cases entry with
  | inl object => exact ⟨rfl, rfl, rfl⟩
  | inr folder => exact ⟨rfl, rfl, rfl⟩

def pageOf (entries : List Entry) (token : Option Text) :
    Page (objectsOf entries) (foldersOf entries) token where
  items := entries.map itemOf ++ (token.map Item.continuationToken).toList
  objects_eq := by
    have hend : (token.map Item.continuationToken).toList.filterMap Item.object? = [] := by
      cases token with
      | _ => rfl
    rw [List.filterMap_append, List.filterMap_map, hend, List.append_nil, objectsOf]
    exact List.filterMap_congr fun entry _ => (parts_itemOf entry).1
  commonPrefixes_eq := by
    have hend : (token.map Item.continuationToken).toList.filterMap Item.commonPrefix? = [] := by
      cases token with
      | _ => rfl
    rw [List.filterMap_append, List.filterMap_map, hend, List.append_nil, foldersOf]
    exact List.filterMap_congr fun entry _ => (parts_itemOf entry).2.1
  continuationToken_eq := by
    have hnone : entries.filterMap (Item.continuationToken? ∘ itemOf) = [] :=
      List.filterMap_eq_nil_iff.mpr fun entry _ => (parts_itemOf entry).2.2
    rw [List.filterMap_append, List.filterMap_map, hnone, List.nil_append]
    cases token with
    | _ => rfl

theorem lessThan_notMem_decimal (number : Nat) : lessThan ∉ decimal number :=
  not_mem_decimal (by decide) number

/-- The token of a page is its number, but for the first one. -/
def pageToken (number : Nat) : Text :=
  if number = 0 then emptyText else ⟨decimal number, lessThan_notMem_decimal number⟩

def pageNumber (token : Bytes) : Nat := (readDecimal token).getD 0

def replyOf (entries : List Entry) (token : Option Text) : ListReply :=
  { body := percentEncoding.renderItems (pageOf entries token).items }

def answerPage (pageSize : Nat) (entries : List Entry) (token : Bytes) : ListReply :=
  let number := pageNumber token
  let left := entries.drop (number * pageSize)
  if pageSize < left.length then replyOf (left.take pageSize) (some (pageToken (number + 1)))
  else replyOf left none

def pagedServer (pageSize : Nat) (objects : List S3Object) : ListServer := fun request =>
  .ok (answerPage pageSize
    (if request.useDelimiter then
      (objectsDirectlyUnder objects request.listPrefix).map .inl ++
        (commonPrefixesUnder objects request.listPrefix).map .inr
    else (objectsUnder objects request.listPrefix).map .inl) request.continuationToken)

theorem pageNumber_token (number : Nat) : pageNumber (pageToken number).1 = number := by
  unfold pageToken
  split
  · rename_i hfirst
    subst hfirst
    rfl
  · simp [pageNumber, readDecimal_decimal]

theorem answerPage_last {pageSize number : Nat} {entries : List Entry}
    (hlast : (entries.drop (number * pageSize)).length ≤ pageSize) :
    answerPage pageSize entries (pageToken number).1 =
      replyOf (entries.drop (number * pageSize)) none := by
  simp only [answerPage, pageNumber_token]
  rw [if_neg (Nat.not_lt.mpr hlast)]

theorem answerPage_next {pageSize number : Nat} {entries : List Entry}
    (hmore : pageSize < (entries.drop (number * pageSize)).length) :
    answerPage pageSize entries (pageToken number).1 =
      replyOf ((entries.drop (number * pageSize)).take pageSize)
        (some (pageToken (number + 1))) := by
  simp only [answerPage, pageNumber_token]
  rw [if_pos hmore]

theorem pages_from {pageSize : Nat} (hsize : 0 < pageSize) (entries : List Entry) {left : Nat}
    (number : Nat) (hleft : (entries.drop (number * pageSize)).length ≤ left) :
    Pages percentEncoding (fun token => .ok (answerPage pageSize entries token))
      (pageToken number).1 (objectsOf (entries.drop (number * pageSize)))
      (foldersOf (entries.drop (number * pageSize))) := by
  induction left generalizing number with
  | zero => exact .last _ (congrArg Except.ok (answerPage_last (by omega)))
  | succ left ih =>
      by_cases hmore : pageSize < (entries.drop (number * pageSize)).length
      · have hnext : (entries.drop (number * pageSize)).drop pageSize =
            entries.drop ((number + 1) * pageSize) := by
          rw [List.drop_drop, Nat.succ_mul]
        have hfewer : (entries.drop ((number + 1) * pageSize)).length ≤ left := by
          rw [← hnext, List.length_drop]
          omega
        have htoken : (pageToken (number + 1)).1 ≠ [] := by
          simp [pageToken, decimal_ne_nil]
        have hpages := Pages.next _ (congrArg Except.ok (answerPage_next hmore)) htoken
          (ih (number + 1) hfewer)
        rw [← hnext, objectsOf, objectsOf, foldersOf, foldersOf, ← List.filterMap_append,
          ← List.filterMap_append, List.take_append_drop] at hpages
        exact hpages
      · exact .last _ (congrArg Except.ok (answerPage_last (by omega)))

theorem objectsOf_append (objects : List S3Object) (folders : List Bytes) :
    objectsOf (objects.map .inl ++ folders.map .inr) = objects ∧
      foldersOf (objects.map .inl ++ folders.map .inr) = folders := by
  constructor
  · simp [objectsOf, Function.comp_def]
  · simp [foldersOf, Function.comp_def]

theorem pagedServer_conforms {pageSize : Nat} (hsize : 0 < pageSize) (bucket : Bytes)
    (objects : List S3Object) :
    Conforms percentEncoding (pagedServer pageSize objects) bucket objects where
  recursive listPrefix := by
    have hpages := pages_from hsize ((objectsUnder objects listPrefix).map .inl) 0 (Nat.le_refl _)
    have hentries := objectsOf_append (objectsUnder objects listPrefix) []
    rw [List.map_nil, List.append_nil] at hentries
    rw [Nat.zero_mul, List.drop_zero, hentries.1, hentries.2] at hpages
    exact ⟨_, List.Perm.refl _, hpages⟩
  delimited listPrefix := by
    have hpages := pages_from hsize ((objectsDirectlyUnder objects listPrefix).map .inl ++
      (commonPrefixesUnder objects listPrefix).map .inr) 0 (Nat.le_refl _)
    have hentries := objectsOf_append (objectsDirectlyUnder objects listPrefix)
      (commonPrefixesUnder objects listPrefix)
    rw [Nat.zero_mul, List.drop_zero, hentries.1, hentries.2] at hpages
    exact ⟨_, _, List.Perm.refl _, List.Perm.refl _, hpages⟩

end HaybarnHttpfs.BucketListing
