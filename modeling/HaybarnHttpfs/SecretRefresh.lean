import HaybarnHttpfs.SecretOrder
import Mathlib.Logic.Relation

/-!
Re-creating a secret from the `refresh_info` that it carries: `GenerateRefreshSecretInfo` turns
the fields back into options, and `CreateSecretFunctionInternal` makes a secret of them again.
-/

namespace HaybarnHttpfs.SecretRefresh

open HaybarnHttpfs.Foundation.ByteStrings HaybarnHttpfs.Foundation.Exceptions
open HaybarnHttpfs.SecretOptions HaybarnHttpfs.SecretOrder Relation

/-- A secret, and where it is kept. -/
structure SecretEntry where
  secret : KeyValueSecret
  persistType : Bytes
  storageMode : Bytes

/-- Its `on_conflict` is `REPLACE_ON_CONFLICT`. -/
structure RefreshInput extends CreateSecretInput where
  persistType : Bytes
  storageType : Bytes

/-- `options[key] = value`: an entry that is there keeps the spelling of its name. -/
def assign (options : List (Bytes × Value)) (field : Bytes × Value) : List (Bytes × Value) :=
  if lower field.1 ∈ options.map fun option => lower option.1 then
    options.map fun option =>
      if lower option.1 = lower field.1 then (option.1, field.2) else option
  else options ++ [field]

def assignAll (fields : List (Bytes × Value)) : List (Bytes × Value) :=
  fields.foldl assign []

theorem names_assign (options : List (Bytes × Value)) (field : Bytes × Value) :
    (assign options field).map (fun option => lower option.1) =
      if lower field.1 ∈ options.map fun option => lower option.1 then
        options.map fun option => lower option.1
      else (options.map fun option => lower option.1) ++ [lower field.1] := by
  unfold assign
  split
  · rw [List.map_map]
    refine List.map_congr_left fun option _ => ?_
    simp only [Function.comp_apply]
    split
    · rfl
    · rfl
  · rw [List.map_append]
    rfl

theorem nodup_foldl_assign (fields options : List (Bytes × Value))
    (hoptions : (options.map fun option => lower option.1).Nodup) :
    ((fields.foldl assign options).map fun option => lower option.1).Nodup := by
  induction fields generalizing options with
  | nil => exact hoptions
  | cons field fields ih =>
      refine ih _ ?_
      rw [names_assign]
      split
      · exact hoptions
      · rename_i hfresh
        exact List.nodup_append.mpr ⟨hoptions, List.nodup_singleton _,
          fun name hname other hother =>
          fun heq => hfresh (List.mem_singleton.mp hother ▸ heq ▸ hname)⟩

def generateRefreshSecretInfo (secretEntry : SecretEntry) (refreshInfo : List (Bytes × Value)) :
    RefreshInput where
  type := secretEntry.secret.type
  name := secretEntry.secret.name
  provider := secretEntry.secret.provider
  scope := secretEntry.secret.scope
  options := assignAll refreshInfo
  distinct := nodup_foldl_assign refreshInfo [] List.nodup_nil
  persistType := secretEntry.persistType
  storageType := secretEntry.storageMode

/-- One refresh of a secret; the options may be enumerated in any order. -/
def Refreshed (engine : Engine) (entry entry' : SecretEntry) : Prop :=
  ∃ fields reordered,
    entry.secret.secretMap (bytes "refresh_info") = some (.struct fields) ∧
      Reordered (generateRefreshSecretInfo entry fields).toCreateSecretInput reordered ∧
      createSecretFunctionInternal engine reordered = .ok entry'.secret ∧
      entry'.persistType = (generateRefreshSecretInfo entry fields).persistType ∧
      entry'.storageMode = (generateRefreshSecretInfo entry fields).storageType

/-- The secret carries a record that every order of the options makes a secret of. -/
def CanRefresh (engine : Engine) (entry : SecretEntry) : Prop :=
  ∃ fields, entry.secret.secretMap (bytes "refresh_info") = some (.struct fields) ∧
    ∀ reordered,
      Reordered (generateRefreshSecretInfo entry fields).toCreateSecretInput reordered →
      ∃ secret, createSecretFunctionInternal engine reordered = .ok secret

/-- What a refresh is to keep. -/
structure Kept (same : Value → Value → Prop) (entry entry' : SecretEntry) : Prop where
  type : entry'.secret.type = entry.secret.type
  provider : entry'.secret.provider = entry.secret.provider
  name : entry'.secret.name = entry.secret.name
  scope : entry'.secret.scope = entry.secret.scope
  persistType : entry'.persistType = entry.persistType
  storageMode : entry'.storageMode = entry.storageMode
  refreshInfo : ∃ info info', entry.secret.secretMap (bytes "refresh_info") = some info ∧
    entry'.secret.secretMap (bytes "refresh_info") = some info' ∧ same info info'

/-- A refresh keeps the record; from then on any number of refreshes is possible and changes
nothing. -/
def StaysRefreshable (same : Value → Value → Prop) (engine : Engine)
    (entry : SecretEntry) : Prop :=
  ∀ entry', Refreshed engine entry entry' → Kept same entry entry' ∧
    ∀ later, ReflTransGen (Refreshed engine) entry' later →
      SameSecret same entry'.secret later.secret ∧ CanRefresh engine later

/-- Some option of the record is not accepted again. -/
def Rejects (engine : Engine) (type : Bytes) (fields : List (Bytes × Value)) : Prop :=
  ∃ option ∈ assignAll fields, ¬ Accepted engine type option

/-- The record asks for a refresh itself, under names in lower case that differ. -/
structure Repeats (fields : List (Bytes × Value)) : Prop where
  refresh : bytes "refresh" ∈ fields.map Prod.fst
  lowered : ∀ field ∈ fields, lower field.1 = field.1
  distinct : (fields.map Prod.fst).Nodup

variable {engine : Engine} {input reordered : CreateSecretInput} {secret : KeyValueSecret}
  {entry entry' : SecretEntry} {fields options : List (Bytes × Value)}
  {same : Value → Value → Prop} {name : Bytes}

theorem foldl_assign_of_nodup (fields options : List (Bytes × Value))
    (hdistinct : ((options ++ fields).map fun option => lower option.1).Nodup) :
    fields.foldl assign options = options ++ fields := by
  induction fields generalizing options with
  | nil => exact (List.append_nil options).symm
  | cons field fields ih =>
      have hfresh : lower field.1 ∉ options.map fun option => lower option.1 := by
        rw [List.map_append, List.nodup_append] at hdistinct
        exact fun hmem => hdistinct.2.2 _ hmem _ List.mem_cons_self rfl
      rw [List.foldl_cons, assign, if_neg hfresh, ih]
      · rw [List.append_assoc]
        rfl
      · rwa [List.append_assoc]

theorem assignAll_of_nodup (hdistinct : (fields.map fun field => lower field.1).Nodup) :
    assignAll fields = fields :=
  foldl_assign_of_nodup fields [] hdistinct

theorem mem_foldl_assign {option : Bytes × Value}
    (hoption : option ∈ fields.foldl assign options) :
    option ∈ options ∨ ∃ field ∈ fields, lower field.1 = lower option.1 ∧ field.2 = option.2 := by
  induction fields generalizing options with
  | nil => exact .inl hoption
  | cons field fields ih =>
      rcases ih hoption with hassigned | ⟨later, hlater, hname⟩
      · unfold assign at hassigned
        split at hassigned
        · obtain ⟨before, hbefore, rfl⟩ := List.mem_map.mp hassigned
          split
          · rename_i hsame
            exact .inr ⟨field, List.mem_cons_self, hsame.symm, rfl⟩
          · exact .inl hbefore
        · rcases List.mem_append.mp hassigned with hbefore | hself
          · exact .inl hbefore
          · rw [List.mem_singleton.mp hself]
            exact .inr ⟨field, List.mem_cons_self, rfl, rfl⟩
      · exact .inr ⟨later, List.mem_cons_of_mem _ hlater, hname⟩

theorem mem_assignAll {option : Bytes × Value} (hoption : option ∈ assignAll fields) :
    ∃ field ∈ fields, lower field.1 = lower option.1 ∧ field.2 = option.2 :=
  (mem_foldl_assign hoption).resolve_left nofun

/-- The record of an input. -/
def record (input : CreateSecretInput) : List (Bytes × Value) :=
  input.options.map fun option => (lower option.1, option.2)

theorem names_record (input : CreateSecretInput) :
    ((record input).map fun field => lower field.1) =
      input.options.map fun option => lower option.1 := by
  unfold record
  rw [List.map_map]
  exact List.map_congr_left fun option _ => lower_lower option.1

theorem assignAll_record (input : CreateSecretInput) : assignAll (record input) = record input :=
  assignAll_of_nodup (by rw [names_record]; exact input.distinct)

theorem record_perm (hperm : input.options.Perm fields)
    (hlowered : ∀ field ∈ fields, lower field.1 = field.1) : (record input).Perm fields := by
  have hrecord := hperm.map fun option : Bytes × Value => (lower option.1, option.2)
  have hsame : fields.map (fun field => (lower field.1, field.2)) = fields :=
    (List.map_congr_left fun field hfield => by rw [hlowered field hfield, id]).trans
      (List.map_id fields)
  rwa [hsame] at hrecord

theorem scopeOf_nonempty {scope : List Bytes} (hscope : scopeOf input = .ok scope) :
    scope ≠ [] := by
  unfold scopeOf at hscope
  split at hscope
  · unfold defaultScope at hscope
    split at hscope
    · cases hscope
      exact List.cons_ne_nil _ _
    · split at hscope
      · cases hscope
        exact List.cons_ne_nil _ _
      · split at hscope
        · cases hscope
          exact List.cons_ne_nil _ _
        · split at hscope
          · cases hscope
            exact List.cons_ne_nil _ _
          · cases hscope
  · rename_i hgiven
    cases hscope
    exact fun hempty => hgiven (by rw [hempty]; rfl)

theorem scopeOf_of_nonempty (hscope : input.scope ≠ []) : scopeOf input = .ok input.scope := by
  unfold scopeOf
  rw [if_neg (by simpa using hscope)]

theorem scopeOf_generate (hcreated : Created engine input entry.secret)
    (fields : List (Bytes × Value)) :
    scopeOf (generateRefreshSecretInfo entry fields).toCreateSecretInput =
      .ok entry.secret.scope :=
  scopeOf_of_nonempty (scopeOf_nonempty hcreated.scope)

/-- The secret was made with `refresh` alone, of so many options. -/
structure Sustained (engine : Engine) (count : Nat) (entry : SecretEntry)
    (input : CreateSecretInput) : Prop where
  created : createSecretFunctionInternal engine input = .ok entry.secret
  refresh : (input.find (bytes "refresh")).isSome
  noInfo : input.find (bytes "refresh_info") = none
  count : input.options.length = count

theorem refreshInfoOf_refresh (hrefresh : (input.find (bytes "refresh")).isSome)
    (hnoInfo : input.find (bytes "refresh_info") = none) :
    refreshInfoOf input = some (.struct (record input)) := by
  obtain ⟨value, hfind⟩ := Option.isSome_iff_exists.mp hrefresh
  unfold refreshInfoOf record
  rw [hnoInfo, hfind]
  rfl

theorem info_of_sustained {count : Nat} (hsustained : Sustained engine count entry input) :
    entry.secret.secretMap (bytes "refresh_info") = some (.struct (record input)) := by
  rw [(created_of_ok hsustained.created).refreshInfo]
  exact refreshInfoOf_refresh hsustained.refresh hsustained.noInfo

theorem sameOptions_generate (hcreated : Created engine input entry.secret) :
    SameOptions input (generateRefreshSecretInfo entry (record input)).toCreateSecretInput where
  type := hcreated.type
  provider := hcreated.provider
  name := hcreated.name
  scope := (scopeOf_generate hcreated _).trans hcreated.scope.symm
  find := by
    intro name
    apply Option.ext
    intro value
    rw [find_eq_some, find_eq_some]
    change (∃ option ∈ assignAll (record input), _) ↔ _
    rw [assignAll_record]
    constructor
    · rintro ⟨field, hfield, hname, hvalue⟩
      obtain ⟨option, hoption, rfl⟩ := List.mem_map.mp hfield
      exact ⟨option, hoption, (lower_lower option.1).symm.trans hname, hvalue⟩
    · rintro ⟨option, hoption, hname, hvalue⟩
      exact ⟨_, List.mem_map_of_mem hoption, (lower_lower option.1).trans hname, hvalue⟩

theorem accepted_lowered {type : Bytes} {option : Bytes × Value} :
    Accepted engine type (lower option.1, option.2) ↔ Accepted engine type option := by
  unfold Accepted
  rw [lower_lower]

theorem acceptable_generate (hcreated : Created engine input entry.secret)
    (hacceptable : Acceptable engine input) :
    Acceptable engine (generateRefreshSecretInfo entry (record input)).toCreateSecretInput := by
  refine ⟨⟨_, scopeOf_generate hcreated _⟩, ?_⟩
  change ∀ option ∈ assignAll (record input), Accepted engine entry.secret.type option
  rw [assignAll_record, hcreated.type]
  intro field hfield
  obtain ⟨option, hoption, rfl⟩ := List.mem_map.mp hfield
  exact accepted_lowered.mpr (hacceptable.options option hoption)

theorem canRefresh_of_sustained {count : Nat} (hsustained : Sustained engine count entry input) :
    CanRefresh engine entry := by
  have hcreated := created_of_ok hsustained.created
  refine ⟨record input, info_of_sustained hsustained, fun reordered hreordered => ?_⟩
  refine creates_of_noInfo ((acceptable_reordered hreordered).mpr ?_) ?_
  · exact acceptable_generate hcreated
      ((creates_iff engine input).mp ⟨_, hsustained.created⟩).1
  · rw [find_reordered hreordered, (sameOptions_generate hcreated).find]
    exact hsustained.noInfo

/-- The relation on values allows for the orders of so many fields. -/
structure AllowsOrders (same : Value → Value → Prop) (count : Nat) : Prop where
  refl : ∀ value, same value value
  trans : ∀ first second third, same first second → same second third → same first third
  reorder : ∀ fields fields' : List (Bytes × Value), fields.length = count → fields.Perm fields' →
    same (.struct fields) (.struct fields')

theorem sustained_of_refreshed {count : Nat} (hallows : AllowsOrders same count)
    (hsustained : Sustained engine count entry input)
    (hrefreshed : Refreshed engine entry entry') :
    SameSecret same entry.secret entry'.secret ∧
      ∃ input', Sustained engine count entry' input' := by
  have hcreated := created_of_ok hsustained.created
  obtain ⟨fields, reordered, hinfo, hreordered, hcreate, -⟩ := hrefreshed
  rw [info_of_sustained hsustained] at hinfo
  cases hinfo
  have hgenerated := sameOptions_generate hcreated
  have hsame : SameOptions input reordered := by
    have hother := hreordered.sameOptions
    exact ⟨hother.type.trans hgenerated.type, hother.provider.trans hgenerated.provider,
      hother.name.trans hgenerated.name, hother.scope.trans hgenerated.scope,
      fun name => (hother.find name).trans (hgenerated.find name)⟩
  have hrefresh : (reordered.find (bytes "refresh")).isSome := by
    rw [hsame.find]
    exact hsustained.refresh
  have hnoInfo : reordered.find (bytes "refresh_info") = none := by
    rw [hsame.find]
    exact hsustained.noInfo
  have hperm : reordered.options.Perm (record input) := by
    have hoptions := hreordered.options
    change reordered.options.Perm (assignAll (record input)) at hoptions
    rwa [assignAll_record] at hoptions
  have hrecord := record_perm hperm fun field hfield => by
    obtain ⟨option, -, rfl⟩ := List.mem_map.mp hfield
    exact lower_lower option.1
  have hlength : (record input).length = count := (List.length_map _).trans hsustained.count
  refine ⟨sameSecret_of_created hallows.refl hsame hcreated (created_of_ok hcreate) ?_, reordered,
    hcreate, hrefresh, hnoInfo, hperm.length_eq.trans hlength⟩
  rw [refreshInfoOf_refresh hsustained.refresh hsustained.noInfo,
    refreshInfoOf_refresh hrefresh hnoInfo]
  exact .some (hallows.reorder _ _ hlength hrecord.symm)

theorem rel_trans (htrans : ∀ first second third, same first second → same second third →
    same first third) {first second third : Option Value} (hfirst : Option.Rel same first second)
    (hsecond : Option.Rel same second third) : Option.Rel same first third := by
  cases hfirst with
  | none => exact hsecond
  | some hvalue =>
      cases hsecond with
      | some hvalue' => exact .some (htrans _ _ _ hvalue hvalue')

theorem sameSecret_trans {first second third : KeyValueSecret} {count : Nat}
    (hallows : AllowsOrders same count) (hfirst : SameSecret same first second)
    (hsecond : SameSecret same second third) : SameSecret same first third where
  type := hfirst.type.trans hsecond.type
  provider := hfirst.provider.trans hsecond.provider
  name := hfirst.name.trans hsecond.name
  scope := hfirst.scope.trans hsecond.scope
  redactKeys := hfirst.redactKeys.trans hsecond.redactKeys
  secretMap := fun key => rel_trans hallows.trans (hfirst.secretMap key) (hsecond.secretMap key)

theorem sustained_of_chain {count : Nat} {later : SecretEntry} (hallows : AllowsOrders same count)
    (hsustained : Sustained engine count entry input)
    (hchain : ReflTransGen (Refreshed engine) entry later) :
    SameSecret same entry.secret later.secret ∧ CanRefresh engine later := by
  suffices hkept : SameSecret same entry.secret later.secret ∧
      ∃ input', Sustained engine count later input' by
    obtain ⟨hsame, input', hsustained'⟩ := hkept
    exact ⟨hsame, canRefresh_of_sustained hsustained'⟩
  induction hchain with
  | refl =>
      exact ⟨⟨rfl, rfl, rfl, rfl, rfl, fun _ => rel_of_eq hallows.refl rfl⟩, input, hsustained⟩
  | tail _ hrefreshed ih =>
      obtain ⟨hsame, input', hsustained'⟩ := ih
      obtain ⟨hnext, hlast⟩ := sustained_of_refreshed hallows hsustained' hrefreshed
      exact ⟨sameSecret_trans hallows hsame hnext, hlast⟩

theorem record_info (hcreated : Created engine input entry.secret)
    (hinfo : entry.secret.secretMap (bytes "refresh_info") = some (.struct fields))
    {field : Bytes × Value} (hfield : field ∈ fields)
    (hname : lower field.1 = bytes "refresh_info")
    (value : Value) : mapToStruct field.2 ≠ .ok value := by
  rw [hcreated.refreshInfo] at hinfo
  unfold refreshInfoOf at hinfo
  cases hfind : input.find (bytes "refresh_info") with
  | some info =>
      rw [hfind] at hinfo
      cases info with
      | map entries =>
          cases hinfo
          obtain ⟨⟨key, text⟩, -, rfl⟩ := List.mem_map.mp hfield
          cases text with
          | _ => exact nofun
      | _ => cases hinfo
  | none =>
      rw [hfind] at hinfo
      obtain ⟨refresh, -, hstruct⟩ := Option.map_eq_some_iff.mp hinfo
      cases hstruct
      obtain ⟨option, hoption, rfl⟩ := List.mem_map.mp hfield
      have hgiven := find_isSome.mpr ⟨option, hoption, (lower_lower option.1).symm.trans hname⟩
      rw [hfind] at hgiven
      cases hgiven

theorem acceptable_generate_iff (hcreated : Created engine input entry.secret) :
    Acceptable engine (generateRefreshSecretInfo entry fields).toCreateSecretInput ↔
      ¬ Rejects engine entry.secret.type fields := by
  unfold Rejects
  push Not
  exact ⟨Acceptable.options, fun hoptions => ⟨⟨_, scopeOf_generate hcreated fields⟩, hoptions⟩⟩

theorem noInfo_of_acceptable (hcreated : Created engine input entry.secret)
    (hinfo : entry.secret.secretMap (bytes "refresh_info") = some (.struct fields))
    (hacceptable : Acceptable engine
      (generateRefreshSecretInfo entry fields).toCreateSecretInput) :
    (generateRefreshSecretInfo entry fields).toCreateSecretInput.find (bytes "refresh_info") =
      none := by
  by_contra hgiven
  obtain ⟨option, hoption, hname⟩ := find_isSome.mp (Option.isSome_iff_ne_none.mpr hgiven)
  obtain ⟨field, hfield, hsame, hvalue⟩ := mem_assignAll hoption
  have haccepted := hacceptable.options option hoption
  unfold Accepted at haccepted
  rw [hname] at haccepted
  obtain haccount | hrefresh | ⟨-, value, hstruct⟩ := haccepted
  · exact absurd haccount (by decide)
  · exact absurd hrefresh (by decide)
  · exact record_info hcreated hinfo hfield (hsame.trans hname) value (hvalue ▸ hstruct)

theorem staysRefreshable_of_repeats (hcreated : Created engine input entry.secret)
    (hinfo : entry.secret.secretMap (bytes "refresh_info") = some (.struct fields))
    (hrepeats : Repeats fields) (hallows : AllowsOrders same fields.length) :
    StaysRefreshable same engine entry := by
  rintro entry' ⟨fields', reordered, hinfo', hreordered, hcreate, hpersist, hstorage⟩
  rw [hinfo] at hinfo'
  cases hinfo'
  have hnames : fields.map (fun field => lower field.1) = fields.map Prod.fst :=
    List.map_congr_left hrepeats.lowered
  have hoptions : assignAll fields = fields :=
    assignAll_of_nodup (by rw [hnames]; exact hrepeats.distinct)
  have hperm : reordered.options.Perm fields := by
    have hoptions' := hreordered.options
    change reordered.options.Perm (assignAll fields) at hoptions'
    rwa [hoptions] at hoptions'
  have hacceptable := (acceptable_reordered hreordered).mp
    ((creates_iff engine reordered).mp ⟨_, hcreate⟩).1
  have hnoInfo : reordered.find (bytes "refresh_info") = none :=
    (find_reordered hreordered).trans (noInfo_of_acceptable hcreated hinfo hacceptable)
  have hrefresh : (reordered.find (bytes "refresh")).isSome := by
    obtain ⟨field, hfield, hname⟩ := List.mem_map.mp hrepeats.refresh
    exact find_isSome.mpr ⟨field, hperm.mem_iff.mpr hfield,
      (hrepeats.lowered field hfield).trans hname⟩
  have hsustained : Sustained engine fields.length entry' reordered :=
    ⟨hcreate, hrefresh, hnoInfo, hperm.length_eq⟩
  have hcreated' := created_of_ok hcreate
  refine ⟨⟨?_, ?_, ?_, ?_, hpersist, hstorage, ?_⟩, fun later hchain =>
    sustained_of_chain hallows hsustained hchain⟩
  · exact hcreated'.type.trans hreordered.type
  · exact hcreated'.provider.trans hreordered.provider
  · exact hcreated'.name.trans hreordered.name
  · have hscope := hcreated'.scope
    rw [scopeOf_reordered hreordered, scopeOf_generate hcreated] at hscope
    exact (Except.ok.inj hscope).symm
  · exact ⟨_, _, hinfo, info_of_sustained hsustained,
      hallows.reorder _ _ rfl (record_perm hperm hrepeats.lowered).symm⟩

theorem staysRefreshable_of_rejects (hcreated : Created engine input entry.secret)
    (hinfo : entry.secret.secretMap (bytes "refresh_info") = some (.struct fields))
    (hrejects : Rejects engine entry.secret.type fields) :
    StaysRefreshable same engine entry := by
  rintro entry' ⟨fields', reordered, hinfo', hreordered, hcreate, -⟩
  rw [hinfo] at hinfo'
  cases hinfo'
  have hacceptable := (acceptable_reordered hreordered).mp
    ((creates_iff engine reordered).mp ⟨_, hcreate⟩).1
  exact absurd hrejects ((acceptable_generate_iff hcreated).mp hacceptable)

theorem record_kept {reordered : CreateSecretInput} (hcreated : Created engine input entry.secret)
    (hinfo : entry.secret.secretMap (bytes "refresh_info") = some (.struct fields))
    (hstays : StaysRefreshable same engine entry)
    (hacceptable : Acceptable engine
      (generateRefreshSecretInfo entry fields).toCreateSecretInput)
    (hreordered : Reordered (generateRefreshSecretInfo entry fields).toCreateSecretInput
      reordered) :
    (reordered.find (bytes "refresh")).isSome ∧
      same (.struct fields) (.struct (record reordered)) := by
  have hnoInfo : reordered.find (bytes "refresh_info") = none :=
    (find_reordered hreordered).trans (noInfo_of_acceptable hcreated hinfo hacceptable)
  obtain ⟨secret, hcreate⟩ :=
    creates_of_noInfo ((acceptable_reordered hreordered).mpr hacceptable) hnoInfo
  obtain ⟨hkept, -⟩ := hstays ⟨secret, entry.persistType, entry.storageMode⟩
    ⟨fields, reordered, hinfo, hreordered, hcreate, rfl, rfl⟩
  obtain ⟨info, info', hbefore, hafter, hsame⟩ := hkept.refreshInfo
  rw [hinfo] at hbefore
  cases hbefore
  change secret.secretMap (bytes "refresh_info") = some info' at hafter
  rw [(created_of_ok hcreate).refreshInfo] at hafter
  have hrefresh : (reordered.find (bytes "refresh")).isSome := by
    cases hfind : reordered.find (bytes "refresh") with
    | some value => rfl
    | none =>
        unfold refreshInfoOf at hafter
        rw [hnoInfo, hfind] at hafter
        cases hafter
  rw [refreshInfoOf_refresh hrefresh hnoInfo] at hafter
  cases hafter
  exact ⟨hrefresh, hsame⟩

theorem repeats_of_stays (hcreated : Created engine input entry.secret)
    (hinfo : entry.secret.secretMap (bytes "refresh_info") = some (.struct fields))
    (hfields : ∀ value value', same value value' → SameFields value value')
    (hstays : StaysRefreshable same engine entry)
    (hacceptable : Acceptable engine
      (generateRefreshSecretInfo entry fields).toCreateSecretInput) : Repeats fields := by
  obtain ⟨hrefresh, hsame⟩ := record_kept hcreated hinfo hstays hacceptable
    ⟨rfl, rfl, rfl, rfl, .refl _⟩
  have hperm : fields.Perm _ := hfields _ _ hsame
  constructor
  · obtain ⟨option, hoption, hname⟩ := find_isSome.mp hrefresh
    exact List.mem_map.mpr ⟨_, hperm.mem_iff.mpr (List.mem_map_of_mem hoption), hname⟩
  · intro field hfield
    obtain ⟨option, -, rfl⟩ := List.mem_map.mp (hperm.mem_iff.mp hfield)
    exact lower_lower option.1
  · refine (hperm.map Prod.fst).nodup_iff.mpr ?_
    have hnames :
      (record (generateRefreshSecretInfo entry fields).toCreateSecretInput).map Prod.fst =
        (generateRefreshSecretInfo entry fields).options.map fun option => lower option.1 := by
      unfold record
      rw [List.map_map]
      rfl
    rw [hnames]
    exact (generateRefreshSecretInfo entry fields).distinct

theorem short_of_stays (hcreated : Created engine input entry.secret)
    (hinfo : entry.secret.secretMap (bytes "refresh_info") = some (.struct fields))
    (hstays : StaysRefreshable Eq engine entry)
    (hacceptable : Acceptable engine
      (generateRefreshSecretInfo entry fields).toCreateSecretInput) : fields.length ≤ 1 := by
  by_contra hlong
  have hnoInfo := noInfo_of_acceptable hcreated hinfo hacceptable
  obtain ⟨hrefresh, hsame⟩ := record_kept hcreated hinfo hstays hacceptable
    ⟨rfl, rfl, rfl, rfl, .refl _⟩
  obtain ⟨value, hfind⟩ := Option.isSome_iff_exists.mp hrefresh
  have hlength : fields.length =
      (generateRefreshSecretInfo entry fields).toCreateSecretInput.options.length := by
    rw [Value.struct.injEq] at hsame
    exact (congrArg List.length hsame).trans (List.length_map _)
  obtain ⟨swapped, hswapped, hne⟩ := swapped_info_ne hfind hnoInfo
    (hlength ▸ Nat.not_le.mp hlong)
  obtain ⟨hrefresh', hsame'⟩ := record_kept hcreated hinfo hstays hacceptable hswapped
  refine hne ?_
  rw [refreshInfoOf_refresh hrefresh' ((find_reordered hswapped).trans hnoInfo),
    refreshInfoOf_refresh hrefresh hnoInfo, ← hsame, ← hsame']

theorem sameFields_cases {value value' : Value} (hsame : SameFields value value') :
    value = value' ∨ ∃ fields fields', value = .struct fields ∧ value' = .struct fields' ∧
      fields.Perm fields' := by
  cases value with
  | struct fields =>
      cases value' with
      | struct fields' => exact .inr ⟨fields, fields', rfl, rfl, hsame⟩
      | _ => exact .inl hsame
  | _ => exact .inl hsame

theorem allowsOrders_sameFields (count : Nat) : AllowsOrders SameFields count where
  refl := sameFields_refl
  trans := by
    intro first second third hfirst hsecond
    rcases sameFields_cases hfirst with rfl | ⟨fields, fields', rfl, rfl, hperm⟩
    · exact hsecond
    · rcases sameFields_cases hsecond with rfl | ⟨_, fields'', hstruct, rfl, hperm'⟩
      · exact hfirst
      · cases hstruct
        exact List.Perm.trans hperm hperm'
  reorder := fun _ _ _ hperm => hperm

theorem allowsOrders_eq {count : Nat} (hshort : count ≤ 1) : AllowsOrders Eq count where
  refl := fun _ => rfl
  trans := fun _ _ _ => Eq.trans
  reorder := fun _ _ hcount hperm =>
    congrArg Value.struct
      (eq_of_perm_of_short hperm.symm (Nat.le_trans (Nat.le_of_eq hcount) hshort)).symm

theorem sameFields_of_eq {value value' : Value} (heq : value = value') :
    SameFields value value' :=
  heq ▸ sameFields_refl value

/-- A record that was given as a `refresh_info` without a `refresh` in it is lost with the first
refresh; the record of a `refresh` comes back every time. -/
theorem staysRefreshable_iff (engine : Engine) (input : CreateSecretInput) (entry : SecretEntry)
    (hcreated : createSecretFunctionInternal engine input = .ok entry.secret)
    (fields : List (Bytes × Value))
    (hinfo : entry.secret.secretMap (bytes "refresh_info") = some (.struct fields)) :
    (StaysRefreshable SameFields engine entry ↔
        Rejects engine entry.secret.type fields ∨ Repeats fields) ∧
      (StaysRefreshable Eq engine entry ↔
        Rejects engine entry.secret.type fields ∨ Repeats fields ∧ fields.length ≤ 1) := by
  have hsecret := created_of_ok hcreated
  constructor
  · constructor
    · intro hstays
      refine or_iff_not_imp_left.mpr fun hrejects => ?_
      exact repeats_of_stays hsecret hinfo (fun _ _ => id) hstays
        ((acceptable_generate_iff hsecret).mpr hrejects)
    · rintro (hrejects | hrepeats)
      · exact staysRefreshable_of_rejects hsecret hinfo hrejects
      · exact staysRefreshable_of_repeats hsecret hinfo hrepeats (allowsOrders_sameFields _)
  · constructor
    · intro hstays
      refine or_iff_not_imp_left.mpr fun hrejects => ?_
      have hacceptable := (acceptable_generate_iff hsecret).mpr hrejects
      exact ⟨repeats_of_stays hsecret hinfo (fun _ _ => sameFields_of_eq) hstays hacceptable,
        short_of_stays hsecret hinfo hstays hacceptable⟩
    · rintro (hrejects | ⟨hrepeats, hshort⟩)
      · exact staysRefreshable_of_rejects hsecret hinfo hrejects
      · exact staysRefreshable_of_repeats hsecret hinfo hrepeats (allowsOrders_eq hshort)

/-- `CREATE SECRET (TYPE s3, KEY_ID 'id', REFRESH 'auto')`. -/
def autoInput : CreateSecretInput where
  type := bytes "s3"
  provider := bytes "config"
  name := bytes "secret"
  options := [(bytes "key_id", .varchar (bytes "id")), (bytes "refresh", .varchar (bytes "auto"))]
  distinct := by decide

def autoEntry : SecretEntry where
  secret :=
    { scope := [bytes "s3://", bytes "s3n://", bytes "s3a://"]
      type := bytes "s3"
      provider := bytes "config"
      name := bytes "secret"
      redactKeys := [bytes "secret", bytes "session_token"]
      secretMap := Function.update (Function.update (Function.update (fun _ => none)
        (bytes "key_id") (some (.varchar (bytes "id"))))
        (bytes "refresh") (some (.varchar (bytes "auto"))))
        (bytes "refresh_info") (some (.struct
          [(bytes "key_id", .varchar (bytes "id")),
            (bytes "refresh", .varchar (bytes "auto"))])) }
  persistType := bytes "temporary"
  storageMode := bytes "memory"

theorem staysRefreshable_iff_auto :
    (StaysRefreshable SameFields plainEngine autoEntry ↔
        Rejects plainEngine (bytes "s3") (record autoInput) ∨ Repeats (record autoInput)) ∧
      (StaysRefreshable Eq plainEngine autoEntry ↔
        Rejects plainEngine (bytes "s3") (record autoInput) ∨
          Repeats (record autoInput) ∧ (record autoInput).length ≤ 1) :=
  staysRefreshable_iff plainEngine autoInput autoEntry rfl (record autoInput) rfl

/-- `CREATE SECRET (TYPE s3, REFRESH_INFO MAP {'key_id': 'id'})`. -/
def mapInput : CreateSecretInput where
  type := bytes "s3"
  provider := bytes "config"
  name := bytes "secret"
  options := [(bytes "refresh_info", .map [(bytes "key_id", some (bytes "id"))])]
  distinct := by decide

def mapEntry : SecretEntry where
  secret :=
    { autoEntry.secret with
      secretMap := Function.update (fun _ => none) (bytes "refresh_info")
        (some (.struct [(bytes "key_id", .varchar (bytes "id"))])) }
  persistType := bytes "temporary"
  storageMode := bytes "memory"

def mapEntryRefreshed : SecretEntry where
  secret :=
    { autoEntry.secret with
      secretMap :=
        Function.update (fun _ => none) (bytes "key_id") (some (.varchar (bytes "id"))) }
  persistType := bytes "temporary"
  storageMode := bytes "memory"

/-- The first refresh succeeds and leaves nothing to refresh from. -/
theorem mapEntry_lost :
    createSecretFunctionInternal plainEngine mapInput = .ok mapEntry.secret ∧
      Refreshed plainEngine mapEntry mapEntryRefreshed ∧
      mapEntryRefreshed.secret.secretMap (bytes "refresh_info") = none ∧
      ¬ StaysRefreshable SameFields plainEngine mapEntry := by
  have hrefreshed : Refreshed plainEngine mapEntry mapEntryRefreshed :=
    ⟨_, _, rfl, ⟨rfl, rfl, rfl, rfl, .refl _⟩, rfl, rfl, rfl⟩
  have hlost : mapEntryRefreshed.secret.secretMap (bytes "refresh_info") = none := rfl
  refine ⟨rfl, hrefreshed, hlost, fun hstays => ?_⟩
  obtain ⟨info, info', -, hkept, -⟩ := (hstays _ hrefreshed).1.refreshInfo
  rw [hlost] at hkept
  cases hkept

end HaybarnHttpfs.SecretRefresh
