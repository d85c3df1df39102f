import HaybarnHttpfs.SecretOptions
import Mathlib.Data.List.Nodup
import Mathlib.Data.List.Pairwise

/-!
The options of `CREATE SECRET` are an unordered map, and the loop of
`CreateSecretFunctionInternal` goes over it in the order in which it happens to enumerate its
entries. `refresh` and `refresh_info` share a flag that the loop carries along.
-/

namespace HaybarnHttpfs.SecretOrder

open HaybarnHttpfs.Foundation.ByteStrings HaybarnHttpfs.Foundation.Exceptions
open HaybarnHttpfs.SecretOptions

/-- The same input, whose options are enumerated in another order. -/
structure Reordered (input reordered : CreateSecretInput) : Prop where
  type : reordered.type = input.type
  provider : reordered.provider = input.provider
  name : reordered.name = input.name
  scope : reordered.scope = input.scope
  options : reordered.options.Perm input.options

/-- Inputs that the loop finds the same options in. -/
structure SameOptions (input other : CreateSecretInput) : Prop where
  type : other.type = input.type
  provider : other.provider = input.provider
  name : other.name = input.name
  scope : scopeOf other = scopeOf input
  find : ∀ name, other.find name = input.find name

/-- Two structs may have their fields in different orders. -/
def SameFields : Value → Value → Prop
  | .struct fields, .struct fields' => fields.Perm fields'
  | value, value' => value = value'

structure SameSecret (same : Value → Value → Prop) (secret secret' : KeyValueSecret) : Prop where
  type : secret.type = secret'.type
  provider : secret.provider = secret'.provider
  name : secret.name = secret'.name
  scope : secret.scope = secret'.scope
  redactKeys : secret.redactKeys = secret'.redactKeys
  secretMap : ∀ key, Option.Rel same (secret.secretMap key) (secret'.secretMap key)

/-- A secret with this content, or a rejection. -/
def SameOutcome (same : Value → Value → Prop)
    (outcome outcome' : Except CreateSecretError KeyValueSecret) : Prop :=
  Option.Rel (SameSecret same) outcome.toOption outcome'.toOption

structure OrderIndependent (same : Value → Value → Prop) (engine : Engine)
    (input : CreateSecretInput) : Prop where
  outcome : ∀ first second, Reordered input first → Reordered input second →
    SameOutcome same (createSecretFunctionInternal engine first)
      (createSecretFunctionInternal engine second)
  exclusive : ∀ reordered, Reordered input reordered → (input.find (bytes "refresh")).isSome →
    (input.find (bytes "refresh_info")).isSome →
    (createSecretFunctionInternal engine reordered).toOption = none

/-- The loop has a place for the option, with a value of this type. -/
def Accepted (engine : Engine) (type : Bytes) (option : Bytes × Value) : Prop :=
  match optionKind type (lower option.1) with
  | some kind => ∃ value, storedAs engine (lower option.1) option.2 kind = .ok value
  | none =>
      lower option.1 = bytes "account_id" ∨ lower option.1 = bytes "refresh" ∨
        lower option.1 = bytes "refresh_info" ∧ ∃ value, mapToStruct option.2 = .ok value

/-- The type has a scope, and each option by itself is accepted. -/
structure Acceptable (engine : Engine) (input : CreateSecretInput) : Prop where
  scope : ∃ scope, scopeOf input = .ok scope
  options : ∀ option ∈ input.options, Accepted engine input.type option

/-- Of `refresh` and `refresh_info`, the options that raise the flag. -/
def Raises (engine : Engine) (option : Bytes × Value) : Prop :=
  lower option.1 = bytes "refresh" ∧ engine.toText option.2 = bytes "auto" ∨
    lower option.1 = bytes "refresh_info"

/-- The second option finds the flag raised by the first. -/
def Clash (engine : Engine) (first second : Bytes × Value) : Prop :=
  Raises engine first ∧ IsRefreshKey (lower second.1)

/-- `refresh` is given, not as "auto", beside a `refresh_info`, and nothing else stands
against the creation. -/
structure Mixed (engine : Engine) (input : CreateSecretInput) : Prop where
  acceptable : Acceptable engine input
  refresh : ∃ value, input.find (bytes "refresh") = some value ∧
    engine.toText value ≠ bytes "auto"
  refreshInfo : (input.find (bytes "refresh_info")).isSome

/-- `refresh` is given beside another option, and can be accepted. -/
structure Recorded (engine : Engine) (input : CreateSecretInput) : Prop where
  acceptable : Acceptable engine input
  refresh : ∃ value, input.find (bytes "refresh") = some value ∧
    (engine.toText value = bytes "auto" → input.find (bytes "refresh_info") = none)
  others : 1 < input.options.length

variable {engine : Engine} {input reordered : CreateSecretInput} {secret : KeyValueSecret}
  {state state' : CreateState} {option : Bytes × Value} {key name : Bytes} {value : Value}
  {kind : OptionKind}

theorem unique_of_distinct (input : CreateSecretInput) {first second : Bytes × Value}
    (hfirst : first ∈ input.options) (hsecond : second ∈ input.options)
    (hsame : lower first.1 = lower second.1) : first = second :=
  List.inj_on_of_nodup_map input.distinct hfirst hsecond hsame

theorem find_eq_some : input.find name = some value ↔
    ∃ option ∈ input.options, lower option.1 = name ∧ option.2 = value := by
  unfold CreateSecretInput.find
  rw [Option.map_eq_some_iff]
  constructor
  · rintro ⟨option, hfind, hvalue⟩
    exact ⟨option, List.mem_of_find?_eq_some hfind, by simpa using List.find?_some hfind, hvalue⟩
  · rintro ⟨option, hmem, hname, hvalue⟩
    cases hfind : input.options.find? fun option => lower option.1 = name with
    | none =>
        rw [List.find?_eq_none] at hfind
        exact absurd hname (by simpa using hfind option hmem)
    | some found =>
        have hfound : lower found.1 = name := by simpa using List.find?_some hfind
        have hsame := unique_of_distinct input (List.mem_of_find?_eq_some hfind) hmem
          (hfound.trans hname.symm)
        exact ⟨found, rfl, hsame ▸ hvalue⟩

theorem find_isSome : (input.find name).isSome ↔
    ∃ option ∈ input.options, lower option.1 = name := by
  rw [Option.isSome_iff_exists]
  constructor
  · rintro ⟨value, hfind⟩
    obtain ⟨option, hmem, hname, -⟩ := find_eq_some.mp hfind
    exact ⟨option, hmem, hname⟩
  · rintro ⟨option, hmem, hname⟩
    exact ⟨option.2, find_eq_some.mpr ⟨option, hmem, hname, rfl⟩⟩

theorem find_reordered (hreordered : Reordered input reordered) :
    reordered.find name = input.find name := by
  apply Option.ext
  intro value
  rw [find_eq_some, find_eq_some]
  simp only [hreordered.options.mem_iff]

theorem accepted_refresh (hname : lower option.1 = bytes "refresh") :
    Accepted engine input.type option := by
  have hkind : optionKind input.type (lower option.1) = none := by
    rw [hname]
    rfl
  unfold Accepted
  rw [hkind]
  exact .inr (.inl hname)

theorem name_cases (type lowerName : Bytes) :
    (∃ kind, optionKind type lowerName = some kind) ∨
      optionKind type lowerName = none ∧
        (lowerName = bytes "account_id" ∨ lowerName = bytes "refresh" ∨
          lowerName = bytes "refresh_info" ∨
          lowerName ≠ bytes "account_id" ∧ ¬ IsRefreshKey lowerName) := by
  cases hkind : optionKind type lowerName with
  | some kind => exact .inl ⟨kind, rfl⟩
  | none =>
      refine .inr ⟨rfl, ?_⟩
      unfold IsRefreshKey
      tauto

theorem applyOption_kind (hkind : optionKind input.type (lower option.1) = some kind) :
    applyOption engine input state option =
      (storedAs engine (lower option.1) option.2 kind).map fun value =>
        if lower option.1 = bytes "bearer_token" then
          { state.store (lower option.1) value with
            secret := { (state.store (lower option.1) value).secret with
              redactKeys := state.secret.redactKeys ++ [bytes "bearer_token"] } }
        else state.store (lower option.1) value := by
  unfold applyOption
  simp only [hkind]
  rfl

theorem applyOption_accountId (hname : lower option.1 = bytes "account_id") :
    applyOption engine input state option = .ok state := by
  unfold applyOption
  rw [hname]
  rfl

/-- The state after a `refresh`. -/
def refreshed (engine : Engine) (input : CreateSecretInput) (state : CreateState)
    (option : Bytes × Value) : CreateState :=
  let state := { state with refresh := engine.toText option.2 = bytes "auto" }
  (state.store (bytes "refresh") (.varchar (bytes "auto"))).store (bytes "refresh_info")
    (.struct (input.options.map fun option => (lower option.1, option.2)))

theorem applyOption_refresh (hname : lower option.1 = bytes "refresh") :
    applyOption engine input state option =
      if state.refresh then .error refreshConflict
      else .ok (refreshed engine input state option) := by
  unfold applyOption
  rw [hname]
  rfl

theorem applyOption_refreshInfo (hname : lower option.1 = bytes "refresh_info") :
    applyOption engine input state option =
      if state.refresh then .error refreshConflict
      else (mapToStruct option.2).map fun value =>
        { state with refresh := true }.store (bytes "refresh_info") value := by
  unfold applyOption
  rw [hname]
  rfl

theorem applyOption_unknown (engine : Engine) (state : CreateState)
    (hkind : optionKind input.type (lower option.1) = none)
    (haccount : lower option.1 ≠ bytes "account_id") (hkey : ¬ IsRefreshKey (lower option.1)) :
    ∃ e, applyOption engine input state option = .error e := by
  have hrefresh : lower option.1 ≠ bytes "refresh" := fun heq => hkey (.inl heq)
  have hinfo : lower option.1 ≠ bytes "refresh_info" := fun heq => hkey (.inr heq)
  unfold applyOption
  simp only [hkind, if_neg haccount, if_neg hrefresh, if_neg hinfo]
  exact ⟨_, rfl⟩

/-- What the keys of a refresh hold after a round. -/
def refreshKeysAfter (engine : Engine) (input : CreateSecretInput) (state : CreateState)
    (option : Bytes × Value) (key : Bytes) : Option Value :=
  if lower option.1 = bytes "refresh" then
    (refreshed engine input state option).secret.secretMap key
  else if lower option.1 = bytes "refresh_info" ∧ key = bytes "refresh_info" then
    (mapToStruct option.2).toOption
  else state.secret.secretMap key

/-- A round that succeeds. -/
structure Round (engine : Engine) (input : CreateSecretInput) (state : CreateState)
    (option : Bytes × Value) (state' : CreateState) : Prop where
  accepted : Accepted engine input.type option
  lowered : ¬ (state.refresh = true ∧ IsRefreshKey (lower option.1))
  raised : state'.refresh = true ↔ state.refresh = true ∨ Raises engine option
  redactKeys : state'.secret.redactKeys = state.secret.redactKeys ++
    if lower option.1 = bytes "bearer_token" then [bytes "bearer_token"] else []
  frame : state'.secret = { state.secret with
    redactKeys := state'.secret.redactKeys, secretMap := state'.secret.secretMap }
  refreshKeys : ∀ key, IsRefreshKey key →
    state'.secret.secretMap key = refreshKeysAfter engine input state option key

theorem refreshKeysAfter_other (hname : ¬ IsRefreshKey (lower option.1)) :
    refreshKeysAfter engine input state option key = state.secret.secretMap key := by
  unfold refreshKeysAfter
  rw [if_neg fun heq => hname (.inl heq), if_neg fun hinfo => hname (.inr hinfo.1)]

theorem not_raises_of_other (hname : ¬ IsRefreshKey (lower option.1)) : ¬ Raises engine option :=
  fun hraises => hname (hraises.imp And.left id)

theorem round_of_kind (hkind : optionKind input.type (lower option.1) = some kind)
    (happly : applyOption engine input state option = .ok state') :
    Round engine input state option state' := by
  rw [applyOption_kind hkind] at happly
  obtain ⟨value, hstored, rfl⟩ := map_eq_ok.mp happly
  have hkey := not_isRefreshKey_of_optionKind hkind
  have hraises : ¬ Raises engine option := not_raises_of_other hkey
  constructor
  · unfold Accepted
    rw [hkind]
    exact ⟨value, hstored⟩
  · exact fun hraised => hkey hraised.2
  · simp only [hraises, or_false]
    split
    · rfl
    · rfl
  · split
    · simp
    · simp [CreateState.store]
  · split
    · rfl
    · rfl
  · intro key hrefresh
    have hother : key ≠ lower option.1 := fun heq => hkey (heq ▸ hrefresh)
    rw [refreshKeysAfter_other hkey]
    split
    · exact (secretMap_store state (lower option.1) value).trans (if_neg hother)
    · exact (secretMap_store state (lower option.1) value).trans (if_neg hother)

theorem round_of_accountId (hkind : optionKind input.type (lower option.1) = none)
    (haccount : lower option.1 = bytes "account_id")
    (happly : applyOption engine input state option = .ok state') :
    Round engine input state option state' := by
  rw [applyOption_accountId haccount] at happly
  cases happly
  have hkey : ¬ IsRefreshKey (lower option.1) := by
    rw [haccount]
    unfold IsRefreshKey
    decide
  have hbearer : lower option.1 ≠ bytes "bearer_token" := by
    rw [haccount]
    decide
  constructor
  · unfold Accepted
    rw [hkind]
    exact .inl haccount
  · exact fun hraised => hkey hraised.2
  · simp only [not_raises_of_other hkey, or_false]
  · rw [if_neg hbearer, List.append_nil]
  · rfl
  · exact fun key _ => (refreshKeysAfter_other hkey).symm

theorem round_of_refresh (hrefresh : lower option.1 = bytes "refresh")
    (happly : applyOption engine input state option = .ok state') :
    Round engine input state option state' := by
  rw [applyOption_refresh hrefresh] at happly
  split at happly
  · cases happly
  · rename_i hlowered
    cases happly
    have hinfo : lower option.1 ≠ bytes "refresh_info" := by
      rw [hrefresh]
      decide
    have hbearer : lower option.1 ≠ bytes "bearer_token" := by
      rw [hrefresh]
      decide
    constructor
    · exact accepted_refresh hrefresh
    · exact fun hraised => hlowered hraised.1
    · have hraises : Raises engine option ↔ engine.toText option.2 = bytes "auto" := by
        unfold Raises
        rw [or_iff_left hinfo, and_iff_right hrefresh]
      rw [hraises]
      simp [hlowered, refreshed, CreateState.store]
    · rw [if_neg hbearer, List.append_nil]
      rfl
    · rfl
    · intro key _
      unfold refreshKeysAfter
      rw [if_pos hrefresh]

theorem round_of_refreshInfo (hkind : optionKind input.type (lower option.1) = none)
    (hinfo : lower option.1 = bytes "refresh_info")
    (happly : applyOption engine input state option = .ok state') :
    Round engine input state option state' := by
  rw [applyOption_refreshInfo hinfo] at happly
  split at happly
  · cases happly
  · rename_i hlowered
    obtain ⟨value, hstruct, rfl⟩ := map_eq_ok.mp happly
    have hrefresh : lower option.1 ≠ bytes "refresh" := by
      rw [hinfo]
      decide
    have hbearer : lower option.1 ≠ bytes "bearer_token" := by
      rw [hinfo]
      decide
    constructor
    · unfold Accepted
      rw [hkind]
      exact .inr (.inr ⟨hinfo, value, hstruct⟩)
    · exact fun hraised => hlowered hraised.1
    · exact iff_of_true rfl (.inr (.inr hinfo))
    · rw [if_neg hbearer, List.append_nil]
      rfl
    · rfl
    · intro key _
      unfold refreshKeysAfter
      rw [if_neg hrefresh, secretMap_store, hstruct]
      simp only [hinfo, true_and]
      rfl

theorem round_of_applyOption (happly : applyOption engine input state option = .ok state') :
    Round engine input state option state' := by
  rcases name_cases input.type (lower option.1) with
    ⟨kind, hkind⟩ | ⟨hkind, haccount | hrefresh | hinfo | ⟨haccount, hkey⟩⟩
  · exact round_of_kind hkind happly
  · exact round_of_accountId hkind haccount happly
  · exact round_of_refresh hrefresh happly
  · exact round_of_refreshInfo hkind hinfo happly
  · obtain ⟨e, hthrows⟩ := applyOption_unknown engine state hkind haccount hkey
    rw [hthrows] at happly
    cases happly

theorem applyOption_ok (state : CreateState) (haccepted : Accepted engine input.type option)
    (hlowered : ¬ (state.refresh = true ∧ IsRefreshKey (lower option.1))) :
    ∃ state', applyOption engine input state option = .ok state' := by
  unfold Accepted at haccepted
  rcases name_cases input.type (lower option.1) with
    ⟨kind, hkind⟩ | ⟨hkind, haccount | hrefresh | hinfo | ⟨haccount, hkey⟩⟩
  · rw [hkind] at haccepted
    obtain ⟨value, hstored⟩ := haccepted
    rw [applyOption_kind hkind, hstored]
    exact ⟨_, rfl⟩
  · exact ⟨state, applyOption_accountId haccount⟩
  · rw [applyOption_refresh hrefresh, if_neg fun hraised => hlowered ⟨hraised, .inl hrefresh⟩]
    exact ⟨_, rfl⟩
  · rw [applyOption_refreshInfo hinfo, if_neg fun hraised => hlowered ⟨hraised, .inr hinfo⟩]
    rw [hkind] at haccepted
    rcases haccepted with haccount | hrefresh | ⟨-, value, hstruct⟩
    · rw [hinfo] at haccount
      exact absurd haccount (by decide)
    · rw [hinfo] at hrefresh
      exact absurd hrefresh (by decide)
    · rw [hstruct]
      exact ⟨_, rfl⟩
  · rw [hkind] at haccepted
    rcases haccepted with haccount' | hrefresh | ⟨hinfo, -⟩
    · exact absurd haccount' haccount
    · exact absurd (.inl hrefresh) hkey
    · exact absurd (.inr hinfo) hkey

variable {options : List (Bytes × Value)}

theorem fold_ok (engine : Engine) (input : CreateSecretInput) (options : List (Bytes × Value))
    (state : CreateState) :
    (∃ state', options.foldlM (applyOption engine input) state = .ok state') ↔
      (∀ option ∈ options, Accepted engine input.type option) ∧
        (state.refresh = true → ∀ option ∈ options, ¬ IsRefreshKey (lower option.1)) ∧
        options.Pairwise fun first second => ¬ Clash engine first second := by
  induction options generalizing state with
  | nil => exact iff_of_true ⟨state, rfl⟩ ⟨nofun, fun _ => nofun, .nil⟩
  | cons option options ih =>
      rw [List.foldlM_cons, List.forall_mem_cons, List.forall_mem_cons, List.pairwise_cons]
      constructor
      · rintro ⟨state', hfold⟩
        obtain ⟨next, happly, hrest⟩ := bind_eq_ok.mp hfold
        have hround := round_of_applyOption happly
        obtain ⟨haccepted, hlowered, hpairs⟩ := (ih next).mp ⟨state', hrest⟩
        refine ⟨⟨hround.accepted, haccepted⟩, fun hraised => ?_,
          fun later hlater hclash => ?_, hpairs⟩
        · exact ⟨fun hkey => hround.lowered ⟨hraised, hkey⟩,
            hlowered (hround.raised.mpr (.inl hraised))⟩
        · exact hlowered (hround.raised.mpr (.inr hclash.1)) later hlater hclash.2
      · rintro ⟨⟨haccepted, hrest⟩, hlowered, hfirst, hpairs⟩
        obtain ⟨next, happly⟩ := applyOption_ok state haccepted
          fun hraised => (hlowered hraised.1).1 hraised.2
        have hround := round_of_applyOption happly
        have hnext : next.refresh = true → ∀ later ∈ options, ¬ IsRefreshKey (lower later.1) := by
          intro hraised
          rcases hround.raised.mp hraised with hbefore | hraises
          · exact (hlowered hbefore).2
          · exact fun later hlater hkey => hfirst later hlater ⟨hraises, hkey⟩
        obtain ⟨state', hfold⟩ := (ih next).mpr ⟨hrest, hnext, hpairs⟩
        exact ⟨state', bind_eq_ok.mpr ⟨next, happly, hfold⟩⟩

theorem fold_frame (hfold : options.foldlM (applyOption engine input) state = .ok state') :
    state'.secret = { state.secret with
      redactKeys := state'.secret.redactKeys, secretMap := state'.secret.secretMap } := by
  induction options generalizing state with
  | nil =>
      cases hfold
      rfl
  | cons option options ih =>
      rw [List.foldlM_cons] at hfold
      obtain ⟨next, happly, hrest⟩ := bind_eq_ok.mp hfold
      rw [ih hrest, (round_of_applyOption happly).frame]

theorem fold_redactKeys (hdistinct : (options.map fun option => lower option.1).Nodup)
    (hfold : options.foldlM (applyOption engine input) state = .ok state') :
    state'.secret.redactKeys = state.secret.redactKeys ++
      if bytes "bearer_token" ∈ options.map fun option => lower option.1 then
        [bytes "bearer_token"] else [] := by
  induction options generalizing state with
  | nil =>
      cases hfold
      exact (List.append_nil _).symm
  | cons option options ih =>
      rw [List.foldlM_cons] at hfold
      obtain ⟨next, happly, hrest⟩ := bind_eq_ok.mp hfold
      rw [List.map_cons, List.nodup_cons] at hdistinct
      rw [ih hdistinct.2 hrest, (round_of_applyOption happly).redactKeys, List.append_assoc,
        List.map_cons]
      by_cases hbearer : lower option.1 = bytes "bearer_token"
      · rw [if_pos hbearer, if_neg (hbearer ▸ hdistinct.1), if_pos (by simp [hbearer])]
        rfl
      · rw [if_neg hbearer, List.nil_append]
        simp only [List.mem_cons, Ne.symm hbearer, false_or]

/-- What a list of options has under a name. -/
def lookup (options : List (Bytes × Value)) (name : Bytes) : Option Value :=
  (options.find? fun option => lower option.1 = name).map Prod.snd

theorem lookup_cons_self (hname : lower option.1 = name) :
    lookup (option :: options) name = some option.2 := by
  unfold lookup
  rw [List.find?_cons_of_pos (by simpa using hname)]
  rfl

theorem lookup_cons_other (hname : lower option.1 ≠ name) :
    lookup (option :: options) name = lookup options name := by
  unfold lookup
  rw [List.find?_cons_of_neg (by simpa using hname)]

theorem fold_refreshKeys_other (hkey : IsRefreshKey key)
    (hother : ∀ option ∈ options, ¬ IsRefreshKey (lower option.1))
    (hfold : options.foldlM (applyOption engine input) state = .ok state') :
    state'.secret.secretMap key = state.secret.secretMap key := by
  induction options generalizing state with
  | nil =>
      cases hfold
      rfl
  | cons option options ih =>
      rw [List.forall_mem_cons] at hother
      rw [List.foldlM_cons] at hfold
      obtain ⟨next, happly, hrest⟩ := bind_eq_ok.mp hfold
      rw [ih hother.2 hrest, (round_of_applyOption happly).refreshKeys key hkey,
        refreshKeysAfter_other hother.1]

theorem fold_refresh (hfold : options.foldlM (applyOption engine input) state = .ok state') :
    state'.secret.secretMap (bytes "refresh") =
      if (lookup options (bytes "refresh")).isSome then some (.varchar (bytes "auto"))
      else state.secret.secretMap (bytes "refresh") := by
  induction options generalizing state with
  | nil =>
      cases hfold
      rfl
  | cons option options ih =>
      rw [List.foldlM_cons] at hfold
      obtain ⟨next, happly, hrest⟩ := bind_eq_ok.mp hfold
      rw [ih hrest, (round_of_applyOption happly).refreshKeys _ (.inl rfl)]
      unfold refreshKeysAfter
      by_cases hname : lower option.1 = bytes "refresh"
      · rw [lookup_cons_self hname, if_pos hname]
        have hstored : (refreshed engine input state option).secret.secretMap (bytes "refresh") =
            some (.varchar (bytes "auto")) := rfl
        rw [hstored, ite_self]
        rfl
      · have hother : ¬ (lower option.1 = bytes "refresh_info" ∧
            bytes "refresh" = bytes "refresh_info") := fun heq => absurd heq.2 (by decide)
        rw [lookup_cons_other hname, if_neg hname, if_neg hother]

theorem fold_refreshInfo (hfold : options.foldlM (applyOption engine input) state = .ok state') :
    state'.secret.secretMap (bytes "refresh_info") =
      match lookup options (bytes "refresh_info") with
      | some value => (mapToStruct value).toOption
      | none =>
          if (lookup options (bytes "refresh")).isSome then
            some (.struct (input.options.map fun option => (lower option.1, option.2)))
          else state.secret.secretMap (bytes "refresh_info") := by
  induction options generalizing state with
  | nil =>
      cases hfold
      rfl
  | cons option options ih =>
      rw [List.foldlM_cons] at hfold
      obtain ⟨next, happly, hrest⟩ := bind_eq_ok.mp hfold
      have hround := round_of_applyOption happly
      have hnext := hround.refreshKeys _ (.inr rfl)
      unfold refreshKeysAfter at hnext
      by_cases hrefresh : lower option.1 = bytes "refresh"
      · have hinfo : lower option.1 ≠ bytes "refresh_info" := by
          rw [hrefresh]
          decide
        have hstored : (refreshed engine input state option).secret.secretMap
            (bytes "refresh_info") =
            some (.struct (input.options.map fun option => (lower option.1, option.2))) := rfl
        rw [if_pos hrefresh, hstored] at hnext
        rw [ih hrest, lookup_cons_other hinfo, lookup_cons_self hrefresh, hnext]
        simp only [ite_self, Option.isSome_some, if_true]
      · rw [if_neg hrefresh] at hnext
        by_cases hinfo : lower option.1 = bytes "refresh_info"
        · rw [if_pos ⟨hinfo, rfl⟩] at hnext
          have hlowered := ((fold_ok engine input options next).mp ⟨state', hrest⟩).2.1
            (hround.raised.mpr (.inr (.inr hinfo)))
          rw [fold_refreshKeys_other (.inr rfl) hlowered hrest, lookup_cons_self hinfo, hnext]
        · rw [if_neg fun heq => hinfo heq.1] at hnext
          rw [ih hrest, lookup_cons_other hinfo, lookup_cons_other hrefresh, hnext]

/-- What a secret holds under a key that is not one of a refresh. -/
def storedOf (engine : Engine) (input : CreateSecretInput) (key : Bytes) : Option Value :=
  match optionKind input.type key, input.find key with
  | some kind, some value => (storedAs engine key value kind).toOption
  | _, _ => accountSettings engine input (fun _ => none) key

/-- What `refresh` and `refresh_info` come to together. -/
def refreshInfoOf (input : CreateSecretInput) : Option Value :=
  match input.find (bytes "refresh_info") with
  | some value => (mapToStruct value).toOption
  | none => (input.find (bytes "refresh")).map fun _ =>
      .struct (input.options.map fun option => (lower option.1, option.2))

/-- The whole secret, by what the input has under the names. -/
structure Created (engine : Engine) (input : CreateSecretInput) (secret : KeyValueSecret) :
    Prop where
  type : secret.type = input.type
  provider : secret.provider = input.provider
  name : secret.name = input.name
  scope : scopeOf input = .ok secret.scope
  redactKeys : secret.redactKeys = [bytes "secret", bytes "session_token"] ++
    if bytes "bearer_token" ∈ input.options.map fun option => lower option.1 then
      [bytes "bearer_token"] else []
  stored : ∀ key, ¬ IsRefreshKey key → secret.secretMap key = storedOf engine input key
  refresh : secret.secretMap (bytes "refresh") =
    (input.find (bytes "refresh")).map fun _ => .varchar (bytes "auto")
  refreshInfo : secret.secretMap (bytes "refresh_info") = refreshInfoOf input

theorem accountSettings_refreshKey (hkey : IsRefreshKey key) :
    accountSettings engine input (fun _ => none) key = none := by
  unfold accountSettings
  cases input.find (bytes "account_id") with
  | none => rfl
  | some accountId =>
      simp only
      split
      · rcases hkey with rfl | rfl
        · rfl
        · rfl
      · rfl

/-- The start of the loop. -/
def startState (engine : Engine) (input : CreateSecretInput) (scope : List Bytes) :
    CreateState where
  secret :=
    { scope
      type := input.type
      provider := input.provider
      name := input.name
      redactKeys := [bytes "secret", bytes "session_token"]
      secretMap := accountSettings engine input fun _ => none }

theorem create_eq_ok : createSecretFunctionInternal engine input = .ok secret ↔
    ∃ scope final, scopeOf input = .ok scope ∧
      input.options.foldlM (applyOption engine input) (startState engine input scope) =
        .ok final ∧ final.secret = secret := by
  unfold createSecretFunctionInternal
  simp only [bind_eq_ok]
  constructor
  · rintro ⟨scope, hscope, final, hfold, hsecret⟩
    exact ⟨scope, final, hscope, hfold, Except.ok.inj hsecret⟩
  · rintro ⟨scope, final, hscope, hfold, rfl⟩
    exact ⟨scope, hscope, final, hfold, rfl⟩

theorem creates_iff (engine : Engine) (input : CreateSecretInput) :
    (∃ secret, createSecretFunctionInternal engine input = .ok secret) ↔
      Acceptable engine input ∧
        input.options.Pairwise fun first second => ¬ Clash engine first second := by
  simp only [create_eq_ok]
  constructor
  · rintro ⟨secret, scope, final, hscope, hfold, -⟩
    obtain ⟨haccepted, -, hpairs⟩ := (fold_ok engine input _ _).mp ⟨final, hfold⟩
    exact ⟨⟨⟨scope, hscope⟩, haccepted⟩, hpairs⟩
  · rintro ⟨⟨⟨scope, hscope⟩, haccepted⟩, hpairs⟩
    obtain ⟨final, hfold⟩ := (fold_ok engine input _ (startState engine input scope)).mpr
      ⟨haccepted, nofun, hpairs⟩
    exact ⟨final.secret, scope, final, hscope, hfold, rfl⟩

theorem created_of_ok (hcreated : createSecretFunctionInternal engine input = .ok secret) :
    Created engine input secret := by
  obtain ⟨scope, final, hscope, hfold, rfl⟩ := create_eq_ok.mp hcreated
  have hframe := fold_frame hfold
  constructor
  · rw [hframe]
    rfl
  · rw [hframe]
    rfl
  · rw [hframe]
    rfl
  · rw [hframe]
    exact hscope
  · exact fold_redactKeys input.distinct hfold
  · intro key hkey
    unfold storedOf
    cases hkind : optionKind input.type key with
    | none => exact secretMap_of_unwritten hkey (fun option _ => .inr hkind) hfold
    | some kind =>
        cases hfind : input.find key with
        | none =>
            refine secretMap_of_unwritten hkey (fun option hoption => .inl fun hname => ?_) hfold
            have hfound := find_isSome.mpr ⟨option, hoption, hname⟩
            rw [hfind] at hfound
            cases hfound
        | some value =>
            obtain ⟨stored, hstored, hmap⟩ := secretMap_of_fold input.distinct hkind hfind hfold
            simp only [hmap, hstored]
            rfl
  · rw [fold_refresh hfold]
    change (if (input.find (bytes "refresh")).isSome then _ else
      accountSettings engine input (fun _ => none) (bytes "refresh")) = _
    rw [accountSettings_refreshKey (.inl rfl)]
    cases input.find (bytes "refresh") with
    | _ => rfl
  · rw [fold_refreshInfo hfold]
    change (match input.find (bytes "refresh_info") with
      | some value => (mapToStruct value).toOption
      | none => if (input.find (bytes "refresh")).isSome then _ else
          accountSettings engine input (fun _ => none) (bytes "refresh_info")) = _
    rw [accountSettings_refreshKey (.inr rfl)]
    unfold refreshInfoOf
    cases input.find (bytes "refresh_info") with
    | some value => rfl
    | none =>
        cases input.find (bytes "refresh") with
        | _ => rfl

theorem Reordered.symm (hreordered : Reordered input reordered) : Reordered reordered input :=
  ⟨hreordered.type.symm, hreordered.provider.symm, hreordered.name.symm, hreordered.scope.symm,
    hreordered.options.symm⟩

theorem Reordered.trans {last : CreateSecretInput} (hfirst : Reordered input reordered)
    (hsecond : Reordered reordered last) : Reordered input last :=
  ⟨hsecond.type.trans hfirst.type, hsecond.provider.trans hfirst.provider,
    hsecond.name.trans hfirst.name, hsecond.scope.trans hfirst.scope,
    hsecond.options.trans hfirst.options⟩

theorem reordered_of_perm {options : List (Bytes × Value)} (hperm : options.Perm input.options) :
    ∃ reordered, Reordered input reordered ∧ reordered.options = options :=
  ⟨{ input with options, distinct := (hperm.map _).nodup_iff.mpr input.distinct },
    ⟨rfl, rfl, rfl, rfl, hperm⟩, rfl⟩

theorem scopeOf_reordered (hreordered : Reordered input reordered) :
    scopeOf reordered = scopeOf input := by
  unfold scopeOf
  rw [hreordered.scope, hreordered.type]

theorem acceptable_reordered (hreordered : Reordered input reordered) :
    Acceptable engine reordered ↔ Acceptable engine input := by
  constructor
  · rintro ⟨hscope, hoptions⟩
    rw [scopeOf_reordered hreordered] at hscope
    rw [hreordered.type] at hoptions
    exact ⟨hscope, fun option hoption => hoptions option (hreordered.options.mem_iff.mpr hoption)⟩
  · rintro ⟨hscope, hoptions⟩
    rw [← scopeOf_reordered hreordered] at hscope
    rw [← hreordered.type] at hoptions
    exact ⟨hscope, fun option hoption => hoptions option (hreordered.options.mem_iff.mp hoption)⟩

theorem Reordered.sameOptions (hreordered : Reordered input reordered) :
    SameOptions input reordered where
  type := hreordered.type
  provider := hreordered.provider
  name := hreordered.name
  scope := scopeOf_reordered hreordered
  find := fun _ => find_reordered hreordered

variable {other : CreateSecretInput}

theorem storedOf_same (hother : SameOptions input other) :
    storedOf engine other key = storedOf engine input key := by
  unfold storedOf accountSettings
  rw [hother.type, hother.find, hother.find]

theorem rel_of_eq {same : Value → Value → Prop} (hsame : ∀ value, same value value)
    {value value' : Option Value} (heq : value = value') : Option.Rel same value value' := by
  subst heq
  cases value with
  | none => exact .none
  | some value => exact .some (hsame value)

theorem eq_of_rel {value value' : Option Value} (hrel : Option.Rel Eq value value') :
    value = value' := by
  cases hrel with
  | none => rfl
  | some hsame => exact congrArg some hsame

theorem sameFields_refl (value : Value) : SameFields value value := by
  cases value with
  | _ => first | exact List.Perm.refl _ | rfl

theorem redactKeys_same (hother : SameOptions input other) :
    bytes "bearer_token" ∈ other.options.map (fun option => lower option.1) ↔
      bytes "bearer_token" ∈ input.options.map fun option => lower option.1 := by
  have hfound := @find_isSome input (bytes "bearer_token")
  have hfound' := @find_isSome other (bytes "bearer_token")
  rw [hother.find] at hfound'
  rw [List.mem_map, List.mem_map]
  exact hfound'.symm.trans hfound

theorem sameSecret_of_created {same : Value → Value → Prop} (hsame : ∀ value, same value value)
    {secret' : KeyValueSecret} (hother : SameOptions input other)
    (hcreated : Created engine input secret) (hcreated' : Created engine other secret')
    (hinfo : Option.Rel same (refreshInfoOf input) (refreshInfoOf other)) :
    SameSecret same secret secret' where
  type := hcreated.type.trans (hother.type.symm.trans hcreated'.type.symm)
  provider := hcreated.provider.trans (hother.provider.symm.trans hcreated'.provider.symm)
  name := hcreated.name.trans (hother.name.symm.trans hcreated'.name.symm)
  scope := by
    have hscope := hcreated'.scope
    rw [hother.scope, hcreated.scope] at hscope
    exact Except.ok.inj hscope
  redactKeys := by
    rw [hcreated.redactKeys, hcreated'.redactKeys]
    simp only [redactKeys_same hother]
  secretMap := by
    intro key
    by_cases hkey : IsRefreshKey key
    · rcases hkey with rfl | rfl
      · rw [hcreated.refresh, hcreated'.refresh, hother.find]
        exact rel_of_eq hsame rfl
      · rw [hcreated.refreshInfo, hcreated'.refreshInfo]
        exact hinfo
    · rw [hcreated.stored key hkey, hcreated'.stored key hkey, storedOf_same hother]
      exact rel_of_eq hsame rfl

theorem refreshInfoOf_reordered (hreordered : Reordered input reordered) :
    Option.Rel SameFields (refreshInfoOf input) (refreshInfoOf reordered) := by
  unfold refreshInfoOf
  rw [find_reordered hreordered, find_reordered hreordered]
  cases input.find (bytes "refresh_info") with
  | some value => exact rel_of_eq sameFields_refl rfl
  | none =>
      cases input.find (bytes "refresh") with
      | none => exact .none
      | some value => exact .some (hreordered.options.symm.map _)

/-- Of the two options, a given `refresh` raises the flag as well. -/
def Unmixed (engine : Engine) (input : CreateSecretInput) : Prop :=
  ∀ value, input.find (bytes "refresh") = some value →
    (input.find (bytes "refresh_info")).isSome → engine.toText value = bytes "auto"

theorem unmixed_of_not_mixed (hacceptable : Acceptable engine input)
    (hmixed : ¬ Mixed engine input) : Unmixed engine input := by
  intro value hfind hinfo
  by_contra hauto
  exact hmixed ⟨hacceptable, ⟨value, hfind, hauto⟩, hinfo⟩

theorem unmixed_reordered (hreordered : Reordered input reordered)
    (hunmixed : Unmixed engine input) : Unmixed engine reordered := by
  unfold Unmixed
  rw [find_reordered hreordered, find_reordered hreordered]
  exact hunmixed

theorem raises_of_refreshKey (hunmixed : Unmixed engine input) {first second : Bytes × Value}
    (hfirst : first ∈ input.options) (hsecond : second ∈ input.options)
    (hkey : IsRefreshKey (lower first.1)) (hinfo : lower second.1 = bytes "refresh_info") :
    Raises engine first := by
  rcases hkey with hrefresh | hrefreshInfo
  · have hgiven := find_isSome.mpr ⟨second, hsecond, hinfo⟩
    exact .inl ⟨hrefresh,
      hunmixed first.2 (find_eq_some.mpr ⟨first, hfirst, hrefresh, rfl⟩) hgiven⟩
  · exact .inr hrefreshInfo

/-- If `refresh` raises the flag whenever `refresh_info` is there, a clash does not depend on
which of them is first. -/
theorem clash_symm (hunmixed : Unmixed engine input) {first second : Bytes × Value}
    (hfirst : first ∈ input.options) (hsecond : second ∈ input.options)
    (hclash : Clash engine first second) : Clash engine second first := by
  obtain ⟨hraises, hkey⟩ := hclash
  rcases hraises with ⟨hrefresh, hauto⟩ | hinfo
  · rcases hkey with hrefresh' | hinfo'
    · have heq := unique_of_distinct input hfirst hsecond (hrefresh.trans hrefresh'.symm)
      subst heq
      exact ⟨.inl ⟨hrefresh, hauto⟩, .inl hrefresh⟩
    · exact ⟨.inr hinfo', .inl hrefresh⟩
  · exact ⟨raises_of_refreshKey hunmixed hsecond hfirst hkey hinfo, .inr hinfo⟩

theorem noClash_reordered (hreordered : Reordered input reordered)
    (hunmixed : Unmixed engine input)
    (hpairs : input.options.Pairwise fun first second => ¬ Clash engine first second) :
    reordered.options.Pairwise fun first second => ¬ Clash engine first second := by
  have hamong : input.options.Pairwise fun first second =>
      first ∈ input.options → second ∈ input.options → ¬ Clash engine first second :=
    hpairs.imp fun hclash _ _ => hclash
  have hreorderedPairs :=
    (List.Perm.pairwise_iff (fun {first second} hclash hsecond hfirst hswapped =>
    hclash hfirst hsecond (clash_symm hunmixed hsecond hfirst hswapped)) hreordered.options).mpr
      hamong
  exact hreorderedPairs.imp_of_mem fun hfirst hsecond hclash =>
    hclash (hreordered.options.mem_iff.mp hfirst) (hreordered.options.mem_iff.mp hsecond)

theorem creates_reordered (hunmixed : Acceptable engine input → Unmixed engine input)
    (hreordered : Reordered input reordered)
    (hcreates : ∃ secret, createSecretFunctionInternal engine input = .ok secret) :
    ∃ secret, createSecretFunctionInternal engine reordered = .ok secret := by
  obtain ⟨hacceptable, hpairs⟩ := (creates_iff engine input).mp hcreates
  exact (creates_iff engine reordered).mpr ⟨(acceptable_reordered hreordered).mpr hacceptable,
    noClash_reordered hreordered (hunmixed hacceptable) hpairs⟩

theorem rejected_of_both (hunmixed : Unmixed engine input)
    (hrefresh : (input.find (bytes "refresh")).isSome)
    (hinfo : (input.find (bytes "refresh_info")).isSome) :
    (createSecretFunctionInternal engine input).toOption = none := by
  obtain ⟨first, hfirst, hfirstName⟩ := find_isSome.mp hrefresh
  obtain ⟨second, hsecond, hsecondName⟩ := find_isSome.mp hinfo
  have hclash : Clash engine first second :=
    ⟨raises_of_refreshKey hunmixed hfirst hsecond (.inl hfirstName) hsecondName, .inr hsecondName⟩
  have hne : first ≠ second := by
    rintro rfl
    rw [hfirstName] at hsecondName
    exact absurd hsecondName (by decide)
  cases hcreate : createSecretFunctionInternal engine input with
  | error e => rfl
  | ok secret =>
      have hpairs := ((creates_iff engine input).mp ⟨secret, hcreate⟩).2
      have heither : input.options.Pairwise fun first second =>
          ¬ (Clash engine first second ∧ Clash engine second first) :=
        hpairs.imp fun hnone hboth => hnone hboth.1
      have hsymm : Std.Symm fun first second =>
          ¬ (Clash engine first second ∧ Clash engine second first) :=
        ⟨fun _ _ hnone hboth => hnone hboth.symm⟩
      have hnot := heither.forall hfirst hsecond hne
      exact absurd ⟨hclash, clash_symm hunmixed hfirst hsecond hclash⟩ hnot

theorem orderIndependent_of_info {same : Value → Value → Prop}
    (hsame : ∀ value, same value value)
    (hunmixed : Acceptable engine input → Unmixed engine input)
    (hinfo : ∀ first second, Acceptable engine input → Reordered input first →
      Reordered input second → Option.Rel same (refreshInfoOf first) (refreshInfoOf second)) :
    OrderIndependent same engine input := by
  constructor
  · intro first second hfirst hsecond
    have hswapped := hfirst.symm.trans hsecond
    have hunmixedFirst : Acceptable engine first → Unmixed engine first := fun hacceptable =>
      unmixed_reordered hfirst (hunmixed ((acceptable_reordered hfirst).mp hacceptable))
    have hunmixedSecond : Acceptable engine second → Unmixed engine second := fun hacceptable =>
      unmixed_reordered hsecond (hunmixed ((acceptable_reordered hsecond).mp hacceptable))
    unfold SameOutcome
    cases hcreate : createSecretFunctionInternal engine first with
    | ok secret =>
        obtain ⟨secret', hcreate'⟩ := creates_reordered hunmixedFirst hswapped ⟨secret, hcreate⟩
        have hacceptable := ((creates_iff engine first).mp ⟨secret, hcreate⟩).1
        rw [hcreate']
        exact .some (sameSecret_of_created hsame hswapped.sameOptions (created_of_ok hcreate)
          (created_of_ok hcreate')
          (hinfo first second ((acceptable_reordered hfirst).mp hacceptable) hfirst hsecond))
    | error e =>
        cases hcreate' : createSecretFunctionInternal engine second with
        | error e' => exact .none
        | ok secret' =>
            obtain ⟨secret, hcreates⟩ :=
              creates_reordered hunmixedSecond hswapped.symm ⟨secret', hcreate'⟩
            rw [hcreate] at hcreates
            cases hcreates
  · intro reordered hreordered hrefresh hinfo'
    cases hcreate : createSecretFunctionInternal engine reordered with
    | error e => rfl
    | ok secret =>
        have hacceptable := (acceptable_reordered hreordered).mp
          ((creates_iff engine reordered).mp ⟨secret, hcreate⟩).1
        rw [← hcreate]
        refine rejected_of_both (unmixed_reordered hreordered (hunmixed hacceptable)) ?_ ?_
        · rwa [find_reordered hreordered]
        · rwa [find_reordered hreordered]

theorem creates_of_mixed (hmixed : Mixed engine input) :
    ∃ reordered, Reordered input reordered ∧
      ∃ secret, createSecretFunctionInternal engine reordered = .ok secret := by
  obtain ⟨value, hfind, hauto⟩ := hmixed.refresh
  obtain ⟨first, hfirst, hfirstName, rfl⟩ := find_eq_some.mp hfind
  obtain ⟨second, hsecond, hsecondName⟩ := find_isSome.mp hmixed.refreshInfo
  have hfirstInfo : lower first.1 ≠ bytes "refresh_info" := by
    rw [hfirstName]
    decide
  obtain ⟨before, after, hsplit⟩ := List.append_of_mem hfirst
  have hperm : input.options.Perm (first :: (before ++ after)) := hsplit ▸ List.perm_middle
  have hrest : second ∈ before ++ after := by
    refine (List.mem_cons.mp (hperm.mem_iff.mp hsecond)).resolve_left ?_
    rintro rfl
    exact hfirstInfo hsecondName
  obtain ⟨before', after', hsplit'⟩ := List.append_of_mem hrest
  have hperm' : (first :: second :: (before' ++ after')).Perm input.options := by
    rw [hsplit'] at hperm
    exact (hperm.trans (List.perm_middle.cons first)).symm
  obtain ⟨reordered, hreordered, hoptions⟩ := reordered_of_perm hperm'
  refine ⟨reordered, hreordered, (creates_iff engine reordered).mpr
    ⟨(acceptable_reordered hreordered).mpr hmixed.acceptable, ?_⟩⟩
  have hdistinct := reordered.distinct
  rw [hoptions] at hdistinct ⊢
  rw [List.map_cons, List.map_cons, List.nodup_cons, List.nodup_cons] at hdistinct
  have hother : ∀ option ∈ before' ++ after', ¬ IsRefreshKey (lower option.1) := by
    rintro option hoption (hname | hname)
    · refine hdistinct.1 (List.mem_cons_of_mem _ ?_)
      rw [hfirstName, ← hname]
      exact List.mem_map_of_mem hoption
    · refine hdistinct.2.1 ?_
      rw [hsecondName, ← hname]
      exact List.mem_map_of_mem hoption
  refine .cons (fun _ _ hclash => ?_) (.cons (fun option hoption hclash => ?_) ?_)
  · exact hclash.1.elim (fun hraises => hauto hraises.2) hfirstInfo
  · exact hother option hoption hclash.2
  · exact List.pairwise_of_forall_mem_list fun option _ later hlater hclash =>
      hother later hlater hclash.2

theorem not_orderIndependent_of_mixed {same : Value → Value → Prop}
    (hmixed : Mixed engine input) : ¬ OrderIndependent same engine input := by
  intro hindependent
  obtain ⟨reordered, hreordered, secret, hcreate⟩ := creates_of_mixed hmixed
  obtain ⟨value, hfind, -⟩ := hmixed.refresh
  have hrejected := hindependent.exclusive reordered hreordered (by rw [hfind]; rfl)
    hmixed.refreshInfo
  rw [hcreate] at hrejected
  cases hrejected

theorem creates_of_noInfo (hacceptable : Acceptable engine input)
    (hinfo : input.find (bytes "refresh_info") = none) :
    ∃ secret, createSecretFunctionInternal engine input = .ok secret := by
  have hname : ∀ option ∈ input.options, IsRefreshKey (lower option.1) →
      lower option.1 = bytes "refresh" := by
    intro option hoption hkey
    refine hkey.resolve_right fun hrefreshInfo => ?_
    have hgiven := find_isSome.mpr ⟨option, hoption, hrefreshInfo⟩
    rw [hinfo] at hgiven
    cases hgiven
  have hne : input.options.Pairwise (· ≠ ·) := List.Nodup.of_map _ input.distinct
  refine (creates_iff engine input).mpr ⟨hacceptable, hne.imp_of_mem ?_⟩
  intro first second hfirst hsecond hne hclash
  have hfirstName := hname first hfirst (hclash.1.imp And.left id)
  exact hne (unique_of_distinct input hfirst hsecond
    (hfirstName.trans (hname second hsecond hclash.2).symm))

theorem swapped_info_ne (hfind : input.find (bytes "refresh") = some value)
    (hinfo : input.find (bytes "refresh_info") = none) (hothers : 1 < input.options.length) :
    ∃ swapped, Reordered input swapped ∧ refreshInfoOf swapped ≠ refreshInfoOf input := by
  obtain ⟨first, second, rest, hoptions⟩ : ∃ first second rest,
      input.options = first :: second :: rest := by
    cases hoptions : input.options with
    | nil =>
        rw [hoptions] at hothers
        cases hothers
    | cons first tail =>
        cases tail with
        | nil =>
            rw [hoptions] at hothers
            exact absurd hothers (Nat.lt_irrefl 1)
        | cons second rest => exact ⟨first, second, rest, rfl⟩
  have hperm : (second :: first :: rest).Perm input.options := by
    rw [hoptions]
    exact List.Perm.swap first second rest
  obtain ⟨swapped, hswapped, hswappedOptions⟩ := reordered_of_perm hperm
  refine ⟨swapped, hswapped, fun hsame => ?_⟩
  unfold refreshInfoOf at hsame
  rw [find_reordered hswapped, find_reordered hswapped, hinfo, hfind, hoptions,
    hswappedOptions] at hsame
  simp only [Option.map_some, Option.some.injEq, Value.struct.injEq, List.map_cons,
    List.cons.injEq, Prod.mk.injEq] at hsame
  have hdistinct := input.distinct
  rw [hoptions, List.map_cons, List.nodup_cons] at hdistinct
  exact hdistinct.1 (hsame.1.1 ▸ List.mem_cons_self)

theorem not_orderIndependent_of_recorded (hrecorded : Recorded engine input) :
    ¬ OrderIndependent Eq engine input := by
  obtain ⟨value, hfind, hauto⟩ := hrecorded.refresh
  cases hinfo : input.find (bytes "refresh_info") with
  | some info =>
      refine not_orderIndependent_of_mixed ⟨hrecorded.acceptable,
        ⟨value, hfind, fun heq => ?_⟩, ?_⟩
      · rw [hauto heq] at hinfo
        cases hinfo
      · rw [hinfo]
        rfl
  | none =>
      intro hindependent
      obtain ⟨swapped, hswapped, hne⟩ := swapped_info_ne hfind hinfo hrecorded.others
      have hsame : Reordered input input := ⟨rfl, rfl, rfl, rfl, .refl _⟩
      obtain ⟨secret, hcreate⟩ := creates_of_noInfo hrecorded.acceptable hinfo
      obtain ⟨secret', hcreate'⟩ := creates_of_noInfo
        ((acceptable_reordered hswapped).mpr hrecorded.acceptable)
        ((find_reordered hswapped).trans hinfo)
      have hresult := hindependent.outcome input swapped hsame hswapped
      rw [hcreate, hcreate'] at hresult
      cases hresult with
      | some hequal =>
          have hfields := hequal.secretMap (bytes "refresh_info")
          rw [(created_of_ok hcreate).refreshInfo,
            (created_of_ok hcreate').refreshInfo] at hfields
          exact hne (eq_of_rel hfields).symm

theorem eq_of_perm_of_short {fields fields' : List (Bytes × Value)} (hperm : fields.Perm fields')
    (hshort : fields'.length ≤ 1) : fields = fields' := by
  cases fields' with
  | nil => exact hperm.eq_nil
  | cons field rest =>
      have hrest : rest = [] :=
        List.eq_nil_of_length_eq_zero (Nat.le_zero.mp (Nat.le_of_succ_le_succ hshort))
      rw [hrest] at hperm ⊢
      exact List.perm_singleton.mp hperm

theorem info_eq_of_not_recorded (hrecorded : ¬ Recorded engine input)
    (hacceptable : Acceptable engine input) (hreordered : Reordered input reordered) :
    refreshInfoOf reordered = refreshInfoOf input := by
  unfold refreshInfoOf
  rw [find_reordered hreordered, find_reordered hreordered]
  cases hinfo : input.find (bytes "refresh_info") with
  | some value => rfl
  | none =>
      cases hfind : input.find (bytes "refresh") with
      | none => rfl
      | some value =>
          have hshort : input.options.length ≤ 1 := by
            by_contra hothers
            exact hrecorded ⟨hacceptable, ⟨value, hfind, fun _ => hinfo⟩, Nat.not_le.mp hothers⟩
          have hsame := eq_of_perm_of_short hreordered.options hshort
          rw [hsame]

theorem recorded_of_mixed (hmixed : Mixed engine input) : Recorded engine input := by
  obtain ⟨value, hfind, hauto⟩ := hmixed.refresh
  refine ⟨hmixed.acceptable, ⟨value, hfind, fun heq => absurd heq hauto⟩, ?_⟩
  obtain ⟨first, hfirst, hfirstName, -⟩ := find_eq_some.mp hfind
  obtain ⟨second, hsecond, hsecondName⟩ := find_isSome.mp hmixed.refreshInfo
  by_contra hothers
  have hsame : first = second := by
    cases hoptions : input.options with
    | nil =>
        rw [hoptions] at hfirst
        cases hfirst
    | cons option rest =>
        rw [hoptions, List.length_cons] at hothers
        have hrest : rest = [] := List.eq_nil_of_length_eq_zero (by omega)
        rw [hoptions, hrest] at hfirst hsecond
        exact (List.mem_singleton.mp hfirst).trans (List.mem_singleton.mp hsecond).symm
  rw [← hsame, hfirstName] at hsecondName
  exact absurd hsecondName (by decide)

/-- A given `refresh` that is not "auto" leaves the flag down, so that a later `refresh_info` is
taken and an earlier one is not; and `refresh` records the options in the order of the loop. -/
theorem orderIndependent_iff (engine : Engine) (input : CreateSecretInput) :
    (OrderIndependent SameFields engine input ↔ ¬ Mixed engine input) ∧
      (OrderIndependent Eq engine input ↔ ¬ Recorded engine input) := by
  refine ⟨⟨fun hindependent hmixed => not_orderIndependent_of_mixed hmixed hindependent,
    fun hmixed => ?_⟩, ⟨fun hindependent hrecorded =>
      not_orderIndependent_of_recorded hrecorded hindependent, fun hrecorded => ?_⟩⟩
  · exact orderIndependent_of_info sameFields_refl
      (fun hacceptable => unmixed_of_not_mixed hacceptable hmixed)
      fun first second _ hfirst hsecond => refreshInfoOf_reordered (hfirst.symm.trans hsecond)
  · have hmixed : ¬ Mixed engine input := fun hmixed => hrecorded (recorded_of_mixed hmixed)
    refine orderIndependent_of_info Eq.refl
      (fun hacceptable => unmixed_of_not_mixed hacceptable hmixed) ?_
    · intro first second hacceptable hfirst hsecond
      rw [info_eq_of_not_recorded hrecorded hacceptable hfirst,
        info_eq_of_not_recorded hrecorded hacceptable hsecond]
      exact rel_of_eq Eq.refl rfl

/-- `CREATE SECRET (TYPE s3, REFRESH 'disabled', REFRESH_INFO MAP {'key_id': 'id'})`. -/
def mixedInput : CreateSecretInput where
  type := bytes "s3"
  options :=
    [(bytes "refresh", .varchar (bytes "disabled")),
      (bytes "refresh_info", .map [(bytes "key_id", some (bytes "id"))])]
  distinct := by decide

def mixedInputSwapped : CreateSecretInput where
  type := bytes "s3"
  options :=
    [(bytes "refresh_info", .map [(bytes "key_id", some (bytes "id"))]),
      (bytes "refresh", .varchar (bytes "disabled"))]
  distinct := by decide

/-- One order creates the secret, the other is rejected. -/
theorem mixedInput_swapped :
    Reordered mixedInput mixedInputSwapped ∧
      (∃ secret, createSecretFunctionInternal plainEngine mixedInput = .ok secret) ∧
      createSecretFunctionInternal plainEngine mixedInputSwapped = .error refreshConflict ∧
      ¬ OrderIndependent SameFields plainEngine mixedInput := by
  have hswapped : Reordered mixedInput mixedInputSwapped :=
    ⟨rfl, rfl, rfl, rfl, List.Perm.swap _ _ _⟩
  have hcreate : ∃ secret, createSecretFunctionInternal plainEngine mixedInput = .ok secret :=
    ⟨_, rfl⟩
  have hrejected : createSecretFunctionInternal plainEngine mixedInputSwapped =
      .error refreshConflict := rfl
  refine ⟨hswapped, hcreate, hrejected, fun hindependent => ?_⟩
  obtain ⟨secret, hcreate⟩ := hcreate
  have hboth := hindependent.exclusive mixedInput ⟨rfl, rfl, rfl, rfl, .refl _⟩ rfl rfl
  rw [hcreate] at hboth
  cases hboth

end HaybarnHttpfs.SecretOrder
