import HaybarnHttpfs.ReadAuthParams
import HaybarnHttpfs.Foundation.Exceptions
import Mathlib.Logic.Function.Basic

/-!
The options of `CREATE SECRET` for S3: `CreateSecretFunctionInternal` stores them under
keys, and `S3AuthParams::ReadFrom` asks for keys. Writer and reader spell the keys in two
files.
-/

namespace HaybarnHttpfs.SecretOptions

open HaybarnHttpfs.Foundation.ByteStrings HaybarnHttpfs.Foundation.Exceptions
open HaybarnHttpfs.S3Auth HaybarnHttpfs.ReadAuthParams

/-- The engine's values, as far as options have them; a map is one from texts to texts or
nulls. -/
inductive Value where
  | null
  | boolean (b : Bool)
  | varchar (text : Bytes)
  | map (entries : List (Bytes × Option Bytes))
  | struct (fields : List (Bytes × Value))

/-- `ToString` of a value, which leaves a string as it is, and the name of its type. -/
structure Engine where
  toText : Value → Bytes
  typeName : Value → Bytes
  toText_varchar : ∀ text, toText (.varchar text) = text

/-- `GetValue<string>`, unless the value is null. -/
def Value.text? (engine : Engine) : Value → Option Bytes
  | .null => none
  | value => some (engine.toText value)

/-- `GetValue<bool>` of a stored flag. -/
def Value.flag? : Value → Option Bool
  | .boolean b => some b
  | _ => none

/-- `options` is a map that ignores the case of its names. -/
structure CreateSecretInput where
  type : Bytes
  provider : Bytes := []
  name : Bytes := []
  scope : List Bytes := []
  options : List (Bytes × Value) := []
  distinct : (options.map fun option => lower option.1).Nodup

def CreateSecretInput.find (input : CreateSecretInput) (name : Bytes) : Option Value :=
  (input.options.find? fun option => lower option.1 = name).map Prod.snd

abbrev SecretMap := Bytes → Option Value

structure KeyValueSecret where
  scope : List Bytes
  type : Bytes
  provider : Bytes
  name : Bytes
  redactKeys : List Bytes
  secretMap : SecretMap

inductive CreateSecretError where
  | invalidInput (message : Bytes)
  | internal (message : Bytes)
  deriving DecidableEq, Repr

/-- How an option is stored under its own name. -/
inductive OptionKind where
  | value
  | text
  | flag
  deriving DecidableEq, Repr

def optionKind (type lowerName : Bytes) : Option OptionKind :=
  if lowerName ∈ ["key_id", "secret", "http_proxy", "http_proxy_password", "http_proxy_username",
      "extra_http_headers"].map bytes then some .value
  else if lowerName ∈ ["region", "session_token", "endpoint", "url_style",
    "kms_key_id"].map bytes then
    some .text
  else if lowerName ∈ ["use_ssl", "verify_ssl", "url_compatibility_mode",
      "requester_pays"].map bytes then some .flag
  else if lowerName = bytes "bearer_token" ∧ type = bytes "gcs" then some .text
  else none

/-- What is stored for an option of a kind. -/
def storedAs (engine : Engine) (lowerName : Bytes) (value : Value) :
    OptionKind → Except CreateSecretError Value
  | .value => .ok value
  | .text => .ok (.varchar (engine.toText value))
  | .flag =>
      match value with
      | .boolean b => .ok (.boolean b)
      | .null => .error (.internal (bytes "Calling GetValueInternal on a value that is NULL"))
      | value =>
          .error (.invalidInput (bytes "Invalid type past to secret option: '" ++ lowerName ++
            bytes "', found '" ++ engine.typeName value ++ bytes "', expected: 'BOOLEAN'"))

structure CreateState where
  secret : KeyValueSecret
  refresh : Bool := false

def CreateState.store (state : CreateState) (key : Bytes) (value : Value) : CreateState :=
  { state with
    secret := { state.secret with
      secretMap := Function.update state.secret.secretMap key (some value) } }

def refreshConflict : CreateSecretError :=
  .invalidInput (bytes "Can not set `refresh` and `refresh_info` at the same time")

def Value.ofText? : Option Bytes → Value
  | some text => .varchar text
  | none => .null

/-- `MapToStruct`. -/
def mapToStruct : Value → Except CreateSecretError Value
  | .map entries => .ok (.struct (entries.map fun entry => (entry.1, Value.ofText? entry.2)))
  | _ => .error (.invalidInput (bytes "Invalid input passed to refresh_info"))

/-- One round of the loop over the options. -/
def applyOption (engine : Engine) (input : CreateSecretInput) (state : CreateState)
    (option : Bytes × Value) : Except CreateSecretError CreateState :=
  let lowerName := lower option.1
  match optionKind input.type lowerName with
  | some kind =>
      (storedAs engine lowerName option.2 kind).map fun value =>
        let state := state.store lowerName value
        if lowerName = bytes "bearer_token" then
          { state with secret := { state.secret with
              redactKeys := state.secret.redactKeys ++ [bytes "bearer_token"] } }
        else state
  | none =>
      if lowerName = bytes "account_id" then .ok state
      else if lowerName = bytes "refresh" then
        if state.refresh then .error refreshConflict
        else
          let state := { state with refresh := engine.toText option.2 = bytes "auto" }
          .ok ((state.store (bytes "refresh") (.varchar (bytes "auto"))).store
            (bytes "refresh_info")
            (.struct (input.options.map fun option => (lower option.1, option.2))))
      else if lowerName = bytes "refresh_info" then
        if state.refresh then .error refreshConflict
        else
          (mapToStruct option.2).map fun value =>
            { state with refresh := true }.store (bytes "refresh_info") value
      else
        .error (.invalidInput
          (bytes "Unknown named parameter passed to CreateSecretFunctionInternal: " ++ lowerName))

def defaultScope (type : Bytes) : Except CreateSecretError (List Bytes) :=
  if type = bytes "s3" then .ok [bytes "s3://", bytes "s3n://", bytes "s3a://"]
  else if type = bytes "r2" then .ok [bytes "r2://"]
  else if type = bytes "gcs" then .ok [bytes "gcs://", bytes "gs://"]
  else if type = bytes "aws" then .ok [[]]
  else
    .error (.internal (bytes "Unknown secret type found in httpfs extension: '" ++
      type ++ bytes "'"))

def scopeOf (input : CreateSecretInput) : Except CreateSecretError (List Bytes) :=
  if input.scope.isEmpty then defaultScope input.type else .ok input.scope

/-- The endpoint and the URL style that an account id gives an R2 secret. -/
def accountSettings (engine : Engine) (input : CreateSecretInput) (secretMap : SecretMap) :
    SecretMap :=
  match input.find (bytes "account_id") with
  | some accountId =>
      if input.type = bytes "r2" then
        Function.update
          (Function.update secretMap (bytes "endpoint")
            (some (.varchar (engine.toText accountId ++ bytes ".r2.cloudflarestorage.com"))))
          (bytes "url_style") (some (.varchar (bytes "path")))
      else secretMap
  | none => secretMap

def createSecretFunctionInternal (engine : Engine) (input : CreateSecretInput) :
    Except CreateSecretError KeyValueSecret := do
  let scope ← scopeOf input
  let secret : KeyValueSecret :=
    { scope
      type := input.type
      provider := input.provider
      name := input.name
      redactKeys := [bytes "secret", bytes "session_token"]
      secretMap := accountSettings engine input fun _ => none }
  let state ← input.options.foldlM (applyOption engine input) { secret }
  return state.secret

/-- The settings of the session, by name. -/
structure Settings where
  useEnvVariablesForSecretSettings : Bool := true
  text : Bytes → Option (SettingScope × Option Bytes) := fun _ => none
  flag : Bytes → Option (SettingScope × Option Bool) := fun _ => none

/-- The reader of a path that the secret matches: a key of the secret, else the setting. -/
def readerOf (engine : Engine) (secret : KeyValueSecret) (settings : Settings) :
    S3KeyValueReader where
  useEnvVariablesForSecretSettings := settings.useEnvVariablesForSecretSettings
  text key setting :=
    match secret.secretMap key with
    | some value => some (.secret, value.text? engine)
    | none => settings.text setting
  flag key setting :=
    match secret.secretMap key with
    | some value => some (.secret, value.flag?)
    | none => settings.flag setting
  secretText key := (secret.secretMap key).bind (Value.text? engine)

variable {engine : Engine} {input : CreateSecretInput} {secret : KeyValueSecret}
  {state state' : CreateState} {option : Bytes × Value} {key : Bytes} {kind : OptionKind}

/-- The keys that `refresh` and `refresh_info` write. -/
def IsRefreshKey (key : Bytes) : Prop := key = bytes "refresh" ∨ key = bytes "refresh_info"

theorem not_isRefreshKey_of_optionKind {type : Bytes} (hkind : optionKind type key = some kind) :
    ¬ IsRefreshKey key := by
  rintro (rfl | rfl)
  · cases hkind
  · cases hkind

theorem secretMap_store (state : CreateState) (key' : Bytes) (value : Value) :
    (state.store key' value).secret.secretMap key =
      if key = key' then some value else state.secret.secretMap key :=
  Function.update_apply state.secret.secretMap key' (some value) key

theorem applyOption_stored (hkind : optionKind input.type (lower option.1) = some kind)
    (happly : applyOption engine input state option = .ok state') :
    ∃ value, storedAs engine (lower option.1) option.2 kind = .ok value ∧
      state'.secret.secretMap = (state.store (lower option.1) value).secret.secretMap := by
  unfold applyOption at happly
  simp only [hkind] at happly
  obtain ⟨value, hstored, rfl⟩ := map_eq_ok.mp happly
  refine ⟨value, hstored, ?_⟩
  split
  · rfl
  · rfl

theorem applyOption_unstored (hkind : optionKind input.type (lower option.1) = none)
    (happly : applyOption engine input state option = .ok state') (hkey : ¬ IsRefreshKey key) :
    state'.secret.secretMap key = state.secret.secretMap key := by
  have hrefresh : key ≠ bytes "refresh" := fun heq => hkey (.inl heq)
  have hinfo : key ≠ bytes "refresh_info" := fun heq => hkey (.inr heq)
  unfold applyOption at happly
  simp only [hkind] at happly
  split at happly
  · cases happly
    rfl
  · split at happly
    · split at happly
      · cases happly
      · cases happly
        rw [secretMap_store, if_neg hinfo, secretMap_store, if_neg hrefresh]
    · split at happly
      · split at happly
        · cases happly
        · obtain ⟨value, -, rfl⟩ := map_eq_ok.mp happly
          rw [secretMap_store, if_neg hinfo]
      · cases happly

theorem applyOption_other (hother : lower option.1 ≠ key) (hkey : ¬ IsRefreshKey key)
    (happly : applyOption engine input state option = .ok state') :
    state'.secret.secretMap key = state.secret.secretMap key := by
  cases hkind : optionKind input.type (lower option.1) with
  | none => exact applyOption_unstored hkind happly hkey
  | some kind =>
      obtain ⟨value, -, hmap⟩ := applyOption_stored hkind happly
      rw [hmap, secretMap_store, if_neg hother.symm]

theorem secretMap_of_unwritten {options : List (Bytes × Value)}
    (hkey : ¬ IsRefreshKey key)
    (hunwritten : ∀ option ∈ options, lower option.1 ≠ key ∨ optionKind input.type key = none)
    (hfold : options.foldlM (applyOption engine input) state = .ok state') :
    state'.secret.secretMap key = state.secret.secretMap key := by
  induction options generalizing state with
  | nil =>
      cases hfold
      rfl
  | cons option options ih =>
      rw [List.forall_mem_cons] at hunwritten
      rw [List.foldlM_cons] at hfold
      obtain ⟨next, happly, hrest⟩ := bind_eq_ok.mp hfold
      rw [ih hunwritten.2 hrest]
      by_cases hsame : lower option.1 = key
      · have hnone := hunwritten.1.resolve_left (not_not_intro hsame)
        rw [← hsame] at hnone
        exact applyOption_unstored hnone happly hkey
      · exact applyOption_other hsame hkey happly

theorem secretMap_of_fold {options : List (Bytes × Value)} {value : Value}
    (hdistinct : (options.map fun option => lower option.1).Nodup)
    (hkind : optionKind input.type key = some kind)
    (hfind : (options.find? fun option => lower option.1 = key).map Prod.snd = some value)
    (hfold : options.foldlM (applyOption engine input) state = .ok state') :
    ∃ stored, storedAs engine key value kind = .ok stored ∧
      state'.secret.secretMap key = some stored := by
  have hkey := not_isRefreshKey_of_optionKind hkind
  induction options generalizing state with
  | nil => cases hfind
  | cons option options ih =>
      rw [List.map_cons, List.nodup_cons] at hdistinct
      rw [List.foldlM_cons] at hfold
      obtain ⟨next, happly, hfoldRest⟩ := bind_eq_ok.mp hfold
      by_cases hsame : lower option.1 = key
      · rw [List.find?_cons_of_pos (by simpa using hsame)] at hfind
        cases hfind
        rw [← hsame] at hkind
        obtain ⟨stored, hstored, hmap⟩ := applyOption_stored hkind happly
        have hrest : state'.secret.secretMap key = next.secret.secretMap key := by
          refine secretMap_of_unwritten hkey ?_ hfoldRest
          intro other hother
          refine .inl fun heq => hdistinct.1 ?_
          rw [hsame, ← heq]
          exact List.mem_map_of_mem hother
        refine ⟨stored, hsame ▸ hstored, ?_⟩
        rw [hrest, hmap, secretMap_store, if_pos hsame.symm]
      · rw [List.find?_cons_of_neg (by simpa using hsame)] at hfind
        exact ih hdistinct.2 hfind hfoldRest

theorem created_fold (hcreated : createSecretFunctionInternal engine input = .ok secret) :
    ∃ start final : CreateState,
      start.secret.secretMap = accountSettings engine input (fun _ => none) ∧
        input.options.foldlM (applyOption engine input) start = .ok final ∧
          final.secret = secret := by
  unfold createSecretFunctionInternal at hcreated
  obtain ⟨scope, -, hrest⟩ := bind_eq_ok.mp hcreated
  obtain ⟨final, hfold, hsecret⟩ := bind_eq_ok.mp hrest
  exact ⟨_, final, rfl, hfold, Except.ok.inj hsecret⟩

theorem accountSettings_s3 (htype : input.type = bytes "s3") (secretMap : SecretMap) :
    accountSettings engine input secretMap = secretMap := by
  have hother : input.type ≠ bytes "r2" := by
    rw [htype]
    decide
  unfold accountSettings
  split
  · rw [if_neg hother]
  · rfl

/-- What an S3 secret has under a key: the option of that name, and nothing else. -/
theorem secretMap_of_created (htype : input.type = bytes "s3")
    (hcreated : createSecretFunctionInternal engine input = .ok secret) :
    (∀ key, ¬ IsRefreshKey key → input.find key = none ∨ optionKind input.type key = none →
      secret.secretMap key = none) ∧
    ∀ key kind value, optionKind input.type key = some kind → input.find key = some value →
      ∃ stored, storedAs engine key value kind = .ok stored ∧
        secret.secretMap key = some stored := by
  obtain ⟨start, final, hstart, hfold, rfl⟩ := created_fold hcreated
  have hempty : ∀ key, start.secret.secretMap key = none := by
    intro key
    rw [hstart, accountSettings_s3 htype]
  constructor
  · intro key hkey hnone
    rw [secretMap_of_unwritten hkey ?_ hfold, hempty]
    intro option hoption
    refine hnone.imp_left fun hnotfound hsame => ?_
    have hfound := Option.map_eq_none_iff.mp hnotfound
    rw [List.find?_eq_none] at hfound
    exact hfound option hoption (by simpa using hsame)
  · intro key kind value hkind hfind
    exact secretMap_of_fold input.distinct hkind hfind hfold

/-- The reader of a path that no secret matches. -/
def Settings.reader (settings : Settings) : S3KeyValueReader where
  useEnvVariablesForSecretSettings := settings.useEnvVariablesForSecretSettings
  text _ setting := settings.text setting
  flag _ setting := settings.flag setting
  secretText _ := none

/-- What the settings alone give. -/
def Settings.textOf (settings : Settings) (setting : Bytes) : Bytes :=
  settings.reader.resolve (settings.text setting) []

def Settings.flagOf (settings : Settings) (setting : Bytes) (fallback : Bool) : Bool :=
  settings.reader.resolve (settings.flag setting) fallback

/-- The text of an option, or of the setting without one; `key_id` and `secret` are stored
as they are, so that a null gives nothing. -/
def effectiveText (engine : Engine) (input : CreateSecretInput) (settings : Settings)
    (kind : OptionKind) (key setting : Bytes) : Bytes :=
  match input.find key with
  | some value => if kind = .value then (value.text? engine).getD [] else engine.toText value
  | none => settings.textOf setting

variable {settings : Settings} {setting : Bytes}

theorem text?_varchar (engine : Engine) (text : Bytes) :
    (Value.varchar text).text? engine = some text :=
  congrArg some (engine.toText_varchar text)

theorem text?_eq_some {value : Value} {text : Bytes} (htext : value.text? engine = some text) :
    engine.toText value = text := by
  cases value with
  | null => cases htext
  | _ => exact Option.some.inj htext

theorem read_text (htype : input.type = bytes "s3")
    (hcreated : createSecretFunctionInternal engine input = .ok secret)
    (hkind : optionKind input.type key = some kind) (htextual : kind ≠ .flag) (setting : Bytes) :
    (readerOf engine secret settings).resolve
        ((readerOf engine secret settings).text key setting) [] =
      effectiveText engine input settings kind key setting := by
  obtain ⟨hunwritten, hwritten⟩ := secretMap_of_created htype hcreated
  unfold effectiveText
  cases hfind : input.find key with
  | none =>
      have hnone := hunwritten key (not_isRefreshKey_of_optionKind hkind) (.inl hfind)
      simp only [readerOf, hnone]
      rfl
  | some value =>
      obtain ⟨stored, hstored, hmap⟩ := hwritten key kind value hkind hfind
      simp only [readerOf, hmap]
      cases kind with
      | flag => exact absurd rfl htextual
      | text =>
          cases hstored
          simp only [text?_varchar, reduceCtorEq, if_false]
          rfl
      | value =>
          cases hstored
          cases htext : value.text? engine with
          | _ => rfl

theorem effectiveText_of_option {value : Value} {text : Bytes}
    (hfind : input.find key = some value) (htext : value.text? engine = some text) :
    effectiveText engine input settings kind key setting = text := by
  unfold effectiveText
  simp only [hfind, htext, Option.getD_some, text?_eq_some htext, ite_self]

theorem read_flag (htype : input.type = bytes "s3")
    (hcreated : createSecretFunctionInternal engine input = .ok secret)
    (hkind : optionKind input.type key = some .flag) {b : Bool}
    (hfind : input.find key = some (.boolean b)) (setting : Bytes) (fallback : Bool) :
    (readerOf engine secret settings).resolve
      ((readerOf engine secret settings).flag key setting) fallback = b := by
  obtain ⟨stored, hstored, hmap⟩ :=
    (secretMap_of_created htype hcreated).2 key .flag _ hkind hfind
  cases hstored
  simp only [readerOf, hmap]
  rfl

theorem read_compatibilityMode (htype : input.type = bytes "s3")
    (hcreated : createSecretFunctionInternal engine input = .ok secret) :
    (readerOf engine secret settings).resolve ((readerOf engine secret settings).flag
        (bytes "s3_url_compatibility_mode") (bytes "s3_url_compatibility_mode")) false =
      settings.flagOf (bytes "s3_url_compatibility_mode") false := by
  have hnone := (secretMap_of_created htype hcreated).1 (bytes "s3_url_compatibility_mode")
    (by unfold IsRefreshKey; decide) (.inr rfl)
  simp only [readerOf, hnone]
  rfl

theorem initializeEndpoint_region (params : S3AuthParams) : params.initializeEndpoint.region =
    if endpointIsAWS params.endpoint = true ∧ params.region = [] ∧ params.accessKeyId ≠ [] then
      bytes "us-east-1"
    else params.region := by
  unfold S3AuthParams.initializeEndpoint
  cases haws : endpointIsAWS params.endpoint with
  | false => simp
  | true =>
      cases hregion : params.region with
      | cons c region => simp
      | nil =>
          cases hkey : params.accessKeyId with
          | _ => simp

/-- The value of an option, unless it is null. -/
def TextReaches (engine : Engine) (input : CreateSecretInput) (name : String)
    (field : Bytes) : Prop :=
  ∀ value text, input.find (bytes name) = some value → value.text? engine = some text →
    field = text

def FlagReaches (input : CreateSecretInput) (name : String) (field : Bool) : Prop :=
  ∀ b, input.find (bytes name) = some (.boolean b) → field = b

/-- Each option has its value in the field it stands for. -/
structure OptionsReach (engine : Engine) (input : CreateSecretInput) (params : S3AuthParams) :
    Prop where
  keyId : TextReaches engine input "key_id" params.accessKeyId
  secret : TextReaches engine input "secret" params.secretAccessKey
  region : TextReaches engine input "region" params.region
  sessionToken : TextReaches engine input "session_token" params.sessionToken
  endpoint : ∀ value text, input.find (bytes "endpoint") = some value →
    value.text? engine = some text → endpointIsAWS text = false → params.endpoint = text
  urlStyle : TextReaches engine input "url_style" params.urlStyle
  useSsl : FlagReaches input "use_ssl" params.useSsl
  kmsKeyId : TextReaches engine input "kms_key_id" params.kmsKeyId
  urlCompatibilityMode : FlagReaches input "url_compatibility_mode" params.s3UrlCompatibilityMode
  requesterPays : FlagReaches input "requester_pays" params.requesterPays

/-- The setting agrees with the compatibility mode of the options, and an empty region does
not meet a key at an AWS endpoint, where it is defaulted. -/
structure OptionsKept (engine : Engine) (input : CreateSecretInput)
    (settings : Settings) : Prop where
  compatibilityMode : ∀ b, input.find (bytes "url_compatibility_mode") = some (.boolean b) →
    settings.flagOf (bytes "s3_url_compatibility_mode") false = b
  region : ∀ value, input.find (bytes "region") = some value → value.text? engine = some [] →
    endpointIsAWS (effectiveText engine input settings .text (bytes "endpoint")
      (bytes "s3_endpoint")) = true →
    effectiveText engine input settings .value (bytes "key_id") (bytes "s3_access_key_id") = []

/-- The parameters that are read for an S3 path, before the endpoint is initialized. -/
structure ReadBack (engine : Engine) (input : CreateSecretInput) (settings : Settings)
    (params : S3AuthParams) : Prop where
  region : params.region =
    effectiveText engine input settings .text (bytes "region") (bytes "s3_region")
  accessKeyId : params.accessKeyId =
    effectiveText engine input settings .value (bytes "key_id") (bytes "s3_access_key_id")
  secretAccessKey : params.secretAccessKey =
    effectiveText engine input settings .value (bytes "secret") (bytes "s3_secret_access_key")
  sessionToken : params.sessionToken =
    effectiveText engine input settings .text (bytes "session_token") (bytes "s3_session_token")
  endpoint : params.endpoint =
    effectiveText engine input settings .text (bytes "endpoint") (bytes "s3_endpoint")
  urlStyle : params.urlStyle =
    effectiveText engine input settings .text (bytes "url_style") (bytes "s3_url_style")
  kmsKeyId : params.kmsKeyId =
    effectiveText engine input settings .text (bytes "kms_key_id") (bytes "s3_kms_key_id")
  useSsl : FlagReaches input "use_ssl" params.useSsl
  requesterPays : FlagReaches input "requester_pays" params.requesterPays
  s3UrlCompatibilityMode : params.s3UrlCompatibilityMode =
    settings.flagOf (bytes "s3_url_compatibility_mode") false

theorem resolve_resolve {T : Type} (reader : S3KeyValueReader)
    (found : Option (SettingScope × Option T)) (result : T) :
    reader.resolve found (reader.resolve found result) = reader.resolve found result := by
  rcases found with - | ⟨scope, - | value⟩
  · rfl
  · rfl
  · simp only [S3KeyValueReader.resolve]
    split
    · rfl
    · rfl

theorem isGCSRequest_s3 (rest : Bytes) : isGCSRequest (bytes "s3://" ++ rest) = false :=
  rfl

theorem readFrom_readBack (htype : input.type = bytes "s3")
    (hcreated : createSecretFunctionInternal engine input = .ok secret)
    (settings : Settings) (rest : Bytes) :
    ∃ params, readFrom (readerOf engine secret settings) (bytes "s3://" ++ rest) =
        params.initializeEndpoint ∧ ReadBack engine input settings params := by
  refine ⟨_, rfl, ?_⟩
  rw [isGCSRequest_s3, if_neg Bool.false_ne_true]
  have hread := @read_text engine input secret
  constructor
  · exact (resolve_resolve _ _ _).trans
      (hread htype hcreated (by rw [htype]; rfl) (by decide) _)
  · exact hread htype hcreated (by rw [htype]; rfl) (by decide) _
  · exact hread htype hcreated (by rw [htype]; rfl) (by decide) _
  · exact hread htype hcreated (by rw [htype]; rfl) (by decide) _
  · exact hread htype hcreated (by rw [htype]; rfl) (by decide) _
  · exact hread htype hcreated (by rw [htype]; rfl) (by decide) _
  · exact hread htype hcreated (by rw [htype]; rfl) (by decide) _
  · intro b hfind
    exact read_flag htype hcreated (by rw [htype]; rfl) hfind _ _
  · intro b hfind
    exact read_flag htype hcreated (by rw [htype]; rfl) hfind _ _
  · exact read_compatibilityMode htype hcreated

variable {params : S3AuthParams}

theorem kept_of_reach (hback : ReadBack engine input settings params)
    (hreach : OptionsReach engine input params.initializeEndpoint) :
    OptionsKept engine input settings := by
  constructor
  · intro b hfind
    have hsame := congrArg S3AuthParams.s3UrlCompatibilityMode (initializeEndpoint_frame params)
    rw [← hback.s3UrlCompatibilityMode, ← hsame]
    exact hreach.urlCompatibilityMode b hfind
  · intro value hfind htext haws
    have hempty := hreach.region value [] hfind htext
    have hregion : params.region = [] := hback.region.trans (effectiveText_of_option hfind htext)
    rw [initializeEndpoint_region, hback.endpoint] at hempty
    by_contra hkey
    rw [if_pos ⟨haws, hregion, hback.accessKeyId ▸ hkey⟩] at hempty
    cases hempty

theorem reach_of_kept (hback : ReadBack engine input settings params)
    (hkept : OptionsKept engine input settings) :
    OptionsReach engine input params.initializeEndpoint := by
  have hframe := initializeEndpoint_frame params
  have htextReaches : ∀ {name setting : String} {kind : OptionKind} {field : Bytes},
      field = effectiveText engine input settings kind (bytes name) (bytes setting) →
      TextReaches engine input name field := by
    intro name setting kind field hfield value text hfind htext
    exact hfield.trans (effectiveText_of_option hfind htext)
  constructor
  · exact htextReaches ((congrArg S3AuthParams.accessKeyId hframe).trans hback.accessKeyId)
  · exact htextReaches
      ((congrArg S3AuthParams.secretAccessKey hframe).trans hback.secretAccessKey)
  · intro value text hfind htext
    have hregion : params.region = text :=
      hback.region.trans (effectiveText_of_option hfind htext)
    rw [initializeEndpoint_region, hregion, if_neg]
    rintro ⟨haws, rfl, hkey⟩
    rw [hback.endpoint] at haws
    exact hkey (hback.accessKeyId.trans (hkept.region value hfind htext haws))
  · exact htextReaches ((congrArg S3AuthParams.sessionToken hframe).trans hback.sessionToken)
  · intro value text hfind htext hother
    have hendpoint := hback.endpoint.trans (effectiveText_of_option hfind htext)
    rw [← hendpoint] at hother
    exact (initializeEndpoint_endpoint hother).trans hendpoint
  · exact htextReaches ((congrArg S3AuthParams.urlStyle hframe).trans hback.urlStyle)
  · intro b hfind
    exact (congrArg S3AuthParams.useSsl hframe).trans (hback.useSsl b hfind)
  · exact htextReaches ((congrArg S3AuthParams.kmsKeyId hframe).trans hback.kmsKeyId)
  · intro b hfind
    exact ((congrArg S3AuthParams.s3UrlCompatibilityMode hframe).trans
      hback.s3UrlCompatibilityMode).trans (hkept.compatibilityMode b hfind)
  · intro b hfind
    exact (congrArg S3AuthParams.requesterPays hframe).trans (hback.requesterPays b hfind)

/-- The compatibility mode of a secret is stored under a key that is never asked for, so that
the setting decides it; every other option reaches its field. -/
theorem optionsReach_iff (engine : Engine) (input : CreateSecretInput)
    (htype : input.type = bytes "s3") (secret : KeyValueSecret)
    (hcreated : createSecretFunctionInternal engine input = .ok secret)
    (settings : Settings) (rest : Bytes) :
    OptionsReach engine input
      (readFrom (readerOf engine secret settings) (bytes "s3://" ++ rest)) ↔
      OptionsKept engine input settings := by
  obtain ⟨params, hread, hback⟩ := readFrom_readBack htype hcreated settings rest
  rw [hread]
  exact ⟨kept_of_reach hback, reach_of_kept hback⟩

def plainEngine : Engine where
  toText
    | .varchar text => text
    | .boolean b => if b then bytes "true" else bytes "false"
    | _ => bytes "NULL"
  typeName _ := bytes "VARCHAR"
  toText_varchar _ := rfl

/-- `CREATE SECRET (TYPE s3, KEY_ID 'id', URL_COMPATIBILITY_MODE true)`. -/
def compatibleInput : CreateSecretInput where
  type := bytes "s3"
  provider := bytes "config"
  name := bytes "secret"
  options :=
    [(bytes "key_id", .varchar (bytes "id")), (bytes "url_compatibility_mode", .boolean true)]
  distinct := by decide

def compatibleSecret : KeyValueSecret where
  scope := [bytes "s3://", bytes "s3n://", bytes "s3a://"]
  type := bytes "s3"
  provider := bytes "config"
  name := bytes "secret"
  redactKeys := [bytes "secret", bytes "session_token"]
  secretMap := Function.update
    (Function.update (fun _ => none) (bytes "key_id") (some (.varchar (bytes "id"))))
    (bytes "url_compatibility_mode") (some (.boolean true))

theorem compatibleSecret_created :
    createSecretFunctionInternal plainEngine compatibleInput = .ok compatibleSecret :=
  rfl

/-- A session with the compatibility mode on. -/
def compatibleSettings : Settings where
  flag setting :=
    if setting = bytes "s3_url_compatibility_mode" then some (.globalScope, some true) else none

theorem optionsReach_iff_compatible :
    OptionsReach plainEngine compatibleInput
        (readFrom (readerOf plainEngine compatibleSecret compatibleSettings)
          (bytes "s3://" ++ bytes "bucket/key")) ↔
      OptionsKept plainEngine compatibleInput compatibleSettings :=
  optionsReach_iff plainEngine compatibleInput rfl compatibleSecret compatibleSecret_created
    compatibleSettings (bytes "bucket/key")

/-- Without the setting, the mode of the secret is lost. -/
theorem compatibilityMode_lost :
    createSecretFunctionInternal plainEngine compatibleInput = .ok compatibleSecret ∧
      ¬ OptionsReach plainEngine compatibleInput
        (readFrom (readerOf plainEngine compatibleSecret {})
          (bytes "s3://" ++ bytes "bucket/key")) := by
  refine ⟨compatibleSecret_created, fun hreach => ?_⟩
  have hmode := hreach.urlCompatibilityMode true rfl
  revert hmode
  decide

end HaybarnHttpfs.SecretOptions
