import HaybarnHttpfs.ReadAuthParams
import HaybarnHttpfs.S3ClientCache
import Mathlib.Algebra.Order.BigOperators.Group.Finset

/-!
`TryRefreshS3AuthMaterial` of the requests of one client context, each on a handle
of its own: check, reload, take the refresh lock, reload, re-create the secret,
reload. The callers share the secret manager and the lock.
-/

namespace HaybarnHttpfs.CredentialRefresh

open HaybarnHttpfs.Foundation.ByteStrings HaybarnHttpfs.Foundation.TransitionRuns
open HaybarnHttpfs.S3Auth HaybarnHttpfs.S3ClientCache HaybarnHttpfs.ReadAuthParams

universe u

variable {σ : Type u} {n : Nat}

inductive SecretType where
  | s3
  | r2
  | gcs
  | aws
  deriving DecidableEq, Repr

def secretTypes : List SecretType := [.s3, .r2, .gcs, .aws]

structure KeyValueSecret where
  name : Bytes
  type : SecretType
  provider : Bytes
  scope : List Bytes
  storageMode : Bytes
  persistType : Bytes
  refreshInfo : Option (List (Bytes × Bytes))
  deriving DecidableEq, Repr

/-- Its `on_conflict` is `REPLACE_ON_CONFLICT`. -/
structure CreateSecretInput where
  type : SecretType
  name : Bytes
  provider : Bytes
  storageType : Bytes
  scope : List Bytes
  persistType : Bytes
  options : List (Bytes × Bytes)
  deriving DecidableEq, Repr

def generateRefreshSecretInfo (secret : KeyValueSecret) (refreshInfo : List (Bytes × Bytes)) :
    CreateSecretInput :=
  { type := secret.type, name := secret.name, provider := secret.provider
    storageType := secret.storageMode, scope := secret.scope
    persistType := secret.persistType, options := refreshInfo }

/-- The secret manager in the state `σ`; creating a secret may throw. -/
structure SecretManager (σ : Type u) extends Secrets σ where
  lookupSecret : σ → Bytes → SecretType → Option KeyValueSecret
  createSecret : σ → CreateSecretInput → Except Bytes σ

def refreshError (secret : KeyValueSecret) (message : Bytes) : Bytes :=
  bytes "Exception thrown while trying to refresh secret " ++ secret.name ++
    bytes ". To fix this, please recreate or remove the secret and try again. Error: '" ++
    message ++ bytes "'"

/-- The secrets after the attempt, and the input of the secret that was re-created. -/
def tryRefreshS3Secret (m : SecretManager σ) (secrets : σ) (secret : KeyValueSecret) :
    Except Bytes (σ × Option CreateSecretInput) :=
  match secret.refreshInfo with
  | none => .ok (secrets, none)
  | some refreshInfo =>
      let refreshInput := generateRefreshSecretInfo secret refreshInfo
      match m.createSecret secrets refreshInput with
      | .ok secrets => .ok (secrets, some refreshInput)
      | .error message => .error (refreshError secret message)

/-- Which of its three calls of `ReloadS3AuthMaterial` a caller is in. -/
inductive Reload where
  | beforeLock
  | underLock
  | afterRefresh
  deriving DecidableEq, Repr

/-- `reading` has read the authentication parameters and not yet the HTTP
parameters; `refreshing` is the loop of `TryRefreshS3SecretForPath`. -/
inductive Stage where
  | entered
  | reloading (reload : Reload)
  | reading (reload : Reload) (authParams : S3AuthParams)
  | waiting
  | refreshing (left : List SecretType) (refreshed : Bool)
  | returned (result : Bool)
  | threwAuth (e : AuthReadError)
  | threwRefresh (message : Bytes)
  deriving DecidableEq, Repr

/-- A request that failed, on a handle whose mutex the call holds throughout. -/
structure Caller where
  handle : S3FileHandle
  data : S3RequestData
  credentialRefreshEnabled : Bool := true
  hasContext : Bool := true
  stage : Stage := .entered

/-- `passes` counts the calls of `TryRefreshS3SecretForPath`. -/
structure ClientContext (σ : Type u) (n : Nat) where
  secrets : σ
  credentialRefreshLock : Option (Fin n) := none
  callers : Fin n → Caller
  passes : Nat := 0
  recreated : List CreateSecretInput := []

def ClientContext.setStage (s : ClientContext σ n) (i : Fin n) (stage : Stage) :
    ClientContext σ n :=
  { s with callers := Function.update s.callers i { (s.callers i) with stage } }

/-- The caller leaves, and releases the lock if it has it. -/
def ClientContext.leave (s : ClientContext σ n) (i : Fin n) (caller : Caller) :
    ClientContext σ n :=
  { s with
    callers := Function.update s.callers i caller
    credentialRefreshLock :=
      if s.credentialRefreshLock = some i then none else s.credentialRefreshLock }

/-- A reload found what the failed request already used. -/
def afterReload (s : ClientContext σ n) (i : Fin n) : Reload → ClientContext σ n
  | .beforeLock => s.setStage i .waiting
  | .underLock =>
      { (s.setStage i (.refreshing secretTypes false)) with passes := s.passes + 1 }
  | .afterRefresh => s.leave i { (s.callers i) with stage := .returned false }

/-- The next step of one caller; it is `none` while the caller waits for the lock
and after it has left. -/
def step (m : SecretManager σ) (s : ClientContext σ n) (i : Fin n) :
    Option (ClientContext σ n) :=
  let caller := s.callers i
  let h := caller.handle
  match caller.stage with
  | .entered =>
      if !caller.credentialRefreshEnabled then some (s.setStage i (.returned false))
      else if h.authParams ≠ caller.data.authParams ∨
          snapshotRefreshableHTTPParams h.httpParams ≠ caller.data.refreshableHttpParams then
        some (s.setStage i (.returned true))
      else if !caller.hasContext then some (s.setStage i (.returned false))
      else some (s.setStage i (.reloading .beforeLock))
  | .reloading reload =>
      match readS3AuthParams m.toSecrets s.secrets h.path with
      | .ok authParams => some (s.setStage i (.reading reload authParams))
      | .error e => some (s.leave i { caller with stage := .threwAuth e })
  | .reading reload authParams =>
      match reloadS3AuthMaterial h caller.data authParams
          (m.initializeParameters s.secrets h.path) with
      | some h =>
          let h := { h with clientCache := clear h.clientCache }
          some (s.leave i { caller with handle := h, stage := .returned true })
      | none => some (afterReload s i reload)
  | .waiting =>
      match s.credentialRefreshLock with
      | none =>
          some { (s.setStage i (.reloading .underLock)) with credentialRefreshLock := some i }
      | some _ => none
  | .refreshing [] refreshed =>
      if refreshed then some (s.setStage i (.reloading .afterRefresh))
      else some (s.leave i { caller with stage := .returned false })
  | .refreshing (type :: left) refreshed =>
      match m.lookupSecret s.secrets h.path type with
      | none => some (s.setStage i (.refreshing left refreshed))
      | some secret =>
          match tryRefreshS3Secret m s.secrets secret with
          | .ok (secrets, input) =>
              some { (s.setStage i (.refreshing left (refreshed || input.isSome))) with
                secrets, recreated := s.recreated ++ input.toList }
          | .error message => some (s.leave i { caller with stage := .threwRefresh message })
  | .returned _ | .threwAuth _ | .threwRefresh _ => none

/-- `type` is the one type of the path's refreshable secrets, and re-creating that
secret leads from the secrets `old` to `new`. -/
structure OneSecret (m : SecretManager σ) (old new : σ) (type : SecretType) (path : Bytes) :
    Prop where
  recreated : ∃ secret refreshInfo, m.lookupSecret old path type = some secret ∧
    secret.refreshInfo = some refreshInfo ∧
    m.createSecret old (generateRefreshSecretInfo secret refreshInfo) = .ok new
  others : ∀ type' ≠ type, ∀ secrets, secrets = old ∨ secrets = new →
    ∀ secret, m.lookupSecret secrets path type' = some secret → secret.refreshInfo = none

/-- A caller whose request failed with what the current secret yields, and for whom
the new secret yields something else even if the region of the handle is kept. -/
structure Stale (m : SecretManager σ) (old new : σ) (type : SecretType) (c : Caller) :
    Prop where
  entered : c.stage = .entered
  enabled : c.credentialRefreshEnabled = true
  context : c.hasContext = true
  heldAuth : c.handle.authParams = c.data.authParams
  heldHttp : snapshotRefreshableHTTPParams c.handle.httpParams = c.data.refreshableHttpParams
  oldAuth : readS3AuthParams m.toSecrets old c.handle.path = .ok c.data.authParams
  oldHttp : readRefreshableHTTPParams m.toSecrets old c.handle.path =
    c.data.refreshableHttpParams
  renewed : ∃ authParams, readS3AuthParams m.toSecrets new c.handle.path = .ok authParams ∧
    (preserveRegion c.handle authParams ≠ c.data.authParams ∨
      readRefreshableHTTPParams m.toSecrets new c.handle.path ≠ c.data.refreshableHttpParams)
  secret : OneSecret m old new type c.handle.path

/-- The handle has the material that the secrets `new` yield, up to the region of a
handle that was redirected. -/
def Installed (m : SecretManager σ) (new : σ) (h h' : S3FileHandle) : Prop :=
  ∃ authParams, readS3AuthParams m.toSecrets new h.path = .ok authParams ∧
    h'.authParams = preserveRegion h authParams ∧
    h'.httpParams =
      applyRefreshableHTTPParams (readRefreshableHTTPParams m.toSecrets new h.path)

def start (secrets : σ) (callers : Fin n → Caller) : ClientContext σ n := { secrets, callers }

/-- What the caller has read so far is also what it would read from `secrets`, or
what it has still to read is the same there. -/
def Consistent (m : SecretManager σ) (current secrets : σ) (c : Caller) : Prop :=
  match c.stage with
  | .reading _ authParams =>
      readS3AuthParams m.toSecrets secrets c.handle.path = .ok authParams ∨
        readRefreshableHTTPParams m.toSecrets secrets c.handle.path =
          readRefreshableHTTPParams m.toSecrets current c.handle.path
  | _ => True

/-- No secret is re-created between the two reads of a reload, unless one of the two
parts stays as it was. -/
def Untorn (m : SecretManager σ) (s : ClientContext σ n) (i : Fin n) : Prop :=
  ∀ s' ∈ step m s i, ∀ j, Consistent m s.secrets s'.secrets (s.callers j)

instance (m : SecretManager σ) (current secrets : σ) (c : Caller) :
    Decidable (Consistent m current secrets c) :=
  match hstage : c.stage with
  | .reading _ authParams =>
      decidable_of_iff
        (readS3AuthParams m.toSecrets secrets c.handle.path = .ok authParams ∨
          readRefreshableHTTPParams m.toSecrets secrets c.handle.path =
            readRefreshableHTTPParams m.toSecrets current c.handle.path)
        (by unfold Consistent; rw [hstage])
  | .entered | .reloading _ | .waiting | .refreshing _ _ | .returned _ | .threwAuth _
  | .threwRefresh _ => isTrue (by unfold Consistent; rw [hstage]; trivial)

instance (m : SecretManager σ) (s : ClientContext σ n) (i : Fin n) : Decidable (Untorn m s i) :=
  inferInstanceAs (Decidable (∀ s' ∈ step m s i, ∀ j,
    Consistent m s.secrets s'.secrets (s.callers j)))

theorem reload_of_old {m : SecretManager σ} {old new : σ} {type : SecretType} {c : Caller}
    {secrets : σ} (hstale : Stale m old new type c)
    (hhttp : readRefreshableHTTPParams m.toSecrets secrets c.handle.path =
      c.data.refreshableHttpParams) :
    reloadS3AuthMaterial c.handle c.data c.data.authParams
      (m.initializeParameters secrets c.handle.path) = none := by
  have hregion : preserveRegion c.handle c.data.authParams = c.data.authParams := by
    simp [preserveRegion, hstale.heldAuth]
  unfold reloadS3AuthMaterial
  exact if_pos ⟨hregion, hhttp⟩

theorem reload_of_new {m : SecretManager σ} {old new : σ} {type : SecretType} {c : Caller}
    {authParams : S3AuthParams} (hstale : Stale m old new type c)
    (hauth : readS3AuthParams m.toSecrets new c.handle.path = .ok authParams) :
    ∃ h, reloadS3AuthMaterial c.handle c.data authParams
        (m.initializeParameters new c.handle.path) = some h ∧ Installed m new c.handle h := by
  obtain ⟨authParams', hread, hdiffers⟩ := hstale.renewed
  rw [hauth] at hread
  cases hread
  refine ⟨_, if_neg ?_, authParams, hauth, rfl, rfl⟩
  rintro ⟨hsameAuth, hsameHttp⟩
  rcases hdiffers with hne | hne
  · exact hne hsameAuth
  · exact hne hsameHttp

def holdsLock : Stage → Bool
  | .reloading reload | .reading reload _ => reload ≠ .beforeLock
  | .refreshing _ _ => true
  | _ => false

section Soundness

variable (m : SecretManager σ) (old new : σ) (type : SecretType) (callers : Fin n → Caller)

def Before (s : ClientContext σ n) : Prop := s.recreated = [] ∧ s.secrets = old

def After (s : ClientContext σ n) : Prop :=
  s.recreated.length = 1 ∧ s.secrets = new ∧ s.passes = 1

/-- What a caller knows at its stage; `c₀` is the caller as it entered. -/
def StageSound (s : ClientContext σ n) (c₀ c : Caller) : Prop :=
  match c.stage with
  | .entered | .waiting | .reloading .beforeLock | .reloading .underLock => True
  | .reloading .afterRefresh => After new s
  | .reading .beforeLock authParams =>
      (Before old s ∧ authParams = c₀.data.authParams) ∨
        (After new s ∧
          (readS3AuthParams m.toSecrets new c₀.handle.path = .ok authParams ∨
            (authParams = c₀.data.authParams ∧
              readRefreshableHTTPParams m.toSecrets new c₀.handle.path =
                c₀.data.refreshableHttpParams)))
  | .reading .underLock authParams =>
      readS3AuthParams m.toSecrets s.secrets c₀.handle.path = .ok authParams
  | .reading .afterRefresh authParams =>
      After new s ∧ readS3AuthParams m.toSecrets new c₀.handle.path = .ok authParams
  | .refreshing left refreshed =>
      s.passes = 1 ∧ left.Nodup ∧
        ((refreshed = false ∧ Before old s ∧ type ∈ left) ∨
          (refreshed = true ∧ After new s ∧ type ∉ left))
  | .returned result => result = true ∧ After new s ∧ Installed m new c₀.handle c.handle
  | .threwAuth _ | .threwRefresh _ => False

structure CallerSound (s : ClientContext σ n) (i : Fin n) : Prop where
  data : (s.callers i).data = (callers i).data
  enabled : (s.callers i).credentialRefreshEnabled = true
  context : (s.callers i).hasContext = true
  handle : (∀ result, (s.callers i).stage ≠ .returned result) →
    (s.callers i).handle = (callers i).handle
  owner : holdsLock (s.callers i).stage = true ↔ s.credentialRefreshLock = some i
  stage : StageSound m old new type s (callers i) (s.callers i)

/-- Whether the secret has been re-created yet decides which secrets are in force;
before that, only the caller in the refresh can have started a pass. -/
structure RefreshSound (s : ClientContext σ n) : Prop where
  phase : Before old s ∨ After new s
  passes : Before old s → s.passes = 0 ∨
    ∃ i left refreshed, (s.callers i).stage = .refreshing left refreshed
  callers : ∀ i, CallerSound m old new type callers s i

end Soundness

variable {m : SecretManager σ} {old new : σ} {type : SecretType} {callers : Fin n → Caller}
  {s s' : ClientContext σ n} {i : Fin n}

theorem StageSound.congr {c₀ c : Caller} (hstage : StageSound m old new type s c₀ c)
    (hsecrets : s'.secrets = s.secrets) (hrecreated : s'.recreated = s.recreated)
    (hpasses : s'.passes = s.passes) : StageSound m old new type s' c₀ c := by
  unfold StageSound Before After at hstage ⊢
  rw [hsecrets, hrecreated, hpasses]
  exact hstage

theorem CallerSound.congr {j : Fin n} (hcaller : CallerSound m old new type callers s j)
    (hsame : s'.callers j = s.callers j)
    (howner : s'.credentialRefreshLock = some j ↔ s.credentialRefreshLock = some j)
    (hstage : StageSound m old new type s' (callers j) (s.callers j)) :
    CallerSound m old new type callers s' j := by
  obtain ⟨hdata, henabled, hcontext, hhandle, hold, -⟩ := hcaller
  rw [← hsame] at hdata henabled hcontext hhandle hold hstage
  exact ⟨hdata, henabled, hcontext, hhandle, hold.trans howner.symm, hstage⟩

theorem CallerSound.advance (stage : Stage) (hcaller : CallerSound m old new type callers s i)
    (hsame : s'.callers i = { (s.callers i) with stage })
    (hactive : ∀ result, (s.callers i).stage ≠ .returned result)
    (howner : holdsLock stage = true ↔ s'.credentialRefreshLock = some i)
    (hstage : StageSound m old new type s' (callers i) { (s.callers i) with stage }) :
    CallerSound m old new type callers s' i := by
  obtain ⟨hdata, henabled, hcontext, hhandle, -, -⟩ := hcaller
  refine ⟨?_, ?_, ?_, ?_, ?_, ?_⟩
  · rw [hsame, hdata]
  · rw [hsame, henabled]
  · rw [hsame, hcontext]
  · intro _
    rw [hsame]
    exact hhandle hactive
  · rw [hsame]
    exact howner
  · rw [hsame]
    exact hstage

theorem RefreshSound.move {c : Caller} (hsound : RefreshSound m old new type callers s)
    (hcallers : s'.callers = Function.update s.callers i c)
    (hsecrets : s'.secrets = s.secrets) (hrecreated : s'.recreated = s.recreated)
    (hpasses : s'.passes = s.passes)
    (hlock : ∀ j ≠ i, s'.credentialRefreshLock = some j ↔ s.credentialRefreshLock = some j)
    (hrefreshing : Before old s → ∀ left refreshed,
      (s.callers i).stage = .refreshing left refreshed →
        ∃ left refreshed, c.stage = .refreshing left refreshed)
    (hself : CallerSound m old new type callers s' i) :
    RefreshSound m old new type callers s' := by
  have hother : ∀ j ≠ i, s'.callers j = s.callers j := by
    intro j hj
    rw [hcallers, Function.update_of_ne hj]
  refine ⟨?_, ?_, ?_⟩
  · have hphase := hsound.phase
    unfold Before After at hphase ⊢
    rwa [hsecrets, hrecreated, hpasses]
  · intro hbefore
    rw [hpasses]
    have hbefore' : Before old s := by
      unfold Before at hbefore ⊢
      rwa [← hsecrets, ← hrecreated]
    refine (hsound.passes hbefore').imp_right ?_
    rintro ⟨j, left, refreshed, hstage⟩
    by_cases hj : j = i
    · subst hj
      obtain ⟨left', refreshed', hstage'⟩ := hrefreshing hbefore' left refreshed hstage
      exact ⟨j, left', refreshed', by rw [hcallers, Function.update_self]; exact hstage'⟩
    · exact ⟨j, left, refreshed, by rw [hother j hj]; exact hstage⟩
  · intro j
    by_cases hj : j = i
    · subst hj
      exact hself
    · exact (hsound.callers j).congr (hother j hj) (hlock j hj)
        ((hsound.callers j).stage.congr hsecrets hrecreated hpasses)

theorem RefreshSound.setStage {stage : Stage} (hsound : RefreshSound m old new type callers s)
    (hactive : ∀ result, (s.callers i).stage ≠ .returned result)
    (hholds : holdsLock stage = holdsLock (s.callers i).stage)
    (hrefreshing : Before old s → ∀ left refreshed,
      (s.callers i).stage = .refreshing left refreshed →
        ∃ left refreshed, stage = .refreshing left refreshed)
    (hstage : StageSound m old new type s (callers i) { (s.callers i) with stage }) :
    RefreshSound m old new type callers (s.setStage i stage) := by
  refine hsound.move rfl rfl rfl rfl (fun _ _ => Iff.rfl) hrefreshing ?_
  apply (hsound.callers i).advance _ (Function.update_self ..) hactive
  · rw [hholds]
    exact (hsound.callers i).owner
  · exact hstage.congr rfl rfl rfl

theorem RefreshSound.install {h : S3FileHandle} (hsound : RefreshSound m old new type callers s)
    (hrefreshing : ∀ left refreshed, (s.callers i).stage ≠ .refreshing left refreshed)
    (hafter : After new s) (hinstalled : Installed m new (callers i).handle h) :
    RefreshSound m old new type callers
      (s.leave i { (s.callers i) with handle := h, stage := .returned true }) := by
  have hold := hsound.callers i
  refine hsound.move rfl rfl rfl rfl ?_ ?_ ?_
  · intro j hj
    simp only [ClientContext.leave]
    split
    · rename_i howner
      constructor
      · nofun
      · intro hj'
        rw [howner] at hj'
        exact absurd (Option.some.inj hj').symm hj
    · exact Iff.rfl
  · intro _ left refreshed hstage
    exact absurd hstage (hrefreshing left refreshed)
  · refine ⟨?_, ?_, ?_, ?_, ?_, ?_⟩
    · simp only [ClientContext.leave, Function.update_self]
      exact hold.data
    · simp only [ClientContext.leave, Function.update_self]
      exact hold.enabled
    · simp only [ClientContext.leave, Function.update_self]
      exact hold.context
    · simp only [ClientContext.leave, Function.update_self]
      intro hnot
      exact absurd rfl (hnot true)
    · simp only [ClientContext.leave, Function.update_self]
      constructor
      · nofun
      · intro howner
        split at howner
        · cases howner
        · rename_i hother
          exact absurd howner hother
    · simp only [ClientContext.leave, Function.update_self]
      exact ⟨rfl, hafter, hinstalled⟩

theorem RefreshSound.path (hsound : RefreshSound m old new type callers s)
    (hactive : ∀ result, (s.callers i).stage ≠ .returned result) :
    (s.callers i).handle = (callers i).handle ∧ (s.callers i).data = (callers i).data :=
  ⟨(hsound.callers i).handle hactive, (hsound.callers i).data⟩

theorem RefreshSound.enter (hstale : ∀ i, Stale m old new type (callers i))
    (hsound : RefreshSound m old new type callers s) (hentered : (s.callers i).stage = .entered)
    (hstep : step m s i = some s') : RefreshSound m old new type callers s' := by
  have hactive : ∀ result, (s.callers i).stage ≠ .returned result := by
    rw [hentered]
    nofun
  obtain ⟨hhandle, hdata⟩ := hsound.path hactive
  have hheld : ¬ ((s.callers i).handle.authParams ≠ (s.callers i).data.authParams ∨
      snapshotRefreshableHTTPParams (s.callers i).handle.httpParams ≠
        (s.callers i).data.refreshableHttpParams) := by
    rw [hhandle, hdata]
    rintro (hne | hne)
    · exact hne (hstale i).heldAuth
    · exact hne (hstale i).heldHttp
  simp only [step, hentered, (hsound.callers i).enabled, (hsound.callers i).context, hheld,
    Bool.not_true, Bool.false_eq_true, if_false, Option.some.injEq] at hstep
  subst hstep
  apply hsound.setStage hactive
  · rw [hentered]
    rfl
  · rw [hentered]
    nofun
  · trivial

theorem RefreshSound.read (hstale : ∀ i, Stale m old new type (callers i))
    (hsound : RefreshSound m old new type callers s) (i : Fin n) :
    ∃ authParams, readS3AuthParams m.toSecrets s.secrets (callers i).handle.path =
        .ok authParams ∧
      ((Before old s ∧ authParams = (callers i).data.authParams) ∨
        (After new s ∧
          readS3AuthParams m.toSecrets new (callers i).handle.path = .ok authParams)) := by
  rcases hsound.phase with hbefore | hafter
  · refine ⟨(callers i).data.authParams, ?_, .inl ⟨hbefore, rfl⟩⟩
    rw [hbefore.2]
    exact (hstale i).oldAuth
  · obtain ⟨authParams, hread, -⟩ := (hstale i).renewed
    refine ⟨authParams, ?_, .inr ⟨hafter, hread⟩⟩
    rw [hafter.2.1]
    exact hread

theorem RefreshSound.startReload {reload : Reload}
    (hstale : ∀ i, Stale m old new type (callers i))
    (hsound : RefreshSound m old new type callers s)
    (hreloading : (s.callers i).stage = .reloading reload) (hstep : step m s i = some s') :
    RefreshSound m old new type callers s' := by
  have hactive : ∀ result, (s.callers i).stage ≠ .returned result := by
    rw [hreloading]
    nofun
  obtain ⟨hhandle, -⟩ := hsound.path hactive
  obtain ⟨authParams, hread, hknown⟩ := hsound.read hstale i
  simp only [step, hreloading, hhandle, hread, Option.some.injEq] at hstep
  subst hstep
  apply hsound.setStage hactive
  · rw [hreloading]
    rfl
  · rw [hreloading]
    nofun
  · cases reload with
    | beforeLock => exact hknown.imp_right fun hnew => ⟨hnew.1, .inl hnew.2⟩
    | underLock => exact hread
    | afterRefresh =>
        have hafter : After new s := by
          have hstage := (hsound.callers i).stage
          unfold StageSound at hstage
          rwa [hreloading] at hstage
        refine ⟨hafter, ?_⟩
        rw [hafter.2.1] at hread
        exact hread

theorem Before.not_after (hbefore : Before old s) : ¬ After new s := by
  intro hafter
  have hlength := hafter.1
  rw [hbefore.1] at hlength
  cases hlength

theorem RefreshSound.alone (hsound : RefreshSound m old new type callers s) {j : Fin n}
    (hi : holdsLock (s.callers i).stage = true) (hj : holdsLock (s.callers j).stage = true) :
    j = i := by
  have howner := (hsound.callers i).owner.mp hi
  rw [(hsound.callers j).owner.mp hj] at howner
  exact Option.some.inj howner

theorem StageSound.startPass {c₀ c : Caller} (hstage : StageSound m old new type s c₀ c)
    (hbefore : Before old s)
    (hrefreshing : ∀ left refreshed, c.stage ≠ .refreshing left refreshed)
    (hsecrets : s'.secrets = s.secrets) (hrecreated : s'.recreated = s.recreated) :
    StageSound m old new type s' c₀ c := by
  have hnot : ¬ After new s := hbefore.not_after
  have hbefore' : Before old s' := by
    unfold Before
    rw [hsecrets, hrecreated]
    exact hbefore
  unfold StageSound at hstage ⊢
  split at hstage
  · trivial
  · trivial
  · trivial
  · trivial
  · exact absurd hstage hnot
  · rcases hstage with ⟨-, hauth⟩ | ⟨hafter, -⟩
    · exact .inl ⟨hbefore', hauth⟩
    · exact absurd hafter hnot
  · rwa [hsecrets]
  · exact absurd hstage.1 hnot
  · rename_i hcase
    exact absurd hcase (hrefreshing _ _)
  · exact absurd hstage.2.1 hnot
  · exact hstage
  · exact hstage

theorem RefreshSound.startPass {authParams : S3AuthParams}
    (hsound : RefreshSound m old new type callers s)
    (hreading : (s.callers i).stage = .reading .underLock authParams) (hbefore : Before old s) :
    RefreshSound m old new type callers (afterReload s i .underLock) := by
  have hactive : ∀ result, (s.callers i).stage ≠ .returned result := by
    rw [hreading]
    nofun
  have hholds : holdsLock (s.callers i).stage = true := by
    rw [hreading]
    rfl
  have hidle : ∀ j left refreshed, (s.callers j).stage ≠ .refreshing left refreshed := by
    intro j left refreshed hstage
    have hj : j = i := hsound.alone hholds (by rw [hstage]; rfl)
    rw [hj, hreading] at hstage
    cases hstage
  have hpasses : s.passes = 0 := by
    rcases hsound.passes hbefore with hzero | ⟨j, left, refreshed, hstage⟩
    · exact hzero
    · exact absurd hstage (hidle j left refreshed)
  refine ⟨.inl hbefore, ?_, ?_⟩
  · intro _
    refine .inr ⟨i, secretTypes, false, ?_⟩
    simp [afterReload, ClientContext.setStage]
  · intro j
    by_cases hj : j = i
    · subst hj
      apply (hsound.callers j).advance _ (Function.update_self ..) hactive
      · have howner := (hsound.callers j).owner
        rw [hholds] at howner
        exact howner
      · refine ⟨?_, by decide, .inl ⟨rfl, hbefore, ?_⟩⟩
        · show s.passes + 1 = 1
          rw [hpasses]
        · cases type with
          | _ => decide
    · refine (hsound.callers j).congr (Function.update_of_ne hj ..) Iff.rfl ?_
      exact (hsound.callers j).stage.startPass hbefore (hidle j) rfl rfl

theorem RefreshSound.endReload {reload : Reload} {authParams : S3AuthParams}
    (hstale : ∀ i, Stale m old new type (callers i))
    (hsound : RefreshSound m old new type callers s)
    (hreading : (s.callers i).stage = .reading reload authParams)
    (hstep : step m s i = some s') : RefreshSound m old new type callers s' := by
  have hactive : ∀ result, (s.callers i).stage ≠ .returned result := by
    rw [hreading]
    nofun
  obtain ⟨hhandle, hdata⟩ := hsound.path hactive
  -- what is read after the refresh differs from the handle, and is installed
  have hnew : After new s →
      readS3AuthParams m.toSecrets new (callers i).handle.path = .ok authParams →
        RefreshSound m old new type callers s' := by
    intro hafter hread
    obtain ⟨h, hreload, hinstalled⟩ := reload_of_new (hstale i) hread
    rw [← hafter.2.1] at hreload
    simp only [step, hreading, hhandle, hdata, hreload, Option.some.injEq] at hstep
    subst hstep
    rw [← hdata]
    apply hsound.install
    · rw [hreading]
      nofun
    · exact hafter
    · exact hinstalled
  -- what is read before the refresh is what the handle has
  have hsame : authParams = (callers i).data.authParams →
      readRefreshableHTTPParams m.toSecrets s.secrets (callers i).handle.path =
        (callers i).data.refreshableHttpParams →
        s' = afterReload s i reload := by
    rintro rfl hhttp
    have hreload := reload_of_old (hstale i) hhttp
    simp only [step, hreading, hhandle, hdata, hreload, Option.some.injEq] at hstep
    exact hstep.symm
  have hold : Before old s → readRefreshableHTTPParams m.toSecrets s.secrets
      (callers i).handle.path = (callers i).data.refreshableHttpParams := by
    intro hbefore
    rw [hbefore.2]
    exact (hstale i).oldHttp
  have hstage := (hsound.callers i).stage
  unfold StageSound at hstage
  rw [hreading] at hstage
  cases reload with
  | beforeLock =>
      have hwait : s' = s.setStage i .waiting → RefreshSound m old new type callers s' := by
        rintro rfl
        apply hsound.setStage hactive
        · rw [hreading]
          rfl
        · rw [hreading]
          nofun
        · trivial
      rcases hstage with ⟨hbefore, hauth⟩ | ⟨hafter, hread | ⟨hauth, hhttp⟩⟩
      · exact hwait (hsame hauth (hold hbefore))
      · exact hnew hafter hread
      · apply hwait (hsame hauth _)
        rw [hafter.2.1]
        exact hhttp
  | underLock =>
      rcases hsound.phase with hbefore | hafter
      · have hauth : authParams = (callers i).data.authParams := by
          have hread := (hstale i).oldAuth
          rw [← hbefore.2, hstage] at hread
          exact Except.ok.inj hread
        rw [hsame hauth (hold hbefore)]
        exact hsound.startPass hreading hbefore
      · rw [hafter.2.1] at hstage
        exact hnew hafter hstage
  | afterRefresh => exact hnew hstage.1 hstage.2

theorem RefreshSound.takeLock (hsound : RefreshSound m old new type callers s)
    (hwaiting : (s.callers i).stage = .waiting) (hstep : step m s i = some s') :
    RefreshSound m old new type callers s' := by
  have hactive : ∀ result, (s.callers i).stage ≠ .returned result := by
    rw [hwaiting]
    nofun
  simp only [step, hwaiting] at hstep
  split at hstep
  · rename_i hfree
    cases hstep
    refine hsound.move rfl rfl rfl rfl ?_ ?_ ?_
    · intro j hj
      rw [hfree]
      constructor
      · intro howner
        exact absurd (Option.some.inj howner).symm hj
      · nofun
    · rw [hwaiting]
      nofun
    · apply (hsound.callers i).advance _ (Function.update_self ..) hactive
      · exact ⟨fun _ => rfl, fun _ => rfl⟩
      · trivial
  · cases hstep

theorem StageSound.recreate {c₀ c : Caller} (hstage : StageSound m old new type s c₀ c)
    (hstale : Stale m old new type c₀)
    (hhandle : (∀ result, c.stage ≠ .returned result) → c.handle = c₀.handle)
    (hbefore : Before old s) (hafter : After new s') (hfree : holdsLock c.stage = false)
    (huntorn : Consistent m s.secrets s'.secrets c) : StageSound m old new type s' c₀ c := by
  have hnot : ¬ After new s := hbefore.not_after
  unfold StageSound at hstage ⊢
  split at hstage
  · trivial
  · trivial
  · trivial
  · trivial
  · exact absurd hstage hnot
  · rename_i authParams hcase
    rcases hstage with ⟨-, rfl⟩ | ⟨hafter', -⟩
    · refine .inr ⟨hafter, ?_⟩
      unfold Consistent at huntorn
      rw [hcase] at huntorn hhandle
      simp only [hhandle nofun, hafter.2.1, hbefore.2, hstale.oldHttp] at huntorn
      exact huntorn.imp_right fun hhttp => ⟨rfl, hhttp⟩
    · exact absurd hafter' hnot
  · rename_i hcase
    rw [hcase] at hfree
    cases hfree
  · exact absurd hstage.1 hnot
  · rename_i hcase
    rw [hcase] at hfree
    cases hfree
  · exact absurd hstage.2.1 hnot
  · exact hstage
  · exact hstage

theorem RefreshSound.pass {left : List SecretType} {refreshed : Bool}
    (hsound : RefreshSound m old new type callers s)
    (hrefreshing : (s.callers i).stage = .refreshing left refreshed) :
    s.passes = 1 ∧ left.Nodup ∧ ((refreshed = false ∧ Before old s ∧ type ∈ left) ∨
      (refreshed = true ∧ After new s ∧ type ∉ left)) := by
  have hstage := (hsound.callers i).stage
  unfold StageSound at hstage
  rwa [hrefreshing] at hstage

theorem not_returned_of_refreshing {left : List SecretType} {refreshed : Bool}
    (hrefreshing : (s.callers i).stage = .refreshing left refreshed) (result : Bool) :
    (s.callers i).stage ≠ .returned result := by
  rw [hrefreshing]
  nofun

theorem RefreshSound.endPass {refreshed : Bool} (hsound : RefreshSound m old new type callers s)
    (hrefreshing : (s.callers i).stage = .refreshing [] refreshed)
    (hstep : step m s i = some s') : RefreshSound m old new type callers s' := by
  obtain ⟨-, -, hprogress⟩ := hsound.pass hrefreshing
  rcases hprogress with ⟨-, -, hmem⟩ | ⟨rfl, hafter, -⟩
  · cases hmem
  · simp only [step, hrefreshing, if_true, Option.some.injEq] at hstep
    subst hstep
    apply hsound.setStage (not_returned_of_refreshing hrefreshing)
    · rw [hrefreshing]
      rfl
    · intro hbefore
      exact absurd hafter hbefore.not_after
    · exact hafter

/-- The refresh creates the secret of this type again, once in the pass. -/
theorem RefreshSound.recreate {left : List SecretType} {refreshed : Bool}
    (hstale : ∀ i, Stale m old new type (callers i))
    (hsound : RefreshSound m old new type callers s) (huntorn : Untorn m s i)
    (hrefreshing : (s.callers i).stage = .refreshing (type :: left) refreshed)
    (hbefore : Before old s) (hstep : step m s i = some s') :
    RefreshSound m old new type callers s' := by
  have hactive := not_returned_of_refreshing hrefreshing
  have hholds : holdsLock (s.callers i).stage = true := by
    rw [hrefreshing]
    rfl
  obtain ⟨hhandle, -⟩ := hsound.path hactive
  obtain ⟨hpasses, hnodup, -⟩ := hsound.pass hrefreshing
  rw [List.nodup_cons] at hnodup
  obtain ⟨secret, refreshInfo, hlookup, hinfo, hcreate⟩ := (hstale i).secret.recreated
  simp only [step, hrefreshing, hhandle, hbefore.2, hlookup, tryRefreshS3Secret, hinfo,
    hcreate, hbefore.1, Option.some.injEq, List.nil_append, Option.isSome_some,
    Bool.or_true, Option.toList_some] at hstep
  have hafter : After new s' := by
    subst hstep
    exact ⟨rfl, rfl, hpasses⟩
  have huntorn' := huntorn s' (by
    rw [Option.mem_def, ← hstep]
    simp only [step, hrefreshing, hhandle, hbefore.2, hlookup, tryRefreshS3Secret, hinfo,
      hcreate, hbefore.1, List.nil_append, Option.isSome_some, Bool.or_true,
      Option.toList_some])
  refine ⟨.inr hafter, ?_, ?_⟩
  · intro hbefore'
    exact absurd hafter hbefore'.not_after
  · intro j
    have hlock : s'.credentialRefreshLock = s.credentialRefreshLock := by
      subst hstep
      rfl
    by_cases hj : j = i
    · subst hj
      apply (hsound.callers j).advance (.refreshing left true) _ hactive
      · rw [hlock]
        have howner := (hsound.callers j).owner
        rw [hholds] at howner
        exact howner
      · exact ⟨hafter.2.2, hnodup.2, .inr ⟨rfl, hafter, hnodup.1⟩⟩
      · subst hstep
        exact Function.update_self ..
    -- the refresh runs under the lock, so no other caller is inside
    · have hfree : holdsLock (s.callers j).stage = false := by
        by_contra hheld
        exact hj (hsound.alone hholds (by simpa using hheld))
      refine (hsound.callers j).congr ?_ (by rw [hlock]) ?_
      · subst hstep
        exact Function.update_of_ne hj ..
      · exact (hsound.callers j).stage.recreate (hstale j) (hsound.callers j).handle
          hbefore hafter hfree (huntorn' j)

/-- Of every other type there is nothing to create. -/
theorem RefreshSound.skip {next : SecretType} {left : List SecretType} {refreshed : Bool}
    (hstale : ∀ i, Stale m old new type (callers i))
    (hsound : RefreshSound m old new type callers s)
    (hrefreshing : (s.callers i).stage = .refreshing (next :: left) refreshed)
    (hnext : ¬ (next = type ∧ Before old s)) (hstep : step m s i = some s') :
    RefreshSound m old new type callers s' := by
  have hactive := not_returned_of_refreshing hrefreshing
  obtain ⟨hhandle, -⟩ := hsound.path hactive
  obtain ⟨hpasses, hnodup, hprogress⟩ := hsound.pass hrefreshing
  rw [List.nodup_cons] at hnodup
  have hskip : s' = s.setStage i (.refreshing left refreshed) := by
    have hsecrets : s.secrets = old ∨ s.secrets = new :=
      hsound.phase.imp (fun h => h.2) (fun h => h.2.1)
    have hother : next ≠ type := by
      rintro rfl
      rcases hprogress with ⟨-, hbefore, -⟩ | ⟨-, -, hmem⟩
      · exact hnext ⟨rfl, hbefore⟩
      · exact hmem (List.mem_cons_self ..)
    have hnone := (hstale i).secret.others next hother s.secrets hsecrets
    simp only [step, hrefreshing, hhandle] at hstep
    split at hstep
    · exact (Option.some.inj hstep).symm
    · rename_i secret hlookup
      simp only [tryRefreshS3Secret, hnone secret hlookup, Option.some.injEq,
        Option.isSome_none, Bool.or_false, Option.toList_none, List.append_nil] at hstep
      exact hstep.symm
  rw [hskip]
  apply hsound.setStage hactive
  · rw [hrefreshing]
    rfl
  · intro _ _ _ _
    exact ⟨left, refreshed, rfl⟩
  · refine ⟨hpasses, hnodup.2, ?_⟩
    rcases hprogress with ⟨hrefreshed, hbefore, hmem⟩ | ⟨hrefreshed, hafter, hmem⟩
    · refine .inl ⟨hrefreshed, hbefore, ?_⟩
      rcases List.mem_cons.mp hmem with rfl | hmem
      · exact absurd ⟨rfl, hbefore⟩ hnext
      · exact hmem
    · exact .inr ⟨hrefreshed, hafter, fun h => hmem (List.mem_cons_of_mem _ h)⟩

theorem RefreshSound.refresh {left : List SecretType} {refreshed : Bool}
    (hstale : ∀ i, Stale m old new type (callers i))
    (hsound : RefreshSound m old new type callers s) (huntorn : Untorn m s i)
    (hrefreshing : (s.callers i).stage = .refreshing left refreshed)
    (hstep : step m s i = some s') : RefreshSound m old new type callers s' := by
  cases left with
  | nil => exact hsound.endPass hrefreshing hstep
  | cons next left =>
      by_cases hnext : next = type ∧ Before old s
      · obtain ⟨rfl, hbefore⟩ := hnext
        exact hsound.recreate hstale huntorn hrefreshing hbefore hstep
      · exact hsound.skip hstale hrefreshing hnext hstep

theorem RefreshSound.step (hstale : ∀ i, Stale m old new type (callers i))
    (hsound : RefreshSound m old new type callers s) (huntorn : Untorn m s i)
    (hstep : CredentialRefresh.step m s i = some s') :
    RefreshSound m old new type callers s' := by
  cases hstage : (s.callers i).stage with
  | entered => exact hsound.enter hstale hstage hstep
  | reloading reload => exact hsound.startReload hstale hstage hstep
  | reading reload authParams => exact hsound.endReload hstale hstage hstep
  | waiting => exact hsound.takeLock hstage hstep
  | refreshing left refreshed => exact hsound.refresh hstale huntorn hstage hstep
  | returned result =>
      simp only [CredentialRefresh.step, hstage] at hstep
      cases hstep
  | threwAuth e =>
      simp only [CredentialRefresh.step, hstage] at hstep
      cases hstep
  | threwRefresh message =>
      simp only [CredentialRefresh.step, hstage] at hstep
      cases hstep

/-- The steps that a caller at the stage has left at most. -/
def stageSteps : Stage → Nat
  | .entered => 13
  | .reloading .beforeLock => 12
  | .reading .beforeLock _ => 11
  | .waiting => 10
  | .reloading .underLock => 9
  | .reading .underLock _ => 8
  | .refreshing left _ => left.length + 3
  | .reloading .afterRefresh => 2
  | .reading .afterRefresh _ => 1
  | .returned _ | .threwAuth _ | .threwRefresh _ => 0

theorem left_of_stageSteps_eq_zero {stage : Stage} (hzero : stageSteps stage = 0) :
    (∃ result, stage = .returned result) ∨ (∃ e, stage = .threwAuth e) ∨
      ∃ message, stage = .threwRefresh message := by
  cases stage with
  | returned result => exact .inl ⟨result, rfl⟩
  | threwAuth e => exact .inr (.inl ⟨e, rfl⟩)
  | threwRefresh message => exact .inr (.inr ⟨message, rfl⟩)
  | reloading reload =>
      cases reload with
      | _ => cases hzero
  | reading reload authParams =>
      cases reload with
      | _ => cases hzero
  | entered => cases hzero
  | waiting => cases hzero
  | refreshing left refreshed => cases hzero

theorem stageSteps_pos_of_holdsLock {stage : Stage} (hholds : holdsLock stage = true) :
    0 < stageSteps stage := by
  rw [Nat.pos_iff_ne_zero]
  intro hzero
  rcases left_of_stageSteps_eq_zero hzero with ⟨_, rfl⟩ | ⟨_, rfl⟩ | ⟨_, rfl⟩
  · cases hholds
  · cases hholds
  · cases hholds

def stepsLeft (s : ClientContext σ n) : Nat :=
  Finset.univ.sum fun i => stageSteps (s.callers i).stage

/-- Only the caller `i` has moved, to a stage with fewer steps left. -/
def Lowered (s : ClientContext σ n) (i : Fin n) (s' : ClientContext σ n) : Prop :=
  (∀ j ≠ i, s'.callers j = s.callers j) ∧
    stageSteps (s'.callers i).stage < stageSteps (s.callers i).stage

theorem lowered_of_update {c : Caller} (hcallers : s'.callers = Function.update s.callers i c)
    (hlower : stageSteps c.stage < stageSteps (s.callers i).stage) : Lowered s i s' := by
  refine ⟨?_, ?_⟩
  · intro j hj
    rw [hcallers, Function.update_of_ne hj]
  · rwa [hcallers, Function.update_self]

theorem lowered_of_step (hstep : CredentialRefresh.step m s i = some s') : Lowered s i s' := by
  cases hstage : (s.callers i).stage with
  | entered =>
      simp only [CredentialRefresh.step, hstage] at hstep
      repeat' split at hstep
      all_goals cases hstep
      all_goals exact lowered_of_update rfl (by simp [hstage, stageSteps])
  | reloading reload =>
      simp only [CredentialRefresh.step, hstage] at hstep
      split at hstep
      · cases hstep
        apply lowered_of_update rfl
        rw [hstage]
        cases reload with
        | _ => simp [stageSteps]
      · cases hstep
        apply lowered_of_update rfl
        rw [hstage]
        cases reload with
        | _ => simp [stageSteps]
  | reading reload authParams =>
      simp only [CredentialRefresh.step, hstage] at hstep
      split at hstep
      · cases hstep
        apply lowered_of_update rfl
        rw [hstage]
        cases reload with
        | _ => simp [stageSteps]
      · cases hstep
        cases reload with
        | beforeLock => exact lowered_of_update rfl (by simp [hstage, stageSteps])
        | underLock => exact lowered_of_update rfl (by simp [hstage, stageSteps, secretTypes])
        | afterRefresh => exact lowered_of_update rfl (by simp [hstage, stageSteps])
  | waiting =>
      simp only [CredentialRefresh.step, hstage] at hstep
      split at hstep
      · cases hstep
        exact lowered_of_update rfl (by simp [hstage, stageSteps])
      · cases hstep
  | refreshing left refreshed =>
      cases left with
      | nil =>
          simp only [CredentialRefresh.step, hstage] at hstep
          split at hstep
          · cases hstep
            exact lowered_of_update rfl (by simp [hstage, stageSteps])
          · cases hstep
            exact lowered_of_update rfl (by simp [hstage, stageSteps])
      | cons next left =>
          simp only [CredentialRefresh.step, hstage] at hstep
          split at hstep
          · cases hstep
            exact lowered_of_update rfl (by simp [hstage, stageSteps])
          · split at hstep
            · cases hstep
              exact lowered_of_update rfl (by simp [hstage, stageSteps])
            · cases hstep
              exact lowered_of_update rfl (by simp [hstage, stageSteps])
  | returned result =>
      simp only [CredentialRefresh.step, hstage] at hstep
      cases hstep
  | threwAuth e =>
      simp only [CredentialRefresh.step, hstage] at hstep
      cases hstep
  | threwRefresh message =>
      simp only [CredentialRefresh.step, hstage] at hstep
      cases hstep

theorem stepsLeft_lt (hstep : CredentialRefresh.step m s i = some s') :
    stepsLeft s' < stepsLeft s := by
  obtain ⟨hother, hlower⟩ := lowered_of_step hstep
  apply Finset.sum_lt_sum
  · intro j _
    by_cases hj : j = i
    · subst hj
      exact Nat.le_of_lt hlower
    · rw [hother j hj]
  · exact ⟨i, Finset.mem_univ i, hlower⟩

theorem length_le_of_run {ok : ClientContext σ n → Fin n → Prop} {labels : List (Fin n)}
    (hrun : Run (CredentialRefresh.step m) ok s labels s') :
    labels.length + stepsLeft s' ≤ stepsLeft s := by
  induction hrun with
  | nil => simp
  | cons _ hstep _ ih =>
      have hlower := stepsLeft_lt hstep
      rw [List.length_cons]
      omega

theorem step_isSome (hlock : (s.callers i).stage = .waiting → s.credentialRefreshLock = none)
    (hactive : 0 < stageSteps (s.callers i).stage) :
    (CredentialRefresh.step m s i).isSome := by
  cases hstage : (s.callers i).stage with
  | entered =>
      simp only [CredentialRefresh.step, hstage]
      repeat' split
      all_goals rfl
  | reloading reload =>
      simp only [CredentialRefresh.step, hstage]
      split
      · rfl
      · rfl
  | reading reload authParams =>
      simp only [CredentialRefresh.step, hstage]
      split
      · rfl
      · rfl
  | waiting => simp [CredentialRefresh.step, hstage, hlock hstage]
  | refreshing left refreshed =>
      cases left with
      | nil =>
          simp only [CredentialRefresh.step, hstage]
          split
          · rfl
          · rfl
      | cons next left =>
          simp only [CredentialRefresh.step, hstage]
          split
          · rfl
          · split
            · rfl
            · rfl
  | returned result => simp [hstage, stageSteps] at hactive
  | threwAuth e => simp [hstage, stageSteps] at hactive
  | threwRefresh message => simp [hstage, stageSteps] at hactive

theorem untorn_of_reading {reload : Reload} {authParams : S3AuthParams}
    (hreading : (s.callers i).stage = .reading reload authParams) : Untorn m s i := by
  intro s' hstep j
  have hsecrets : s'.secrets = s.secrets := by
    rw [Option.mem_def] at hstep
    simp only [CredentialRefresh.step, hreading] at hstep
    split at hstep
    · cases hstep
      rfl
    · cases hstep
      cases reload with
      | _ => rfl
  unfold Consistent
  split
  · exact .inr (by rw [hsecrets])
  · trivial

theorem RefreshSound.progress (hsound : RefreshSound m old new type callers s)
    (hunfinished : 0 < stageSteps (s.callers i).stage) :
    ∃ j, Untorn m s j ∧ (CredentialRefresh.step m s j).isSome := by
  by_cases hreader : ∃ j reload authParams, (s.callers j).stage = .reading reload authParams
  · obtain ⟨j, reload, authParams, hreading⟩ := hreader
    refine ⟨j, untorn_of_reading hreading, step_isSome ?_ ?_⟩
    · rw [hreading]
      nofun
    · rw [hreading]
      cases reload with
      | _ => exact Nat.succ_pos _
  · have huntorn : ∀ j, Untorn m s j := by
      intro j s' _ k
      unfold Consistent
      split
      · rename_i hreading
        exact absurd ⟨k, _, _, hreading⟩ hreader
      · trivial
    cases hlock : s.credentialRefreshLock with
    | none => exact ⟨i, huntorn i, step_isSome (fun _ => hlock) hunfinished⟩
    | some j =>
        have hholds := (hsound.callers j).owner.mpr hlock
        refine ⟨j, huntorn j, step_isSome ?_ ?_⟩
        · intro hwaiting
          rw [hwaiting] at hholds
          cases hholds
        · exact stageSteps_pos_of_holdsLock hholds

theorem refreshSound_start (hstale : ∀ i, Stale m old new type (callers i)) :
    RefreshSound m old new type callers (start old callers) := by
  refine ⟨.inl ⟨rfl, rfl⟩, fun _ => .inl rfl, ?_⟩
  intro i
  have hentered : ((start old callers).callers i).stage = .entered := (hstale i).entered
  refine ⟨rfl, (hstale i).enabled, (hstale i).context, fun _ => rfl, ?_, ?_⟩
  · rw [hentered]
    exact ⟨nofun, nofun⟩
  · unfold StageSound
    rw [hentered]
    trivial

/-- One pass over the secret provider, one secret re-created, and every call has
returned true with the new material in its handle. -/
structure RefreshedOnce (m : SecretManager σ) (new : σ) (callers : Fin n → Caller)
    (s : ClientContext σ n) : Prop where
  passes : s.passes = 1
  recreated : s.recreated.length = 1
  returned : ∀ i, (s.callers i).stage = .returned true ∧
    Installed m new (callers i).handle (s.callers i).handle

/-- Single flight: however the calls interleave, they end after a bounded number of
steps, and when none can step any more they have refreshed once. -/
theorem refreshedOnce {labels : List (Fin n)} (hsome : 0 < n)
    (hstale : ∀ i, Stale m old new type (callers i))
    (hrun : Run (CredentialRefresh.step m) (Untorn m) (start old callers) labels s) :
    labels.length ≤ 13 * n ∧
      ((∀ i, Untorn m s i → CredentialRefresh.step m s i = none) →
        RefreshedOnce m new callers s) := by
  constructor
  · have hlength := length_le_of_run hrun
    have hstart : stepsLeft (start old callers) = 13 * n := by
      unfold stepsLeft
      rw [Finset.sum_congr rfl fun i _ => by
        rw [show ((start old callers).callers i).stage = .entered from (hstale i).entered]]
      simp [stageSteps, Nat.mul_comm]
    omega
  · intro hsettled
    have hsound : RefreshSound m old new type callers s :=
      hrun.invariant (RefreshSound m old new type callers)
        (fun _ _ _ hs hok hstep => hs.step hstale hok hstep) (refreshSound_start hstale)
    have hreturned : ∀ i, (s.callers i).stage = .returned true ∧ After new s ∧
        Installed m new (callers i).handle (s.callers i).handle := by
      intro i
      have hfinished : stageSteps (s.callers i).stage = 0 := by
        by_contra hunfinished
        obtain ⟨j, huntorn, hsome⟩ := hsound.progress (Nat.pos_of_ne_zero hunfinished)
        rw [hsettled j huntorn] at hsome
        cases hsome
      have hstage := (hsound.callers i).stage
      unfold StageSound at hstage
      rcases left_of_stageSteps_eq_zero hfinished with ⟨result, hcase⟩ | ⟨e, hcase⟩ | ⟨e, hcase⟩
      · rw [hcase] at hstage
        obtain ⟨rfl, hafter, hinstalled⟩ := hstage
        exact ⟨hcase, hafter, hinstalled⟩
      · rw [hcase] at hstage
        exact hstage.elim
      · rw [hcase] at hstage
        exact hstage.elim
    have hafter := (hreturned ⟨0, hsome⟩).2.1
    exact ⟨hafter.2.2, hafter.1, fun i => ⟨(hreturned i).1, (hreturned i).2.2⟩⟩

/-- A secret manager whose one secret says `old` until it is re-created, then `new`;
its key `token` is the HTTP bearer token. -/
def rotating (old new : Bytes → Option Bytes) : SecretManager Bool where
  reader renewed _ :=
    { text := fun key _ => ((if renewed then new key else old key).map fun value =>
        (.secret, some value))
      flag := fun _ _ => none
      secretText := fun _ => none }
  initializeParameters renewed _ :=
    { bearerToken := ((if renewed then new else old) (bytes "token")).getD [] }
  parseGetParameters _ := []
  lookupSecret _ _ type :=
    if type = .s3 then
      some { name := bytes "s", type := .s3, provider := bytes "config", scope := []
             storageMode := bytes "memory", persistType := bytes "temporary"
             refreshInfo := some [] }
    else none
  createSecret _ _ := .ok true

def keyOf (keyId region token : String) (key : Bytes) : Option Bytes :=
  if key = bytes "key_id" then some (bytes keyId)
  else if key = bytes "region" then some (bytes region)
  else if key = bytes "token" then some (bytes token)
  else none

/-- A request on `s3://b/k` that failed with what its handle has. -/
def failedWith (authParams : S3AuthParams) (regionRedirected : Bool) : Caller where
  handle := { path := bytes "s3://b/k", authParams, httpParams := {}, regionRedirected }
  data :=
    { authParams, refreshableHttpParams := {}, sourceUrl := bytes "s3://b/k", material := 0
      parsedS3Url :=
        { httpProto := bytes "https://", urlPrefix := bytes "s3://", host := authParams.endpoint
          bucket := bytes "b", key := bytes "k", path := bytes "/b/k", queryParam := []
          trimmedS3Url := bytes "s3://b/k" } }

def usEast : S3AuthParams :=
  { accessKeyId := bytes "A", region := bytes "us"
    endpoint := bytes "s3.us.amazonaws.com" }

theorem stale_failedWith (new : Bytes → Option Bytes)
    (hold : readS3AuthParams (rotating (keyOf "A" "us" "") new).toSecrets false
      (bytes "s3://b/k") = .ok usEast)
    (hnew : readS3AuthParams (rotating (keyOf "A" "us" "") new).toSecrets true
      (bytes "s3://b/k") = .ok { usEast with accessKeyId := bytes "B" }) :
    Stale (rotating (keyOf "A" "us" "") new) false true .s3 (failedWith usEast false) where
  entered := rfl
  enabled := rfl
  context := rfl
  heldAuth := rfl
  heldHttp := rfl
  oldAuth := hold
  oldHttp := rfl
  renewed := ⟨_, hnew, .inl (by decide +kernel)⟩
  secret :=
    { recreated := ⟨_, _, rfl, rfl, rfl⟩
      others := by
        intro type' hother secrets _ secret hlookup
        simp [rotating, hother] at hlookup }

/-- Two callers, the second of which reloads before and after the first refreshes. -/
theorem refreshedOnce_two_callers :
    ∃ s labels, Run (CredentialRefresh.step (rotating (keyOf "A" "us" "") (keyOf "B" "us" "")))
        (Untorn (rotating (keyOf "A" "us" "") (keyOf "B" "us" "")))
        (start false fun _ : Fin 2 => failedWith usEast false) labels s ∧
      RefreshedOnce (rotating (keyOf "A" "us" "") (keyOf "B" "us" "")) true
        (fun _ : Fin 2 => failedWith usEast false) s := by
  have hexec : (exec (guarded
        (CredentialRefresh.step (rotating (keyOf "A" "us" "") (keyOf "B" "us" "")))
        (Untorn (rotating (keyOf "A" "us" "") (keyOf "B" "us" ""))))
      (start false fun _ : Fin 2 => failedWith usEast false)
      [0, 0, 0, 0, 1, 1, 1, 0, 0, 0, 0, 0, 0, 0, 0, 0, 1, 1, 1]).map
      (fun s => decide (∀ i, (s.callers i).stage = .returned true)) = some true := by
    decide +kernel
  obtain ⟨s, hs, hstages⟩ := Option.map_eq_some_iff.mp hexec
  have hrun := run_of_exec_guarded hs
  have hstale := stale_failedWith (keyOf "B" "us" "") (by decide +kernel) (by decide +kernel)
  refine ⟨s, _, hrun, (refreshedOnce (by decide) (fun _ => hstale) hrun).2 ?_⟩
  intro i _
  simp [CredentialRefresh.step, of_decide_eq_true hstages i]

/-- On a redirected handle the region of the new secret is not taken over: a secret
that changes nothing else is re-created and the call returns false. And a reload
whose two reads fall on either side of the re-creation returns true with the old key
and the new token. -/
theorem not_single_flight :
    (∃ s labels, Run (CredentialRefresh.step (rotating (keyOf "A" "us" "") (keyOf "A" "eu" "")))
        Unrestricted (start false fun _ : Fin 1 => failedWith usEast true) labels s ∧
      readS3AuthParams (rotating (keyOf "A" "us" "") (keyOf "A" "eu" "")).toSecrets false
        (bytes "s3://b/k") = .ok usEast ∧
      readS3AuthParams (rotating (keyOf "A" "us" "") (keyOf "A" "eu" "")).toSecrets true
        (bytes "s3://b/k") ≠ .ok usEast ∧
      s.passes = 1 ∧ (s.callers 0).stage = .returned false) ∧
    ∃ s labels, Run (CredentialRefresh.step (rotating (keyOf "A" "us" "") (keyOf "B" "us" "T")))
        Unrestricted (start false fun _ : Fin 2 => failedWith usEast false) labels s ∧
      Stale (rotating (keyOf "A" "us" "") (keyOf "B" "us" "T")) false true .s3
        (failedWith usEast false) ∧
      (s.callers 1).stage = .returned true ∧ (s.callers 1).handle.authParams = usEast := by
  constructor
  · have hexec : (exec
        (CredentialRefresh.step (rotating (keyOf "A" "us" "") (keyOf "A" "eu" "")))
        (start false fun _ : Fin 1 => failedWith usEast true)
        [0, 0, 0, 0, 0, 0, 0, 0, 0, 0, 0, 0, 0]).map
        (fun s => (s.passes, (s.callers 0).stage)) = some (1, .returned false) := by
      decide +kernel
    obtain ⟨s, hs, hstate⟩ := Option.map_eq_some_iff.mp hexec
    obtain ⟨hpasses, hstage⟩ := Prod.mk.inj hstate
    exact ⟨s, _, run_of_exec hs, by decide +kernel, by decide +kernel, hpasses, hstage⟩
  · have hexec : (exec
        (CredentialRefresh.step (rotating (keyOf "A" "us" "") (keyOf "B" "us" "T")))
        (start false fun _ : Fin 2 => failedWith usEast false)
        [1, 1, 0, 0, 0, 0, 0, 0, 0, 0, 0, 0, 0, 0, 0, 1]).map
        (fun s => ((s.callers 1).stage, (s.callers 1).handle.authParams)) =
          some (.returned true, usEast) := by
      decide +kernel
    obtain ⟨s, hs, hstate⟩ := Option.map_eq_some_iff.mp hexec
    obtain ⟨hstage, hauth⟩ := Prod.mk.inj hstate
    have hstale := stale_failedWith (keyOf "B" "us" "T") (by decide +kernel) (by decide +kernel)
    exact ⟨s, _, run_of_exec hs, hstale, hstage, hauth⟩

end HaybarnHttpfs.CredentialRefresh
