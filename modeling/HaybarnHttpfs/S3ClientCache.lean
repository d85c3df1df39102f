import HaybarnHttpfs.Foundation.TransitionRuns
import HaybarnHttpfs.S3Url
import Mathlib.Logic.Function.Basic

/-!
Reading threads of one S3 handle and the `HTTPClientCache` they share. The
handle's mutex covers the snapshot a request is built from and the switch to
other material; the cache has a lock of its own, so the checkout, the store and
`Clear` are separate steps.
-/

namespace HaybarnHttpfs.S3ClientCache

open HaybarnHttpfs.Foundation.ByteStrings HaybarnHttpfs.Foundation.TransitionRuns
open HaybarnHttpfs.S3Auth HaybarnHttpfs.S3Url

/-- What a connection is made for: `proto_host_port` and the HTTP parameters. -/
structure Target where
  protoHostPort : Bytes
  httpParams : S3RefreshableHTTPParams
  deriving DecidableEq, Repr

/-- `material` counts the `Clear` calls before the snapshot the client was
created from. -/
structure HTTPClient where
  target : Target
  material : Nat
  deriving DecidableEq, Repr

structure HTTPClientCache where
  clients : List HTTPClient := []
  generation : Nat := 0
  deriving DecidableEq, Repr

structure Entry where
  client : Option HTTPClient
  generation : Nat
  deriving DecidableEq, Repr

def getClientWithGeneration (cache : HTTPClientCache) : Entry × HTTPClientCache :=
  ({ client := cache.clients.getLast?, generation := cache.generation },
    { cache with clients := cache.clients.dropLast })

/-- `StoreClient(Entry &)`: a client that it refuses is closed by the caller. -/
def storeClient (entry : Entry) (cache : HTTPClientCache) : HTTPClientCache × Bool :=
  match entry.client with
  | none => (cache, true)
  | some client =>
      if entry.generation ≠ cache.generation then (cache, false)
      else ({ cache with clients := cache.clients ++ [client] }, true)

def clear (cache : HTTPClientCache) : HTTPClientCache :=
  { clients := [], generation := cache.generation + 1 }

structure S3RequestData where
  authParams : S3AuthParams
  refreshableHttpParams : S3RefreshableHTTPParams
  sourceUrl : Bytes
  parsedS3Url : ParsedS3Url
  material : Nat
  deriving DecidableEq, Repr

def S3RequestData.target (request : S3RequestData) : Target :=
  { protoHostPort := request.parsedS3Url.protoHostPort
    httpParams := request.refreshableHttpParams }

/-- Where a thread stands in `RunS3HandleRequestWithAuthRefresh`. `answered`
covers a response and an exception alike: both may lead to a refresh or to a
region redirect, judged by the parameters of the request. -/
inductive Phase where
  | idle
  | prepared (request : S3RequestData)
  | sending (request : S3RequestData) (entry : Entry)
  | responded (request : S3RequestData) (entry : Entry)
  | answered (request : S3RequestData)
  deriving DecidableEq, Repr

/-- `mu` names the thread that has replaced the material but not yet called
`Clear`; every other critical section of the handle's mutex is one step. -/
structure S3FileHandle where
  path : Bytes
  authParams : S3AuthParams
  httpParams : HTTPFSParams
  regionRedirected : Bool := false
  mu : Option Nat := none
  clientCache : HTTPClientCache := {}
  threads : Nat → Phase := fun _ => .idle

def createS3HandleRequestData (h : S3FileHandle) : Except S3UrlError S3RequestData := do
  let parsedS3Url ← s3UrlParse h.path h.authParams
  return {
    authParams := h.authParams
    refreshableHttpParams := snapshotRefreshableHTTPParams h.httpParams
    sourceUrl := h.path
    parsedS3Url
    material := h.clientCache.generation }

/-- `HTTPUtil::Request`: a supplied client is used as it is, otherwise one is
created from the request's own parameters. -/
def request (data : S3RequestData) (client : Option HTTPClient) : HTTPClient :=
  client.getD { target := data.target, material := data.material }

def preserveRegion (h : S3FileHandle) (reloaded : S3AuthParams) : S3AuthParams :=
  if h.regionRedirected && !h.authParams.region.isEmpty &&
      reloaded.region ≠ h.authParams.region then
    reloaded.setRegion h.authParams.region
  else reloaded

/-- `ReloadS3AuthMaterial` up to `Clear`, given what the secrets now say; `none`
if they say what the failed request already used. -/
def reloadS3AuthMaterial (h : S3FileHandle) (data : S3RequestData)
    (reloadedAuthParams : S3AuthParams) (reloadedHttpParams : HTTPFSParams) :
    Option S3FileHandle :=
  let reloadedAuthParams := preserveRegion h reloadedAuthParams
  let reloadedHttpParams := snapshotRefreshableHTTPParams reloadedHttpParams
  if reloadedAuthParams = data.authParams ∧
      reloadedHttpParams = data.refreshableHttpParams then none
  else some { h with
    authParams := reloadedAuthParams
    httpParams := applyRefreshableHTTPParams reloadedHttpParams }

inductive Label where
  | prepare (t : Nat)
  | checkout (t : Nat)
  | respond (t : Nat)
  | throwRequest (t : Nat)
  | store (t : Nat)
  | finish (t : Nat)
  | tryRefresh (t : Nat) (authParams : S3AuthParams) (httpParams : HTTPFSParams)
  | setRegion (t : Nat) (region : Bytes)
  | clear (t : Nat)

def S3FileHandle.setPhase (h : S3FileHandle) (t : Nat) (phase : Phase) : S3FileHandle :=
  { h with threads := Function.update h.threads t phase }

def step (h : S3FileHandle) : Label → Option S3FileHandle
  | .prepare t =>
      match h.mu, h.threads t, createS3HandleRequestData h with
      | none, .idle, .ok data => some (h.setPhase t (.prepared data))
      | none, .idle, .error _ => some h
      | _, _, _ => none
  | .checkout t =>
      match h.threads t with
      | .prepared data =>
          let (entry, cache) := getClientWithGeneration h.clientCache
          some ({ h with clientCache := cache }.setPhase t (.sending data entry))
      | _ => none
  | .respond t =>
      match h.threads t with
      | .sending data entry =>
          let entry := { entry with client := some (request data entry.client) }
          some (h.setPhase t (.responded data entry))
      | _ => none
  | .throwRequest t =>
      match h.threads t with
      | .sending data _ => some (h.setPhase t (.answered data))
      | _ => none
  | .store t =>
      match h.threads t with
      | .responded data entry =>
          let cache := (storeClient entry h.clientCache).1
          some ({ h with clientCache := cache }.setPhase t (.answered data))
      | _ => none
  | .finish t =>
      match h.threads t with
      | .answered _ => if h.mu = some t then none else some (h.setPhase t .idle)
      | _ => none
  | .tryRefresh t authParams httpParams =>
      match h.mu, h.threads t with
      | none, .answered data =>
          if h.authParams ≠ data.authParams ∨
              snapshotRefreshableHTTPParams h.httpParams ≠ data.refreshableHttpParams then
            some (h.setPhase t .idle)
          else
            match reloadS3AuthMaterial h data authParams httpParams with
            | none => some h
            | some h => some { h with mu := some t }
      | _, _ => none
  | .setRegion t region =>
      match h.mu, h.threads t with
      | none, .answered data =>
          if region.isEmpty || region = data.authParams.region then none
          else some { h with
            authParams := h.authParams.setRegion region
            regionRedirected := true
            mu := some t }
      | _, _ => none
  | .clear t =>
      if h.mu = some t then
        some ({ h with clientCache := clear h.clientCache, mu := none }.setPhase t .idle)
      else none

/-- A request is never sent on a cached client of another host, of other HTTP
parameters or of material that was cleared before the client was handed out. -/
def ClientsMatch (h : S3FileHandle) : Prop :=
  ∀ t data entry client, h.threads t = .sending data entry →
    entry.client = some client →
      client.target = data.target ∧ client.material = entry.generation

def snapshotCurrent (h : S3FileHandle) : Label → Bool
  | .checkout t =>
      match h.threads t with
      | .prepared data =>
          data.material = h.clientCache.generation || h.clientCache.clients.isEmpty
      | _ => true
  | .store t =>
      match h.threads t with
      | .responded _ { client := some client, generation } =>
          client.material = generation || generation ≠ h.clientCache.generation
      | _ => true
  | _ => true

/-- No `Clear` falls between the snapshot of a request and its checkout, unless
the checkout finds the cache empty and the client is not stored back. -/
def SnapshotCurrent (h : S3FileHandle) (l : Label) : Prop := snapshotCurrent h l

instance (h : S3FileHandle) (l : Label) : Decidable (SnapshotCurrent h l) :=
  inferInstanceAs (Decidable (snapshotCurrent h l = true))

theorem SnapshotCurrent.checkout {h : S3FileHandle} {t : Nat} {data : S3RequestData}
    (hok : SnapshotCurrent h (.checkout t)) (hphase : h.threads t = .prepared data) :
    data.material = h.clientCache.generation ∨ h.clientCache.clients = [] := by
  simpa [SnapshotCurrent, snapshotCurrent, hphase] using hok

theorem SnapshotCurrent.store {h : S3FileHandle} {t : Nat} {data : S3RequestData}
    {entry : Entry} {client : HTTPClient} (hok : SnapshotCurrent h (.store t))
    (hphase : h.threads t = .responded data entry) (hclient : entry.client = some client) :
    client.material = entry.generation ∨ entry.generation ≠ h.clientCache.generation := by
  obtain ⟨_, generation⟩ := entry
  subst hclient
  simpa [SnapshotCurrent, snapshotCurrent, hphase] using hok

/-- The target that a request built now would have. -/
def currentTarget (h : S3FileHandle) : Option Target :=
  (createS3HandleRequestData h).toOption.map S3RequestData.target

/-- `targets` gives, for each count of `Clear` calls, the target of the material
in force under it. -/
def Known (targets : Nat → Option Target) (generation material : Nat)
    (target : Target) : Prop :=
  material ≤ generation ∧ targets material = some target

def PhaseKnown (targets : Nat → Option Target) (generation : Nat) : Phase → Prop
  | .idle | .answered _ => True
  | .prepared data => Known targets generation data.material data.target
  | .sending data entry =>
      Known targets generation data.material data.target ∧
        ∀ client ∈ entry.client, data.material = entry.generation ∧
          client.material = entry.generation ∧
            Known targets generation client.material client.target
  | .responded _ entry =>
      ∀ client ∈ entry.client, Known targets generation client.material client.target

structure Tracked (targets : Nat → Option Target) (h : S3FileHandle) : Prop where
  current : h.mu = none → targets h.clientCache.generation = currentTarget h
  cached : ∀ client ∈ h.clientCache.clients,
    client.material = h.clientCache.generation ∧
      Known targets h.clientCache.generation client.material client.target
  phases : ∀ t, PhaseKnown targets h.clientCache.generation (h.threads t)

theorem Known.clear {targets : Nat → Option Target} {generation material : Nat}
    {target : Target} {next : Option Target}
    (h : Known targets generation material target) :
    Known (Function.update targets (generation + 1) next) (generation + 1)
      material target := by
  obtain ⟨hle, htarget⟩ := h
  refine ⟨by omega, ?_⟩
  rw [Function.update_of_ne (by omega), htarget]

theorem PhaseKnown.clear {targets : Nat → Option Target} {generation : Nat}
    {phase : Phase} {next : Option Target} (h : PhaseKnown targets generation phase) :
    PhaseKnown (Function.update targets (generation + 1) next) (generation + 1) phase := by
  cases phase with
  | idle => trivial
  | answered => trivial
  | prepared data => exact Known.clear h
  | sending data entry =>
      refine ⟨h.1.clear, ?_⟩
      intro client hclient
      obtain ⟨hdata, hmaterial, hknown⟩ := h.2 client hclient
      exact ⟨hdata, hmaterial, hknown.clear⟩
  | responded data entry => exact fun client hclient => (h client hclient).clear

theorem Tracked.clientsMatch {targets : Nat → Option Target} {h : S3FileHandle}
    (htracked : Tracked targets h) : ClientsMatch h := by
  intro t data entry client hphase hclient
  have hknown := htracked.phases t
  rw [hphase] at hknown
  obtain ⟨⟨-, hdata⟩, hentry⟩ := hknown
  obtain ⟨hsame, hmaterial, -, htarget⟩ := hentry client hclient
  refine ⟨?_, hmaterial⟩
  rw [hmaterial, ← hsame, hdata] at htarget
  exact (Option.some.inj htarget).symm

/-- Frame rule for steps that move one thread and leave material and cache. -/
theorem Tracked.setPhase {targets : Nat → Option Target} {h : S3FileHandle}
    {t : Nat} {phase : Phase} (htracked : Tracked targets h)
    (hphase : PhaseKnown targets h.clientCache.generation phase) :
    Tracked targets (h.setPhase t phase) := by
  refine ⟨htracked.current, htracked.cached, ?_⟩
  intro t'
  by_cases ht : t' = t
  · subst ht
    simpa [S3FileHandle.setPhase] using hphase
  · simpa [S3FileHandle.setPhase, ht] using htracked.phases t'

theorem Tracked.setClients {targets : Nat → Option Target} {h : S3FileHandle}
    {clients : List HTTPClient} (htracked : Tracked targets h)
    (hclients : ∀ client ∈ clients, client.material = h.clientCache.generation ∧
      Known targets h.clientCache.generation client.material client.target) :
    Tracked targets { h with clientCache := { h.clientCache with clients } } :=
  ⟨htracked.current, hclients, htracked.phases⟩

theorem Tracked.prepare {targets : Nat → Option Target} {h : S3FileHandle}
    {t : Nat} {data : S3RequestData} (htracked : Tracked targets h)
    (hmu : h.mu = none) (hdata : createS3HandleRequestData h = .ok data) :
    Tracked targets (h.setPhase t (.prepared data)) := by
  have hmaterial : data.material = h.clientCache.generation := by
    unfold createS3HandleRequestData at hdata
    cases hparsed : s3UrlParse h.path h.authParams with
    | error e => simp [hparsed, bind, Except.bind] at hdata
    | ok parsed =>
        simp only [hparsed, bind, Except.bind, pure, Except.pure,
          Except.ok.injEq] at hdata
        rw [← hdata]
  apply htracked.setPhase
  refine ⟨by omega, ?_⟩
  rw [hmaterial, htracked.current hmu, currentTarget, hdata]
  rfl

theorem Tracked.checkout {targets : Nat → Option Target} {h : S3FileHandle}
    {t : Nat} {data : S3RequestData} (htracked : Tracked targets h)
    (hphase : h.threads t = .prepared data)
    (hcurrent : data.material = h.clientCache.generation ∨ h.clientCache.clients = []) :
    Tracked targets
      ({ h with clientCache := (getClientWithGeneration h.clientCache).2 }.setPhase t
        (.sending data (getClientWithGeneration h.clientCache).1)) := by
  have hdata := htracked.phases t
  rw [hphase] at hdata
  have hrest : ∀ client ∈ h.clientCache.clients.dropLast,
      client.material = h.clientCache.generation ∧
        Known targets h.clientCache.generation client.material client.target :=
    fun client hclient => htracked.cached client (List.dropLast_subset _ hclient)
  apply (htracked.setClients hrest).setPhase
  refine ⟨hdata, ?_⟩
  intro client hclient
  have hmem : client ∈ h.clientCache.clients := List.mem_of_getLast? hclient
  obtain ⟨hmaterial, hknown⟩ := htracked.cached client hmem
  refine ⟨?_, hmaterial, hknown⟩
  rcases hcurrent with hsame | hempty
  · exact hsame
  · simp [hempty] at hmem

theorem Tracked.respond {targets : Nat → Option Target} {h : S3FileHandle}
    {t : Nat} {data : S3RequestData} {entry : Entry} (htracked : Tracked targets h)
    (hphase : h.threads t = .sending data entry) :
    Tracked targets (h.setPhase t
      (.responded data { entry with client := some (request data entry.client) })) := by
  have hknown := htracked.phases t
  rw [hphase] at hknown
  obtain ⟨hdata, hentry⟩ := hknown
  apply htracked.setPhase
  rintro client ⟨⟩
  cases hclient : entry.client with
  | none => exact hdata
  | some cached => exact (hentry cached hclient).2.2

theorem Tracked.store {targets : Nat → Option Target} {h : S3FileHandle}
    {t : Nat} {data : S3RequestData} {entry : Entry} (htracked : Tracked targets h)
    (hphase : h.threads t = .responded data entry)
    (hcurrent : ∀ client, entry.client = some client →
      client.material = entry.generation ∨ entry.generation ≠ h.clientCache.generation) :
    Tracked targets
      ({ h with clientCache := (storeClient entry h.clientCache).1 }.setPhase t
        (.answered data)) := by
  have hknown := htracked.phases t
  rw [hphase] at hknown
  have hstored : Tracked targets
      { h with clientCache := (storeClient entry h.clientCache).1 } := by
    unfold storeClient
    cases hclient : entry.client with
    | none => exact htracked
    | some client =>
        simp only
        split
        · exact htracked
        · rename_i hgeneration
          have hgeneration : entry.generation = h.clientCache.generation := by
            simpa using hgeneration
          apply htracked.setClients
          intro other hother
          rcases List.mem_append.mp hother with hcached | hnew
          · exact htracked.cached other hcached
          · rw [List.mem_singleton.mp hnew]
            refine ⟨?_, hknown client hclient⟩
            rcases hcurrent client hclient with hsame | hrefused
            · rw [hsame, hgeneration]
            · exact absurd hgeneration hrefused
  exact hstored.setPhase trivial

theorem reload_frame {h h' : S3FileHandle} {data : S3RequestData}
    {authParams : S3AuthParams} {httpParams : HTTPFSParams}
    (hreload : reloadS3AuthMaterial h data authParams httpParams = some h') :
    ∃ authParams httpParams, h' = { h with authParams, httpParams } := by
  simp only [reloadS3AuthMaterial] at hreload
  split at hreload
  · cases hreload
  · cases hreload
    exact ⟨_, _, rfl⟩

theorem Tracked.replaceMaterial {targets : Nat → Option Target} {h : S3FileHandle}
    (htracked : Tracked targets h) (t : Nat) (authParams : S3AuthParams)
    (httpParams : HTTPFSParams) (regionRedirected : Bool) :
    Tracked targets
      { h with authParams, httpParams, regionRedirected, mu := some t } :=
  ⟨by simp, htracked.cached, htracked.phases⟩

theorem Tracked.clear {targets : Nat → Option Target} {h : S3FileHandle}
    (htracked : Tracked targets h) (t : Nat) :
    ∃ targets', Tracked targets'
      ({ h with clientCache := clear h.clientCache, mu := none }.setPhase t .idle) := by
  refine ⟨Function.update targets (h.clientCache.generation + 1)
    (currentTarget { h with clientCache := S3ClientCache.clear h.clientCache }), ?_⟩
  have hcleared : Tracked
      (Function.update targets (h.clientCache.generation + 1)
        (currentTarget { h with clientCache := S3ClientCache.clear h.clientCache }))
      { h with clientCache := S3ClientCache.clear h.clientCache, mu := none } := by
    refine ⟨?_, ?_, fun t => (htracked.phases t).clear⟩
    · intro _
      exact Function.update_self _ _ _
    · intro client hclient
      simp [S3ClientCache.clear] at hclient
  exact hcleared.setPhase trivial

theorem Tracked.step {targets : Nat → Option Target} {h h' : S3FileHandle} {l : Label}
    (htracked : Tracked targets h) (hok : SnapshotCurrent h l)
    (hstep : step h l = some h') : ∃ targets', Tracked targets' h' := by
  cases l with
  | prepare t =>
      simp only [S3ClientCache.step] at hstep
      split at hstep
      · cases hstep
        rename_i hmu _ hdata
        exact ⟨targets, htracked.prepare hmu hdata⟩
      · cases hstep
        exact ⟨targets, htracked⟩
      · cases hstep
  | checkout t =>
      simp only [S3ClientCache.step] at hstep
      split at hstep
      · cases hstep
        rename_i data hphase
        exact ⟨targets, htracked.checkout hphase (hok.checkout hphase)⟩
      · cases hstep
  | respond t =>
      simp only [S3ClientCache.step] at hstep
      split at hstep
      · cases hstep
        rename_i hphase
        exact ⟨targets, htracked.respond hphase⟩
      · cases hstep
  | throwRequest t =>
      simp only [S3ClientCache.step] at hstep
      split at hstep
      · cases hstep
        exact ⟨targets, htracked.setPhase trivial⟩
      · cases hstep
  | store t =>
      simp only [S3ClientCache.step] at hstep
      split at hstep
      · cases hstep
        rename_i data entry hphase
        exact ⟨targets, htracked.store hphase fun _ => hok.store hphase⟩
      · cases hstep
  | finish t =>
      simp only [S3ClientCache.step] at hstep
      split at hstep
      · split at hstep
        · cases hstep
        cases hstep
        exact ⟨targets, htracked.setPhase trivial⟩
      · cases hstep
  | tryRefresh t authParams httpParams =>
      simp only [S3ClientCache.step] at hstep
      split at hstep
      · split at hstep
        · cases hstep
          exact ⟨targets, htracked.setPhase trivial⟩
        · split at hstep
          · cases hstep
            exact ⟨targets, htracked⟩
          · cases hstep
            rename_i hreload
            obtain ⟨authParams, httpParams, rfl⟩ := reload_frame hreload
            exact ⟨targets, htracked.replaceMaterial t authParams httpParams _⟩
      · cases hstep
  | setRegion t region =>
      simp only [S3ClientCache.step] at hstep
      split at hstep
      · split at hstep
        · cases hstep
        cases hstep
        exact ⟨targets, htracked.replaceMaterial t _ h.httpParams true⟩
      · cases hstep
  | clear t =>
      simp only [S3ClientCache.step] at hstep
      split at hstep
      · cases hstep
        exact htracked.clear t
      · cases hstep

/-- A handle as opening it leaves it: no thread has started a request and the
cache is empty. -/
def Opened (h : S3FileHandle) : Prop :=
  h.mu = none ∧ h.clientCache.clients = [] ∧ ∀ t, h.threads t = .idle

theorem Opened.tracked {h : S3FileHandle} (hopened : Opened h) :
    Tracked (fun _ => currentTarget h) h := by
  obtain ⟨-, hclients, hidle⟩ := hopened
  refine ⟨fun _ => rfl, by simp [hclients], ?_⟩
  intro t
  rw [hidle t]
  trivial

theorem clientsMatch_of_snapshotCurrent {h h' : S3FileHandle} {labels : List Label}
    (hopened : Opened h) (hrun : Run step SnapshotCurrent h labels h') :
    ClientsMatch h' := by
  have htracked : ∃ targets, Tracked targets h' := by
    apply hrun.invariant fun h => ∃ targets, Tracked targets h
    · rintro h l h' ⟨targets, htracked⟩ hok hstep
      exact htracked.step hok hstep
    · exact ⟨_, hopened.tracked⟩
  obtain ⟨targets, htracked⟩ := htracked
  exact htracked.clientsMatch

def eastHandle : S3FileHandle :=
  { path := bytes "s3://b/k"
    authParams := {
      region := bytes "us-east-1"
      endpoint := bytes "s3.us-east-1.amazonaws.com" }
    httpParams := {} }

theorem eastHandle_opened : Opened eastHandle := ⟨rfl, rfl, fun _ => rfl⟩

theorem clientsMatch_of_snapshotCurrent_redirect :
    ∃ h', Run step SnapshotCurrent eastHandle
        [.prepare 2, .checkout 2, .respond 2, .store 2,
          .setRegion 2 (bytes "eu-west-1"), .clear 2, .prepare 2, .checkout 2,
          .respond 2, .store 2, .prepare 1, .checkout 1] h' ∧
      ClientsMatch h' := by
  have hexec : (exec (guarded step SnapshotCurrent) eastHandle
      [.prepare 2, .checkout 2, .respond 2, .store 2, .setRegion 2 (bytes "eu-west-1"),
        .clear 2, .prepare 2, .checkout 2, .respond 2, .store 2, .prepare 1,
        .checkout 1]).isSome := by
    decide
  obtain ⟨h', hh'⟩ := Option.isSome_iff_exists.mp hexec
  have hrun := run_of_exec_guarded hh'
  exact ⟨h', hrun, clientsMatch_of_snapshotCurrent eastHandle_opened hrun⟩

/-- Thread 1 has its snapshot when thread 2 follows a region redirect, and checks
out after the `Clear`. -/
def redirectBetweenSnapshotAndCheckout : List Label :=
  [.prepare 2, .checkout 2, .respond 2, .store 2, .prepare 1,
    .setRegion 2 (bytes "eu-west-1"), .clear 2, .checkout 1, .respond 1, .store 1,
    .prepare 2, .checkout 2]

/-- Thread 2 sends its request for the new region on the connection to the old
one, which was created before the last `Clear`. -/
theorem cleared_client_handed_out :
    Opened eastHandle ∧
      ∃ h', Run step Unrestricted eastHandle redirectBetweenSnapshotAndCheckout h' ∧
        ¬ ClientsMatch h' := by
  refine ⟨eastHandle_opened, ?_⟩
  have hexec : ∃ h', exec step eastHandle redirectBetweenSnapshotAndCheckout = some h' ∧
      ∃ data entry client, h'.threads 2 = .sending data entry ∧ entry.client = some client ∧
        data.target.protoHostPort = bytes "https://b.s3.eu-west-1.amazonaws.com" ∧
        client.target.protoHostPort = bytes "https://b.s3.us-east-1.amazonaws.com" :=
    ⟨_, rfl, _, _, _, rfl, rfl, rfl, rfl⟩
  obtain ⟨h', hh', data, entry, client, hphase, hclient, hdata, hold⟩ := hexec
  refine ⟨h', run_of_exec hh', ?_⟩
  intro hmatch
  obtain ⟨htarget, -⟩ := hmatch 2 data entry client hphase hclient
  rw [htarget, hdata] at hold
  revert hold
  decide

end HaybarnHttpfs.S3ClientCache
