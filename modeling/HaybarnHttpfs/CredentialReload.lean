import HaybarnHttpfs.CredentialRefresh

/-!
One call of `TryRefreshS3AuthMaterial`, with everything it may change and every way
it may end. Other threads may change the secrets before each of its reads.
-/

namespace HaybarnHttpfs.CredentialReload

open HaybarnHttpfs.Foundation.ByteStrings HaybarnHttpfs.S3Auth HaybarnHttpfs.S3ClientCache
open HaybarnHttpfs.ReadAuthParams HaybarnHttpfs.CredentialRefresh

universe u

variable {σ : Type u}

def s3AuthParamsMatch (left right : S3AuthParams) : Bool :=
  left.region = right.region && left.accessKeyId = right.accessKeyId &&
    left.secretAccessKey = right.secretAccessKey && left.sessionToken = right.sessionToken &&
    left.endpoint = right.endpoint && left.kmsKeyId = right.kmsKeyId &&
    left.urlStyle = right.urlStyle && left.useSsl = right.useSsl &&
    left.s3UrlCompatibilityMode = right.s3UrlCompatibilityMode &&
    left.requesterPays = right.requesterPays &&
    left.oauth2BearerToken = right.oauth2BearerToken

def s3RefreshableHTTPParamsMatch (left right : S3RefreshableHTTPParams) : Bool :=
  left.httpProxy = right.httpProxy && left.httpProxyPort = right.httpProxyPort &&
    left.httpProxyUsername = right.httpProxyUsername &&
    left.httpProxyPassword = right.httpProxyPassword && left.extraHeaders = right.extraHeaders &&
    left.overrideVerifySsl = right.overrideVerifySsl && left.verifySsl = right.verifySsl &&
    left.bearerToken = right.bearerToken

theorem s3AuthParamsMatch_iff {left right : S3AuthParams} :
    s3AuthParamsMatch left right = true ↔ left = right := by
  constructor
  · intro hmatch
    simp only [s3AuthParamsMatch, Bool.and_eq_true, decide_eq_true_eq] at hmatch
    obtain ⟨⟨⟨⟨⟨⟨⟨⟨⟨⟨_, _⟩, _⟩, _⟩, _⟩, _⟩, _⟩, _⟩, _⟩, _⟩, _⟩ := hmatch
    cases left
    cases right
    simp_all only
  · rintro rfl
    simp [s3AuthParamsMatch]

theorem s3RefreshableHTTPParamsMatch_iff {left right : S3RefreshableHTTPParams} :
    s3RefreshableHTTPParamsMatch left right = true ↔ left = right := by
  constructor
  · intro hmatch
    simp only [s3RefreshableHTTPParamsMatch, Bool.and_eq_true, decide_eq_true_eq] at hmatch
    obtain ⟨⟨⟨⟨⟨⟨⟨_, _⟩, _⟩, _⟩, _⟩, _⟩, _⟩, _⟩ := hmatch
    cases left
    cases right
    simp_all only
  · rintro rfl
    simp [s3RefreshableHTTPParamsMatch]

/-- What the failed request was made with. -/
structure RequestMaterial where
  authParams : S3AuthParams
  httpParams : S3RefreshableHTTPParams

/-- What a refresh replaces; not every caller has a client cache. -/
structure Material where
  authParams : S3AuthParams
  httpParams : HTTPFSParams
  clientCache : Option HTTPClientCache := none
  deriving DecidableEq

def Material.differsFrom (material : Material) (request : RequestMaterial) : Bool :=
  !s3AuthParamsMatch material.authParams request.authParams ||
    !s3RefreshableHTTPParamsMatch (snapshotRefreshableHTTPParams material.httpParams)
      request.httpParams

inductive RefreshError where
  | auth (e : AuthReadError)
  | http (message : Bytes)
  | secret (message : Bytes)
  deriving DecidableEq

/-- The secrets are read through the opener. `elsewhere n` is what other threads make
of them before the `n`-th read or refresh, and `httpParamsError` what reading the HTTP
parameters throws. -/
structure RefreshContext (σ : Type u) extends SecretManager σ where
  hasOpener : Bool := true
  hasClientContext : Bool := true
  credentialRefreshEnabled : Bool := true
  elsewhere : Nat → σ → σ := fun _ s => s
  httpParamsError : σ → Bytes → Option Bytes := fun _ _ => none

/-- The loop of `TryRefreshS3SecretForPath`. -/
def tryRefreshS3Secrets (m : SecretManager σ) (path : Bytes) :
    List SecretType → Bool → σ → Except RefreshError Bool × σ
  | [], refreshedSecret, s => (.ok refreshedSecret, s)
  | type :: types, refreshedSecret, s =>
      match m.lookupSecret s path type with
      | none => tryRefreshS3Secrets m path types refreshedSecret s
      | some secret =>
          match tryRefreshS3Secret m s secret with
          | .ok (s, input) => tryRefreshS3Secrets m path types (refreshedSecret || input.isSome) s
          | .error message => (.error (.secret message), s)

def tryRefreshS3SecretForPath (m : SecretManager σ) (path : Bytes) (s : σ) :
    Except RefreshError Bool × σ :=
  tryRefreshS3Secrets m path secretTypes false s

def keepRegion (preserveRegion : Bool) (previousRegion : Bytes) (reloaded : S3AuthParams) :
    S3AuthParams :=
  if preserveRegion && !previousRegion.isEmpty && reloaded.region ≠ previousRegion then
    reloaded.setRegion previousRegion
  else reloaded

/-- `ReloadS3AuthMaterial`; its first read is the `moment`-th. -/
def reloadS3AuthMaterial (context : RefreshContext σ) (path : Bytes) (request : RequestMaterial)
    (preserveRegion : Bool) (moment : Nat) (material : Material) (s : σ) :
    Except RefreshError Bool × Material × σ :=
  if !context.hasOpener then (.ok false, material, s)
  else
    let previousRegion := material.authParams.region
    let s := context.elsewhere moment s
    match readS3AuthParams context.toSecrets s path with
    | .error e => (.error (.auth e), material, s)
    | .ok reloaded =>
        let reloadedAuthParams := keepRegion preserveRegion previousRegion reloaded
        let s := context.elsewhere (moment + 1) s
        match context.httpParamsError s path with
        | some message => (.error (.http message), material, s)
        | none =>
            let reloadedHttpParams := readRefreshableHTTPParams context.toSecrets s path
            if s3AuthParamsMatch reloadedAuthParams request.authParams &&
                s3RefreshableHTTPParamsMatch reloadedHttpParams request.httpParams then
              (.ok false, material, s)
            else
              (.ok true,
                { authParams := reloadedAuthParams
                  httpParams := applyRefreshableHTTPParams reloadedHttpParams
                  clientCache := material.clientCache.map clear }, s)

def tryRefreshS3AuthMaterial (context : RefreshContext σ) (path : Bytes)
    (request : RequestMaterial) (preserveRegion : Bool) (material : Material) (s : σ) :
    Except RefreshError Bool × Material × σ :=
  if !context.credentialRefreshEnabled then (.ok false, material, s)
  else if material.differsFrom request then (.ok true, material, s)
  else if !context.hasClientContext then (.ok false, material, s)
  else
    let reload := reloadS3AuthMaterial context path request preserveRegion
    match reload 0 material s with
    | (.ok false, material, s) =>
        -- the refresh lock is held from here on
        match reload 2 material s with
        | (.ok false, material, s) =>
            match tryRefreshS3SecretForPath context.toSecretManager path
                (context.elsewhere 4 s) with
            | (.error e, s) => (.error e, material, s)
            | (.ok false, s) => (.ok false, material, s)
            | (.ok true, s) => reload 5 material s
        | ended => ended
    | ended => ended

variable {context : RefreshContext σ} {path : Bytes} {request : RequestMaterial}
  {preserveRegion : Bool} {moment : Nat} {material material' : Material} {s s' : σ}
  {result : Except RefreshError Bool}

/-- What a call leaves behind, whichever way it ends. -/
structure Atomic (request : RequestMaterial) (preserveRegion : Bool) (material : Material)
    (result : Except RefreshError Bool) (material' : Material) : Prop where
  progress : result = .ok true → material'.authParams ≠ request.authParams ∨
    snapshotRefreshableHTTPParams material'.httpParams ≠ request.httpParams
  unchanged : result ≠ .ok true → material' = material
  region : preserveRegion = true → material.authParams.region ≠ [] →
    material'.authParams.region = material.authParams.region

theorem differsFrom_iff : material.differsFrom request = true ↔
    material.authParams ≠ request.authParams ∨
      snapshotRefreshableHTTPParams material.httpParams ≠ request.httpParams := by
  simp only [Material.differsFrom, Bool.or_eq_true, Bool.not_eq_true', ← Bool.not_eq_true,
    s3AuthParamsMatch_iff, s3RefreshableHTTPParamsMatch_iff, ne_eq]

theorem Atomic.of_unchanged (hresult : result ≠ .ok true) :
    Atomic request preserveRegion material result material :=
  ⟨fun htrue => absurd htrue hresult, fun _ => rfl, fun _ _ => rfl⟩

theorem setRegion_region {params : S3AuthParams} {newRegion : Bytes} (hregion : newRegion ≠ []) :
    (params.setRegion newRegion).region = newRegion := by
  unfold S3AuthParams.setRegion S3AuthParams.initializeEndpoint
  split
  · rfl
  · split
    · rfl
    · simp [hregion]

theorem keepRegion_region {previousRegion : Bytes} {reloaded : S3AuthParams}
    (hregion : previousRegion ≠ []) :
    (keepRegion true previousRegion reloaded).region = previousRegion := by
  unfold keepRegion
  by_cases hsame : reloaded.region = previousRegion
  · simp [hsame]
  · simp [hsame, hregion, setRegion_region]

theorem snapshot_apply_read (secrets : Secrets σ) (s : σ) (path : Bytes) :
    snapshotRefreshableHTTPParams
        (applyRefreshableHTTPParams (readRefreshableHTTPParams secrets s path)) =
      readRefreshableHTTPParams secrets s path :=
  snapshot_apply_snapshot _

theorem reload_atomic
    (hreload : reloadS3AuthMaterial context path request preserveRegion moment material s =
      (result, material', s')) : Atomic request preserveRegion material result material' := by
  unfold reloadS3AuthMaterial at hreload
  split at hreload
  · cases hreload
    exact .of_unchanged nofun
  · simp only at hreload
    split at hreload
    · cases hreload
      exact .of_unchanged nofun
    · split at hreload
      · cases hreload
        exact .of_unchanged nofun
      · split at hreload
        · cases hreload
          exact .of_unchanged nofun
        · rename_i hmatch
          cases hreload
          refine ⟨fun _ => ?_, fun hresult => absurd rfl hresult, ?_⟩
          · rw [Bool.and_eq_true, s3AuthParamsMatch_iff, s3RefreshableHTTPParamsMatch_iff,
              not_and_or] at hmatch
            simpa only [snapshot_apply_read] using hmatch
          · rintro rfl hregion
            exact keepRegion_region hregion

theorem refresh_atomic
    (hrefresh : tryRefreshS3AuthMaterial context path request preserveRegion material s =
      (result, material', s')) : Atomic request preserveRegion material result material' := by
  unfold tryRefreshS3AuthMaterial at hrefresh
  split at hrefresh
  · cases hrefresh
    exact .of_unchanged nofun
  · split at hrefresh
    · rename_i hdiffers
      cases hrefresh
      exact ⟨fun _ => differsFrom_iff.mp hdiffers, fun hresult => absurd rfl hresult,
        fun _ _ => rfl⟩
    · split at hrefresh
      · cases hrefresh
        exact .of_unchanged nofun
      · -- up to three reloads, each of which is all or nothing
        simp only at hrefresh
        rcases hfirst : reloadS3AuthMaterial context path request preserveRegion 0 material s with
          ⟨result₁, material₁, s₁⟩
        have hatomic := reload_atomic hfirst
        rw [hfirst] at hrefresh
        split at hrefresh
        · rename_i heq
          cases heq
          obtain rfl := hatomic.unchanged nofun
          rcases hsecond : reloadS3AuthMaterial context path request preserveRegion 2 material₁ s₁
            with ⟨result₂, material₂, s₂⟩
          have hatomic := reload_atomic hsecond
          rw [hsecond] at hrefresh
          split at hrefresh
          · rename_i heq
            cases heq
            obtain rfl := hatomic.unchanged nofun
            split at hrefresh
            · cases hrefresh
              exact .of_unchanged nofun
            · cases hrefresh
              exact .of_unchanged nofun
            · exact reload_atomic hrefresh
          · cases hrefresh
            exact hatomic
        · cases hrefresh
          exact hatomic

/-- A call either installs material that differs from that of the failed request, or
changes nothing; a region to be preserved stays in any case. -/
theorem tryRefresh_atomic (context : RefreshContext σ) (path : Bytes) (request : RequestMaterial)
    (preserveRegion : Bool) (material : Material) (s : σ) :
    Atomic request preserveRegion material
      (tryRefreshS3AuthMaterial context path request preserveRegion material s).1
      (tryRefreshS3AuthMaterial context path request preserveRegion material s).2.1 :=
  refresh_atomic rfl

end HaybarnHttpfs.CredentialReload
