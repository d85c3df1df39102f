import HaybarnHttpfs.AuthParamsRuns

/-!
Region and endpoint of the parameters are written together by `InitializeEndpoint` and
`SetRegion`, but `ReadQueryParams` writes the region alone.
-/

namespace HaybarnHttpfs.RegionEndpoint

open HaybarnHttpfs.Foundation.ByteStrings HaybarnHttpfs.Foundation.TransitionRuns
open HaybarnHttpfs.S3Auth HaybarnHttpfs.ReadAuthParams HaybarnHttpfs.CredentialReload
open HaybarnHttpfs.AuthParamsRuns

universe u

variable {σ : Type u}

/-- An AWS endpoint is the one of the region, or the global one without a region. -/
def Coherent (params : S3AuthParams) : Prop :=
  endpointIsAWS params.endpoint = true →
    params.endpoint = bytes "s3." ++ params.region ++ bytes ".amazonaws.com" ∨
      params.endpoint = bytes "s3.amazonaws.com" ∧ params.region = []

theorem coherent_initializeEndpoint (params : S3AuthParams) :
    Coherent params.initializeEndpoint := by
  unfold S3AuthParams.initializeEndpoint
  split
  · rename_i hother
    intro haws
    rw [haws] at hother
    cases hother
  · split
    · rename_i hempty
      rw [Bool.and_eq_true, List.isEmpty_iff] at hempty
      exact fun _ => .inr ⟨rfl, hempty.1⟩
    · exact fun _ => .inl rfl

theorem coherent_setRegion (params : S3AuthParams) (newRegion : Bytes) :
    Coherent (params.setRegion newRegion) :=
  coherent_initializeEndpoint _

theorem coherent_readFrom (reader : S3KeyValueReader) (path : Bytes) :
    Coherent (readFrom reader path) :=
  coherent_initializeEndpoint _

theorem regionEndpoint_ne_global (region : Bytes) :
    bytes "s3." ++ region ++ bytes ".amazonaws.com" ≠ bytes "s3.amazonaws.com" := by
  intro heq
  have hlength := congrArg List.length heq
  have hprefix : (bytes "s3.").length = 3 := rfl
  have hsuffix : (bytes ".amazonaws.com").length = 14 := rfl
  have hglobal : (bytes "s3.amazonaws.com").length = 16 := rfl
  rw [List.length_append, List.length_append, hprefix, hsuffix, hglobal] at hlength
  omega

theorem coherent_iff_region {params params' : S3AuthParams} (hcoherent : Coherent params)
    (hendpoint : params'.endpoint = params.endpoint) :
    Coherent params' ↔
      (endpointIsAWS params.endpoint = true → params'.region = params.region) := by
  unfold Coherent at hcoherent ⊢
  rw [hendpoint]
  refine forall_congr' fun haws => ?_
  rcases hcoherent haws with hown | ⟨hglobal, hempty⟩
  · rw [hown]
    constructor
    · rintro (hsame | ⟨hother, -⟩)
      · exact (List.append_cancel_left (List.append_cancel_right hsame)).symm
      · exact absurd hother (regionEndpoint_ne_global _)
    · intro hsame
      exact .inl (by rw [hsame])
  · rw [hglobal, hempty]
    constructor
    · rintro (hsame | ⟨-, hregion⟩)
      · exact absurd hsame.symm (regionEndpoint_ne_global _)
      · exact hregion
    · exact fun hregion => .inr ⟨rfl, hregion⟩

variable {env : Secrets σ} {path : Bytes} {secrets : σ}

/-- The query leaves the region of an AWS endpoint as settings and secrets have it. -/
def RegionAgrees (env : Secrets σ) (path : Bytes) (secrets : σ) : Prop :=
  endpointIsAWS (readFrom (env.reader secrets path) path).endpoint = true →
    regionRead env path secrets = (readFrom (env.reader secrets path) path).region

/-- The reads for which region and endpoint fit together; a region that a refresh preserves
is set again. -/
def RegionKept (env : Secrets σ) (path : Bytes) : Option S3AuthParams → Label σ → Prop
  | none, .read secrets => RegionAgrees env path secrets
  | some params, .reload secrets preserveRegion =>
      RegionAgrees env path secrets ∨
        preserveRegion = true ∧ params.region ≠ [] ∧ regionRead env path secrets ≠ params.region
  | _, _ => True

/-- A path whose query leaves the endpoint alone. -/
def SetsNoEndpoint (env : Secrets σ) (path : Bytes) : Prop :=
  (queryParams env.parseGetParameters path).lookup (bytes "s3_endpoint") = none

theorem coherent_read (hnone : SetsNoEndpoint env path) {params : S3AuthParams}
    (hread : readS3AuthParams env secrets path = .ok params) :
    params.region = regionRead env path secrets ∧
      (Coherent params ↔ RegionAgrees env path secrets) := by
  have hunset : (queryInEffect env secrets path).lookup (bytes "s3_endpoint") = none := by
    unfold queryInEffect
    split
    · rfl
    · exact hnone
  obtain rfl := readS3AuthParams_ok hread
  refine ⟨rfl, coherent_iff_region (coherent_readFrom _ _) ?_⟩
  show override (queryInEffect env secrets path) "s3_endpoint" _ = _
  unfold override
  rw [hunset]
  rfl

theorem coherent_keepRegion {preserveRegion : Bool} {previousRegion : Bytes}
    {reloaded : S3AuthParams} :
    Coherent (keepRegion preserveRegion previousRegion reloaded) ↔
      Coherent reloaded ∨
        preserveRegion = true ∧ previousRegion ≠ [] ∧ reloaded.region ≠ previousRegion := by
  unfold keepRegion
  split
  · rename_i hset
    simp only [Bool.and_eq_true, Bool.not_eq_true', List.isEmpty_eq_false_iff, decide_eq_true_eq,
      and_assoc] at hset
    exact ⟨fun _ => .inr hset, fun _ => coherent_setRegion _ _⟩
  · rename_i hset
    simp only [Bool.and_eq_true, Bool.not_eq_true', List.isEmpty_eq_false_iff, decide_eq_true_eq,
      and_assoc] at hset
    exact ⟨.inl, fun hor => hor.resolve_right hset⟩

/-- Whatever the parameters were before, a write leaves them coherent exactly if the region is
kept. -/
theorem coherent_step (hnone : SetsNoEndpoint env path) {s t : Option S3AuthParams} {l : Label σ}
    (hstep : step env path s l = some t) : OnParams Coherent t ↔ RegionKept env path s l := by
  cases writes_of_step hstep with
  | read hread => exact onParams_some.trans (coherent_read hnone hread).2
  | setRegion params newRegion =>
      exact onParams_some.trans (iff_of_true (coherent_setRegion _ _) trivial)
  | retryOpen params secrets correctRegion =>
      exact onParams_some.trans (iff_of_true (coherent_setRegion _ _) trivial)
  | reload params preserveRegion hread =>
      obtain ⟨hregion, hagrees⟩ := coherent_read hnone hread
      rw [onParams_some, coherent_keepRegion, hagrees, hregion]
      rfl

/-- Region and AWS endpoint fit together all along a run exactly if at each read the query does
not change the region of an AWS endpoint, or a preserved region is set over it. -/
theorem regionKept_iff_coherent (env : Secrets σ) (path : Bytes) (hnone : SetsNoEndpoint env path)
    {labels : List (Label σ)} {s : Option S3AuthParams}
    (hrun : Run (step env path) Unrestricted none labels s) :
    Run (step env path) (RegionKept env path) none labels s ↔
      ∀ first second m, labels = first ++ second →
        Run (step env path) Unrestricted none first m → ∀ params, m = some params →
          Coherent params := by
  refine Run.restricted_iff_safe (OnParams Coherent) (OnParams Coherent) ?_ ?_ ?_ hrun nofun
  · intro s l t _ hkept hstep
    exact (coherent_step hnone hstep).mpr hkept
  · exact fun s hcoherent => hcoherent
  · intro s l t _ hstep hcoherent
    exact (coherent_step hnone hstep).mp hcoherent

/-- No secret, no setting, and a parser that knows one query. -/
def regionEnv : Secrets Unit where
  reader _ _ :=
    { text := fun _ _ => none
      flag := fun _ _ => none
      secretText := fun _ => none }
  initializeParameters _ _ := {}
  parseGetParameters text :=
    if text = bytes "s3_region=eu-west-1" then [(bytes "s3_region", bytes "eu-west-1")] else []

/-- A redirect, and a refresh that keeps its region. -/
def redirectLabels : List (Label Unit) :=
  [.read (), .setRegion (bytes "us-west-2"), .reload () true]

theorem regionKept_iff_coherent_redirect :
    ∃ params, Run (step regionEnv (bytes "s3://bucket/key")) Unrestricted none redirectLabels
      (some params) ∧ Coherent params := by
  have hagrees : RegionAgrees regionEnv (bytes "s3://bucket/key") () := fun _ => rfl
  have hkept : Run (step regionEnv (bytes "s3://bucket/key"))
      (RegionKept regionEnv (bytes "s3://bucket/key")) none redirectLabels _ :=
    .cons hagrees rfl (.cons trivial rfl (.cons (.inl hagrees) rfl (.nil _)))
  have hrun : Run (step regionEnv (bytes "s3://bucket/key")) Unrestricted none redirectLabels _ :=
    hkept.mono fun _ _ _ => trivial
  have hnone : SetsNoEndpoint regionEnv (bytes "s3://bucket/key") := rfl
  exact ⟨_, hrun, (regionKept_iff_coherent regionEnv _ hnone hrun).mp hkept redirectLabels [] _
    (List.append_nil _).symm hrun _ rfl⟩

/-- The region of the query with the endpoint of no region. -/
theorem region_set_without_endpoint :
    SetsNoEndpoint regionEnv (bytes "s3://bucket/key?s3_region=eu-west-1") ∧
      ∃ params,
        Run (step regionEnv (bytes "s3://bucket/key?s3_region=eu-west-1")) Unrestricted none
        [.read ()] (some params) ∧ ¬ Coherent params := by
  refine ⟨rfl, _, .single trivial rfl, ?_⟩
  intro hcoherent
  have hendpoint := hcoherent rfl
  revert hendpoint
  decide

end HaybarnHttpfs.RegionEndpoint
