import HaybarnHttpfs.BufferedRead
import HaybarnHttpfs.Foundation.TransitionRuns
import Mathlib.Logic.Function.Basic

/-!
Parallel `GET` and range `GET` requests of one S3 handle on a versioned object,
with `s3_version_id_pinning` and without ETag checks. A request carries the
version id that the handle had when the request was prepared; the handle takes
over the version id of the first response that has one.
-/

namespace HaybarnHttpfs.VersionPinning

open HaybarnHttpfs.Foundation.ByteStrings HaybarnHttpfs.Foundation.Memory
open HaybarnHttpfs.Foundation.TransitionRuns
open HaybarnHttpfs.HttpState HaybarnHttpfs.RangeRequest HaybarnHttpfs.BufferedRead

universe u v

variable {ν : Type u} {β : Type v}

/-- A byte of a body, with the version of the object it belongs to; the body of an
error belongs to none. -/
structure Versioned (ν : Type u) (β : Type v) where
  value : β
  origin : Option ν
  deriving DecidableEq, Repr

/-- One attempt's response; `versionId` is its `x-amz-version-id`. -/
structure Answer (ν : Type u) (β : Type v) where
  head : ResponseHead
  versionId : Option ν := none
  chunks : List (List (Versioned ν β)) := []
  completed : Bool := true
  deriving DecidableEq, Repr

inductive Kind where
  | full
  | range (bufferOutLen : Nat) (etag : Bytes) (autoFallback : Bool)
  deriving DecidableEq, Repr

/-- What `RunGetRangeRequest` is called with. -/
def rangeGet (bufferOutLen : Nat) (etag : Bytes) (autoFallback : Bool) : RangeGet :=
  { bufferOutLen, etag, unsafeDisableEtagChecks := true
    autoFallbackToFullFileDownload := autoFallback }

/-- Whether the response handler looks at the version id of such a response. -/
def Kind.pins : Kind → Nat → Bool
  | .full, status => status < 400
  | .range .., status => status < 300

inductive Stage (ν : Type u) (β : Type v) where
  | waiting
  | served (answer : Answer ν β)
  | receiving (answer : Answer ν β)
  | answered (head : ResponseHead)
  deriving DecidableEq, Repr

/-- A request in progress. `requested` is the `versionId` of its query string, which
its attempts share; `out` is the buffer of a range request. -/
structure Call (ν : Type u) (β : Type v) where
  kind : Kind
  requested : Option ν
  out : OutBuffer (Versioned ν β) := {}
  stage : Stage ν β := .waiting

/-- `current` is the version that the server has stored last; `downloader` is the
request whose `FullDownload` holds the lock of the cached file. -/
structure S3FileHandle (ν : Type u) (β : Type v) where
  current : ν
  versionId : Option ν := none
  length : Nat := 0
  file : CachedFile (Versioned ν β) := {}
  downloader : Option Nat := none
  calls : Nat → Option (Call ν β) := fun _ => none
  returned : List (List (Option (Versioned ν β))) := []

def S3FileHandle.setCall (s : S3FileHandle ν β) (r : Nat) (call : Option (Call ν β)) :
    S3FileHandle ν β :=
  { s with calls := Function.update s.calls r call }

inductive Label (ν : Type u) (β : Type v) where
  | prepare (r : Nat) (kind : Kind)
  /-- The request is prepared once more, with new credentials or another region. -/
  | recreate (r : Nat)
  | serve (r : Nat) (answer : Answer ν β)
  | arrive (r : Nat)
  | receive (r : Nat)
  | finish (r : Nat)
  | giveUp (r : Nat)
  | readCached (location nrBytes : Nat)
  /-- `Read` drops a downloaded file whose size is not the expected one. -/
  | discard
  | overwrite (version : ν)

/-- `CreateS3HandleRequestData`; a full download first takes hold of the cached
file. -/
def prepareCall (s : S3FileHandle ν β) (r : Nat) : Kind → Option (S3FileHandle ν β)
  | .full =>
      if s.file.initialized then some { s with length := s.file.size }
      else if s.downloader.isSome then none
      else
        some { (s.setCall r (some { kind := .full, requested := s.versionId })) with
          downloader := some r }
  | .range bufferOutLen etag autoFallback =>
      some (s.setCall r (some
        { kind := .range bufferOutLen etag autoFallback, requested := s.versionId }))

/-- The part of the response handlers under the handle's mutex. -/
def pinVersion (s : S3FileHandle ν β) (kind : Kind) (answer : Answer ν β) : S3FileHandle ν β :=
  if kind.pins answer.head.status then { s with versionId := s.versionId.or answer.versionId }
  else s

def Call.respond (call : Call ν β) (answer : Answer ν β) : Call ν β :=
  match call.kind with
  | .full => { call with stage := .receiving answer }
  | .range bufferOutLen etag autoFallback =>
      match responseHandler (rangeGet bufferOutLen etag autoFallback) answer.head call.out with
      | (out, .ok ()) => { call with out, stage := .receiving answer }
      | (out, .error _) => { call with out, stage := .waiting }

/-- The clients keep the body of a status of 400 and above from the handler. -/
def Answer.delivered (answer : Answer ν β) : List (List (Versioned ν β)) :=
  if answer.head.status ≥ 400 then [] else answer.chunks

def Answer.outcome (answer : Answer ν β) : Stage ν β :=
  if answer.completed then .answered answer.head else .waiting

def receiveAnswer (s : S3FileHandle ν β) (r : Nat) (call : Call ν β) (answer : Answer ν β) :
    S3FileHandle ν β :=
  match call.kind with
  | .full =>
      let (length, file) := receiveChunks answer.delivered s.length s.file
      { (s.setCall r (some { call with stage := answer.outcome })) with length, file }
  | .range bufferOutLen etag autoFallback =>
      match receiveBody (rangeGet bufferOutLen etag autoFallback) answer.delivered call.out with
      | (out, .ok ()) => s.setCall r (some { call with out, stage := answer.outcome })
      | (out, .error _) => s.setCall r (some { call with out, stage := .waiting })

/-- A request that succeeds; any other one gives up. -/
def finishCall (s : S3FileHandle ν β) (r : Nat) (call : Call ν β) (head : ResponseHead) :
    Option (S3FileHandle ν β) :=
  match call.kind with
  | .full =>
      if head.status = 200 then
        some { (s.setCall r none) with
          file := setInitialized s.file s.length, downloader := none }
      else none
  | .range bufferOutLen etag autoFallback =>
      if accepted (checkResponse (rangeGet bufferOutLen etag autoFallback) call.out.outOffset
          head) then
        some { (s.setCall r none) with
          returned := s.returned ++ [load call.out.bufferOut 0 bufferOutLen] }
      else none

def step (s : S3FileHandle ν β) : Label ν β → Option (S3FileHandle ν β)
  | .prepare r kind =>
      match s.calls r with
      | none => prepareCall s r kind
      | some _ => none
  | .recreate r =>
      match s.calls r with
      | some { kind, out, stage := .waiting, .. }
      | some { kind, out, stage := .answered _, .. } =>
          some (s.setCall r (some
            { kind, requested := s.versionId, out := { out with outOffset := 0 } }))
      | _ => none
  | .serve r answer =>
      match s.calls r with
      | some { kind, requested, out, stage := .waiting }
      | some { kind, requested, out, stage := .answered _ } =>
          some (s.setCall r (some { kind, requested, out, stage := .served answer }))
      | _ => none
  | .arrive r =>
      match s.calls r with
      | some { kind, requested, out, stage := .served answer } =>
          some ((pinVersion s kind answer).setCall r
            (some (Call.respond { kind, requested, out } answer)))
      | _ => none
  | .receive r =>
      match s.calls r with
      | some { kind, requested, out, stage := .receiving answer } =>
          some (receiveAnswer s r { kind, requested, out } answer)
      | _ => none
  | .finish r =>
      match s.calls r with
      | some { kind, requested, out, stage := .answered head } =>
          finishCall s r { kind, requested, out } head
      | _ => none
  | .giveUp r =>
      match s.calls r with
      | some _ => some (s.setCall r none)
      | none => none
  | .readCached location nrBytes =>
      if s.file.initialized ∧ location + nrBytes ≤ s.file.size then
        some { s with returned := s.returned ++ [load s.file.data location nrBytes] }
      else none
  | .discard =>
      if s.file.initialized then some { s with file := {}, downloader := none } else none
  | .overwrite version => some { s with current := version }

/-- The byte belongs to the version that is pinned. -/
def OfVersion (versionId : Option ν) (b : Versioned ν β) : Prop :=
  ∃ version, versionId = some version ∧ b.origin = some version

/-- All data that the handle has returned belongs to the version it is pinned to. -/
def OneVersion (s : S3FileHandle ν β) : Prop :=
  ∀ cells ∈ s.returned, ∀ cell ∈ cells, ∃ b, cell = some b ∧ OfVersion s.versionId b

/-- An answer to a request for `version`: a response below 300 names the version
and carries bytes of it, any other one is no success. -/
structure Answer.Conforms (answer : Answer ν β) (version : ν) : Prop where
  success : answer.head.status < 300 → answer.head.success ∧ answer.versionId = some version ∧
    ∀ b ∈ answer.chunks.flatten, b.origin = some version
  failure : 300 ≤ answer.head.status → acceptsHead answer.head = false

/-- The server honours `versionId` and otherwise answers with the current version. -/
def ServerConforms (s : S3FileHandle ν β) : Label ν β → Prop
  | .serve r answer => ∀ call, s.calls r = some call →
      answer.Conforms (call.requested.getD s.current)
  | _ => True

def pinsKept [DecidableEq ν] (s : S3FileHandle ν β) : Label ν β → Bool
  | .arrive r =>
      match s.calls r with
      | some { requested := none, stage := .served answer, .. } =>
          300 ≤ answer.head.status || s.versionId = none || s.versionId = answer.versionId
      | _ => true
  | .receive r =>
      match s.calls r with
      | some { kind := .full, stage := .receiving answer, .. } =>
          answer.head.status < 300 || answer.delivered.isEmpty
      | _ => true
  | .finish r =>
      match s.calls r with
      | some { kind := .full, .. } => s.file.capacity ≠ 0 || s.length = 0
      | _ => true
  | _ => true

/-- A response to a request without a version id arrives before the handle has
another version id; a redirect or a response without a body leaves the file of a
full download as it is. -/
def PinsKept [DecidableEq ν] (s : S3FileHandle ν β) (l : Label ν β) : Prop :=
  pinsKept s l = true

instance [DecidableEq ν] (s : S3FileHandle ν β) (l : Label ν β) : Decidable (PinsKept s l) :=
  inferInstanceAs (Decidable (pinsKept s l = true))

instance [DecidableEq ν] (answer : Answer ν β) (version : ν) :
    Decidable (answer.Conforms version) :=
  decidable_of_iff
    ((answer.head.status < 300 → answer.head.success ∧ answer.versionId = some version ∧
        ∀ b ∈ answer.chunks.flatten, b.origin = some version) ∧
      (300 ≤ answer.head.status → acceptsHead answer.head = false))
    ⟨fun h => ⟨h.1, h.2⟩, fun h => ⟨h.success, h.failure⟩⟩

instance [DecidableEq ν] (s : S3FileHandle ν β) (l : Label ν β) :
    Decidable (ServerConforms s l) :=
  match l with
  | .serve r answer => inferInstanceAs
      (Decidable (∀ call ∈ s.calls r, answer.Conforms (call.requested.getD s.current)))
  | .prepare _ _ | .recreate _ | .arrive _ | .receive _ | .finish _ | .giveUp _
  | .readCached _ _ | .discard | .overwrite _ => isTrue trivial

def StageSound (versionId : Option ν) (call : Call ν β) : Prop :=
  match call.stage with
  | .waiting => True
  | .served answer => ∃ version, answer.Conforms version ∧
      ∀ requested, call.requested = some requested → requested = version
  | .receiving answer => ∃ version, answer.Conforms version ∧
      (answer.head.status < 300 → versionId = some version ∧
        (call.kind = .full ∨ call.out.outOffset = 0))
  | .answered head => (300 ≤ head.status → acceptsHead head = false) ∧
      (head.status < 300 → head.success ∧ (call.kind = .full ∨
        ∀ i < call.out.outOffset, ∃ b, call.out.bufferOut i = some b ∧ OfVersion versionId b))

/-- A request that names a version names the one that is pinned. -/
structure CallSound (versionId : Option ν) (call : Call ν β) : Prop where
  requested : ∀ version, call.requested = some version → versionId = some version
  stage : StageSound versionId call

structure PinSound (s : S3FileHandle ν β) : Prop where
  calls : ∀ r call, s.calls r = some call → CallSound s.versionId call
  owner : ∀ r call, s.calls r = some call → call.kind = .full → s.downloader = some r
  locked : s.downloader.isSome → s.file.initialized = false
  file : s.file.capacity = 0 ∨ Filled (OfVersion s.versionId) s.length s.file
  initialized : s.file.initialized → Filled (OfVersion s.versionId) s.file.size s.file
  returned : OneVersion s

theorem OfVersion.mono {versionId versionId' : Option ν} {b : Versioned ν β}
    (hgrows : ∀ version, versionId = some version → versionId' = some version)
    (hversion : OfVersion versionId b) : OfVersion versionId' b := by
  obtain ⟨version, hpinned, horigin⟩ := hversion
  exact ⟨version, hgrows version hpinned, horigin⟩

theorem CallSound.mono {versionId versionId' : Option ν} {call : Call ν β}
    (hgrows : ∀ version, versionId = some version → versionId' = some version)
    (hsound : CallSound versionId call) : CallSound versionId' call := by
  refine ⟨fun version hrequested => hgrows version (hsound.requested version hrequested), ?_⟩
  have hstage := hsound.stage
  unfold StageSound at hstage ⊢
  split at hstage
  · trivial
  · exact hstage
  · obtain ⟨version, hconforms, hpinned⟩ := hstage
    refine ⟨version, hconforms, ?_⟩
    intro hstatus
    exact ⟨hgrows version (hpinned hstatus).1, (hpinned hstatus).2⟩
  · obtain ⟨hfailure, hsuccess⟩ := hstage
    refine ⟨hfailure, ?_⟩
    intro hstatus
    obtain ⟨hok, hcells⟩ := hsuccess hstatus
    refine ⟨hok, hcells.imp_right ?_⟩
    intro hcells i hi
    obtain ⟨b, hcell, hversion⟩ := hcells i hi
    exact ⟨b, hcell, hversion.mono hgrows⟩

theorem PinSound.setCall {s : S3FileHandle ν β} {r : Nat} {call : Option (Call ν β)}
    (hsound : PinSound s)
    (hcall : ∀ c, call = some c →
      CallSound s.versionId c ∧ (c.kind = .full → s.downloader = some r)) :
    PinSound (s.setCall r call) := by
  have hcases : ∀ r' c, (s.setCall r call).calls r' = some c →
      (r' = r ∧ call = some c) ∨ s.calls r' = some c := by
    intro r' c hc
    by_cases hr : r' = r
    · subst hr
      exact .inl ⟨rfl, by simpa [S3FileHandle.setCall] using hc⟩
    · exact .inr (by simpa [S3FileHandle.setCall, hr] using hc)
  refine ⟨?_, ?_, hsound.locked, hsound.file, hsound.initialized, hsound.returned⟩
  · intro r' c hc
    rcases hcases r' c hc with ⟨rfl, hself⟩ | hother
    · exact (hcall c hself).1
    · exact hsound.calls r' c hother
  · intro r' c hc hfull
    rcases hcases r' c hc with ⟨rfl, hself⟩ | hother
    · exact (hcall c hself).2 hfull
    · exact hsound.owner r' c hother hfull

theorem pinVersion_grows (s : S3FileHandle ν β) (kind : Kind) (answer : Answer ν β)
    (version : ν) (hpinned : s.versionId = some version) :
    (pinVersion s kind answer).versionId = some version := by
  unfold pinVersion
  split
  · simp [hpinned]
  · exact hpinned

theorem PinSound.pinVersion {s : S3FileHandle ν β} (hsound : PinSound s) (kind : Kind)
    (answer : Answer ν β) : PinSound (pinVersion s kind answer) := by
  have hgrows := pinVersion_grows s kind answer
  have hsame : VersionPinning.pinVersion s kind answer =
      { s with versionId := (VersionPinning.pinVersion s kind answer).versionId } := by
    unfold VersionPinning.pinVersion
    split
    · rfl
    · rfl
  rw [hsame]
  generalize (VersionPinning.pinVersion s kind answer).versionId = versionId' at hgrows
  refine ⟨?_, hsound.owner, hsound.locked, ?_, ?_, ?_⟩
  · intro r call hcall
    exact (hsound.calls r call hcall).mono hgrows
  · exact hsound.file.imp_right fun hfilled => hfilled.mono fun _ hb => hb.mono hgrows
  · intro hinitialized
    exact (hsound.initialized hinitialized).mono fun _ hb => hb.mono hgrows
  · intro cells hcells cell hcell
    obtain ⟨b, hb, hversion⟩ := hsound.returned cells hcells cell hcell
    exact ⟨b, hb, hversion.mono hgrows⟩

theorem PinSound.prepare {s s' : S3FileHandle ν β} {r : Nat} {kind : Kind} (hsound : PinSound s)
    (hprepare : prepareCall s r kind = some s') : PinSound s' := by
  have hfresh : ∀ kind, CallSound s.versionId
      ({ kind, requested := s.versionId } : Call ν β) := fun kind => ⟨fun _ h => h, trivial⟩
  cases kind with
  | full =>
      simp only [prepareCall] at hprepare
      split at hprepare
      · rename_i hinitialized
        cases hprepare
        exact ⟨hsound.calls, hsound.owner, hsound.locked, .inr (hsound.initialized hinitialized),
          hsound.initialized, hsound.returned⟩
      · rename_i huninitialized
        split at hprepare
        · cases hprepare
        · rename_i hfree
          cases hprepare
          have hnone : s.downloader = none := by simpa using hfree
          refine ⟨?_, ?_, ?_, hsound.file, hsound.initialized, hsound.returned⟩
          · intro r' call hcall
            by_cases hr : r' = r
            · subst hr
              simp only [S3FileHandle.setCall, Function.update_self, Option.some.injEq] at hcall
              subst hcall
              exact hfresh .full
            · exact hsound.calls r' call (by simpa [S3FileHandle.setCall, hr] using hcall)
          · intro r' call hcall hfull
            by_cases hr : r' = r
            · exact congrArg some hr.symm
            · have howner := hsound.owner r' call
                (by simpa [S3FileHandle.setCall, hr] using hcall) hfull
              rw [hnone] at howner
              cases howner
          · intro _
            simpa [S3FileHandle.setCall] using huninitialized
  | range bufferOutLen etag autoFallback =>
      cases hprepare
      apply hsound.setCall
      rintro c ⟨⟩
      exact ⟨hfresh _, nofun⟩

theorem pinned_of_arrival {s : S3FileHandle ν β} {kind : Kind} {requested : Option ν}
    {answer : Answer ν β} {version : ν} (hconforms : answer.Conforms version)
    (hstatus : answer.head.status < 300)
    (hrequested : ∀ v, requested = some v → s.versionId = some v ∧ v = version)
    (hkept : requested = none → s.versionId = none ∨ s.versionId = answer.versionId) :
    (pinVersion s kind answer).versionId = some version := by
  obtain ⟨-, hnamed, -⟩ := hconforms.success hstatus
  have hpins : kind.pins answer.head.status := by
    unfold Kind.pins
    cases kind with
    | full => simpa using (by omega : answer.head.status < 400)
    | range => simpa using hstatus
  unfold pinVersion
  rw [if_pos hpins, hnamed]
  cases hcase : requested with
  | some v =>
      obtain ⟨hpinned, rfl⟩ := hrequested v hcase
      simp [hpinned]
  | none =>
      rcases hkept hcase with hunpinned | hpinned
      · simp [hunpinned]
      · simp [hpinned, hnamed]

theorem respond_sound {versionId : Option ν} (call : Call ν β) {answer : Answer ν β} {version : ν}
    (hrequested : ∀ v, call.requested = some v → versionId = some v)
    (hconforms : answer.Conforms version)
    (hpinned : answer.head.status < 300 → versionId = some version) :
    CallSound versionId (call.respond answer) ∧ (call.respond answer).kind = call.kind := by
  unfold Call.respond
  split
  · rename_i hfull
    refine ⟨⟨hrequested, version, hconforms, ?_⟩, rfl⟩
    intro hstatus
    exact ⟨hpinned hstatus, .inl hfull⟩
  · split
    · rename_i hhandler
      refine ⟨⟨hrequested, version, hconforms, ?_⟩, rfl⟩
      intro hstatus
      have hreset := (responseHandler_ok hhandler hstatus).2
      exact ⟨hpinned hstatus, .inr (by rw [hreset])⟩
    · exact ⟨⟨hrequested, trivial⟩, rfl⟩

theorem PinSound.arrive {s : S3FileHandle ν β} {r : Nat} {kind : Kind} {requested : Option ν}
    {out : OutBuffer (Versioned ν β)} {answer : Answer ν β} (hsound : PinSound s)
    (hcall : s.calls r = some { kind, requested, out, stage := .served answer })
    (hkept : requested = none → answer.head.status < 300 →
      s.versionId = none ∨ s.versionId = answer.versionId) :
    PinSound ((VersionPinning.pinVersion s kind answer).setCall r
      (some (Call.respond { kind, requested, out } answer))) := by
  have hold := hsound.calls r _ hcall
  obtain ⟨version, hconforms, hnames⟩ := hold.stage
  have hgrows := pinVersion_grows s kind answer
  have hrespond := respond_sound { kind, requested, out }
    (fun v hv => hgrows v (hold.requested v hv)) hconforms
    (fun hstatus => pinned_of_arrival hconforms hstatus
      (fun v hv => ⟨hold.requested v hv, hnames v hv⟩) (fun hnone => hkept hnone hstatus))
  apply (hsound.pinVersion kind answer).setCall
  rintro c ⟨⟩
  refine ⟨hrespond.1, ?_⟩
  intro hfull
  rw [hrespond.2] at hfull
  have howner := hsound.owner r _ hcall hfull
  unfold VersionPinning.pinVersion
  split
  · exact howner
  · exact howner

theorem Answer.mem_delivered {answer : Answer ν β} {b : Versioned ν β}
    (hb : b ∈ answer.delivered.flatten) : b ∈ answer.chunks.flatten := by
  unfold Answer.delivered at hb
  split at hb
  · cases hb
  · exact hb

theorem PinSound.receiveFull {s : S3FileHandle ν β} {r length : Nat} {requested : Option ν}
    {out : OutBuffer (Versioned ν β)} {answer : Answer ν β} {file : CachedFile (Versioned ν β)}
    (hsound : PinSound s)
    (hcall : s.calls r = some { kind := .full, requested, out, stage := .receiving answer })
    (hdelivered : ∀ b ∈ answer.delivered.flatten, OfVersion s.versionId b)
    (hreceive : receiveChunks answer.delivered s.length s.file = (length, file))
    (hstage : CallSound s.versionId
      { kind := .full, requested, out, stage := answer.outcome }) :
    PinSound { (s.setCall r
      (some { kind := .full, requested, out, stage := answer.outcome })) with
      length, file } := by
  have howner := hsound.owner r _ hcall rfl
  have huninitialized := hsound.locked (by simp [howner])
  have hkeeps := receiveChunks_initialized answer.delivered s.length s.file
  have hfile : file.initialized = false := by
    rw [hreceive] at hkeeps
    exact hkeeps.trans huninitialized
  have hset : PinSound (s.setCall r (some
      { kind := .full, requested, out, stage := answer.outcome })) := by
    apply hsound.setCall
    rintro c ⟨⟩
    exact ⟨hstage, fun _ => howner⟩
  refine ⟨hset.calls, hset.owner, fun _ => hfile, ?_, ?_, hset.returned⟩
  · by_cases hempty : answer.delivered = []
    · rw [hempty] at hreceive
      cases hreceive
      exact hsound.file
    · have hstart : Filled (OfVersion s.versionId) s.length s.file ∨
          (s.file.capacity = 0 ∧ answer.delivered ≠ []) :=
        hsound.file.symm.imp_right fun hcapacity => ⟨hcapacity, hempty⟩
      have hfilled := filled_receiveChunks hstart hdelivered
      rw [hreceive] at hfilled
      exact .inr hfilled
  · intro hinitialized
    rw [show file.initialized = true from hinitialized] at hfile
    cases hfile

theorem outcome_sound {versionId : Option ν} (call : Call ν β) {answer : Answer ν β}
    {version : ν} (hrequested : ∀ v, call.requested = some v → versionId = some v)
    (hconforms : answer.Conforms version)
    (hcells : answer.head.status < 300 → call.kind = .full ∨
      ∀ i < call.out.outOffset, ∃ b, call.out.bufferOut i = some b ∧ OfVersion versionId b) :
    CallSound versionId { call with stage := answer.outcome } := by
  refine ⟨hrequested, ?_⟩
  unfold Answer.outcome
  split
  · refine ⟨hconforms.failure, ?_⟩
    intro hstatus
    exact ⟨(hconforms.success hstatus).1, hcells hstatus⟩
  · trivial

theorem PinSound.receive {s : S3FileHandle ν β} {r : Nat} {kind : Kind} {requested : Option ν}
    {out : OutBuffer (Versioned ν β)} {answer : Answer ν β} (hsound : PinSound s)
    (hcall : s.calls r = some { kind, requested, out, stage := .receiving answer })
    (hkept : kind = .full → 300 ≤ answer.head.status → answer.delivered = []) :
    PinSound (receiveAnswer s r { kind, requested, out } answer) := by
  have hold := hsound.calls r _ hcall
  obtain ⟨version, hconforms, hpinned⟩ := hold.stage
  have hversion : answer.head.status < 300 →
      ∀ b ∈ answer.delivered.flatten, OfVersion s.versionId b := by
    intro hstatus b hb
    obtain ⟨-, -, horigin⟩ := hconforms.success hstatus
    exact ⟨version, (hpinned hstatus).1, horigin b (Answer.mem_delivered hb)⟩
  cases kind with
  | full =>
      unfold receiveAnswer
      simp only
      apply hsound.receiveFull hcall _ rfl
      · exact outcome_sound { kind := .full, requested, out } hold.requested hconforms
          fun _ => .inl rfl
      · by_cases hstatus : answer.head.status < 300
        · exact hversion hstatus
        · intro b hb
          rw [hkept rfl (by omega)] at hb
          cases hb
  | range bufferOutLen etag autoFallback =>
      unfold receiveAnswer
      simp only
      split
      · rename_i out' hreceive
        apply hsound.setCall
        rintro c ⟨⟩
        refine ⟨?_, nofun⟩
        apply outcome_sound
          { kind := .range bufferOutLen etag autoFallback, requested, out := out' }
          hold.requested hconforms
        intro hstatus
        right
        have hoffset : out.outOffset = ([] : List (Versioned ν β)).length :=
          (hpinned hstatus).2.resolve_left nofun
        have hnothing : Holds out.bufferOut ([] : List (Versioned ν β)) := by
          intro i hi
          simp at hi
        obtain ⟨hlength, hholds⟩ := receiveBody_ok hreceive hoffset hnothing
        rw [List.nil_append] at hlength hholds
        intro i hi
        have hin : i < answer.delivered.flatten.length := hlength ▸ hi
        refine ⟨answer.delivered.flatten[i], ?_, hversion hstatus _ (List.getElem_mem hin)⟩
        exact (hholds i hin).trans (List.getElem?_eq_getElem hin)
      · apply hsound.setCall
        rintro c ⟨⟩
        exact ⟨⟨hold.requested, trivial⟩, nofun⟩

theorem OneVersion.append {s s' : S3FileHandle ν β} {data : List (Option (Versioned ν β))}
    (hone : OneVersion s) (hversion : s'.versionId = s.versionId)
    (hreturned : s'.returned = s.returned ++ [data])
    (hdata : ∀ cell ∈ data, ∃ b, cell = some b ∧ OfVersion s.versionId b) : OneVersion s' := by
  intro cells hcells cell hcell
  rw [hversion]
  rw [hreturned, List.mem_append, List.mem_singleton] at hcells
  rcases hcells with hcells | rfl
  · exact hone cells hcells cell hcell
  · exact hdata cell hcell

theorem mem_load {cells : Cells (Versioned ν β)} {P : Versioned ν β → Prop}
    {offset len bound : Nat}
    (hcells : ∀ i < bound, ∃ b, cells i = some b ∧ P b) (hbound : offset + len ≤ bound) :
    ∀ cell ∈ load cells offset len, ∃ b, cell = some b ∧ P b := by
  intro cell hcell
  unfold load at hcell
  rw [List.mem_map] at hcell
  obtain ⟨i, hi, rfl⟩ := hcell
  rw [List.mem_range] at hi
  exact hcells (offset + i) (by omega)

theorem PinSound.finish {s s' : S3FileHandle ν β} {r : Nat} {kind : Kind} {requested : Option ν}
    {out : OutBuffer (Versioned ν β)} {head : ResponseHead} (hsound : PinSound s)
    (hcall : s.calls r = some { kind, requested, out, stage := .answered head })
    (hkept : kind = .full → s.file.capacity = 0 → s.length = 0)
    (hfinish : finishCall s r { kind, requested, out } head = some s') : PinSound s' := by
  have hdropped : PinSound (s.setCall r none) := hsound.setCall nofun
  have hstage := (hsound.calls r _ hcall).stage
  cases kind with
  | full =>
      simp only [finishCall] at hfinish
      split at hfinish
      · cases hfinish
        have howner := hsound.owner r _ hcall rfl
        have hfilled : Filled (OfVersion s.versionId) s.length s.file := by
          rcases hsound.file with hcapacity | hfilled
          · rw [hkept rfl hcapacity]
            intro i hi
            cases hi
          · exact hfilled
        refine ⟨hdropped.calls, ?_, nofun, .inr hfilled, fun _ => hfilled, hsound.returned⟩
        intro r' call hcall' hfull
        have howner' := hdropped.owner r' call hcall' hfull
        have hr : r = r' := Option.some.inj (howner.symm.trans howner')
        subst hr
        simp [S3FileHandle.setCall] at hcall'
      · cases hfinish
  | range bufferOutLen etag autoFallback =>
      simp only [finishCall] at hfinish
      split at hfinish
      · cases hfinish
        rename_i haccepted
        refine ⟨hdropped.calls, hdropped.owner, hsound.locked, hsound.file,
          hsound.initialized, ?_⟩
        refine OneVersion.append hsound.returned rfl rfl ?_
        obtain ⟨hfailure, hsuccess⟩ := hstage
        unfold checkResponse at haccepted
        split at haccepted
        · cases haccepted
        · split at haccepted
          · cases haccepted
          · rename_i hshort
            have hstatus : head.status < 300 := by
              by_contra hlarge
              have hfail := hfailure (by omega)
              rw [show acceptsHead head = true from haccepted] at hfail
              cases hfail
            obtain ⟨hok, hcells⟩ := hsuccess hstatus
            apply mem_load (hcells.resolve_left nofun)
            by_contra hlong
            exact hshort ⟨hok, fun heq => hlong (by
              show 0 + bufferOutLen ≤ out.outOffset
              have hlen : out.outOffset = bufferOutLen := heq
              omega)⟩
      · cases hfinish

theorem PinSound.step [DecidableEq ν] {s s' : S3FileHandle ν β} {l : Label ν β}
    (hsound : PinSound s) (hserver : ServerConforms s l) (hkept : PinsKept s l)
    (hstep : VersionPinning.step s l = some s') : PinSound s' := by
  cases l with
  | prepare r kind =>
      simp only [VersionPinning.step] at hstep
      split at hstep
      · exact hsound.prepare hstep
      · cases hstep
  | recreate r =>
      simp only [VersionPinning.step] at hstep
      split at hstep
      · cases hstep
        rename_i hcall
        apply hsound.setCall
        rintro c ⟨⟩
        exact ⟨⟨fun _ h => h, trivial⟩, fun hfull => hsound.owner r _ hcall hfull⟩
      · cases hstep
        rename_i hcall
        apply hsound.setCall
        rintro c ⟨⟩
        exact ⟨⟨fun _ h => h, trivial⟩, fun hfull => hsound.owner r _ hcall hfull⟩
      · cases hstep
  | serve r answer =>
      have hserved : ∀ call, s.calls r = some call →
          PinSound (s.setCall r (some { call with stage := .served answer })) := by
        intro call hcall
        have hold := hsound.calls r call hcall
        apply hsound.setCall
        rintro c ⟨⟩
        refine ⟨⟨hold.requested, _, hserver call hcall, ?_⟩, hsound.owner r call hcall⟩
        intro requested hrequested
        rw [show call.requested = some requested from hrequested]
        rfl
      simp only [VersionPinning.step] at hstep
      split at hstep
      · cases hstep
        exact hserved _ ‹_›
      · cases hstep
        exact hserved _ ‹_›
      · cases hstep
  | arrive r =>
      simp only [VersionPinning.step] at hstep
      split at hstep
      · cases hstep
        rename_i hcall
        apply hsound.arrive hcall
        rintro rfl hstatus
        simpa [PinsKept, pinsKept, hcall, Nat.not_le.mpr hstatus] using hkept
      · cases hstep
  | receive r =>
      simp only [VersionPinning.step] at hstep
      split at hstep
      · cases hstep
        rename_i hcall
        apply hsound.receive hcall
        rintro rfl hstatus
        simpa [PinsKept, pinsKept, hcall, Nat.not_lt.mpr hstatus] using hkept
      · cases hstep
  | finish r =>
      simp only [VersionPinning.step] at hstep
      split at hstep
      · rename_i hcall
        refine hsound.finish hcall ?_ hstep
        rintro rfl hcapacity
        simpa [PinsKept, pinsKept, hcall, hcapacity] using hkept
      · cases hstep
  | giveUp r =>
      simp only [VersionPinning.step] at hstep
      split at hstep
      · cases hstep
        exact hsound.setCall nofun
      · cases hstep
  | readCached location nrBytes =>
      simp only [VersionPinning.step] at hstep
      split at hstep
      · cases hstep
        rename_i hcached
        refine ⟨hsound.calls, hsound.owner, hsound.locked, hsound.file, hsound.initialized, ?_⟩
        refine OneVersion.append hsound.returned rfl rfl ?_
        exact mem_load (hsound.initialized hcached.1) hcached.2
      · cases hstep
  | discard =>
      simp only [VersionPinning.step] at hstep
      split at hstep
      · cases hstep
        rename_i hinitialized
        refine ⟨hsound.calls, ?_, nofun, .inl rfl, nofun, hsound.returned⟩
        intro r call hcall hfull
        -- a download under way has the lock, so no call writes to the file given up
        have hlocked := hsound.locked (by rw [hsound.owner r call hcall hfull]; rfl)
        rw [hinitialized] at hlocked
        cases hlocked
      · cases hstep
  | overwrite version =>
      cases hstep
      exact ⟨hsound.calls, hsound.owner, hsound.locked, hsound.file, hsound.initialized,
        hsound.returned⟩

/-- A handle that has not read anything and has no version id. -/
def opened (current : ν) (length : Nat) : S3FileHandle ν β := { current, length }

theorem pinSound_opened (current : ν) (length : Nat) :
    PinSound (opened current length : S3FileHandle ν β) :=
  ⟨nofun, nofun, nofun, .inl rfl, nofun, nofun⟩

/-- As long as no response to an unversioned request arrives after another version
has been pinned, all data read on the handle belongs to the pinned version. -/
theorem oneVersion_of_pinsKept [DecidableEq ν] {current : ν} {length : Nat} {s : S3FileHandle ν β}
    {labels : List (Label ν β)}
    (hrun : Run step (fun s l => ServerConforms s l ∧ PinsKept s l) (opened current length)
      labels s) : OneVersion s := by
  have hsound : PinSound s :=
    hrun.invariant PinSound (fun _ _ _ hs hok hstep => hs.step hok.1 hok.2 hstep)
      (pinSound_opened current length)
  exact hsound.returned

/-- A response that carries one byte of the version. -/
def oneByte (version : Nat) : Answer Nat UInt8 :=
  { head := { status := 206, contentLength := some 1 }
    versionId := some version
    chunks := [[{ value := UInt8.ofNat version, origin := some version }]] }

def readOne : Kind := .range 1 [] true

/-- The first read pins version 1, and the second, prepared after an overwrite, asks
for it. -/
theorem oneVersion_of_pinsKept_read_twice :
    ∃ labels s, Run step (fun s l => ServerConforms s l ∧ PinsKept s l)
        (opened 1 1 : S3FileHandle Nat UInt8) labels s ∧
      s.returned.length = 2 ∧ OneVersion s := by
  have hexec : (exec (guarded step fun s l => ServerConforms s l ∧ PinsKept s l)
      (opened 1 1 : S3FileHandle Nat UInt8)
      [.prepare 0 readOne, .serve 0 (oneByte 1), .overwrite 2, .arrive 0, .receive 0, .finish 0,
        .prepare 1 readOne, .serve 1 (oneByte 1), .arrive 1, .receive 1, .finish 1]).map
      (fun s => s.returned.length) = some 2 := by decide
  obtain ⟨s, hs, hreturned⟩ := Option.map_eq_some_iff.mp hexec
  have hrun := run_of_exec_guarded hs
  exact ⟨_, s, hrun, hreturned, oneVersion_of_pinsKept hrun⟩

/-- Two unversioned reads around an overwrite: the second response arrives when the
handle is pinned to version 1, and its bytes of version 2 are returned. -/
theorem two_versions_returned :
    ∃ labels s, Run step ServerConforms (opened 1 1 : S3FileHandle Nat UInt8) labels s ∧
      ¬ OneVersion s := by
  have hexec : (exec (guarded step ServerConforms) (opened 1 1 : S3FileHandle Nat UInt8)
      [.prepare 0 readOne, .prepare 1 readOne, .serve 0 (oneByte 1), .overwrite 2,
        .serve 1 (oneByte 2), .arrive 0, .arrive 1, .receive 0, .receive 1, .finish 0,
        .finish 1]).map (fun s => (s.versionId, s.returned)) =
      some (some 1, [[some { value := 1, origin := some 1 }],
        [some { value := 2, origin := some 2 }]]) := by decide
  obtain ⟨s, hs, hread⟩ := Option.map_eq_some_iff.mp hexec
  obtain ⟨hversion, hreturned⟩ := Prod.mk.inj hread
  refine ⟨_, s, run_of_exec_guarded hs, ?_⟩
  intro hone
  obtain ⟨b, hb, version, hpinned, horigin⟩ :=
    hone [some { value := 2, origin := some 2 }] (by simp [hreturned]) _
      (List.mem_singleton.mpr rfl)
  cases hb
  rw [hversion] at hpinned
  cases hpinned
  cases horigin

end HaybarnHttpfs.VersionPinning
