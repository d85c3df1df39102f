import HaybarnHttpfs.Foundation.Numbering
import HaybarnHttpfs.Foundation.TransitionRuns
import HaybarnHttpfs.HTTPExchange
import HaybarnHttpfs.S3MultiPartUpload

/-!
The slots of the upload threads. `FlushBuffer` takes one in the writer's thread, and
`UploadBuffer` gives it back in a thread of its own, unless an exception leaves it
first.
-/

namespace HaybarnHttpfs.UploadSlots

open HaybarnHttpfs.Foundation.ByteStrings HaybarnHttpfs.Foundation.Numbering
open HaybarnHttpfs.Foundation.TransitionRuns HaybarnHttpfs.HTTPExchange
open HaybarnHttpfs.S3MultiPartUpload (uint16Limit)

/-- What an exception is to the `catch` block of a part upload: of type `IO` or `HTTP`,
another `std::exception`, or none at all. -/
inductive Thrown where
  | io
  | http
  | other
  | foreign
  deriving DecidableEq, Repr

/-- What the upload threads share. -/
structure Slots where
  uploadsInProgress : Nat := 0
  partsUploaded : Nat := 0
  partEtags : List (Nat × Bytes) := []
  errors : List Thrown := []
  deriving DecidableEq, Repr

/-- What `PutRequest` comes to. -/
abbrev Reply := Except Thrown HTTPResponse

/-- The `try` block. -/
def uploadedEtag (reply : Reply) : Except Thrown Bytes :=
  match reply with
  | .error thrown => .error thrown
  | .ok res =>
      if res.status ≠ 200 then .error .http
      else if !res.hasHeader (bytes "ETag") then .error .io
      else .ok (res.getHeaderValue (bytes "ETag"))

def insertEtag (partNo : Nat) (etag : Bytes) (partEtags : List (Nat × Bytes)) :
    List (Nat × Bytes) :=
  if (partEtags.lookup partNo).isSome then partEtags else partEtags ++ [(partNo, etag)]

def uploadBufferImplementation (reply : Reply) (partNo : Nat) (singleUpload : Bool) (s : Slots) :
    Except Thrown Unit × Slots :=
  match uploadedEtag reply with
  | .error thrown =>
      if thrown = .foreign || singleUpload then (.error thrown, s)
      else if thrown ≠ .io ∧ thrown ≠ .http then (.error thrown, s)
      else (.ok (), { s with errors := s.errors ++ [thrown] })
  | .ok etag =>
      (.ok (), { s with
        partEtags := insertEtag partNo etag s.partEtags
        partsUploaded := (s.partsUploaded + 1) % uint16Limit })

/-- It throws an `InternalException` if there is no upload. -/
def notifyUploadsInProgress (s : Slots) : Except Thrown Unit × Slots :=
  if s.uploadsInProgress = 0 then (.error .other, s)
  else (.ok (), { s with uploadsInProgress := s.uploadsInProgress - 1 })

def uploadBuffer (reply : Reply) (partNo : Nat) (s : Slots) : Except Thrown Unit × Slots :=
  match uploadBufferImplementation reply partNo false s with
  | (.error thrown, s) => (.error thrown, s)
  | (.ok (), s) => notifyUploadsInProgress s

inductive Stage where
  | putting
  | notifying
  | finished
  deriving DecidableEq, Repr

structure UploadThread where
  partNo : Nat
  stage : Stage := .putting
  deriving DecidableEq, Repr

/-- Where the writer stands in `FlushBuffer`. -/
inductive Writer where
  | idle
  | waitingForSlot (partNo : Nat)
  | initializing (partNo : Nat)
  | starting (partNo : Nat)
  deriving DecidableEq, Repr

structure Upload where
  slots : Slots := {}
  initializedMultipartUpload : Bool := false
  writer : Writer := .idle
  threads : List UploadThread := []
  terminated : Bool := false
  deriving DecidableEq, Repr

/-- `initializeAll` is the request of `FlushAllBuffers`; starting a thread may fail. -/
inductive Label where
  | flush (partNo : Nat)
  | acquire
  | initialized (ok : Bool)
  | initializeAll (ok : Bool)
  | start (ok : Bool)
  | put (k : Nat) (reply : Reply)
  | notify (k : Nat)

def Upload.setStage (s : Upload) (k : Nat) (thread : UploadThread) (stage : Stage) : Upload :=
  { s with threads := s.threads.set k { thread with stage } }

/-- An exception that leaves a thread ends the process. -/
def step (maxUploadThreads : Nat) (s : Upload) : Label → Option Upload
  | .flush partNo =>
      if s.terminated || s.writer ≠ .idle then none
      else if !s.slots.errors.isEmpty then some s
      else some { s with writer := .waitingForSlot partNo }
  | .acquire =>
      match s.terminated, s.writer with
      | false, .waitingForSlot partNo =>
          if s.slots.uploadsInProgress ≥ maxUploadThreads then none
          else
            let slots := { s.slots with
              uploadsInProgress := (s.slots.uploadsInProgress + 1) % uint16Limit }
            if s.initializedMultipartUpload then some { s with slots, writer := .starting partNo }
            else some { s with slots, writer := .initializing partNo }
      | _, _ => none
  | .initialized ok =>
      match s.terminated, s.writer with
      | false, .initializing partNo =>
          if ok then
            some { s with initializedMultipartUpload := true, writer := .starting partNo }
          else some { s with slots := (notifyUploadsInProgress s.slots).2, writer := .idle }
      | _, _ => none
  | .initializeAll ok =>
      if s.terminated || s.writer ≠ .idle || s.initializedMultipartUpload then none
      else some { s with initializedMultipartUpload := ok }
  | .start ok =>
      match s.terminated, s.writer with
      | false, .starting partNo =>
          if ok then some { s with threads := s.threads ++ [{ partNo }], writer := .idle }
          else some { s with writer := .idle }
      | _, _ => none
  | .put k reply =>
      match s.terminated, s.threads[k]? with
      | false, some thread =>
          if thread.stage ≠ .putting then none
          else
            match uploadBufferImplementation reply thread.partNo false s.slots with
            | (.error _, slots) => some { s with slots, terminated := true }
            | (.ok (), slots) => some ({ s with slots }.setStage k thread .notifying)
      | _, _ => none
  | .notify k =>
      match s.terminated, s.threads[k]? with
      | false, some thread =>
          if thread.stage ≠ .notifying then none
          else
            match notifyUploadsInProgress s.slots with
            | (.error _, slots) => some { s with slots, terminated := true }
            | (.ok (), slots) => some ({ s with slots }.setStage k thread .finished)
      | _, _ => none

/-- The exceptions that the `catch` block keeps. -/
def Caught (reply : Reply) : Prop :=
    ∀ thrown, reply = .error thrown → thrown = .io ∨ thrown = .http

/-- No exception escapes, a failure is recorded, and the slot is released once. -/
def Releases (reply : Reply) (partNo : Nat) (s : Slots) : Prop :=
  ∃ s', uploadBuffer reply partNo s = (.ok (), s') ∧
    s'.uploadsInProgress + 1 = s.uploadsInProgress ∧
      ((∃ thrown, uploadedEtag reply = .error thrown) → s'.errors.length = s.errors.length + 1)

variable {maxUploadThreads : Nat} {s s' : Upload} {slots : Slots} {reply : Reply} {partNo : Nat}

theorem uploadedEtag_error {thrown : Thrown} (herror : uploadedEtag reply = .error thrown) :
    reply = .error thrown ∨ thrown = .io ∨ thrown = .http := by
  unfold uploadedEtag at herror
  split at herror
  · cases herror
    exact .inl rfl
  · split at herror
    · cases herror
      exact .inr (.inr rfl)
    · split at herror
      · cases herror
        exact .inr (.inl rfl)
      · cases herror

theorem implementation_of_caught (hcaught : Caught reply) (partNo : Nat) (slots : Slots) :
    ∃ slots', uploadBufferImplementation reply partNo false slots = (.ok (), slots') ∧
      slots'.uploadsInProgress = slots.uploadsInProgress ∧
      ((∃ thrown, uploadedEtag reply = .error thrown) →
        slots'.errors.length = slots.errors.length + 1) := by
  cases hetag : uploadedEtag reply with
  | error thrown =>
      have hkept : thrown = .io ∨ thrown = .http := by
        rcases uploadedEtag_error hetag with hreply | hkept
        · exact hcaught thrown hreply
        · exact hkept
      have hresult : uploadBufferImplementation reply partNo false slots =
          (.ok (), { slots with errors := slots.errors ++ [thrown] }) := by
        rcases hkept with rfl | rfl
        · simp [uploadBufferImplementation, hetag]
        · simp [uploadBufferImplementation, hetag]
      exact ⟨_, hresult, rfl, fun _ => by simp⟩
  | ok etag =>
      refine ⟨{ slots with
        partEtags := insertEtag partNo etag slots.partEtags
        partsUploaded := (slots.partsUploaded + 1) % uint16Limit }, ?_, rfl, ?_⟩
      · rw [uploadBufferImplementation, hetag]
      · rintro ⟨thrown, herror⟩
        cases herror

theorem releases_iff (hslot : 0 < slots.uploadsInProgress) :
    Releases reply partNo slots ↔ Caught reply := by
  constructor
  · rintro ⟨slots', hresult, -, -⟩ thrown rfl
    by_contra hlost
    rw [not_or] at hlost
    have hescapes : uploadBufferImplementation (.error thrown) partNo false slots =
        (.error thrown, slots) := by
      simp [uploadBufferImplementation, uploadedEtag, hlost]
    rw [uploadBuffer, hescapes] at hresult
    cases hresult
  · intro hcaught
    obtain ⟨slots', hresult, hslots, herrors⟩ := implementation_of_caught hcaught partNo slots
    have hnotify : notifyUploadsInProgress slots' =
        (.ok (), { slots' with uploadsInProgress := slots'.uploadsInProgress - 1 }) := by
      rw [notifyUploadsInProgress, if_neg (by omega)]
    refine ⟨{ slots' with uploadsInProgress := slots'.uploadsInProgress - 1 }, ?_, ?_, herrors⟩
    · rw [uploadBuffer, hresult]
      exact hnotify
    · simp only
      omega

def unfinished (thread : UploadThread) : Bool := thread.stage ≠ .finished

/-- The slot that the writer holds for a thread not yet started. -/
def Writer.held : Writer → Nat
  | .initializing _ | .starting _ => 1
  | .idle | .waitingForSlot _ => 0

/-- The uploads that were started and are not yet finished. -/
def active (s : Upload) : Nat := s.threads.countP unfinished + s.writer.held

structure Conserved (maxUploadThreads : Nat) (s : Upload) : Prop where
  inProgress : s.slots.uploadsInProgress = active s
  bounded : s.slots.uploadsInProgress ≤ maxUploadThreads
  alive : s.terminated = false

/-- Every exception is one that is caught, every thread starts, and the counter has
room for one more upload. -/
def Contained (s : Upload) : Label → Prop
  | .put _ reply => Caught reply
  | .start ok => ok = true
  | .acquire => s.slots.uploadsInProgress + 1 < uint16Limit
  | _ => True

theorem active_setStage {k : Nat} {thread : UploadThread} (hk : s.threads[k]? = some thread)
    (stage : Stage) :
    active (s.setStage k thread stage) + (if unfinished thread then 1 else 0) =
      active s + if unfinished { thread with stage } then 1 else 0 := by
  have hcount := countP_set_add unfinished { thread with stage } hk
  simp only [active, Upload.setStage]
  omega

theorem Conserved.put {k : Nat} {thread : UploadThread} (hs : Conserved maxUploadThreads s)
    (hk : s.threads[k]? = some thread) (hputting : thread.stage = .putting)
    (hslots : slots.uploadsInProgress = s.slots.uploadsInProgress) :
    Conserved maxUploadThreads ({ s with slots }.setStage k thread .notifying) := by
  have hactive := active_setStage (s := { s with slots }) hk .notifying
  simp only [unfinished, hputting, ne_eq, reduceCtorEq, not_false_eq_true, decide_true,
    if_true] at hactive
  refine ⟨?_, ?_, hs.alive⟩
  · have hbefore : slots.uploadsInProgress = active { s with slots } := hslots.trans hs.inProgress
    exact hbefore.trans (by omega)
  · exact Nat.le_trans (Nat.le_of_eq hslots) hs.bounded

theorem Conserved.notify {k : Nat} {thread : UploadThread} (hs : Conserved maxUploadThreads s)
    (hk : s.threads[k]? = some thread) (hnotifying : thread.stage = .notifying) :
    0 < s.slots.uploadsInProgress ∧
      Conserved maxUploadThreads ({ s with slots := { s.slots with
        uploadsInProgress := s.slots.uploadsInProgress - 1 } }.setStage k thread .finished) := by
  have hbefore := hs.inProgress
  have hbound := hs.bounded
  have hunfinished : unfinished thread = true := by simp [unfinished, hnotifying]
  have hpositive : 0 < s.threads.countP unfinished :=
    List.countP_pos_iff.mpr ⟨thread, List.mem_of_getElem? hk, hunfinished⟩
  have hslot : 0 < s.slots.uploadsInProgress := by
    unfold active at hbefore
    omega
  have hactive := active_setStage (s := s) hk .finished
  rw [hunfinished] at hactive
  simp only [unfinished, if_true, ne_eq, not_true_eq_false, decide_false, Bool.false_eq_true,
    if_false] at hactive
  refine ⟨hslot, ?_, ?_, hs.alive⟩
  · change s.slots.uploadsInProgress - 1 = active (s.setStage k thread .finished)
    omega
  · change s.slots.uploadsInProgress - 1 ≤ maxUploadThreads
    omega

theorem Conserved.acquire (hs : Conserved maxUploadThreads s) (hcontained : Contained s .acquire)
    (hstep : UploadSlots.step maxUploadThreads s .acquire = some s') :
    Conserved maxUploadThreads s' := by
  simp only [UploadSlots.step] at hstep
  split at hstep
  · rename_i partNo _ hwriter
    split at hstep
    · cases hstep
    · rename_i hfree
      have hroom : (s.slots.uploadsInProgress + 1) % uint16Limit =
          s.slots.uploadsInProgress + 1 := Nat.mod_eq_of_lt hcontained
      have hcount : s.slots.uploadsInProgress = s.threads.countP unfinished := by
        simpa [active, hwriter, Writer.held] using hs.inProgress
      simp only [hroom] at hstep
      split at hstep
      all_goals
        cases hstep
        refine ⟨?_, ?_, hs.alive⟩
        · simp [active, Writer.held, hcount]
        · simp only
          omega
  · cases hstep

theorem Conserved.initialized {ok : Bool} (hs : Conserved maxUploadThreads s)
    (hstep : UploadSlots.step maxUploadThreads s (.initialized ok) = some s') :
    Conserved maxUploadThreads s' := by
  have hbound := hs.bounded
  simp only [UploadSlots.step] at hstep
  split at hstep
  · rename_i partNo _ hwriter
    split at hstep
    · cases hstep
      refine ⟨?_, hbound, hs.alive⟩
      simpa [active, hwriter, Writer.held] using hs.inProgress
    · cases hstep
      have hslot : s.slots.uploadsInProgress = s.threads.countP unfinished + 1 := by
        simpa [active, hwriter, Writer.held] using hs.inProgress
      have hreleased : (notifyUploadsInProgress s.slots).2.uploadsInProgress =
          s.threads.countP unfinished := by
        rw [notifyUploadsInProgress, if_neg (by omega)]
        simp [hslot]
      refine ⟨?_, ?_, hs.alive⟩
      · simp [active, Writer.held, hreleased]
      · simp only [hreleased]
        omega
  · cases hstep

theorem Conserved.step {l : Label} (hs : Conserved maxUploadThreads s)
    (hcontained : Contained s l)
    (hstep : step maxUploadThreads s l = some s') : Conserved maxUploadThreads s' := by
  have hbefore := hs.inProgress
  have hbound := hs.bounded
  have halive := hs.alive
  cases l with
  | flush partNo =>
      simp only [UploadSlots.step] at hstep
      split at hstep
      · cases hstep
      · rename_i hidle
        rw [halive, Bool.false_or, decide_eq_true_eq, not_not] at hidle
        split at hstep
        · cases hstep
          exact hs
        · cases hstep
          refine ⟨?_, hbound, halive⟩
          simpa [active, hidle, Writer.held] using hbefore
  | acquire => exact hs.acquire hcontained hstep
  | initialized ok => exact hs.initialized hstep
  | initializeAll ok =>
      simp only [UploadSlots.step] at hstep
      split at hstep
      · cases hstep
      · cases hstep
        exact ⟨hbefore, hbound, halive⟩
  | start ok =>
      simp only [UploadSlots.step] at hstep
      split at hstep
      · rename_i partNo _ hwriter
        have hok : ok = true := hcontained
        rw [if_pos hok] at hstep
        cases hstep
        refine ⟨?_, hbound, halive⟩
        simpa [active, hwriter, Writer.held, unfinished] using hbefore
      · cases hstep
  | put k reply =>
      simp only [UploadSlots.step] at hstep
      split at hstep
      · rename_i thread _ hk
        split at hstep
        · cases hstep
        · rename_i hputting
          rw [ne_eq, not_not] at hputting
          obtain ⟨slots, hresult, hslots, -⟩ :=
            implementation_of_caught hcontained thread.partNo s.slots
          simp only [hresult] at hstep
          cases hstep
          exact hs.put hk hputting hslots
      · cases hstep
  | notify k =>
      simp only [UploadSlots.step] at hstep
      split at hstep
      · rename_i thread _ hk
        split at hstep
        · cases hstep
        · rename_i hnotifying
          rw [ne_eq, not_not] at hnotifying
          obtain ⟨hslot, hconserved⟩ := hs.notify hk hnotifying
          have hreleased : notifyUploadsInProgress s.slots = (.ok (), { s.slots with
              uploadsInProgress := s.slots.uploadsInProgress - 1 }) := by
            rw [notifyUploadsInProgress, if_neg (by omega)]
          simp only [hreleased] at hstep
          cases hstep
          exact hconserved
      · cases hstep

theorem conserved_of_run {labels : List Label}
    (hrun : Run (step maxUploadThreads) Contained {} labels s) : Conserved maxUploadThreads s :=
  hrun.invariant (Conserved maxUploadThreads)
    (fun _ _ _ hs hcontained hstep => hs.step hcontained hstep) ⟨rfl, Nat.zero_le _, rfl⟩

/-- An upload keeps its promises exactly when its exception is caught, and in a run of such
uploads, with every thread started and room in the counter, the slots are conserved. -/
theorem slotsConserved_of_contained (reply : Reply) (partNo : Nat) (slots : Slots)
    (maxUploadThreads : Nat) (labels : List Label) (s : Upload) :
    (0 < slots.uploadsInProgress → (Releases reply partNo slots ↔ Caught reply)) ∧
      (Run (step maxUploadThreads) Contained {} labels s → Conserved maxUploadThreads s) :=
  ⟨fun hslot => releases_iff hslot, fun hrun => conserved_of_run hrun⟩

instance (reply : Reply) : Decidable (Caught reply) :=
  match reply with
  | .error thrown => decidable_of_iff (thrown = .io ∨ thrown = .http)
      ⟨fun h _ heq => Except.error.inj heq ▸ h, fun h => h thrown rfl⟩
  | .ok _ => isTrue nofun

instance (s : Upload) (l : Label) : Decidable (Contained s l) :=
  match l with
  | .put _ reply => inferInstanceAs (Decidable (Caught reply))
  | .start ok => inferInstanceAs (Decidable (ok = true))
  | .acquire => inferInstanceAs (Decidable (_ < _))
  | .flush _ | .initialized _ | .initializeAll _ | .notify _ => isTrue trivial

/-- Two uploads with one slot, of which the first fails with an `IOException`. -/
def failedUpload : List Label :=
  [.flush 0, .acquire, .initialized true, .start true, .flush 1, .put 0 (.error .io), .notify 0,
    .acquire, .start true]

theorem slotsConserved_failedUpload :
    ∃ s, Run (step 1) Contained {} failedUpload s ∧ Conserved 1 s ∧
      (Releases (.error .io) 0 { uploadsInProgress := 1 } ↔ Caught (.error .io)) := by
  have hexec : (exec (guarded (step 1) Contained) {} failedUpload).isSome := by decide +kernel
  obtain ⟨s, hexec⟩ := Option.isSome_iff_exists.mp hexec
  have hrun := run_of_exec_guarded hexec
  obtain ⟨hreleases, hconserved⟩ := slotsConserved_of_contained (.error .io) 0
    { uploadsInProgress := 1 } 1 failedUpload s
  exact ⟨s, hrun, hconserved hrun, hreleases (by decide)⟩

/-- A failed secret refresh throws out of `PutRequest` with a type that is not caught: the
exception leaves the thread, and the slot is not released. -/
def escapingUpload : List Label :=
  [.flush 0, .acquire, .initialized true, .start true, .put 0 (.error .other)]

theorem slot_lost_when_exception_escapes :
    uploadBuffer (.error .other) 0 { uploadsInProgress := 1 } =
        (.error .other, { uploadsInProgress := 1 }) ∧
      ∃ s, Run (step 50) Unrestricted {} escapingUpload s ∧ ¬ Conserved 50 s := by
  refine ⟨rfl, ?_⟩
  have hexec : (exec (step 50) {} escapingUpload).map (·.terminated) = some true := by
    decide +kernel
  obtain ⟨s, hexec, hterminated⟩ := Option.map_eq_some_iff.mp hexec
  refine ⟨s, run_of_exec hexec, fun hconserved => ?_⟩
  rw [hconserved.alive] at hterminated
  cases hterminated

end HaybarnHttpfs.UploadSlots
