import HaybarnHttpfs.Foundation.TransitionRuns
import Mathlib.Data.List.Perm.Basic
import Mathlib.Data.List.Nodup

/-!
The process-global `curl_multi` dispatcher. Worker threads submit transfers and
block; one dispatcher thread moves them from the submit queue into the multi
handle, harvests completions and signals the workers. A transfer stands for its
`PendingTransfer` together with the easy handle in it, whose
`CURLOPT_PRIVATE` points back to that `PendingTransfer`.
-/

namespace HaybarnHttpfs.CurlMultiDispatcher

open HaybarnHttpfs.Foundation.TransitionRuns

universe u

inductive CURLcode where
  | ok
  | abortedByCallback
  | failed (code : Nat)
  deriving DecidableEq, Repr

/-- What can go wrong while one transfer of the local batch is handed over:
`curl_multi_add_handle` reports an error, which the loop ignores, or
`in_flight.push_back` throws after the handle was added. -/
structure AddFault where
  addHandleFails : Bool := false
  pushBackThrows : Bool := false
  deriving DecidableEq, Repr

def AddFault.isNone (fault : AddFault) : Bool :=
  !fault.addHandleFails && !fault.pushBackThrows

/-- The dispatcher. `submitted` and `signalled` record what the workers did and
saw: every transfer that entered the queue, and every `SignalPending` call. -/
structure Dispatcher (T : Type u) where
  rejecting : Bool := false
  stopping : Bool := false
  submitQueue : List T := []
  inFlight : List T := []
  multi : List T := []
  loopExited : Bool := false
  submitted : List T := []
  signalled : List (T × CURLcode) := []
  deriving DecidableEq, Repr

variable {T : Type u}

def submit (d : Dispatcher T) (pending : T) : Dispatcher T × Option CURLcode :=
  if d.rejecting then (d, some .abortedByCallback)
  else
    ({ d with
        submitQueue := d.submitQueue ++ [pending]
        submitted := d.submitted ++ [pending] }, none)

def signalPending (d : Dispatcher T) (pending : T) (result : CURLcode) :
    Dispatcher T :=
  { d with signalled := d.signalled ++ [(pending, result)] }

def curlMultiAddHandle (fault : AddFault) (pending : T) (d : Dispatcher T) :
    Dispatcher T :=
  if fault.addHandleFails then d else { d with multi := d.multi ++ [pending] }

/-- The loop of `LoopOnce` over the local batch `to_add`. The second component
says that an exception left the loop, with the rest of the batch dropped. -/
def addBatch (fault : T → AddFault) :
    List T → Dispatcher T → Dispatcher T × Bool
  | [], d => (d, false)
  | pending :: toAdd, d =>
      let added := curlMultiAddHandle (fault pending) pending d
      if (fault pending).pushBackThrows then (added, true)
      else
        addBatch fault toAdd { added with inFlight := added.inFlight ++ [pending] }

@[simp] theorem curlMultiAddHandle_inFlight (fault : AddFault) (pending : T)
    (d : Dispatcher T) :
    (curlMultiAddHandle fault pending d).inFlight = d.inFlight := by
  unfold curlMultiAddHandle
  split
  · rfl
  · rfl

theorem addBatch_of_faultFree {fault : T → AddFault} {toAdd : List T}
    (hfree : ∀ t ∈ toAdd, (fault t).isNone) (d : Dispatcher T) :
    addBatch fault toAdd d =
      ({ d with multi := d.multi ++ toAdd, inFlight := d.inFlight ++ toAdd }, false) := by
  induction toAdd generalizing d with
  | nil => simp [addBatch]
  | cons pending toAdd ih =>
      have hnone : (fault pending).addHandleFails = false ∧
          (fault pending).pushBackThrows = false := by
        simpa [AddFault.isNone] using hfree pending (by simp)
      have hrest : ∀ t ∈ toAdd, (fault t).isNone :=
        fun t ht => hfree t (by simp [ht])
      simp [addBatch, curlMultiAddHandle, hnone, ih hrest]

theorem addBatch_frame (fault : T → AddFault) (toAdd : List T) (d : Dispatcher T) :
    (addBatch fault toAdd d).1 =
      { d with
        multi := (addBatch fault toAdd d).1.multi
        inFlight := (addBatch fault toAdd d).1.inFlight } := by
  induction toAdd generalizing d with
  | nil => rfl
  | cons pending toAdd ih =>
      simp only [addBatch, curlMultiAddHandle]
      split
      · split
        · rfl
        · rfl
      · rw [ih]
        split
        · rfl
        · rfl

@[simp] theorem addBatch_submitQueue (fault : T → AddFault) (toAdd : List T)
    (d : Dispatcher T) : (addBatch fault toAdd d).1.submitQueue = d.submitQueue := by
  rw [addBatch_frame]

@[simp] theorem addBatch_submitted (fault : T → AddFault) (toAdd : List T)
    (d : Dispatcher T) : (addBatch fault toAdd d).1.submitted = d.submitted := by
  rw [addBatch_frame]

@[simp] theorem addBatch_signalled (fault : T → AddFault) (toAdd : List T)
    (d : Dispatcher T) : (addBatch fault toAdd d).1.signalled = d.signalled := by
  rw [addBatch_frame]

theorem not_mem_multi_addBatch {fault : T → AddFault} {toAdd : List T} {t : T}
    (hfails : (fault t).addHandleFails) (d : Dispatcher T) (ht : t ∉ d.multi) :
    t ∉ (addBatch fault toAdd d).1.multi := by
  induction toAdd generalizing d with
  | nil => exact ht
  | cons pending toAdd ih =>
      have hadded : t ∉ (curlMultiAddHandle (fault pending) pending d).multi := by
        unfold curlMultiAddHandle
        split
        · exact ht
        · rename_i hadd
          have hne : t ≠ pending := by
            rintro rfl
            exact hadd hfails
          simp [ht, hne]
      simp only [addBatch]
      split
      · exact hadded
      · exact ih _ hadded

theorem exists_not_recorded_of_throws {fault : T → AddFault} {toAdd : List T}
    (d : Dispatcher T) (hnodup : (d.inFlight ++ toAdd).Nodup)
    (hthrows : ∃ t ∈ toAdd, (fault t).pushBackThrows) :
    (addBatch fault toAdd d).2 = true ∧
      ∃ t ∈ toAdd, t ∉ (addBatch fault toAdd d).1.inFlight := by
  induction toAdd generalizing d with
  | nil => simp at hthrows
  | cons pending toAdd ih =>
      simp only [addBatch]
      split
      · refine ⟨rfl, pending, by simp, ?_⟩
        rw [curlMultiAddHandle_inFlight]
        intro hmem
        exact (List.nodup_append.mp hnodup).2.2 pending hmem pending (by simp) rfl
      · rename_i hno
        obtain ⟨t, ht, hthrow⟩ := hthrows
        have htail : t ∈ toAdd := by
          rcases List.mem_cons.mp ht with rfl | htail
          · exact absurd hthrow hno
          · exact htail
        obtain ⟨hthrown, lost, hlost, habsent⟩ :=
          ih { curlMultiAddHandle (fault pending) pending d with
              inFlight := (curlMultiAddHandle (fault pending) pending d).inFlight
                ++ [pending] }
            (by simpa using hnodup) ⟨t, htail, hthrow⟩
        exact ⟨hthrown, lost, by simp [hlost], habsent⟩

/-- Each submitted transfer is in exactly one of the queue, `in_flight` and the
signal record, and the multi handle holds exactly `in_flight`. -/
structure Accounted (d : Dispatcher T) : Prop where
  distinct : d.submitted.Nodup
  placed : (d.submitQueue ++ d.inFlight ++ d.signalled.map Prod.fst).Perm d.submitted
  attached : d.multi.Perm d.inFlight
  flags : d.rejecting = d.stopping
  exited : d.loopExited → d.stopping ∧ d.submitQueue = [] ∧ d.inFlight = []

theorem accounted_init : Accounted ({} : Dispatcher T) :=
  ⟨List.nodup_nil, .refl _, .refl _, rfl, by simp⟩

theorem Accounted.nodup {d : Dispatcher T} (h : Accounted d) :
    (d.submitQueue ++ d.inFlight ++ d.signalled.map Prod.fst).Nodup :=
  h.placed.nodup_iff.mpr h.distinct

theorem Accounted.batch_nodup {d : Dispatcher T} (h : Accounted d) :
    (d.inFlight ++ d.submitQueue).Nodup :=
  ((List.perm_append_comm).nodup_iff).mp (List.nodup_append.mp h.nodup).1

theorem Accounted.running {d : Dispatcher T} (h : Accounted d)
    (hstopping : d.stopping = false) : d.loopExited = false := by
  by_contra hexited
  have := (h.exited (by simpa using hexited)).1
  simp [hstopping] at this

theorem Accounted.submit {d : Dispatcher T} {pending : T} (h : Accounted d)
    (hfresh : pending ∉ d.submitted) : Accounted (submit d pending).1 := by
  unfold CurlMultiDispatcher.submit
  split
  · exact h
  · rename_i hrejecting
    refine ⟨?_, ?_, h.attached, h.flags, ?_⟩
    · exact List.nodup_append.mpr
        ⟨h.distinct, by simp, by rintro t ht u hu rfl; simp_all⟩
    · calc
        (d.submitQueue ++ [pending] ++ d.inFlight ++ d.signalled.map Prod.fst).Perm
            (pending :: (d.submitQueue ++ d.inFlight ++ d.signalled.map Prod.fst)) := by
          simp [List.perm_middle]
        _ |>.Perm (pending :: d.submitted) := h.placed.cons pending
        _ |>.Perm (d.submitted ++ [pending]) := (List.perm_append_singleton _ _).symm
    · intro hexited
      have hstopping := (h.exited hexited).1
      simp [h.flags, hstopping] at hrejecting

theorem Accounted.drainQueue {d : Dispatcher T} (h : Accounted d)
    (hrunning : d.loopExited = false) :
    Accounted { d with
      submitQueue := []
      multi := d.multi ++ d.submitQueue
      inFlight := d.inFlight ++ d.submitQueue } := by
  refine ⟨h.distinct, ?_, h.attached.append_right _, h.flags, by simp [hrunning]⟩
  have hmoved : (d.inFlight ++ d.submitQueue).Perm (d.submitQueue ++ d.inFlight) :=
    List.perm_append_comm
  exact (hmoved.append_right _).trans h.placed

variable [DecidableEq T]

def harvestOne (d : Dispatcher T) (msg : T × CURLcode) : Dispatcher T :=
  signalPending
    { d with multi := d.multi.erase msg.1, inFlight := d.inFlight.erase msg.1 }
    msg.1 msg.2

def harvest (d : Dispatcher T) (messages : List (T × CURLcode)) : Dispatcher T :=
  messages.foldl harvestOne d

def ValidMessages (d : Dispatcher T) (messages : List (T × CURLcode)) : Prop :=
  (messages.map Prod.fst).Nodup ∧ ∀ msg ∈ messages, msg.1 ∈ d.multi

instance (d : Dispatcher T) (messages : List (T × CURLcode)) :
    Decidable (ValidMessages d messages) :=
  inferInstanceAs (Decidable (_ ∧ _))

/-- One iteration of `Loop`: `LoopOnce` under the handler that swallows every
exception. An iteration that throws never reaches the completions. -/
def loopOnce (fault : T → AddFault) (messages : List (T × CURLcode))
    (d : Dispatcher T) : Option (Dispatcher T) :=
  match addBatch fault d.submitQueue { d with submitQueue := [] } with
  -- the rest of the batch is dropped with the exception
  | (d, true) => some d
  | (d, false) => if ValidMessages d messages then some (harvest d messages) else none

def failAllPending (d : Dispatcher T) (result : CURLcode) : Dispatcher T :=
  let queued := d.submitQueue.foldl (signalPending · · result)
    { d with submitQueue := [] }
  let failed := d.inFlight.foldl
    (fun d pending =>
      signalPending { d with multi := d.multi.erase pending } pending result) queued
  { failed with inFlight := [] }

inductive Event (T : Type u) where
  | submit (pending : T)
  | iterate (fault : T → AddFault) (messages : List (T × CURLcode))
  | shutdown
  | exitLoop

/-- A `PendingTransfer` lives on the stack of one `Submit` call, so no transfer
is submitted twice. The destructor sets both flags under the queue's lock; the
loop sees `stopping` between two iterations and drains. -/
def step (d : Dispatcher T) : Event T → Option (Dispatcher T)
  | .submit pending =>
      if pending ∈ d.submitted then none else some (submit d pending).1
  | .iterate fault messages =>
      if d.stopping then none else loopOnce fault messages d
  | .shutdown => some { d with rejecting := true, stopping := true }
  | .exitLoop =>
      if d.stopping && !d.loopExited then
        some { failAllPending d .abortedByCallback with loopExited := true }
      else none

def timesSignalled (d : Dispatcher T) (pending : T) : Nat :=
  (d.signalled.map Prod.fst).count pending

/-- The transfers are where the dispatcher can still reach them: none is lost,
none is signalled twice, none is referred to after its signal, and the loop
leaves none behind. -/
structure NoLostTransfer (d : Dispatcher T) : Prop where
  pending : ∀ t ∈ d.submitted, timesSignalled d t = 0 →
    t ∈ d.submitQueue ∨ (t ∈ d.multi ∧ t ∈ d.inFlight)
  once : ∀ t ∈ d.submitted, timesSignalled d t ≤ 1
  released : ∀ t ∈ d.submitted, timesSignalled d t ≠ 0 →
    t ∉ d.submitQueue ∧ t ∉ d.inFlight ∧ t ∉ d.multi
  drained : d.loopExited → ∀ t ∈ d.submitted, timesSignalled d t = 1

def FaultFree (d : Dispatcher T) : Event T → Prop
  | .iterate fault _ => ∀ t ∈ d.submitQueue, (fault t).isNone
  | _ => True

theorem Accounted.count_eq {d : Dispatcher T} (h : Accounted d) {t : T}
    (ht : t ∈ d.submitted) :
    d.submitQueue.count t + d.inFlight.count t + timesSignalled d t = 1 := by
  have hone := List.count_eq_one_of_mem h.distinct ht
  rw [← h.placed.count_eq t, List.count_append, List.count_append] at hone
  exact hone

theorem Accounted.noLostTransfer {d : Dispatcher T} (h : Accounted d) :
    NoLostTransfer d := by
  constructor
  · intro t ht hzero
    have hsum := h.count_eq ht
    by_cases hqueue : t ∈ d.submitQueue
    · exact .inl hqueue
    · have hflight : t ∈ d.inFlight := by
        rw [← List.count_pos_iff]
        rw [List.count_eq_zero_of_not_mem hqueue] at hsum
        omega
      exact .inr ⟨h.attached.mem_iff.mpr hflight, hflight⟩
  · intro t ht
    have := h.count_eq ht
    omega
  · intro t ht hsignalled
    have hsum := h.count_eq ht
    have hflight : t ∉ d.inFlight := List.count_eq_zero.mp (by omega)
    exact ⟨List.count_eq_zero.mp (by omega), hflight,
      fun hmulti => hflight (h.attached.mem_iff.mp hmulti)⟩
  · intro hexited t ht
    obtain ⟨-, hqueue, hflight⟩ := h.exited hexited
    have hsum := h.count_eq ht
    simpa [hqueue, hflight] using hsum

theorem harvest_eq (d : Dispatcher T) (messages : List (T × CURLcode)) :
    harvest d messages =
      { d with
        multi := (messages.map Prod.fst).foldl List.erase d.multi
        inFlight := (messages.map Prod.fst).foldl List.erase d.inFlight
        signalled := d.signalled ++ messages } := by
  induction messages generalizing d with
  | nil => simp [harvest]
  | cons msg messages ih =>
      have hcons : harvest d (msg :: messages) = harvest (harvestOne d msg) messages := rfl
      rw [hcons, ih]
      simp [harvestOne, signalPending]

theorem failAllPending_eq (d : Dispatcher T) (result : CURLcode) :
    failAllPending d result =
      { d with
        submitQueue := []
        inFlight := []
        multi := d.inFlight.foldl List.erase d.multi
        signalled := d.signalled ++ d.submitQueue.map (·, result)
          ++ d.inFlight.map (·, result) } := by
  have hqueued : ∀ (queue : List T) (d : Dispatcher T),
      queue.foldl (signalPending · · result) d =
        { d with signalled := d.signalled ++ queue.map (·, result) } := by
    intro queue
    induction queue with
    | nil => simp
    | cons t queue ih =>
        intro d
        rw [List.foldl_cons, ih]
        simp [signalPending]
  have hflying : ∀ (flight : List T) (d : Dispatcher T),
      flight.foldl (fun d t =>
          signalPending { d with multi := d.multi.erase t } t result) d =
        { d with
          multi := flight.foldl List.erase d.multi
          signalled := d.signalled ++ flight.map (·, result) } := by
    intro flight
    induction flight with
    | nil => simp
    | cons t flight ih =>
        intro d
        rw [List.foldl_cons, ih]
        simp [signalPending]
  simp [failAllPending, hqueued, hflying]

theorem foldl_erase_perm {gone all : List T} (hnodup : gone.Nodup)
    (hsub : ∀ t ∈ gone, t ∈ all) :
    (gone ++ gone.foldl List.erase all).Perm all := by
  induction gone generalizing all with
  | nil => simp
  | cons t gone ih =>
      obtain ⟨hfresh, hrest⟩ := List.nodup_cons.mp hnodup
      have hmem : ∀ u ∈ gone, u ∈ all.erase t := by
        intro u hu
        have hne : u ≠ t := by
          rintro rfl
          exact hfresh hu
        exact (List.mem_erase_of_ne hne).mpr (hsub u (by simp [hu]))
      have htail : (t :: (gone ++ gone.foldl List.erase (all.erase t))).Perm
          (t :: all.erase t) := (ih hrest hmem).cons t
      exact htail.trans (List.perm_cons_erase (hsub t (by simp))).symm

theorem signalled_placed_perm {queue flight done signalled : List T}
    (hnodup : done.Nodup) (hsub : ∀ t ∈ done, t ∈ flight) :
    (queue ++ done.foldl List.erase flight ++ (signalled ++ done)).Perm
      (queue ++ flight ++ signalled) := by
  have hdone := foldl_erase_perm hnodup hsub
  rw [List.append_assoc, List.append_assoc]
  refine List.Perm.append_left queue ?_
  have hround : (done.foldl List.erase flight ++ (signalled ++ done)).Perm
      (signalled ++ (done ++ done.foldl List.erase flight)) := by
    rw [← List.append_assoc signalled]
    exact List.perm_append_comm
  exact hround.trans ((hdone.append_left signalled).trans List.perm_append_comm)

theorem Accounted.harvest {d : Dispatcher T} {messages : List (T × CURLcode)}
    (h : Accounted d) (hvalid : ValidMessages d messages)
    (hrunning : d.loopExited = false) : Accounted (harvest d messages) := by
  obtain ⟨hnodup, hattached⟩ := hvalid
  have hsub : ∀ t ∈ messages.map Prod.fst, t ∈ d.inFlight := by
    intro t ht
    obtain ⟨msg, hmsg, rfl⟩ := List.mem_map.mp ht
    exact h.attached.mem_iff.mp (hattached msg hmsg)
  rw [harvest_eq]
  refine ⟨h.distinct, ?_, ?_, h.flags, by simp [hrunning]⟩
  · simp only [List.map_append]
    exact (signalled_placed_perm hnodup hsub).trans h.placed
  · have hflight := foldl_erase_perm hnodup hsub
    have hmulti := foldl_erase_perm hnodup
      fun t ht => h.attached.mem_iff.mpr (hsub t ht)
    exact (List.perm_append_left_iff _).mp
      ((hmulti.trans h.attached).trans hflight.symm)

theorem Accounted.failAllPending {d : Dispatcher T} (h : Accounted d)
    (hstopping : d.stopping) (result : CURLcode) :
    Accounted { failAllPending d result with loopExited := true } := by
  have hflightNodup : d.inFlight.Nodup :=
    (List.nodup_append.mp (List.nodup_append.mp h.nodup).1).2.1
  rw [failAllPending_eq]
  refine ⟨h.distinct, ?_, ?_, h.flags, fun _ => ⟨hstopping, rfl, rfl⟩⟩
  · have hfst : ∀ l : List T, (l.map (·, result)).map Prod.fst = l := by
      intro l
      simp [Function.comp_def]
    simp only [List.map_append, hfst, List.nil_append]
    calc
      (d.signalled.map Prod.fst ++ d.submitQueue ++ d.inFlight).Perm
          (d.signalled.map Prod.fst ++ (d.submitQueue ++ d.inFlight)) := by
        rw [List.append_assoc]
      _ |>.Perm (d.submitQueue ++ d.inFlight ++ d.signalled.map Prod.fst) :=
        List.perm_append_comm
      _ |>.Perm d.submitted := h.placed
  · have hmulti := foldl_erase_perm hflightNodup
      fun t ht => h.attached.mem_iff.mpr ht
    have hempty : (d.inFlight ++ d.inFlight.foldl List.erase d.multi).Perm
        (d.inFlight ++ []) := by
      simpa using hmulti.trans h.attached
    exact (List.perm_append_left_iff _).mp hempty

theorem step_cases {d d' : Dispatcher T} {event : Event T}
    (hstep : step d event = some d') :
    (∃ pending, event = .submit pending ∧ pending ∉ d.submitted ∧
      d' = (submit d pending).1) ∨
    (∃ fault messages, event = .iterate fault messages ∧ d.stopping = false ∧
      loopOnce fault messages d = some d') ∨
    (event = .shutdown ∧ d' = { d with rejecting := true, stopping := true }) ∨
    (event = .exitLoop ∧ d.stopping = true ∧ d.loopExited = false ∧
      d' = { failAllPending d .abortedByCallback with loopExited := true }) := by
  cases event with
  | submit pending =>
      simp only [step] at hstep
      split at hstep
      · cases hstep
      · rename_i hfresh
        exact .inl ⟨pending, rfl, hfresh, (Option.some.inj hstep).symm⟩
  | iterate fault messages =>
      simp only [step] at hstep
      split at hstep
      · cases hstep
      · rename_i hrunning
        exact .inr (.inl ⟨fault, messages, rfl, by simpa using hrunning, hstep⟩)
  | shutdown => exact .inr (.inr (.inl ⟨rfl, (Option.some.inj hstep).symm⟩))
  | exitLoop =>
      simp only [step] at hstep
      split at hstep
      · rename_i hflags
        simp only [Bool.and_eq_true, Bool.not_eq_true'] at hflags
        exact .inr (.inr (.inr
          ⟨rfl, hflags.1, hflags.2, (Option.some.inj hstep).symm⟩))
      · cases hstep

theorem Accounted.step {d d' : Dispatcher T} {event : Event T} (h : Accounted d)
    (hfree : FaultFree d event) (hstep : step d event = some d') : Accounted d' := by
  rcases step_cases hstep with ⟨pending, rfl, hfresh, rfl⟩ |
    ⟨fault, messages, rfl, hstopping, honce⟩ | ⟨rfl, rfl⟩ | ⟨rfl, hstopping, -, rfl⟩
  · exact h.submit hfresh
  · have hrunning := h.running hstopping
    rw [loopOnce, addBatch_of_faultFree hfree] at honce
    simp only at honce
    split at honce
    · rename_i hvalid
      cases honce
      exact (h.drainQueue hrunning).harvest hvalid hrunning
    · cases honce
  · exact ⟨h.distinct, h.placed, h.attached, rfl,
      fun hexited => ⟨rfl, (h.exited hexited).2⟩⟩
  · exact h.failAllPending hstopping _

/-- A transfer whose worker still waits and that the dispatcher cannot reach on
every path: it is not queued, and not both attached and recorded. -/
structure Lost (d : Dispatcher T) (t : T) : Prop where
  submitted : t ∈ d.submitted
  waiting : timesSignalled d t = 0
  unqueued : t ∉ d.submitQueue
  unreachable : t ∉ d.multi ∨ t ∉ d.inFlight

theorem Lost.not_noLostTransfer {d : Dispatcher T} {t : T} (hlost : Lost d t) :
    ¬ NoLostTransfer d := by
  intro hsafe
  rcases hsafe.pending t hlost.submitted hlost.waiting with hqueue | ⟨hmulti, hflight⟩
  · exact hlost.unqueued hqueue
  · rcases hlost.unreachable with h | h
    · exact h hmulti
    · exact h hflight

theorem Accounted.waiting_of_queued {d : Dispatcher T} (h : Accounted d) {t : T}
    (ht : t ∈ d.submitQueue) : t ∈ d.submitted ∧ timesSignalled d t = 0 := by
  have hmem : t ∈ d.submitted := h.placed.mem_iff.mp (by simp [ht])
  have hsum := h.count_eq hmem
  have hqueued := List.count_pos_iff.mpr ht
  exact ⟨hmem, by omega⟩

theorem Accounted.lost_of_throws {d : Dispatcher T} {fault : T → AddFault}
    (h : Accounted d) (hthrows : ∃ t ∈ d.submitQueue, (fault t).pushBackThrows) :
    (addBatch fault d.submitQueue { d with submitQueue := [] }).2 = true ∧
      ∃ t, Lost (addBatch fault d.submitQueue { d with submitQueue := [] }).1 t := by
  obtain ⟨hthrown, t, ht, habsent⟩ :=
    exists_not_recorded_of_throws { d with submitQueue := [] } h.batch_nodup hthrows
  obtain ⟨hsubmitted, hwaiting⟩ := h.waiting_of_queued ht
  exact ⟨hthrown, t, by simpa, by simpa [timesSignalled] using hwaiting, by simp,
    .inr habsent⟩

theorem Accounted.lost_of_refused {d : Dispatcher T} {fault : T → AddFault} {t : T}
    (h : Accounted d) (ht : t ∈ d.submitQueue) (hfails : (fault t).addHandleFails) :
    Lost (addBatch fault d.submitQueue { d with submitQueue := [] }).1 t ∧
      t ∉ (addBatch fault d.submitQueue { d with submitQueue := [] }).1.multi := by
  have hdetached : t ∉ d.multi := by
    intro hmulti
    exact (List.nodup_append.mp h.batch_nodup).2.2 t
      (h.attached.mem_iff.mp hmulti) t ht rfl
  have habsent : t ∉
      (addBatch fault d.submitQueue { d with submitQueue := [] }).1.multi :=
    not_mem_multi_addBatch hfails _ hdetached
  obtain ⟨hsubmitted, hwaiting⟩ := h.waiting_of_queued ht
  exact ⟨⟨by simpa, by simpa [timesSignalled] using hwaiting, by simp, .inl habsent⟩,
    habsent⟩

theorem mem_of_mem_foldl_erase {t : T} {gone all : List T}
    (hmem : t ∈ gone.foldl List.erase all) : t ∈ all := by
  induction gone generalizing all with
  | nil => exact hmem
  | cons u gone ih => exact List.mem_of_mem_erase (ih hmem)

theorem Lost.harvest {d : Dispatcher T} {messages : List (T × CURLcode)} {t : T}
    (hlost : Lost d t) (hdetached : t ∉ d.multi) (hvalid : ValidMessages d messages) :
    Lost (harvest d messages) t := by
  have hunreported : t ∉ messages.map Prod.fst := by
    intro hmem
    obtain ⟨msg, hmsg, rfl⟩ := List.mem_map.mp hmem
    exact hdetached (hvalid.2 msg hmsg)
  rw [harvest_eq]
  refine ⟨hlost.submitted, ?_, hlost.unqueued,
    .inl fun hmem => hdetached (mem_of_mem_foldl_erase hmem)⟩
  simp only [timesSignalled, List.map_append, List.count_append,
    List.count_eq_zero_of_not_mem hunreported]
  exact hlost.waiting

theorem faultFree_of_noLostTransfer {d d' : Dispatcher T} {event : Event T}
    (h : Accounted d) (hstep : step d event = some d') (hsafe : NoLostTransfer d') :
    FaultFree d event := by
  rcases step_cases hstep with ⟨pending, rfl, -, -⟩ |
    ⟨fault, messages, rfl, -, honce⟩ | ⟨rfl, -⟩ | ⟨rfl, -, -, -⟩
  · trivial
  · intro t ht
    by_contra hfault
    simp only [loopOnce] at honce
    by_cases hthrows : ∃ u ∈ d.submitQueue, (fault u).pushBackThrows
    · obtain ⟨hthrown, u, hlost⟩ := h.lost_of_throws hthrows
      split at honce
      · rename_i after hafter
        cases honce
        rw [hafter] at hlost
        exact hlost.not_noLostTransfer hsafe
      · rename_i after hafter
        simp [hafter] at hthrown
    · have hfails : (fault t).addHandleFails = true := by
        have hno : (fault t).pushBackThrows = false := by
          by_contra hyes
          exact hthrows ⟨t, ht, by simpa using hyes⟩
        simpa [AddFault.isNone, hno] using hfault
      obtain ⟨hlost, hdetached⟩ := h.lost_of_refused ht hfails
      split at honce
      · rename_i after hafter
        cases honce
        rw [hafter] at hlost
        exact hlost.not_noLostTransfer hsafe
      · rename_i after hafter
        rw [hafter] at hlost hdetached
        split at honce
        · rename_i hvalid
          cases honce
          exact (hlost.harvest hdetached hvalid).not_noLostTransfer hsafe
        · cases honce
  · trivial
  · trivial

/-- No transfer is ever lost along a run exactly if no iteration of the run
meets an error of `curl_multi_add_handle` or an exception of
`in_flight.push_back` on a transfer it took from the queue. -/
theorem noLostTransfer_iff_faultFree {events : List (Event T)} {d : Dispatcher T}
    (hrun : Run step Unrestricted {} events d) :
    (∀ first second m, events = first ++ second →
        Run step Unrestricted {} first m → NoLostTransfer m) ↔
      Run step FaultFree {} events d :=
  (hrun.restricted_iff_safe Accounted NoLostTransfer
    (fun _ _ _ hinv hok hstep => hinv.step hok hstep)
    (fun _ hinv => hinv.noLostTransfer)
    (fun _ _ _ hinv hstep hsafe => faultFree_of_noLostTransfer hinv hstep hsafe)
    accounted_init).symm

theorem noLostTransfer_iff_faultFree_one :
    let events : List (Event Nat) :=
      [.submit 0, .iterate (fun _ => {}) [(0, .ok)], .shutdown, .exitLoop]
    let final : Dispatcher Nat :=
      { rejecting := true, stopping := true, loopExited := true,
        submitted := [0], signalled := [(0, .ok)] }
    (∀ first second m, events = first ++ second →
        Run step Unrestricted {} first m → NoLostTransfer m) ↔
      Run step FaultFree {} events final :=
  noLostTransfer_iff_faultFree (run_of_exec (by decide))

/-- Two transfers in one batch; recording the first throws. Its worker and the
worker of the second one, which never reached the multi handle, are still
blocked after the shutdown drain. -/
theorem transfer_lost_when_pushBack_throws :
    ∃ d : Dispatcher Nat,
      Run step Unrestricted {}
        [.submit 0, .submit 1,
          .iterate (fun t => { pushBackThrows := t == 0 }) [], .shutdown, .exitLoop] d ∧
      d.loopExited = true ∧ d.submitted = [0, 1] ∧ d.signalled = [] ∧
      ¬ NoLostTransfer d := by
  refine ⟨_, run_of_exec rfl, rfl, rfl, rfl, ?_⟩
  intro hsafe
  have hdrained := hsafe.drained rfl 1 (by decide)
  revert hdrained
  decide

end HaybarnHttpfs.CurlMultiDispatcher
