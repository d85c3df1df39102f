import HaybarnHttpfs.Foundation.ByteStrings
import HaybarnHttpfs.Foundation.TransitionRuns
import HaybarnHttpfs.HttpState
import Mathlib.Logic.Function.Basic

/-!
The lock of one `CachedFile` and the handles that any number of threads make of it. The
constructor of a handle checks whether the file is initialized before it takes the lock,
and does not check again once it has it.
-/

namespace HaybarnHttpfs.CachedFileLock

open HaybarnHttpfs.Foundation.ByteStrings HaybarnHttpfs.Foundation.TransitionRuns
open HaybarnHttpfs.HttpState

universe u

variable {α : Type u}

/-- `waiting` is a constructor that has found the file uninitialized and does not have
the lock yet. -/
inductive Phase where
  | absent
  | waiting
  | live (ownsLock : Bool)
  deriving DecidableEq, Repr

/-- `lock` is the handle whose `lock_guard` holds the mutex. -/
structure State (α : Type u) where
  file : CachedFile α := {}
  lock : Option Nat := none
  phase : Nat → Phase := fun _ => .absent

def State.setPhase (s : State α) (h : Nat) (phase : Phase) : State α :=
  { s with phase := Function.update s.phase h phase }

/-- The first half of the constructor. -/
def check (s : State α) (h : Nat) : State α :=
  s.setPhase h (if s.file.initialized then .live false else .waiting)

/-- The second half, once the mutex is free. -/
def acquire (s : State α) (h : Nat) : State α :=
  { s with lock := some h }.setPhase h (.live true)

def setInitialized (s : State α) (h totalSize : Nat) : Except Bytes (State α) :=
  if s.file.initialized then
    .error (bytes "Cannot set initialized on cached file that was already initialized")
  else if s.phase h ≠ .live true then
    .error (bytes "Cannot set initialized on cached file without lock")
  else
    .ok ({ s with
      file := HttpState.setInitialized s.file totalSize
      lock := none }.setPhase h (.live false))

/-- The destructor. -/
def drop (s : State α) (h : Nat) : State α :=
  { s with lock := if s.phase h = Phase.live true then none else s.lock }.setPhase h .absent

inductive Label where
  | check (h : Nat)
  | acquire (h : Nat)
  | setInitialized (h totalSize : Nat)
  | drop (h : Nat)
  deriving DecidableEq, Repr

/-- A call that throws leaves the file and its lock as they are. -/
def step (s : State α) : Label → Option (State α)
  | .check h => if s.phase h = .absent then some (check s h) else none
  | .acquire h => if s.phase h = .waiting ∧ s.lock = none then some (acquire s h) else none
  | .setInitialized h totalSize =>
      match s.phase h with
      | .live _ =>
          match setInitialized s h totalSize with
          | .ok s' => some s'
          | .error _ => some s
      | _ => none
  | .drop h =>
      match s.phase h with
      | .live _ => some (drop s h)
      | _ => none

/-- An initialized file is lock free. -/
def LockFree (s : State α) : Prop :=
  s.file.initialized = true → ∀ h, s.phase h ≠ .live true

/-- No constructor waits for the lock when the file is set initialized. -/
def NoWaiter (s : State α) : Label → Prop
  | .setInitialized h _ => s.phase h = .live true → ∀ w, s.phase w ≠ .waiting
  | _ => True

/-- The owner of the lock is unique, and an initialized file has neither an owner nor
anyone that waits for the lock. -/
structure Sound (s : State α) : Prop where
  owner : ∀ h, s.phase h = .live true → s.lock = some h
  lockFree : LockFree s
  noWaiter : s.file.initialized = true → ∀ h, s.phase h ≠ .waiting

@[simp] theorem setPhase_file (s : State α) (h : Nat) (phase : Phase) :
    (s.setPhase h phase).file = s.file :=
  rfl

@[simp] theorem setPhase_lock (s : State α) (h : Nat) (phase : Phase) :
    (s.setPhase h phase).lock = s.lock :=
  rfl

theorem phase_setPhase (s : State α) (h h' : Nat) (phase : Phase) :
    (s.setPhase h phase).phase h' = if h' = h then phase else s.phase h' := by
  unfold State.setPhase
  exact Function.update_apply s.phase h phase h'

theorem sound_init : Sound ({} : State α) :=
  ⟨nofun, fun _ _ => nofun, fun _ _ => nofun⟩

theorem Sound.setPhase {s : State α} {h : Nat} {phase : Phase} (s' : State α) (hsound : Sound s)
    (hphase : s'.phase = s.phase) (hfile : s'.file = s.file)
    (hlock : ∀ h' ≠ h, s.phase h' = .live true → s'.lock = s.lock)
    (howner : phase = .live true → s'.lock = some h)
    (hquiet : s.file.initialized = true → phase ≠ .live true ∧ phase ≠ .waiting) :
    Sound (s'.setPhase h phase) := by
  constructor
  · intro h' howns
    rw [phase_setPhase, hphase] at howns
    rw [setPhase_lock]
    split at howns
    · rename_i heq
      rw [heq]
      exact howner howns
    · rename_i hne
      rw [hlock h' hne howns]
      exact hsound.owner h' howns
  · intro hinitialized h'
    rw [setPhase_file, hfile] at hinitialized
    rw [phase_setPhase, hphase]
    split
    · exact (hquiet hinitialized).1
    · exact hsound.lockFree hinitialized h'
  · intro hinitialized h'
    rw [setPhase_file, hfile] at hinitialized
    rw [phase_setPhase, hphase]
    split
    · exact (hquiet hinitialized).2
    · exact hsound.noWaiter hinitialized h'

theorem Sound.check {s : State α} (hsound : Sound s) (h : Nat) : Sound (check s h) := by
  apply hsound.setPhase s rfl rfl
  · intro h' _ _
    rfl
  · intro howns
    split at howns
    · cases howns
    · cases howns
  · intro hinitialized
    rw [if_pos hinitialized]
    exact ⟨nofun, nofun⟩

theorem Sound.acquire {s : State α} {h : Nat} (hsound : Sound s) (hwaits : s.phase h = .waiting)
    (hfree : s.lock = none) : Sound (acquire s h) := by
  apply hsound.setPhase { s with lock := some h } rfl rfl
  · intro h' _ howns
    rw [hsound.owner h' howns] at hfree
    cases hfree
  · intro _
    rfl
  · intro hinitialized
    exact absurd hwaits (hsound.noWaiter hinitialized h)

theorem setInitialized_ok {s s' : State α} {h totalSize : Nat}
    (hset : setInitialized s h totalSize = .ok s') :
    s.phase h = .live true ∧
      s' = { s with file := HttpState.setInitialized s.file totalSize, lock := none }.setPhase h
        (.live false) := by
  unfold setInitialized at hset
  split at hset
  · cases hset
  · split at hset
    · cases hset
    · rename_i howns
      cases hset
      exact ⟨Decidable.not_not.mp howns, rfl⟩

theorem Sound.setInitialized {s s' : State α} {h totalSize : Nat} (hsound : Sound s)
    (hset : CachedFileLock.setInitialized s h totalSize = .ok s')
    (hnone : ∀ w, s.phase w ≠ .waiting) : Sound s' := by
  obtain ⟨howns, rfl⟩ := setInitialized_ok hset
  have halone : ∀ h', h' ≠ h → s.phase h' ≠ .live true := by
    intro h' hne howns'
    have hlock := hsound.owner h' howns'
    rw [hsound.owner h howns] at hlock
    exact hne (Option.some.inj hlock).symm
  constructor
  · intro h' howns'
    rw [phase_setPhase] at howns'
    split at howns'
    · cases howns'
    · rename_i hne
      exact absurd howns' (halone h' hne)
  · intro _ h'
    rw [phase_setPhase]
    split
    · exact nofun
    · rename_i hne
      exact halone h' hne
  · intro _ h'
    rw [phase_setPhase]
    split
    · exact nofun
    · exact hnone h'

theorem Sound.drop {s : State α} (hsound : Sound s) (h : Nat) : Sound (drop s h) := by
  refine hsound.setPhase { s with lock := if s.phase h = Phase.live true then none else s.lock }
    rfl rfl ?_ nofun fun _ => ⟨nofun, nofun⟩
  · intro h' hne howns'
    apply if_neg
    intro howns
    have hlock := hsound.owner h' howns'
    rw [hsound.owner h howns] at hlock
    exact hne (Option.some.inj hlock).symm

theorem Sound.step {s t : State α} {l : Label} (hsound : Sound s) (hok : NoWaiter s l)
    (hstep : step s l = some t) : Sound t := by
  cases l with
  | check h =>
      obtain ⟨-, hcheck⟩ := Option.ite_none_right_eq_some.mp hstep
      cases hcheck
      exact hsound.check h
  | acquire h =>
      obtain ⟨⟨hwaits, hfree⟩, hacquire⟩ := Option.ite_none_right_eq_some.mp hstep
      cases hacquire
      exact hsound.acquire hwaits hfree
  | setInitialized h totalSize =>
      simp only [CachedFileLock.step] at hstep
      split at hstep
      · split at hstep
        · rename_i hset
          cases hstep
          exact hsound.setInitialized hset (hok (setInitialized_ok hset).1)
        · cases hstep
          exact hsound
      · cases hstep
  | drop h =>
      simp only [CachedFileLock.step] at hstep
      split at hstep
      · cases hstep
        exact hsound.drop h
      · cases hstep

/-- However the constructors that wait go on. -/
def LockFreeAhead (s : State α) : Prop :=
  ∀ (waiters : List Nat) (t : State α),
    Run step Unrestricted s (waiters.map Label.acquire) t → LockFree t

theorem Sound.lockFreeAhead {s : State α} (hsound : Sound s) : LockFreeAhead s := by
  intro waiters t hrun
  have hacquires : ∀ l ∈ waiters.map Label.acquire, ∃ h, l = .acquire h := by
    intro l hl
    obtain ⟨h, -, rfl⟩ := List.mem_map.mp hl
    exact ⟨h, rfl⟩
  have hlabelled := hrun.labelled (fun l => ∃ h, l = Label.acquire h) hacquires
  have hend : Sound t := by
    refine hlabelled.invariant Sound ?_ hsound
    rintro s l t hsound ⟨h, rfl⟩ hstep
    exact hsound.step (l := .acquire h) trivial hstep
  exact hend.lockFree

theorem step_acquire {s : State α} {h : Nat} (hwaits : s.phase h = .waiting)
    (hfree : s.lock = none) : step s (.acquire h) = some (acquire s h) :=
  if_pos ⟨hwaits, hfree⟩

theorem not_lockFreeAhead_of_waiter {s s' : State α} {h w totalSize : Nat}
    (hset : setInitialized s h totalSize = .ok s') (hwaits : s.phase w = .waiting) :
    ¬ LockFreeAhead s' := by
  intro hahead
  obtain ⟨howns, hs'⟩ := setInitialized_ok hset
  have hne : w ≠ h := by
    rintro rfl
    rw [hwaits] at howns
    cases howns
  have hwaits' : s'.phase w = .waiting := by
    rw [hs', phase_setPhase, if_neg hne]
    exact hwaits
  have hfree : s'.lock = none := by rw [hs', setPhase_lock]
  have hinitialized : s'.file.initialized = true := by
    rw [hs', setPhase_file]
    rfl
  apply hahead [w] _ (.single trivial (step_acquire hwaits' hfree)) hinitialized w
  exact (phase_setPhase _ w w _).trans (if_pos rfl)

theorem noWaiter_of_lockFreeAhead {s t : State α} {l : Label} (hsound : Sound s)
    (hstep : step s l = some t) (hahead : LockFreeAhead t) : NoWaiter s l := by
  cases l with
  | check h => trivial
  | acquire h => trivial
  | drop h => trivial
  | setInitialized h totalSize =>
      intro howns w hwaits
      have hopen : s.file.initialized ≠ true := fun hinitialized =>
        hsound.lockFree hinitialized h howns
      have hset : ∃ s', setInitialized s h totalSize = .ok s' := by
        unfold setInitialized
        rw [if_neg hopen, if_neg (not_not_intro howns)]
        exact ⟨_, rfl⟩
      obtain ⟨s', hset⟩ := hset
      simp only [step, howns, hset, Option.some.injEq] at hstep
      subst hstep
      exact not_lockFreeAhead_of_waiter hset hwaits hahead

/-- In every run an initialized file is lock free, now and however the constructors that
still wait go on, exactly if no constructor waits for the lock at any `SetInitialized`. -/
theorem noWaiter_iff_lockFree {labels : List Label} {s : State α}
    (hrun : Run step Unrestricted {} labels s) :
    Run step NoWaiter {} labels s ↔
      ∀ first second m, labels = first ++ second → Run step Unrestricted {} first m →
        ∀ (waiters : List Nat) (t : State α),
          Run step Unrestricted m (waiters.map Label.acquire) t → LockFree t := by
  refine Run.restricted_iff_safe Sound LockFreeAhead ?_ ?_ ?_ hrun sound_init
  · intro s l t hsound hok hstep
    exact hsound.step hok hstep
  · intro s hsound
    exact hsound.lockFreeAhead
  · intro s l t hsound hstep hahead
    exact noWaiter_of_lockFreeAhead hsound hstep hahead

/-- The second open finds the file downloaded. -/
def orderlyOpens : List Label :=
  [.check 0, .acquire 0, .setInitialized 0 5, .check 1]

theorem noWaiter_iff_lockFree_orderly :
    ∃ s, Run step Unrestricted ({} : State UInt8) orderlyOpens s ∧ LockFree s := by
  have hnone : ∀ w, (acquire (check ({} : State UInt8) 0) 0).phase w ≠ .waiting := by
    intro w
    simp only [acquire, check, phase_setPhase]
    split
    · exact nofun
    · exact nofun
  have hquiet : Run step NoWaiter ({} : State UInt8) orderlyOpens _ :=
    .cons trivial rfl
      (.cons trivial rfl (.cons (fun _ => hnone) rfl (.cons trivial rfl (.nil _))))
  have hrun : Run step Unrestricted {} orderlyOpens _ := hquiet.mono fun _ _ _ => trivial
  exact ⟨_, hrun, (noWaiter_iff_lockFree hrun).mp hquiet _ [] _ (List.append_nil _).symm hrun [] _
    (.nil _)⟩

/-- Two threads find the file uninitialized, and the one that does not download it has
the lock for as long as its handle lives. -/
def racingOpens : List Label :=
  [.check 0, .check 1, .acquire 0, .setInitialized 0 5, .acquire 1]

theorem waiter_keeps_lock :
    ¬ ∀ (labels : List Label) (s : State UInt8), Run step Unrestricted {} labels s →
      LockFree s := by
  intro hfree
  have hexec : (exec step ({} : State UInt8) racingOpens).isSome = true := rfl
  obtain ⟨s, hs⟩ := Option.isSome_iff_exists.mp hexec
  have hinitialized : (exec step ({} : State UInt8) racingOpens).map (·.file.initialized) =
      some true := rfl
  have howner : (exec step ({} : State UInt8) racingOpens).map (·.phase 1) =
      some (.live true) := rfl
  rw [hs] at hinitialized howner
  exact hfree racingOpens s (run_of_exec hs) (Option.some.inj hinitialized) 1
    (Option.some.inj howner)

end HaybarnHttpfs.CachedFileLock
