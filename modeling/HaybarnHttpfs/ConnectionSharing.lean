import HaybarnHttpfs.ConnectionCache

/-!
What the threads that share the connection cache can rely on: a client has one owner, a call
ends however the threads are scheduled, and an undisturbed call treats the sixteen pools as
one bag of idle clients.
-/

namespace HaybarnHttpfs.ConnectionSharing

open HaybarnHttpfs.Foundation.ByteStrings HaybarnHttpfs.Foundation.Custody
open HaybarnHttpfs.Foundation.TransitionRuns HaybarnHttpfs.ConnectionCache

variable {s s' : State} {l : Label} {labels : List Label} {t u idx i : Nat}
  {thread thread' : Thread}
  {pool : Pool} {baseUrl : Bytes} {client : HTTPClient} {cachePoolIdxs : List Nat}
  {baseUrls : List Bytes}

theorem holders_start : holders (start cachePoolIdxs baseUrls) = [] := by
  refine List.eq_nil_iff_forall_not_mem.mpr fun client hclient => ?_
  simp [holders, start, mem_holdings, Pool.clients, Thread.clients, Phase.client?, poolCount,
    poolSize] at hclient

theorem start_coherent : Coherent (start cachePoolIdxs baseUrls) where
  size := List.length_replicate
  pools := by
    intro pool hpool
    obtain rfl := List.eq_of_mem_replicate hpool
    refine ⟨List.length_replicate, fun client hclient => ?_⟩
    rw [Pool.clients, List.reduceOption_replicate_none] at hclient
    cases hclient
  threads := by
    intro thread hthread
    obtain ⟨cachePoolIdx, -, rfl⟩ := List.mem_map.mp hthread
    exact rfl
  handles := by
    intro handle hhandle client hclient
    obtain ⟨baseUrl, -, rfl⟩ := List.mem_map.mp hhandle
    cases hclient
  custody := by
    rw [holders_start]
    exact .refl _
  locks := by
    intro idx pool hpool t
    obtain rfl := List.eq_of_mem_replicate (List.mem_of_getElem? hpool)
    refine iff_of_false (by simp) ?_
    rintro ⟨thread, hthread, hlocked, -⟩
    obtain ⟨cachePoolIdx, -, rfl⟩ := List.mem_map.mp (List.mem_of_getElem? hthread)
    cases hlocked

theorem run_coherent (hrun : Run step Unrestricted s labels s') (hcoherent : Coherent s) :
    Coherent s' :=
  hrun.invariant Coherent (fun _ _ _ hs _ hstep => move_coherent (step_move hstep) hs) hcoherent

theorem reachable_coherent
    (hrun : Run step Unrestricted (start cachePoolIdxs baseUrls) labels s) : Coherent s :=
  run_coherent hrun start_coherent

/-- Of the clients that were ever made each is at one place only, and no request goes out on a
client of another server. -/
theorem client_has_one_owner
    (hrun : Run step Unrestricted (start cachePoolIdxs baseUrls) labels s) :
    ((holders s).map HTTPClient.id).Perm (List.range s.created) ∧
      (∀ thread ∈ s.threads, ∀ baseUrl client,
        thread.phase = .connected baseUrl client → client.baseUrl = baseUrl) ∧
      (∀ pool ∈ s.pools, ∀ client ∈ pool.clients, client.baseUrl ≠ []) ∧
      ∀ handle ∈ s.handles, ∀ client ∈ handle.clients, client.baseUrl = handle.baseUrl := by
  have hcoherent := reachable_coherent hrun
  refine ⟨hcoherent.custody, fun thread hthread baseUrl client hphase => ?_,
    fun pool hpool => (hcoherent.pools pool hpool).keyed, hcoherent.handles⟩
  exact (fits_connected hphase (hcoherent.threads thread hthread)).2

/-- A client that the first thread has parked and the second has found again. -/
theorem client_has_one_owner_found :
    ∃ s client, exec step (start [0, 0] [])
        [.find 0 [104] false, .create 0, .store 0, .tryLock 0 true, .visit 0 0,
          .find 1 [104] true, .tryLock 1 true, .visit 1 0] = some s ∧
      holders s = [client] ∧ ((holders s).map HTTPClient.id).Perm (List.range s.created) := by
  obtain ⟨s, hs⟩ : ∃ s, exec step (start [0, 0] [])
      [.find 0 [104] false, .create 0, .store 0, .tryLock 0 true, .visit 0 0,
        .find 1 [104] true, .tryLock 1 true, .visit 1 0] = some s := ⟨_, rfl⟩
  have howner := (client_has_one_owner (run_of_exec hs)).1
  cases hs
  exact ⟨_, { id := 0, baseUrl := [104] }, rfl, rfl, howner⟩

/-- The steps that a thread still has before it within its call, two for each pool. -/
def stepsLeft (thread : Thread) : Nat :=
  let taken := if thread.locked then 1 else 0
  match thread.phase with
  | .finding _ _ i | .evicting _ _ _ i | .clearing i => 2 * (poolCount - i) - taken
  | .storing _ _ _ i => 2 * poolCount + 2 * (poolCount - i) - taken
  | .idle | .missed _ | .connected _ _ => 0

theorem stepsLeft_le (thread : Thread) : stepsLeft thread ≤ 4 * poolCount := by
  obtain ⟨phase, locked, start⟩ := thread
  cases phase with
  | idle => exact Nat.zero_le _
  | missed baseUrl => exact Nat.zero_le _
  | connected baseUrl client => exact Nat.zero_le _
  | finding baseUrl start i => simp only [stepsLeft]; omega
  | storing baseUrl client start i => simp only [stepsLeft]; omega
  | evicting baseUrl client start i => simp only [stepsLeft]; omega
  | clearing idx => simp only [stepsLeft]; omega

theorem advance_stepsLeft (hidx : thread.phase.pool? = some idx) (hfits : Fits thread) :
    stepsLeft (advance thread) < stepsLeft thread := by
  obtain ⟨phase, locked, start⟩ := thread
  have htaken : (if locked = true then 1 else 0) ≤ 1 := by
    split
    · omega
    · omega
  cases phase with
  | idle => cases hidx
  | missed baseUrl => cases hidx
  | connected baseUrl client => cases hidx
  | finding baseUrl start i =>
      have hi : i < poolCount := hfits
      by_cases hnext : i + 1 < poolCount
      · simp only [advance, stepsLeft, if_pos hnext, Bool.false_eq_true, if_false]
        omega
      · simp only [advance, stepsLeft, if_neg hnext]
        omega
  | storing baseUrl client start i =>
      have hi : i < poolCount := hfits.2.2
      by_cases hnext : i + 1 < poolCount
      · simp only [advance, stepsLeft, if_pos hnext, Bool.false_eq_true, if_false]
        omega
      · simp only [advance, stepsLeft, if_neg hnext, Bool.false_eq_true, if_false]
        omega
  | evicting baseUrl client start i =>
      have hi : i < poolCount := hfits.2.2
      by_cases hnext : i + 1 < poolCount
      · simp only [advance, stepsLeft, if_pos hnext, Bool.false_eq_true, if_false]
        omega
      · simp only [advance, stepsLeft, if_neg hnext]
        omega
  | clearing i =>
      have hi : i < poolCount := hfits
      by_cases hnext : i + 1 < poolCount
      · simp only [advance, stepsLeft, if_pos hnext, Bool.false_eq_true, if_false]
        omega
      · simp only [advance, stepsLeft, if_neg hnext]
        omega

theorem stepsLeft_pos (hidx : thread.phase.pool? = some idx) (hfits : Fits thread) :
    0 < stepsLeft thread :=
  Nat.zero_lt_of_lt (advance_stepsLeft hidx hfits)

theorem visit_stepsLeft (random : Nat) (hidx : thread.phase.pool? = some idx)
    (hfits : Fits thread) : stepsLeft (visit thread idx random pool).2.1 < stepsLeft thread := by
  have hadvance := advance_stepsLeft hidx hfits
  have hpos := stepsLeft_pos hidx hfits
  obtain ⟨phase, locked, start⟩ := thread
  cases phase with
  | idle => cases hidx
  | missed baseUrl => cases hidx
  | connected baseUrl client => cases hidx
  | finding baseUrl start i =>
      simp only [visit]
      split
      · exact hpos
      · exact hadvance
  | storing baseUrl client start i =>
      simp only [visit]
      split
      · exact hpos
      · exact hadvance
  | evicting baseUrl client start i => exact hpos
  | clearing i => exact hadvance

theorem acquired_stepsLeft (hidx : thread.phase.pool? = some idx)
    (hunlocked : thread.locked = false)
    (hfits : Fits thread) : stepsLeft { thread with locked := true } < stepsLeft thread := by
  obtain ⟨phase, locked, start⟩ := thread
  obtain rfl : locked = false := hunlocked
  cases phase with
  | idle => cases hidx
  | missed baseUrl => cases hidx
  | connected baseUrl client => cases hidx
  | finding baseUrl start i =>
      have hi : i < poolCount := hfits
      simp only [stepsLeft, Bool.false_eq_true, if_false, if_true]
      omega
  | storing baseUrl client start i =>
      have hi : i < poolCount := hfits.2.2
      simp only [stepsLeft, Bool.false_eq_true, if_false, if_true]
      omega
  | evicting baseUrl client start i =>
      have hi : i < poolCount := hfits.2.2
      simp only [stepsLeft, Bool.false_eq_true, if_false, if_true]
      omega
  | clearing i =>
      have hi : i < poolCount := hfits
      simp only [stepsLeft, Bool.false_eq_true, if_false, if_true]
      omega

/-- The effect of a step on the thread `t`: one of its own takes it further, and nothing else
concerns it. -/
def Carries (t : Nat) (l : Label) (before after : List Thread) : Prop :=
  ∀ thread, before[t]? = some thread → ∃ thread', after[t]? = some thread' ∧
    stepsLeft thread' + (if l.actor = some t then 1 else 0) ≤ stepsLeft thread

theorem carries_of_ne {threads : List Thread} (hactor : l.actor = some u) (hne : u ≠ t) :
    Carries t l threads (threads.set u thread') := by
  intro thread hthread
  refine ⟨thread, ?_, ?_⟩
  · rwa [List.getElem?_set_ne hne]
  · rw [if_neg (by simpa [hactor] using hne)]
    exact Nat.le_refl _

theorem carries_of_lt {threads : List Thread} (hactor : l.actor = some u)
    (hthread : threads[u]? = some thread) (hless : stepsLeft thread' < stepsLeft thread) :
    Carries t l threads (threads.set u thread') := by
  by_cases hu : u = t
  · subst hu
    intro other hother
    obtain rfl := Option.some.inj (hthread.symm.trans hother)
    refine ⟨thread', List.getElem?_set_self (List.getElem?_eq_some_iff.mp hthread).1, ?_⟩
    rw [if_pos hactor]
    exact hless
  · exact carries_of_ne hactor hu

theorem carries_of_outer {threads : List Thread} (houter : l.inner = false)
    (hinner : l.actor = some t → l.inner = true) (hactor : l.actor = some u) :
    Carries t l threads (threads.set u thread') := by
  refine carries_of_ne hactor fun hu => ?_
  rw [hinner (hu ▸ hactor)] at houter
  cases houter

theorem carries_same {threads : List Thread} (houter : l.inner = false)
    (hinner : l.actor = some t → l.inner = true) : Carries t l threads threads := by
  intro thread hthread
  refine ⟨thread, hthread, ?_⟩
  rw [if_neg fun hactor => by rw [hinner hactor] at houter; cases houter]
  exact Nat.le_refl _

theorem move_carries (hmove : Move s l s') (hcoherent : Coherent s)
    (hinner : l.actor = some t → l.inner = true) : Carries t l s.threads s'.threads := by
  have hthreads := hcoherent.threads
  cases hmove with
  | stay houter => exact carries_same houter hinner
  | turn hactor houter => exact carries_of_outer houter hinner hactor
  | made hactor houter => exact carries_of_outer houter hinner hactor
  | dropped hactor houter => exact carries_of_outer houter hinner hactor
  | exchanged hactor houter => exact carries_of_outer houter hinner hactor
  | emptied houter => exact carries_same houter hinner
  | refused hlabel hthread hidx hunlocked =>
      exact carries_of_lt (congrArg Label.actor hlabel) hthread
        (advance_stepsLeft hidx (hthreads _ (List.mem_of_getElem? hthread)))
  | acquired hactor hthread hpool hidx hunlocked hfree =>
      exact carries_of_lt hactor hthread
        (acquired_stepsLeft hidx hunlocked (hthreads _ (List.mem_of_getElem? hthread)))
  | @visited _ _ random _ _ hlabel hthread hpool hidx hlocked =>
      exact carries_of_lt (congrArg Label.actor hlabel) hthread
        (visit_stepsLeft random hidx (hthreads _ (List.mem_of_getElem? hthread)))

theorem run_carries (hrun : Run step Unrestricted s labels s') (hcoherent : Coherent s)
    (hinner : ∀ l ∈ labels, l.actor = some t → l.inner = true)
    (hthread : s.threads[t]? = some thread) :
    ∃ thread', s'.threads[t]? = some thread' ∧
      stepsLeft thread' + labels.countP (fun l => l.actor = some t) ≤ stepsLeft thread := by
  induction hrun generalizing thread with
  | nil s => exact ⟨thread, hthread, Nat.le_refl _⟩
  | @cons s m s' l labels hok hstep hrest ih =>
      rw [List.forall_mem_cons] at hinner
      have hmove := step_move hstep
      obtain ⟨middle, hmiddle, hless⟩ := move_carries hmove hcoherent hinner.1 thread hthread
      obtain ⟨thread', hthread', hle⟩ := ih (move_coherent hmove hcoherent) hinner.2 hmiddle
      refine ⟨thread', hthread', ?_⟩
      rw [List.countP_cons]
      simp only [decide_eq_true_eq]
      omega

theorem visit_enabled (hlock : HasLock s.threads u idx) (hsize : idx < s.pools.length)
    (random : Nat) : ∃ pool thread result,
      s.pools[idx]? = some pool ∧ s.threads[u]? = some thread ∧
      thread.phase.pool? = some idx ∧ visit thread idx random pool = result ∧
      step s (.visit u random) = some (({ s with
        destroyed := s.destroyed ++ result.2.2 }.setPool idx result.1).setThread u
          result.2.1) := by
  obtain ⟨thread, hthread, hlocked, hidx⟩ := hlock
  have hpool : s.pools[idx]? = some s.pools[idx] := List.getElem?_eq_getElem hsize
  refine ⟨_, thread, _, hpool, hthread, hidx, rfl, ?_⟩
  simp [step, hthread, hidx, hpool, hlocked]

theorem pool?_lt (hidx : thread.phase.pool? = some idx) (hfits : Fits thread) :
    idx < poolCount := by
  obtain ⟨phase, locked, start⟩ := thread
  cases phase with
  | idle => cases hidx
  | missed baseUrl => cases hidx
  | connected baseUrl client => cases hidx
  | finding baseUrl start i =>
      cases hidx
      exact poolIdx_lt start i
  | storing baseUrl client start i =>
      cases hidx
      exact poolIdx_lt start i
  | evicting baseUrl client start i =>
      cases hidx
      exact poolIdx_lt start i
  | clearing i =>
      cases hidx
      exact hfits

theorem lock_enabled (hthread : s.threads[t]? = some thread)
    (hphase : thread.phase = .clearing idx)
    (hunlocked : thread.locked = false) (hpool : s.pools[idx]? = some pool)
    (hfree : pool.lock = none) : (step s (.lock t)).isSome := by
  simp [step, hthread, hphase, hunlocked, hpool, hfree, Phase.pool?]

/-- What a thread in a call can do: go on by itself, or wait in `Clear` for a thread that will
leave the pool with its next step. -/
def Proceeds (s : State) (t : Nat) (phase : Phase) : Prop :=
  (∃ l : Label, l.actor = some t ∧ l.inner = true ∧ (step s l).isSome) ∨
    (∃ idx, phase = .clearing idx) ∧ ∃ u, u ≠ t ∧ ∀ random, ∃ s',
      step s (.visit u random) = some s' ∧ (step s' (.lock t)).isSome

theorem coherent_proceeds (hcoherent : Coherent s) (hthread : s.threads[t]? = some thread)
    (hidx : thread.phase.pool? = some idx) : Proceeds s t thread.phase := by
  have hlt : idx < s.pools.length := by
    rw [hcoherent.size]
    exact pool?_lt hidx (hcoherent.threads _ (List.mem_of_getElem? hthread))
  have hpool : s.pools[idx]? = some s.pools[idx] := List.getElem?_eq_getElem hlt
  by_cases hlocked : thread.locked = true
  · obtain ⟨pool, owner, result, -, -, -, -, hstep⟩ :=
      visit_enabled (hasLock_of_locked hthread hlocked hidx) hlt 0
    exact .inl ⟨.visit t 0, rfl, rfl, by rw [hstep]; rfl⟩
  · rw [Bool.not_eq_true] at hlocked
    by_cases hclearing : thread.phase = .clearing idx
    · cases hlock : s.pools[idx].lock with
      | none =>
          exact .inl ⟨.lock t, rfl, rfl, lock_enabled hthread hclearing hlocked hpool hlock⟩
      | some u =>
          have howner : HasLock s.threads u idx := (hcoherent.locks idx _ hpool u).mp hlock
          have hne : u ≠ t := fun hu => not_hasLock hthread hlocked (hu ▸ howner)
          refine .inr ⟨⟨idx, hclearing⟩, u, hne, fun random => ?_⟩
          obtain ⟨pool, other, result, hpool', hother, hother', rfl, hstep⟩ :=
            visit_enabled howner hlt random
          have hvisited := visit_spec random hother'
            (hcoherent.pools _ (List.mem_of_getElem? hpool'))
            (hcoherent.threads _ (List.mem_of_getElem? hother))
          refine ⟨_, hstep, lock_enabled ?_ hclearing hlocked ?_ hvisited.released⟩
          · rw [← hthread]
            exact List.getElem?_set_ne hne
          · exact List.getElem?_set_self hlt
    · refine .inl ⟨.tryLock t false, rfl, rfl, ?_⟩
      simp [step, hthread, hidx, hlt, hlocked, hclearing]

/-- However the threads are scheduled and whatever locks they are refused, a call of a thread is
over after 64 steps of its own, and before that it can go on: alone in `Find` and `Store`, in
`Clear` at the latest when the thread in the pool has left it. -/
theorem call_ends (hrun : Run step Unrestricted (start cachePoolIdxs baseUrls) labels s)
    {more : List Label} (hmore : Run step Unrestricted s more s')
    (hinner : ∀ l ∈ more, l.actor = some t → l.inner = true)
    (hthread : s.threads[t]? = some thread) :
    ∃ thread', s'.threads[t]? = some thread' ∧
      more.countP (fun l => l.actor = some t) ≤ 4 * poolCount ∧
      (more.countP (fun l => l.actor = some t) = 4 * poolCount → thread'.phase.pool? = none) ∧
      (thread'.phase.pool?.isSome → Proceeds s' t thread'.phase) := by
  have hcoherent := reachable_coherent hrun
  have hcoherent' := run_coherent hmore hcoherent
  obtain ⟨thread', hthread', hcount⟩ := run_carries hmore hcoherent hinner hthread
  have hbound := stepsLeft_le thread
  refine ⟨thread', hthread', by omega, fun hall => ?_, fun hcall => ?_⟩
  · refine Option.eq_none_iff_forall_ne_some.mpr fun idx hidx => ?_
    have hpos := stepsLeft_pos hidx (hcoherent'.threads _ (List.mem_of_getElem? hthread'))
    omega
  · obtain ⟨idx, hidx⟩ := Option.isSome_iff_exists.mp hcall
    exact coherent_proceeds hcoherent' hthread' hidx

/-- Two threads clear the cache, and the first is inside the first pool. -/
def contended : State :=
  { pools := (List.replicate poolCount {}).set 0 { lock := some 0 }
    threads := [{ phase := .clearing 0, locked := true }, { phase := .clearing 0 }] }

theorem call_ends_contended :
    ∃ s' thread, step contended (.lock 1) = none ∧
      Run step Unrestricted contended [.visit 0 0, .lock 1] s' ∧
      s'.threads[1]? = some thread ∧ thread.phase = .clearing 0 ∧ thread.locked = true ∧
      [Label.visit 0 0, .lock 1].countP (fun l => l.actor = some 1) ≤ 4 * poolCount ∧
      Proceeds s' 1 thread.phase := by
  have hrun : Run step Unrestricted (start [0, 0] []) [.clear 0, .clear 1, .lock 0] contended :=
    run_of_exec rfl
  obtain ⟨s', hmore⟩ : ∃ s', exec step contended [Label.visit 0 0, .lock 1] = some s' := ⟨_, rfl⟩
  obtain ⟨thread, hthread, hcount, -, hproceeds⟩ :=
    call_ends hrun (run_of_exec hmore) (by simp [Label.actor, Label.inner])
      (show contended.threads[1]? = some { phase := .clearing 0 } from rfl)
  cases hmore
  obtain rfl := Option.some.inj hthread
  exact ⟨_, _, rfl, run_of_exec rfl, rfl, rfl, rfl, hcount, hproceeds rfl⟩

/-- The cache as its users think of it. -/
structure Bag where
  parked : List HTTPClient
  destroyed : List HTTPClient

def Bag.full (bag : Bag) : Prop := bag.parked.length = poolCount * poolSize

/-- A whole call on a bag of idle clients, from the phase it begins in to the one it ends in. -/
inductive Bag.Call (bag : Bag) : Phase → Bag → Phase → Prop where
  | hit {baseUrl : Bytes} {start : Nat} {client : HTTPClient} {parked : List HTTPClient}
      (hurl : client.baseUrl = baseUrl) (hparked : bag.parked.Perm (client :: parked)) :
      Bag.Call bag (.finding baseUrl start 0) { bag with parked } (.connected baseUrl client)
  | miss {baseUrl : Bytes} {start : Nat}
      (hnone : ∀ client ∈ bag.parked, client.baseUrl ≠ baseUrl) :
      Bag.Call bag (.finding baseUrl start 0) bag (.missed baseUrl)
  | stored {baseUrl : Bytes} {client : HTTPClient} {start : Nat} {parked : List HTTPClient}
      (hroom : ¬ bag.full) (hparked : parked.Perm (client :: bag.parked)) :
      Bag.Call bag (.storing baseUrl client start 0) { bag with parked } .idle
  | evicted {baseUrl : Bytes} {client old : HTTPClient} {start : Nat} {parked : List HTTPClient}
      (hfull : bag.full) (hold : old ∈ bag.parked)
      (hparked : (old :: parked).Perm (client :: bag.parked)) :
      Bag.Call bag (.storing baseUrl client start 0)
        { parked, destroyed := bag.destroyed ++ [old] } .idle
  | cleared : Bag.Call bag (.clearing 0)
      { parked := [], destroyed := bag.destroyed ++ bag.parked } .idle

def rows (pools : List Pool) : List (List HTTPClient) := pools.map Pool.clients

def bag (s : State) : Bag :=
  { parked := (rows s.pools).flatten, destroyed := s.destroyed }

/-- `t` moves alone, and every lock that it tries it gets. -/
def Undisturbed (t : Nat) (l : Label) : Prop :=
  l.actor = some t ∧ l.inner = true ∧ l ≠ .tryLock t false

theorem rows_set {pools : List Pool} (pool' : Pool) (hpool : pools[idx]? = some pool)
    (hclients : pool'.clients = pool.clients) : rows (pools.set idx pool') = rows pools := by
  obtain ⟨hlt, rfl⟩ := List.getElem?_eq_some_iff.mp hpool
  rw [rows, rows, List.map_set, hclients]
  exact List.ext_getElem (by simp) fun k _ _ => by
    rw [List.getElem_set]
    split
    · rename_i hk
      subst hk
      rw [List.getElem_map]
    · rfl

/-- The rule for a call that is not disturbed: what its visits keep holds at its end. -/
theorem undisturbed_run (Inv : List (List HTTPClient) → List HTTPClient → Phase → Prop)
    (hvisit : ∀ pools destroyed thread idx random pool,
      Inv (rows pools) destroyed thread.phase → thread.phase.pool? = some idx →
      pools.length = poolCount → (∀ pool ∈ pools, pool.Sound) → pools[idx]? = some pool →
        Inv (rows (pools.set idx (visit thread idx random pool).1))
          (destroyed ++ (visit thread idx random pool).2.2)
          (visit thread idx random pool).2.1.phase)
    (hrun : Run step Unrestricted s labels s') (hcoherent : Coherent s)
    (hsolo : ∀ l ∈ labels, Undisturbed t l) (hthread : s.threads[t]? = some thread)
    (hinv : Inv (rows s.pools) s.destroyed thread.phase) :
    ∃ thread', s'.threads[t]? = some thread' ∧
      Inv (rows s'.pools) s'.destroyed thread'.phase := by
  induction hrun generalizing thread with
  | nil s => exact ⟨thread, hthread, hinv⟩
  | @cons s m s' l labels hok hstep hrest ih =>
      rw [List.forall_mem_cons] at hsolo
      obtain ⟨⟨hactor, hinner, hgranted⟩, hsolo⟩ := hsolo
      have hmove := step_move hstep
      have hnext := move_coherent hmove hcoherent
      have hlt := (List.getElem?_eq_some_iff.mp hthread).1
      cases hmove with
      | stay houter => rw [houter] at hinner; cases hinner
      | turn _ houter => rw [houter] at hinner; cases hinner
      | made _ houter => rw [houter] at hinner; cases hinner
      | dropped _ houter => rw [houter] at hinner; cases hinner
      | exchanged _ houter => rw [houter] at hinner; cases hinner
      | emptied houter => rw [houter] at hinner; cases hinner
      | refused hlabel =>
          subst hlabel
          cases hactor
          exact absurd rfl hgranted
      | @acquired u idx _ pool hactor' hthread' hpool hidx hunlocked hfree =>
          obtain rfl := Option.some.inj (hactor'.symm.trans hactor)
          obtain rfl := Option.some.inj (hthread'.symm.trans hthread)
          have hrows := rows_set { pool with lock := some u } hpool rfl
          refine ih hnext hsolo (List.getElem?_set_self hlt) ?_
          rwa [← hrows] at hinv
      | visited hlabel hthread' hpool hidx hlocked =>
          subst hlabel
          cases hactor
          obtain rfl := Option.some.inj (hthread'.symm.trans hthread)
          exact ih hnext hsolo (List.getElem?_set_self hlt)
            (hvisit _ _ _ _ _ _ hinv hidx hcoherent.size hcoherent.pools hpool)

theorem call_over {before after : Bag} {phase phase' : Phase}
    (hcall : before.Call phase after phase') : phase'.pool? = none := by
  cases hcall with
  | hit => rfl
  | miss => rfl
  | stored => rfl
  | evicted => rfl
  | cleared => rfl

theorem undisturbed_call {before : Bag} {begins : Phase}
    (loop : List (List HTTPClient) → List HTTPClient → Phase → Prop)
    (hbusy : ∀ rows destroyed phase, loop rows destroyed phase → phase.pool? ≠ none)
    (hvisit : ∀ pools destroyed thread idx random pool,
      loop (rows pools) destroyed thread.phase → thread.phase.pool? = some idx →
      pools.length = poolCount → (∀ pool ∈ pools, pool.Sound) → pools[idx]? = some pool →
        loop (rows (pools.set idx (visit thread idx random pool).1))
            (destroyed ++ (visit thread idx random pool).2.2)
            (visit thread idx random pool).2.1.phase ∨
          before.Call begins
            { parked := (rows (pools.set idx (visit thread idx random pool).1)).flatten
              destroyed := destroyed ++ (visit thread idx random pool).2.2 }
            (visit thread idx random pool).2.1.phase)
    (hrun : Run step Unrestricted s labels s') (hcoherent : Coherent s)
    (hsolo : ∀ l ∈ labels, Undisturbed t l) (hthread : s.threads[t]? = some thread)
    (hloop : loop (rows s.pools) s.destroyed thread.phase)
    (hthread' : s'.threads[t]? = some thread') (hover : thread'.phase.pool? = none) :
    before.Call begins (bag s') thread'.phase := by
  obtain ⟨last, hlast, hinv⟩ := undisturbed_run
    (fun rows destroyed phase =>
      loop rows destroyed phase ∨ before.Call begins { parked := rows.flatten, destroyed } phase)
    (by
      intro pools destroyed thread idx random pool hinv hidx hsize hpools hpool
      obtain hloop | hcall := hinv
      · exact hvisit pools destroyed thread idx random pool hloop hidx hsize hpools hpool
      · rw [call_over hcall] at hidx
        cases hidx)
    hrun hcoherent hsolo hthread (.inl hloop)
  obtain rfl := Option.some.inj (hlast.symm.trans hthread')
  exact hinv.resolve_left fun hloop => hbusy _ _ _ hloop hover

/-- The pools that a loop from `origin` has behind it. -/
def Scanned (p : List HTTPClient → Prop) (rows : List (List HTTPClient))
    (origin i : Nat) : Prop :=
  ∀ j < i, ∀ row, rows[poolIdx origin j]? = some row → p row

variable {p : List HTTPClient → Prop} {rows₀ : List (List HTTPClient)} {row : List HTTPClient}
  {origin : Nat}

theorem scanned_zero : Scanned p rows₀ origin 0 := fun _ hj => absurd hj (Nat.not_lt_zero _)

theorem scanned_succ (hscanned : Scanned p rows₀ origin i)
    (hrow : rows₀[poolIdx origin i]? = some row) (hp : p row) :
    Scanned p rows₀ origin (i + 1) := by
  intro j hj other hother
  obtain hj | rfl := Nat.lt_succ_iff_lt_or_eq.mp hj
  · exact hscanned j hj other hother
  · exact Option.some.inj (hrow.symm.trans hother) ▸ hp

theorem scanned_all (hscanned : Scanned p rows₀ origin poolCount)
    (hsize : rows₀.length = poolCount) :
    ∀ row ∈ rows₀, p row := by
  intro row hrow
  obtain ⟨idx, hidx, rfl⟩ := List.getElem_of_mem hrow
  have hmod : ∀ i, poolIdx origin i = (origin + i) % 16 := fun i =>
    Nat.and_two_pow_sub_one_eq_mod (origin + i) 4
  have hcount : poolCount = 16 := rfl
  refine hscanned ((idx + 16 - origin % 16) % 16) (by omega) _ ?_
  have hback : poolIdx origin ((idx + 16 - origin % 16) % 16) = idx := by
    rw [hmod]
    omega
  rw [hback]
  exact List.getElem?_eq_getElem hidx

theorem rows_getElem? {pools : List Pool} (hpool : pools[idx]? = some pool) :
    (rows pools)[idx]? = some pool.clients := by
  rw [rows, List.getElem?_map, hpool, Option.map_some]

theorem flatten_rows_set {pools : List Pool} (gone new : List HTTPClient) (pool' : Pool)
    (hpool : pools[idx]? = some pool)
    (hperm : (gone ++ pool'.clients).Perm (new ++ pool.clients)) :
    (gone ++ (rows (pools.set idx pool')).flatten).Perm (new ++ (rows pools).flatten) := by
  refine List.perm_iff_count.mpr fun c => ?_
  have hset := count_holdings_set Pool.clients pool' c hpool
  have hcount := hperm.count_eq c
  rw [List.count_append, List.count_append] at hcount ⊢
  have hrows : ∀ pools, holdings Pool.clients pools = (rows pools).flatten := fun _ => rfl
  rw [hrows, hrows] at hset
  omega

/-- `Find` has looked through some of the pools and changed nothing. -/
def FindLoop (before : State) (baseUrl : Bytes) (origin : Nat) (rows' : List (List HTTPClient))
    (destroyed : List HTTPClient) (phase : Phase) : Prop :=
  rows' = rows before.pools ∧ destroyed = before.destroyed ∧
    ∃ i < poolCount, phase = .finding baseUrl origin i ∧
      Scanned (fun row => ∀ client ∈ row, client.baseUrl ≠ baseUrl) (rows before.pools) origin i

theorem find_visit {before : State} {pools : List Pool} {destroyed : List HTTPClient}
    (random : Nat) (hloop : FindLoop before baseUrl origin (rows pools) destroyed thread.phase)
    (hidx : thread.phase.pool? = some idx) (hsize : pools.length = poolCount)
    (hpool : pools[idx]? = some pool) :
    FindLoop before baseUrl origin (rows (pools.set idx (visit thread idx random pool).1))
        (destroyed ++ (visit thread idx random pool).2.2)
        (visit thread idx random pool).2.1.phase ∨
      (bag before).Call (.finding baseUrl origin 0)
        { parked := (rows (pools.set idx (visit thread idx random pool).1)).flatten
          destroyed := destroyed ++ (visit thread idx random pool).2.2 }
        (visit thread idx random pool).2.1.phase := by
  obtain ⟨hrows, rfl, i, hi, hphase, hscanned⟩ := hloop
  obtain ⟨phase, locked, cachePoolIdx⟩ := thread
  obtain rfl : phase = .finding baseUrl origin i := hphase
  obtain rfl : poolIdx origin i = idx := Option.some.inj hidx
  have hrow := rows_getElem? hpool
  simp only [visit]
  split
  · rename_i client entries htake
    obtain ⟨hurl, -, hperm⟩ := takeEntry_spec htake
    refine .inr ?_
    rw [List.append_nil]
    have hparked := flatten_rows_set [client] [] { entries } hpool hperm.symm
    rw [hrows] at hparked
    exact .hit hurl hparked.symm
  · rename_i htake
    have hnone : ∀ client ∈ pool.clients, client.baseUrl ≠ baseUrl := takeEntry_eq_none.mp htake
    rw [hrows] at hrow
    have hnext := scanned_succ hscanned hrow hnone
    rw [rows_set { pool with lock := none } hpool rfl, hrows, List.append_nil]
    by_cases hmore : i + 1 < poolCount
    · refine .inl ⟨rfl, rfl, i + 1, hmore, ?_, hnext⟩
      simp only [advance, if_pos hmore]
    · obtain hlast : i + 1 = poolCount := Nat.le_antisymm hi (Nat.not_lt.mp hmore)
      have hall := scanned_all (hlast ▸ hnext) (by rw [← hrows, rows, List.length_map, hsize])
      simp only [advance, if_neg hmore]
      refine .inr (.miss fun client hclient => ?_)
      obtain ⟨row, hrow, hclient⟩ := List.mem_flatten.mp hclient
      exact hall row hrow client hclient

/-- `Store` has found the pools full that it has been to. -/
def StoreLoop (before : State) (baseUrl : Bytes) (client : HTTPClient) (origin : Nat)
    (rows' : List (List HTTPClient)) (destroyed : List HTTPClient) (phase : Phase) : Prop :=
  rows' = rows before.pools ∧ destroyed = before.destroyed ∧
    ((∃ i < poolCount, phase = .storing baseUrl client origin i ∧
        Scanned (fun row => row.length = poolSize) (rows before.pools) origin i) ∨
      phase = .evicting baseUrl client origin 0 ∧
        ∀ row ∈ rows before.pools, row.length = poolSize)

theorem clients_length_le (hsound : pool.Sound) : pool.clients.length ≤ poolSize := by
  rw [← hsound.size]
  exact List.reduceOption_length_le _

theorem rows_full_iff {pools : List Pool} (hsize : pools.length = poolCount)
    (hpools : ∀ pool ∈ pools, pool.Sound) :
    (rows pools).flatten.length = poolCount * poolSize ↔
      ∀ row ∈ rows pools, row.length = poolSize := by
  have hbound : ∀ row ∈ rows pools, row.length ≤ poolSize := by
    intro row hrow
    obtain ⟨pool, hpool, rfl⟩ := List.mem_map.mp hrow
    exact clients_length_le (hpools pool hpool)
  have hiff := (length_flatten_eq_iff hbound).2
  rwa [rows, List.length_map, hsize] at hiff

theorem store_visit {before : State} {pools : List Pool} {destroyed : List HTTPClient}
    (random : Nat)
    (hloop : StoreLoop before baseUrl client origin (rows pools) destroyed thread.phase)
    (hidx : thread.phase.pool? = some idx) (hsize : pools.length = poolCount)
    (hpools : ∀ pool ∈ pools, pool.Sound) (hpool : pools[idx]? = some pool) :
    StoreLoop before baseUrl client origin (rows (pools.set idx (visit thread idx random pool).1))
        (destroyed ++ (visit thread idx random pool).2.2)
        (visit thread idx random pool).2.1.phase ∨
      (bag before).Call (.storing baseUrl client origin 0)
        { parked := (rows (pools.set idx (visit thread idx random pool).1)).flatten
          destroyed := destroyed ++ (visit thread idx random pool).2.2 }
        (visit thread idx random pool).2.1.phase := by
  obtain ⟨hrows, rfl, hloop⟩ := hloop
  obtain ⟨phase, locked, cachePoolIdx⟩ := thread
  have hsound := hpools pool (List.mem_of_getElem? hpool)
  have hrow := rows_getElem? hpool
  have hfull := rows_full_iff hsize hpools
  obtain ⟨i, hi, hphase, hscanned⟩ | ⟨hphase, hall⟩ := hloop
  · obtain rfl : phase = .storing baseUrl client origin i := hphase
    obtain rfl : poolIdx origin i = idx := Option.some.inj hidx
    simp only [visit]
    split
    · rename_i entries hfill
      -- a free entry was found, so the bag was not full
      obtain ⟨-, hperm⟩ := fillEntry_spec hfill
      refine .inr ?_
      rw [List.append_nil]
      have hparked := flatten_rows_set [] [client] { entries } hpool hperm
      rw [hrows] at hparked hfull
      refine .stored (fun hbag => ?_) hparked
      have hfilled := hfull.mp hbag _ (List.mem_of_getElem? (hrows ▸ hrow))
      rw [← hsound.size] at hfilled
      rw [fillEntry_eq_none.mpr hfilled] at hfill
      cases hfill
    · rename_i hfill
      -- a full pool: on to the next one, or to the eviction behind the last
      have hfilled : pool.clients.length = poolSize :=
        (fillEntry_eq_none.mp hfill).trans hsound.size
      rw [hrows] at hrow
      have hnext := scanned_succ hscanned hrow hfilled
      rw [rows_set { pool with lock := none } hpool rfl, hrows, List.append_nil]
      refine .inl ⟨rfl, rfl, ?_⟩
      by_cases hmore : i + 1 < poolCount
      · refine .inl ⟨i + 1, hmore, ?_, hnext⟩
        simp only [advance, if_pos hmore]
      · obtain hlast : i + 1 = poolCount := Nat.le_antisymm hi (Nat.not_lt.mp hmore)
        refine .inr ⟨by simp only [advance, if_neg hmore], ?_⟩
        exact scanned_all (hlast ▸ hnext) (by rw [← hrows, rows, List.length_map, hsize])
  · obtain rfl : phase = .evicting baseUrl client origin 0 := hphase
    obtain rfl : poolIdx origin 0 = idx := Option.some.inj hidx
    simp only [visit]
    have hcount : pool.entries.reduceOption.length = pool.entries.length :=
      (hall _ (List.mem_of_getElem? (hrows ▸ hrow))).trans hsound.size.symm
    have hslot : random % pool.entries.length < pool.entries.length := by
      rw [hsound.size]
      exact Nat.mod_lt _ (by decide)
    obtain ⟨old, hold⟩ := Option.isSome_iff_exists.mp
      (List.reduceOption_length_eq_iff.mp hcount _ (List.getElem_mem hslot))
    have hgone : (pool.entries[random % pool.entries.length]?.getD none).toList = [old] := by
      rw [List.getElem?_eq_getElem hslot, Option.getD_some, hold]
      rfl
    have hmem : old ∈ pool.clients :=
      List.reduceOption_mem_iff.mpr (hold ▸ List.getElem_mem hslot)
    have hparked := flatten_rows_set [old] [client]
      { entries := pool.entries.set (random % pool.entries.length) (some client) } hpool
      (List.perm_iff_count.mpr fun c => by
        have hset := count_clients_set client hslot c
        rw [hgone] at hset
        simp only [List.count_append, Pool.clients]
        omega)
    rw [hgone]
    rw [hrows] at hparked
    refine .inr (.evicted ?_ ?_ hparked)
    · rw [hrows] at hfull
      exact hfull.mpr hall
    · exact List.mem_flatten.mpr ⟨_, List.mem_of_getElem? (hrows ▸ hrow), hmem⟩

/-- `Clear` has emptied the pools before the one it is at. -/
def ClearLoop (before : State) (rows' : List (List HTTPClient)) (destroyed : List HTTPClient)
    (phase : Phase) : Prop :=
  ∃ i < poolCount, phase = .clearing i ∧
    rows' = List.replicate i [] ++ (rows before.pools).drop i ∧
    destroyed = before.destroyed ++ ((rows before.pools).take i).flatten

theorem clear_visit {before : State} {pools : List Pool} {destroyed : List HTTPClient}
    (random : Nat) (hloop : ClearLoop before (rows pools) destroyed thread.phase)
    (hidx : thread.phase.pool? = some idx) (hsize : before.pools.length = poolCount)
    (hpool : pools[idx]? = some pool) :
    ClearLoop before (rows (pools.set idx (visit thread idx random pool).1))
        (destroyed ++ (visit thread idx random pool).2.2)
        (visit thread idx random pool).2.1.phase ∨
      (bag before).Call (.clearing 0)
        { parked := (rows (pools.set idx (visit thread idx random pool).1)).flatten
          destroyed := destroyed ++ (visit thread idx random pool).2.2 }
        (visit thread idx random pool).2.1.phase := by
  obtain ⟨i, hi, hphase, hrows, rfl⟩ := hloop
  obtain ⟨phase, locked, cachePoolIdx⟩ := thread
  obtain rfl : phase = .clearing i := hphase
  obtain rfl : i = idx := Option.some.inj hidx
  have hlength : (rows before.pools).length = poolCount := by rw [rows, List.length_map, hsize]
  have hlt : i < (rows before.pools).length := by omega
  have hclients : pool.clients = (rows before.pools)[i] := by
    have hrow := rows_getElem? hpool
    rw [hrows, List.getElem?_append_right (by simp)] at hrow
    simpa [hlt] using hrow.symm
  have hempty : (pool.entries.map fun _ => none).reduceOption = ([] : List HTTPClient) := by
    rw [List.map_const']
    exact List.reduceOption_replicate_none
  have hnext : rows (pools.set i { entries := pool.entries.map fun _ => none }) =
      List.replicate (i + 1) [] ++ (rows before.pools).drop (i + 1) := by
    rw [rows, List.map_set, ← rows, hrows, Pool.clients, hempty, List.replicate_succ',
      List.append_assoc, List.set_append_right _ _ (by simp), List.drop_eq_getElem_cons hlt,
      List.length_replicate, Nat.sub_self, List.set_cons_zero]
    rfl
  have hgone : (before.destroyed ++ ((rows before.pools).take i).flatten) ++
      pool.entries.reduceOption =
        before.destroyed ++ ((rows before.pools).take (i + 1)).flatten := by
    rw [List.take_succ_eq_append_getElem hlt, List.flatten_append, List.append_assoc]
    simp [← hclients, Pool.clients]
  simp only [visit]
  rw [hnext, hgone]
  by_cases hmore : i + 1 < poolCount
  · refine .inl ⟨i + 1, hmore, ?_, rfl, rfl⟩
    simp only [advance, if_pos hmore]
  · obtain hlast : i + 1 = (rows before.pools).length := by omega
    simp only [advance, if_neg hmore]
    rw [hlast, List.drop_length, List.take_length, List.append_nil, List.flatten_replicate_nil]
    exact .inr .cleared

/-- The phase in which a call begins. -/
def Begins : Phase → Prop
  | .finding _ _ i | .storing _ _ _ i | .clearing i => i = 0
  | .idle | .missed _ | .connected _ _ | .evicting _ _ _ _ => False

/-- A call that is not disturbed treats the pools as one bag: `Find` misses only if no client
of the base URL is parked, `Store` destroys a client only if all slots are taken, and `Clear`
leaves none. -/
theorem undisturbed_call_on_bag
    (hrun : Run step Unrestricted (start cachePoolIdxs baseUrls) labels s)
    {more : List Label} (hmore : Run step Unrestricted s more s')
    (hsolo : ∀ l ∈ more, Undisturbed t l) (hthread : s.threads[t]? = some thread)
    (hbegins : Begins thread.phase)
    (hthread' : s'.threads[t]? = some thread') (hover : thread'.phase.pool? = none) :
    (bag s).Call thread.phase (bag s') thread'.phase := by
  have hcoherent := reachable_coherent hrun
  obtain ⟨phase, locked, cachePoolIdx⟩ := thread
  cases phase with
  | idle => exact hbegins.elim
  | missed baseUrl => exact hbegins.elim
  | connected baseUrl client => exact hbegins.elim
  | evicting baseUrl client origin i => exact hbegins.elim
  | finding baseUrl origin i =>
      obtain rfl : i = 0 := hbegins
      refine undisturbed_call (FindLoop s baseUrl origin) ?_ ?_ hmore hcoherent hsolo hthread
        ⟨rfl, rfl, 0, poolCount_pos, rfl, scanned_zero⟩ hthread' hover
      · rintro rows' destroyed phase ⟨-, -, i, -, rfl, -⟩
        simp [Phase.pool?]
      · intro pools destroyed thread idx random pool hloop hidx hsize hpools hpool
        exact find_visit random hloop hidx hsize hpool
  | storing baseUrl client origin i =>
      obtain rfl : i = 0 := hbegins
      refine undisturbed_call (StoreLoop s baseUrl client origin) ?_ ?_ hmore hcoherent
        hsolo hthread ⟨rfl, rfl, .inl ⟨0, poolCount_pos, rfl, scanned_zero⟩⟩ hthread' hover
      · rintro rows' destroyed phase ⟨-, -, ⟨i, -, rfl, -⟩ | ⟨rfl, -⟩⟩
        · simp [Phase.pool?]
        · simp [Phase.pool?]
      · intro pools destroyed thread idx random pool hloop hidx hsize hpools hpool
        exact store_visit random hloop hidx hsize hpools hpool
  | clearing i =>
      obtain rfl : i = 0 := hbegins
      refine undisturbed_call (ClearLoop s) ?_ ?_ hmore hcoherent hsolo hthread
        ⟨0, poolCount_pos, rfl, rfl, (List.append_nil _).symm⟩ hthread' hover
      · rintro rows' destroyed phase ⟨i, -, rfl, -⟩
        simp [Phase.pool?]
      · intro pools destroyed thread idx random pool hloop hidx hsize hpools hpool
        exact clear_visit random hloop hidx hcoherent.size hpool

/-- A client is parked in the fourth pool, and another thread starts to look for one. -/
def parkedOne : State :=
  { pools := (List.replicate poolCount {}).set 3
      { entries := some { id := 0, baseUrl := [104] } :: List.replicate 15 none }
    threads := [{ cachePoolIdx := 3 }, { phase := .finding [104] 0 0 }]
    created := 1 }

def foundOne : State :=
  { threads :=
      [{ cachePoolIdx := 3 },
        { phase := .connected [104] { id := 0, baseUrl := [104] }, cachePoolIdx := 3 }]
    created := 1 }

theorem undisturbed_call_on_bag_hit :
    (bag parkedOne).Call (.finding [104] 0 0) (bag foundOne)
      (.connected [104] { id := 0, baseUrl := [104] }) := by
  have hrun : Run step Unrestricted (start [3, 0] [])
      [.find 0 [104] false, .create 0, .store 0, .tryLock 0 true, .visit 0 0, .find 1 [104] true]
      parkedOne := run_of_exec rfl
  have hmore : Run step Unrestricted parkedOne
      [.tryLock 1 true, .visit 1 0, .tryLock 1 true, .visit 1 0, .tryLock 1 true, .visit 1 0,
        .tryLock 1 true, .visit 1 0] foundOne := run_of_exec rfl
  exact undisturbed_call_on_bag hrun hmore (by simp [Undisturbed, Label.actor, Label.inner])
    (show parkedOne.threads[1]? = some { phase := .finding [104] 0 0 } from rfl) rfl
    (show foundOne.threads[1]? = some
      { phase := .connected [104] { id := 0, baseUrl := [104] }, cachePoolIdx := 3 } from rfl) rfl

end HaybarnHttpfs.ConnectionSharing
