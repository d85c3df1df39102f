import HaybarnHttpfs.Foundation.ByteStrings
import HaybarnHttpfs.Foundation.Custody
import HaybarnHttpfs.Foundation.TransitionRuns
import Mathlib.Data.List.ReduceOption
import Mathlib.Data.Option.Basic

/-!
`HTTPClientConnectionCache` and its callers: the pools of idle clients, the threads that look
for a client or leave one behind, and the file handles that keep clients of their own. `Find`
and `Store` only ever try the lock of a pool; `Clear` waits for it. The generation of
`HTTPClientCache` and its `StoreClient` of an entry are left out here: `S3ClientCache` has them.
-/

namespace HaybarnHttpfs.ConnectionCache

open HaybarnHttpfs.Foundation.ByteStrings HaybarnHttpfs.Foundation.Custody

def poolCount : Nat := 16

def poolSize : Nat := 16

/-- `id` tells two clients of one base URL apart. -/
structure HTTPClient where
  id : Nat
  baseUrl : Bytes
  deriving DecidableEq, Repr

/-- `lock` is the thread that holds the mutex of the pool. -/
structure Pool where
  lock : Option Nat := none
  entries : List (Option HTTPClient) := List.replicate poolSize none
  deriving DecidableEq, Repr

/-- `POOL_COUNT` is a power of two. -/
def poolIdx (start i : Nat) : Nat := (start + i) &&& (poolCount - 1)

/-- Where a thread stands. `finding`, `storing` and `evicting` are the loops of `Find` and the
two passes of `Store`, at their i-th pool; with `missed` a client has to be made, and with
`connected` the thread has one for its request. -/
inductive Phase where
  | idle
  | finding (baseUrl : Bytes) (start i : Nat)
  | missed (baseUrl : Bytes)
  | connected (baseUrl : Bytes) (client : HTTPClient)
  | storing (baseUrl : Bytes) (client : HTTPClient) (start i : Nat)
  | evicting (baseUrl : Bytes) (client : HTTPClient) (start i : Nat)
  | clearing (idx : Nat)
  deriving DecidableEq, Repr

/-- `locked` says that the thread has the lock of the pool its loop is at. -/
structure Thread where
  phase : Phase := .idle
  locked : Bool := false
  cachePoolIdx : Nat := 0
  deriving DecidableEq, Repr

/-- The pool that the loop of a thread is at. -/
def Phase.pool? : Phase → Option Nat
  | .finding _ start i | .storing _ _ start i | .evicting _ _ start i => some (poolIdx start i)
  | .clearing idx => some idx
  | .idle | .missed _ | .connected _ _ => none

def Phase.client? : Phase → Option HTTPClient
  | .connected _ client | .storing _ client _ _ | .evicting _ client _ _ => some client
  | .idle | .finding _ _ _ | .missed _ | .clearing _ => none

/-- A handle of a plain HTTP file talks to one base URL; `clients` is its own cache. -/
structure Handle where
  baseUrl : Bytes
  clients : List HTTPClient := []
  deriving DecidableEq, Repr

/-- `created` counts the clients made so far, and `destroyed` are those that are gone. -/
structure State where
  pools : List Pool := List.replicate poolCount {}
  threads : List Thread := []
  handles : List Handle := []
  created : Nat := 0
  destroyed : List HTTPClient := []
  deriving DecidableEq, Repr

def State.setThread (s : State) (t : Nat) (thread : Thread) : State :=
  { s with threads := s.threads.set t thread }

def State.setPool (s : State) (idx : Nat) (pool : Pool) : State :=
  { s with pools := s.pools.set idx pool }

def State.setHandle (s : State) (h : Nat) (handle : Handle) : State :=
  { s with handles := s.handles.set h handle }

/-- The scan of `Find`: the first client of the base URL, and the pool without it. -/
def takeEntry (baseUrl : Bytes) : List (Option HTTPClient) →
    Option (HTTPClient × List (Option HTTPClient))
  | [] => none
  | none :: entries => (takeEntry baseUrl entries).map fun p => (p.1, none :: p.2)
  | some client :: entries =>
      if client.baseUrl = baseUrl then some (client, none :: entries)
      else (takeEntry baseUrl entries).map fun p => (p.1, some client :: p.2)

/-- The scan of the first pass of `Store`: the first empty slot is filled. -/
def fillEntry (client : HTTPClient) : List (Option HTTPClient) → Option (List (Option HTTPClient))
  | [] => none
  | none :: entries => some (some client :: entries)
  | some other :: entries => (fillEntry client entries).map (some other :: ·)

/-- What becomes of a thread that finds nothing to do in the pool its loop is at. -/
def advance (thread : Thread) : Thread :=
  match thread.phase with
  | .finding baseUrl start i =>
      { thread with
        locked := false
        phase := if i + 1 < poolCount then .finding baseUrl start (i + 1) else .missed baseUrl }
  | .storing baseUrl client start i =>
      { thread with
        locked := false
        phase :=
          if i + 1 < poolCount then .storing baseUrl client start (i + 1)
          else .evicting baseUrl client start 0 }
  | .evicting baseUrl client start i =>
      { thread with
        locked := false
        -- `Store` gives up and leaves the client to its caller
        phase :=
          if i + 1 < poolCount then .evicting baseUrl client start (i + 1)
          else .connected baseUrl client }
  | .clearing idx =>
      { thread with
        locked := false
        phase := if idx + 1 < poolCount then .clearing (idx + 1) else .idle }
  | .idle | .missed _ | .connected _ _ => thread

/-- The body of a loop under the lock of the pool `idx`, which is released at its end: the
pool, the thread and the clients that are destroyed. -/
def visit (thread : Thread) (idx random : Nat) (pool : Pool) : Pool × Thread × List HTTPClient :=
  match thread.phase with
  | .finding baseUrl _ _ =>
      match takeEntry baseUrl pool.entries with
      | some (client, entries) =>
          ({ entries }, { phase := .connected baseUrl client, cachePoolIdx := idx }, [])
      | none => ({ pool with lock := none }, advance thread, [])
  | .storing _ client _ _ =>
      match fillEntry client pool.entries with
      | some entries => ({ entries }, { cachePoolIdx := idx }, [])
      | none => ({ pool with lock := none }, advance thread, [])
  | .evicting _ client _ _ =>
      let slot := random % pool.entries.length
      ({ entries := pool.entries.set slot (some client) }, { cachePoolIdx := idx },
        (pool.entries[slot]?.getD none).toList)
  | .clearing _ =>
      ({ entries := pool.entries.map fun _ => none }, advance thread, pool.entries.reduceOption)
  | .idle | .missed _ | .connected _ _ => (pool, thread, [])

inductive Label where
  | find (t : Nat) (baseUrl : Bytes) (caching : Bool)
  | create (t : Nat)
  | abandon (t : Nat)
  | take (t h : Nat)
  | give (t h : Nat)
  | store (t : Nat)
  | destroy (t : Nat)
  | clearHandle (h : Nat)
  | clear (t : Nat)
  | tryLock (t : Nat) (granted : Bool)
  | lock (t : Nat)
  | visit (t random : Nat)
  deriving DecidableEq, Repr

/-- Who takes the step; the client cache of a handle is destroyed by nobody in particular. -/
def Label.actor : Label → Option Nat
  | .find t _ _ | .create t | .abandon t | .take t _ | .give t _ | .store t | .destroy t
  | .clear t | .tryLock t _ | .lock t | .visit t _ => some t
  | .clearHandle _ => none

/-- The steps within `Find`, `Store` and `Clear`. -/
def Label.inner : Label → Bool
  | .tryLock _ _ | .lock _ | .visit _ _ => true
  | .find _ _ _ | .create _ | .abandon _ | .take _ _ | .give _ _ | .store _ | .destroy _
  | .clearHandle _ | .clear _ => false

/-- `GetClient` of a handle: its last client, if it has one. -/
def takeClient (handle : Handle) : Option (HTTPClient × Handle) :=
  handle.clients.getLast?.map fun client =>
    (client, { handle with clients := handle.clients.dropLast })

def giveClient (handle : Handle) (client : HTTPClient) : Handle :=
  { handle with clients := handle.clients ++ [client] }

/-- The calls that a thread makes, and the steps within `Find`, `Store` and `Clear`. A lock
that is tried may be refused without being held. -/
def step (s : State) : Label → Option State
  | .find t baseUrl caching => do
      let thread ← s.threads[t]?
      guard (thread.phase = .idle)
      let phase :=
        if caching && !baseUrl.isEmpty then .finding baseUrl thread.cachePoolIdx 0
        else .missed baseUrl
      return s.setThread t { thread with phase }
  | .create t => do
      let thread ← s.threads[t]?
      match thread.phase with
      | .missed baseUrl =>
          let client : HTTPClient := { id := s.created, baseUrl }
          some ({ s with created := s.created + 1 }.setThread t
            { thread with phase := .connected baseUrl client })
      | _ => none
  | .abandon t => do
      let thread ← s.threads[t]?
      match thread.phase with
      | .missed _ => some (s.setThread t { thread with phase := .idle })
      | _ => none
  | .take t h => do
      let thread ← s.threads[t]?
      guard (thread.phase = .idle)
      let handle ← s.handles[h]?
      let (client, handle) ← takeClient handle
      return (s.setHandle h handle).setThread t
        { thread with phase := .connected handle.baseUrl client }
  | .give t h => do
      let thread ← s.threads[t]?
      let handle ← s.handles[h]?
      match thread.phase with
      | .connected baseUrl client =>
          if baseUrl = handle.baseUrl then
            some ((s.setHandle h (giveClient handle client)).setThread t
              { thread with phase := .idle })
          else none
      | _ => none
  | .store t => do
      let thread ← s.threads[t]?
      match thread.phase with
      | .connected baseUrl client =>
          if client.baseUrl.isEmpty then some s
          else some (s.setThread t { thread with
            phase := .storing baseUrl client thread.cachePoolIdx 0 })
      | _ => none
  | .destroy t => do
      let thread ← s.threads[t]?
      match thread.phase with
      | .connected _ client =>
          some ({ s with destroyed := s.destroyed ++ [client] }.setThread t
            { thread with phase := .idle })
      | _ => none
  | .clearHandle h => do
      let handle ← s.handles[h]?
      return { s with destroyed := s.destroyed ++ handle.clients }.setHandle h
        { handle with clients := [] }
  | .clear t => do
      let thread ← s.threads[t]?
      guard (thread.phase = .idle)
      return s.setThread t { thread with phase := .clearing 0 }
  | .tryLock t granted => do
      let thread ← s.threads[t]?
      let idx ← thread.phase.pool?
      let pool ← s.pools[idx]?
      guard (thread.locked = false ∧ thread.phase ≠ .clearing idx)
      if granted then
        guard (pool.lock = none)
        return (s.setPool idx { pool with lock := some t }).setThread t
          { thread with locked := true }
      else return s.setThread t (advance thread)
  | .lock t => do
      let thread ← s.threads[t]?
      let idx ← thread.phase.pool?
      let pool ← s.pools[idx]?
      guard (thread.locked = false ∧ thread.phase = .clearing idx ∧ pool.lock = none)
      return (s.setPool idx { pool with lock := some t }).setThread t
        { thread with locked := true }
  | .visit t random => do
      let thread ← s.threads[t]?
      let idx ← thread.phase.pool?
      let pool ← s.pools[idx]?
      guard (thread.locked = true)
      let (pool, thread, gone) := visit thread idx random pool
      return ({ s with destroyed := s.destroyed ++ gone }.setPool idx pool).setThread t thread

/-- Threads that have done nothing yet, each with a pool to start at, and handles that were
just opened. -/
def start (cachePoolIdxs : List Nat) (baseUrls : List Bytes) : State :=
  { threads := cachePoolIdxs.map fun cachePoolIdx => { cachePoolIdx }
    handles := baseUrls.map fun baseUrl => { baseUrl } }

def Pool.clients (pool : Pool) : List HTTPClient := pool.entries.reduceOption

def Thread.clients (thread : Thread) : List HTTPClient := thread.phase.client?.toList

/-- All clients there ever were, wherever they are now. -/
def holders (s : State) : List HTTPClient :=
  holdings Pool.clients s.pools ++ holdings Thread.clients s.threads ++
    holdings Handle.clients s.handles ++ s.destroyed

/-- The client in the hand of a thread is one for its request, and a loop is within bounds. -/
def Fits (thread : Thread) : Prop :=
  match thread.phase with
  | .idle | .missed _ => thread.locked = false
  | .finding _ _ i => i < poolCount
  | .connected baseUrl client => thread.locked = false ∧ client.baseUrl = baseUrl
  | .storing baseUrl client _ i | .evicting baseUrl client _ i =>
      client.baseUrl = baseUrl ∧ baseUrl ≠ [] ∧ i < poolCount
  | .clearing idx => idx < poolCount

structure Pool.Sound (pool : Pool) : Prop where
  size : pool.entries.length = poolSize
  keyed : ∀ client ∈ pool.clients, client.baseUrl ≠ []

variable {s s' : State} {l : Label} {thread : Thread} {pool : Pool} {idx : Nat}
  {baseUrl : Bytes} {client : HTTPClient} {entries entries' : List (Option HTTPClient)}

theorem poolCount_pos : 0 < poolCount := by decide

theorem poolIdx_lt (start i : Nat) : poolIdx start i < poolCount :=
  Nat.lt_of_le_of_lt Nat.and_le_right (by decide)

theorem takeEntry_spec (htake : takeEntry baseUrl entries = some (client, entries')) :
    client.baseUrl = baseUrl ∧ entries'.length = entries.length ∧
      entries.reduceOption.Perm (client :: entries'.reduceOption) := by
  induction entries generalizing entries' with
  | nil => cases htake
  | cons entry entries ih =>
      cases entry with
      | none =>
          obtain ⟨⟨found, rest⟩, hrest, hpair⟩ := Option.map_eq_some_iff.mp htake
          cases hpair
          obtain ⟨hurl, hlength, hperm⟩ := ih hrest
          exact ⟨hurl, congrArg (· + 1) hlength, hperm⟩
      | some other =>
          rw [takeEntry] at htake
          split at htake
          · rename_i hurl
            cases htake
            exact ⟨hurl, rfl, .refl _⟩
          · obtain ⟨⟨found, rest⟩, hrest, hpair⟩ := Option.map_eq_some_iff.mp htake
            cases hpair
            obtain ⟨hurl, hlength, hperm⟩ := ih hrest
            exact ⟨hurl, congrArg (· + 1) hlength, (hperm.cons other).trans (.swap _ _ _)⟩

theorem takeEntry_eq_none :
    takeEntry baseUrl entries = none ↔
      ∀ client ∈ entries.reduceOption, client.baseUrl ≠ baseUrl := by
  induction entries with
  | nil => simp [takeEntry]
  | cons entry entries ih =>
      cases entry with
      | none => simpa [takeEntry] using ih
      | some other =>
          rw [takeEntry, List.reduceOption_cons_of_some, List.forall_mem_cons, ← ih]
          split
          · rename_i hurl
            simp [hurl]
          · rename_i hurl
            simp [hurl]

theorem fillEntry_spec (hfill : fillEntry client entries = some entries') :
    entries'.length = entries.length ∧
      entries'.reduceOption.Perm (client :: entries.reduceOption) := by
  induction entries generalizing entries' with
  | nil => cases hfill
  | cons entry entries ih =>
      cases entry with
      | none =>
          cases hfill
          exact ⟨rfl, .refl _⟩
      | some other =>
          obtain ⟨rest, hrest, rfl⟩ := Option.map_eq_some_iff.mp hfill
          obtain ⟨hlength, hperm⟩ := ih hrest
          exact ⟨congrArg (· + 1) hlength, (hperm.cons other).trans (.swap _ _ _)⟩

theorem fillEntry_eq_none :
    fillEntry client entries = none ↔ entries.reduceOption.length = entries.length := by
  induction entries with
  | nil => simp [fillEntry]
  | cons entry entries ih =>
      cases entry with
      | none =>
          have hle := List.reduceOption_length_le entries
          simp only [fillEntry, List.reduceOption_cons_of_none, List.length_cons, reduceCtorEq,
            false_iff]
          omega
      | some other => simpa [fillEntry] using ih

theorem reduceOption_eq_holdings : entries.reduceOption = holdings Option.toList entries :=
  List.filterMap_eq_flatMap_toList id entries

theorem count_clients_set {slot : Nat} (client : HTTPClient)
    (hslot : slot < entries.length) (c : HTTPClient) :
    (entries.set slot (some client)).reduceOption.count c +
        (entries[slot]?.getD none).toList.count c =
      entries.reduceOption.count c + [client].count c := by
  rw [reduceOption_eq_holdings, reduceOption_eq_holdings]
  have hentry : entries[slot]? = some (entries[slot]?.getD none) := by
    rw [List.getElem?_eq_getElem hslot, Option.getD_some]
  exact count_holdings_set Option.toList _ c hentry

theorem advance_clients : (advance thread).clients = thread.clients := by
  obtain ⟨phase, locked, start⟩ := thread
  cases phase with
  | idle => rfl
  | missed baseUrl => rfl
  | connected baseUrl client => rfl
  | finding baseUrl start i =>
      simp only [advance]
      split
      · rfl
      · rfl
  | storing baseUrl client start i =>
      simp only [advance]
      split
      · rfl
      · rfl
  | evicting baseUrl client start i =>
      simp only [advance]
      split
      · rfl
      · rfl
  | clearing idx =>
      simp only [advance]
      split
      · rfl
      · rfl

theorem advance_fits (hpool : thread.phase.pool? = some idx) (hfits : Fits thread) :
    (advance thread).locked = false ∧ Fits (advance thread) := by
  obtain ⟨phase, locked, start⟩ := thread
  cases phase with
  | idle => cases hpool
  | missed baseUrl => cases hpool
  | connected baseUrl client => cases hpool
  | finding baseUrl start i =>
      simp only [advance]
      split
      · rename_i hi
        exact ⟨trivial, hi⟩
      · exact ⟨trivial, rfl⟩
  | storing baseUrl client start i =>
      obtain ⟨hurl, hne, -⟩ := hfits
      simp only [advance]
      split
      · rename_i hi
        exact ⟨trivial, hurl, hne, hi⟩
      · exact ⟨trivial, hurl, hne, poolCount_pos⟩
  | evicting baseUrl client start i =>
      obtain ⟨hurl, hne, -⟩ := hfits
      simp only [advance]
      split
      · rename_i hi
        exact ⟨trivial, hurl, hne, hi⟩
      · exact ⟨trivial, rfl, hurl⟩
  | clearing idx =>
      simp only [advance]
      split
      · rename_i hi
        exact ⟨trivial, hi⟩
      · exact ⟨trivial, rfl⟩

theorem fits_locked (hpool : thread.phase.pool? = some idx) (hfits : Fits thread) :
    Fits { thread with locked := true } := by
  obtain ⟨phase, locked, start⟩ := thread
  cases phase with
  | idle => cases hpool
  | missed baseUrl => cases hpool
  | connected baseUrl client => cases hpool
  | finding baseUrl start i => exact hfits
  | storing baseUrl client start i => exact hfits
  | evicting baseUrl client start i => exact hfits
  | clearing idx => exact hfits

/-- What becomes of a pool, of the thread in it and of the clients the two had. -/
structure Visited (thread : Thread) (pool : Pool) (result : Pool × Thread × List HTTPClient) :
    Prop where
  released : result.1.lock = none
  unlocked : result.2.1.locked = false
  sound : result.1.Sound
  fits : Fits result.2.1
  balance : ∀ c : HTTPClient,
    result.1.clients.count c + result.2.1.clients.count c + result.2.2.count c =
      pool.clients.count c + thread.clients.count c

theorem visited_advance (hpool : thread.phase.pool? = some idx) (hsound : pool.Sound)
    (hfits : Fits thread) :
    Visited thread pool ({ pool with lock := none }, advance thread, []) := by
  obtain ⟨hunlocked, hfits⟩ := advance_fits hpool hfits
  refine ⟨rfl, hunlocked, ⟨hsound.size, hsound.keyed⟩, hfits, fun c => ?_⟩
  simp only [advance_clients, Pool.clients, List.count_nil, Nat.add_zero]

theorem visit_spec (random : Nat) (hpool : thread.phase.pool? = some idx) (hsound : pool.Sound)
    (hfits : Fits thread) : Visited thread pool (visit thread idx random pool) := by
  have hadvance := visited_advance hpool hsound hfits
  obtain ⟨phase, locked, start⟩ := thread
  cases phase with
  | idle => cases hpool
  | missed baseUrl => cases hpool
  | connected baseUrl client => cases hpool
  | finding baseUrl start i =>
      simp only [visit]
      split
      · rename_i client entries htake
        obtain ⟨hurl, hlength, hperm⟩ := takeEntry_spec htake
        have hkeyed : ∀ c ∈ entries.reduceOption, c.baseUrl ≠ [] := fun c hc =>
          hsound.keyed c (hperm.mem_iff.mpr (.tail _ hc))
        refine ⟨rfl, rfl, ⟨hlength.trans hsound.size, hkeyed⟩, ⟨rfl, hurl⟩, fun c => ?_⟩
        have hcount : pool.clients.count c = (client :: entries.reduceOption).count c :=
          hperm.count_eq c
        rw [hcount, List.count_cons]
        simp [Pool.clients, Thread.clients, Phase.client?, List.count_cons]
      · exact hadvance
  | storing baseUrl client start i =>
      obtain ⟨hurl, hne, -⟩ := hfits
      simp only [visit]
      split
      · rename_i entries hfill
        obtain ⟨hlength, hperm⟩ := fillEntry_spec hfill
        refine ⟨rfl, rfl, ⟨hlength.trans hsound.size, fun c hc => ?_⟩, rfl, fun c => ?_⟩
        · obtain rfl | hc := List.mem_cons.mp (hperm.mem_iff.mp hc)
          · exact hurl ▸ hne
          · exact hsound.keyed c hc
        · have hcount : entries.reduceOption.count c = (client :: pool.clients).count c :=
            hperm.count_eq c
          rw [List.count_cons] at hcount
          simp [Pool.clients, Thread.clients, Phase.client?, List.count_cons, hcount]
      · exact hadvance
  | evicting baseUrl client start i =>
      obtain ⟨hurl, hne, -⟩ := hfits
      simp only [visit]
      have hslot : random % pool.entries.length < pool.entries.length := by
        rw [hsound.size]
        exact Nat.mod_lt _ (by decide)
      refine ⟨rfl, rfl, ⟨?_, fun c hc => ?_⟩, rfl, fun c => ?_⟩
      · rw [List.length_set]
        exact hsound.size
      · obtain hc | hc := List.mem_or_eq_of_mem_set (List.reduceOption_mem_iff.mp hc)
        · exact hsound.keyed c (List.reduceOption_mem_iff.mpr hc)
        · cases hc
          exact hurl ▸ hne
      · have hcount := count_clients_set client hslot c
        simpa [Pool.clients, Thread.clients, Phase.client?] using hcount
  | clearing idx =>
      simp only [visit]
      obtain ⟨hunlocked, hfits⟩ := advance_fits hpool hfits
      have hempty : (pool.entries.map fun _ => none).reduceOption = ([] : List HTTPClient) := by
        rw [List.map_const']
        exact List.reduceOption_replicate_none
      refine ⟨rfl, hunlocked, ⟨?_, fun c hc => ?_⟩, hfits, fun c => ?_⟩
      · rw [List.length_map]
        exact hsound.size
      · rw [Pool.clients, hempty] at hc
        cases hc
      · simp only [advance_clients, Pool.clients, hempty, List.count_nil]
        omega

def Handle.Sound (handle : Handle) : Prop :=
    ∀ client ∈ handle.clients, client.baseUrl = handle.baseUrl

/-- Everything that a step can change. -/
inductive Move (s : State) (l : Label) : State → Prop where
  | stay (houter : l.inner = false) : Move s l s
  | turn {t : Nat} {thread thread' : Thread} (hactor : l.actor = some t)
      (houter : l.inner = false)
      (hthread : s.threads[t]? = some thread) (hclients : thread'.clients = thread.clients)
      (hkeeps : Fits thread → thread.locked = false ∧ thread'.locked = false ∧ Fits thread') :
      Move s l (s.setThread t thread')
  | made {t : Nat} {thread : Thread} {baseUrl : Bytes} (hactor : l.actor = some t)
      (houter : l.inner = false) (hthread : s.threads[t]? = some thread)
      (hphase : thread.phase = .missed baseUrl) :
      Move s l ({ s with created := s.created + 1 }.setThread t
        { thread with phase := .connected baseUrl { id := s.created, baseUrl } })
  | dropped {t : Nat} {thread : Thread} {baseUrl : Bytes} {client : HTTPClient}
      (hactor : l.actor = some t) (houter : l.inner = false)
      (hthread : s.threads[t]? = some thread)
      (hphase : thread.phase = .connected baseUrl client) :
      Move s l ({ s with destroyed := s.destroyed ++ [client] }.setThread t
        { thread with phase := .idle })
  | exchanged {t h : Nat} {thread thread' : Thread} {handle handle' : Handle}
      (hactor : l.actor = some t) (houter : l.inner = false)
      (hthread : s.threads[t]? = some thread) (hhandle : s.handles[h]? = some handle)
      (hkeeps : Fits thread → handle.Sound →
        thread.locked = false ∧ thread'.locked = false ∧ Fits thread' ∧ handle'.Sound)
      (hbalance : ∀ c : HTTPClient,
        thread'.clients.count c + handle'.clients.count c =
          thread.clients.count c + handle.clients.count c) :
      Move s l ((s.setHandle h handle').setThread t thread')
  | emptied {h : Nat} {handle : Handle} (houter : l.inner = false)
      (hhandle : s.handles[h]? = some handle) :
      Move s l ({ s with destroyed := s.destroyed ++ handle.clients }.setHandle h
        { handle with clients := [] })
  | refused {t idx : Nat} {thread : Thread} (hlabel : l = .tryLock t false)
      (hthread : s.threads[t]? = some thread) (hidx : thread.phase.pool? = some idx)
      (hunlocked : thread.locked = false) :
      Move s l (s.setThread t (advance thread))
  | acquired {t idx : Nat} {thread : Thread} {pool : Pool} (hactor : l.actor = some t)
      (hthread : s.threads[t]? = some thread) (hpool : s.pools[idx]? = some pool)
      (hidx : thread.phase.pool? = some idx) (hunlocked : thread.locked = false)
      (hfree : pool.lock = none) :
      Move s l ((s.setPool idx { pool with lock := some t }).setThread t
        { thread with locked := true })
  | visited {t idx random : Nat} {thread : Thread} {pool : Pool} (hlabel : l = .visit t random)
      (hthread : s.threads[t]? = some thread) (hpool : s.pools[idx]? = some pool)
      (hidx : thread.phase.pool? = some idx) (hlocked : thread.locked = true) :
      Move s l (({ s with
        destroyed := s.destroyed ++ (visit thread idx random pool).2.2 }.setPool idx
          (visit thread idx random pool).1).setThread t (visit thread idx random pool).2.1)

theorem takeClient_spec {handle handle' : Handle}
    (htake : takeClient handle = some (client, handle')) :
    handle'.baseUrl = handle.baseUrl ∧ handle.clients = handle'.clients ++ [client] := by
  obtain ⟨last, hlast, hpair⟩ := Option.map_eq_some_iff.mp htake
  cases hpair
  exact ⟨rfl, (List.dropLast_append_getLast? _ hlast).symm⟩

theorem clients_of_phase {phase : Phase} (hphase : thread.phase = phase) :
    thread.clients = phase.client?.toList := by
  rw [Thread.clients, hphase]

theorem fits_idle (hphase : thread.phase = .idle) (hfits : Fits thread) :
    thread.locked = false := by
  rwa [Fits, hphase] at hfits

theorem fits_connected (hphase : thread.phase = .connected baseUrl client) (hfits : Fits thread) :
    thread.locked = false ∧ client.baseUrl = baseUrl := by
  rwa [Fits, hphase] at hfits

theorem move_of_find {t : Nat} {caching : Bool}
    (hstep : step s (.find t baseUrl caching) = some s') :
    Move s (.find t baseUrl caching) s' := by
  simp only [step, Option.bind_eq_bind, Option.bind_eq_some_iff, Option.guard_eq_some',
    Option.pure_def, Option.some.injEq] at hstep
  obtain ⟨thread, hthread, -, hidle, rfl⟩ := hstep
  have hclients := clients_of_phase hidle
  split
  · refine .turn rfl rfl hthread hclients.symm fun hfits => ?_
    have hunlocked := fits_idle hidle hfits
    exact ⟨hunlocked, hunlocked, poolCount_pos⟩
  · refine .turn rfl rfl hthread hclients.symm fun hfits => ?_
    have hunlocked := fits_idle hidle hfits
    exact ⟨hunlocked, hunlocked, hunlocked⟩

theorem move_of_create {t : Nat} (hstep : step s (.create t) = some s') :
    Move s (.create t) s' := by
  simp only [step, Option.bind_eq_bind, Option.bind_eq_some_iff] at hstep
  obtain ⟨thread, hthread, hstep⟩ := hstep
  split at hstep
  · rename_i baseUrl hphase
    cases hstep
    exact .made rfl rfl hthread hphase
  · cases hstep

theorem move_of_abandon {t : Nat} (hstep : step s (.abandon t) = some s') :
    Move s (.abandon t) s' := by
  simp only [step, Option.bind_eq_bind, Option.bind_eq_some_iff] at hstep
  obtain ⟨thread, hthread, hstep⟩ := hstep
  split at hstep
  · rename_i baseUrl hphase
    cases hstep
    refine .turn rfl rfl hthread (clients_of_phase hphase).symm fun hfits => ?_
    rw [Fits, hphase] at hfits
    exact ⟨hfits, hfits, hfits⟩
  · cases hstep

theorem move_of_take {t h : Nat} (hstep : step s (.take t h) = some s') :
    Move s (.take t h) s' := by
  simp only [step, Option.bind_eq_bind, Option.bind_eq_some_iff, Option.guard_eq_some',
    Option.pure_def, Option.some.injEq] at hstep
  obtain ⟨thread, hthread, -, hidle, handle, hhandle, ⟨client, handle'⟩, htake, rfl⟩ := hstep
  obtain ⟨hurl, hclients⟩ := takeClient_spec htake
  refine .exchanged rfl rfl hthread hhandle (fun hfits hsound => ?_) fun c => ?_
  · have hclient : client.baseUrl = handle.baseUrl := hsound client (by simp [hclients])
    have hunlocked := fits_idle hidle hfits
    refine ⟨hunlocked, hunlocked, ⟨hunlocked, hclient.trans hurl.symm⟩, fun other hother => ?_⟩
    rw [hurl]
    exact hsound other (by simp [hclients, hother])
  · rw [clients_of_phase hidle, hclients, List.count_append]
    simp [Thread.clients, Phase.client?, Nat.add_comm]

theorem move_of_give {t h : Nat} (hstep : step s (.give t h) = some s') :
    Move s (.give t h) s' := by
  simp only [step, Option.bind_eq_bind, Option.bind_eq_some_iff] at hstep
  obtain ⟨thread, hthread, handle, hhandle, hstep⟩ := hstep
  split at hstep
  · rename_i baseUrl client hphase
    split at hstep
    · rename_i hurl
      cases hstep
      refine .exchanged rfl rfl hthread hhandle (fun hfits hsound => ?_) fun c => ?_
      · obtain ⟨hunlocked, hclient⟩ := fits_connected hphase hfits
        refine ⟨hunlocked, hunlocked, hunlocked, fun other hother => ?_⟩
        obtain hother | hother := List.mem_append.mp hother
        · exact hsound other hother
        · obtain rfl := List.mem_singleton.mp hother
          exact hclient.trans hurl
      · rw [clients_of_phase hphase, giveClient, List.count_append]
        simp [Thread.clients, Phase.client?, Nat.add_comm]
    · cases hstep
  · cases hstep

theorem move_of_store {t : Nat} (hstep : step s (.store t) = some s') : Move s (.store t) s' := by
  simp only [step, Option.bind_eq_bind, Option.bind_eq_some_iff] at hstep
  obtain ⟨thread, hthread, hstep⟩ := hstep
  split at hstep
  · rename_i baseUrl client hphase
    split at hstep
    · cases hstep
      exact .stay rfl
    · rename_i hne
      cases hstep
      refine .turn rfl rfl hthread (clients_of_phase hphase).symm fun hfits => ?_
      obtain ⟨hunlocked, hclient⟩ := fits_connected hphase hfits
      refine ⟨hunlocked, hunlocked, hclient, fun hempty => ?_, poolCount_pos⟩
      rw [hclient, hempty] at hne
      exact hne rfl
  · cases hstep

theorem move_of_destroy {t : Nat} (hstep : step s (.destroy t) = some s') :
    Move s (.destroy t) s' := by
  simp only [step, Option.bind_eq_bind, Option.bind_eq_some_iff] at hstep
  obtain ⟨thread, hthread, hstep⟩ := hstep
  split at hstep
  · rename_i baseUrl client hphase
    cases hstep
    exact .dropped rfl rfl hthread hphase
  · cases hstep

theorem move_of_clearHandle {h : Nat} (hstep : step s (.clearHandle h) = some s') :
    Move s (.clearHandle h) s' := by
  simp only [step, Option.bind_eq_bind, Option.bind_eq_some_iff, Option.pure_def,
    Option.some.injEq] at hstep
  obtain ⟨handle, hhandle, rfl⟩ := hstep
  exact .emptied rfl hhandle

theorem move_of_clear {t : Nat} (hstep : step s (.clear t) = some s') : Move s (.clear t) s' := by
  simp only [step, Option.bind_eq_bind, Option.bind_eq_some_iff, Option.guard_eq_some',
    Option.pure_def, Option.some.injEq] at hstep
  obtain ⟨thread, hthread, -, hidle, rfl⟩ := hstep
  refine .turn rfl rfl hthread (clients_of_phase hidle).symm fun hfits => ?_
  have hunlocked := fits_idle hidle hfits
  exact ⟨hunlocked, hunlocked, poolCount_pos⟩

theorem move_of_tryLock {t : Nat} {granted : Bool}
    (hstep : step s (.tryLock t granted) = some s') :
    Move s (.tryLock t granted) s' := by
  simp only [step, Option.bind_eq_bind, Option.bind_eq_some_iff, Option.guard_eq_some',
    Option.pure_def] at hstep
  obtain ⟨thread, hthread, idx, hidx, pool, hpool, -, ⟨hunlocked, -⟩, hstep⟩ := hstep
  split at hstep
  · obtain ⟨_, hfree, hnext⟩ := Option.bind_eq_some_iff.mp hstep
    rw [Option.guard_eq_some'] at hfree
    cases hnext
    exact .acquired rfl hthread hpool hidx hunlocked hfree
  · cases hstep
    rename_i hgranted
    rw [Bool.not_eq_true] at hgranted
    subst hgranted
    exact .refused rfl hthread hidx hunlocked

theorem move_of_lock {t : Nat} (hstep : step s (.lock t) = some s') : Move s (.lock t) s' := by
  simp only [step, Option.bind_eq_bind, Option.bind_eq_some_iff, Option.guard_eq_some',
    Option.pure_def, Option.some.injEq] at hstep
  obtain ⟨thread, hthread, idx, hidx, pool, hpool, -, ⟨hunlocked, -, hfree⟩, rfl⟩ := hstep
  exact .acquired rfl hthread hpool hidx hunlocked hfree

theorem move_of_visit {t random : Nat} (hstep : step s (.visit t random) = some s') :
    Move s (.visit t random) s' := by
  simp only [step, Option.bind_eq_bind, Option.bind_eq_some_iff, Option.guard_eq_some',
    Option.pure_def, Option.some.injEq] at hstep
  obtain ⟨thread, hthread, idx, hidx, pool, hpool, -, hlocked, rfl⟩ := hstep
  exact .visited rfl hthread hpool hidx hlocked

theorem step_move (hstep : step s l = some s') : Move s l s' := by
  cases l with
  | find t baseUrl caching => exact move_of_find hstep
  | create t => exact move_of_create hstep
  | abandon t => exact move_of_abandon hstep
  | take t h => exact move_of_take hstep
  | give t h => exact move_of_give hstep
  | store t => exact move_of_store hstep
  | destroy t => exact move_of_destroy hstep
  | clearHandle h => exact move_of_clearHandle hstep
  | clear t => exact move_of_clear hstep
  | tryLock t granted => exact move_of_tryLock hstep
  | lock t => exact move_of_lock hstep
  | visit t random => exact move_of_visit hstep

variable {t h : Nat} {thread' : Thread} {handle : Handle}

theorem count_setThread (thread' : Thread) (hthread : s.threads[t]? = some thread)
    (c : HTTPClient) :
    (holders (s.setThread t thread')).count c + thread.clients.count c =
      (holders s).count c + thread'.clients.count c := by
  have hset := count_holdings_set Thread.clients thread' c hthread
  simp only [holders, State.setThread, List.count_append]
  omega

theorem count_setPool (pool' : Pool) (hpool : s.pools[idx]? = some pool) (c : HTTPClient) :
    (holders (s.setPool idx pool')).count c + pool.clients.count c =
      (holders s).count c + pool'.clients.count c := by
  have hset := count_holdings_set Pool.clients pool' c hpool
  simp only [holders, State.setPool, List.count_append]
  omega

theorem count_setHandle (handle' : Handle) (hhandle : s.handles[h]? = some handle)
    (c : HTTPClient) :
    (holders (s.setHandle h handle')).count c + handle.clients.count c =
      (holders s).count c + handle'.clients.count c := by
  have hset := count_holdings_set Handle.clients handle' c hhandle
  simp only [holders, State.setHandle, List.count_append]
  omega

theorem count_destroyed (gone : List HTTPClient) (c : HTTPClient) :
    (holders { s with destroyed := s.destroyed ++ gone }).count c =
      (holders s).count c + gone.count c := by
  simp only [holders, List.count_append]
  omega

/-- `t` is inside the pool `idx`. -/
def HasLock (threads : List Thread) (t idx : Nat) : Prop :=
  ∃ thread, threads[t]? = some thread ∧ thread.locked = true ∧ thread.phase.pool? = some idx

structure Coherent (s : State) : Prop where
  size : s.pools.length = poolCount
  pools : ∀ pool ∈ s.pools, pool.Sound
  threads : ∀ thread ∈ s.threads, Fits thread
  handles : ∀ handle ∈ s.handles, handle.Sound
  custody : ((holders s).map HTTPClient.id).Perm (List.range s.created)
  locks : ∀ idx pool, s.pools[idx]? = some pool →
    ∀ t, pool.lock = some t ↔ HasLock s.threads t idx

theorem move_holders (hmove : Move s l s') (hcoherent : Coherent s) :
    s'.created = s.created ∧ (holders s').Perm (holders s) ∨
      ∃ baseUrl, s'.created = s.created + 1 ∧
        (holders s').Perm ({ id := s.created, baseUrl } :: holders s) := by
  cases hmove with
  | stay houter => exact .inl ⟨rfl, .refl _⟩
  | @turn t thread thread' hactor houter hthread hclients hkeeps =>
      refine .inl ⟨rfl, List.perm_iff_count.mpr fun c => ?_⟩
      have hset := count_setThread thread' hthread c
      rw [hclients] at hset
      omega
  | @made t thread baseUrl hactor houter hthread hphase =>
      refine .inr ⟨baseUrl, rfl, List.perm_iff_count.mpr fun c => ?_⟩
      have hset := count_setThread (s := { s with created := s.created + 1 })
        { thread with phase := .connected baseUrl { id := s.created, baseUrl } } hthread c
      rw [clients_of_phase hphase] at hset
      simp only [Phase.client?, Thread.clients, Option.toList, List.count_nil,
        Nat.add_zero] at hset
      rw [hset, List.count_cons, List.count_cons, List.count_nil, Nat.zero_add]
      rfl
  | @dropped t thread baseUrl client hactor houter hthread hphase =>
      refine .inl ⟨rfl, List.perm_iff_count.mpr fun c => ?_⟩
      have hset := count_setThread (s := { s with destroyed := s.destroyed ++ [client] })
        { thread with phase := .idle } hthread c
      have hgone := count_destroyed (s := s) [client] c
      rw [clients_of_phase hphase, hgone] at hset
      simp only [Phase.client?, Thread.clients, Option.toList, List.count_nil] at hset
      omega
  | @exchanged t h thread thread' handle handle' hactor houter hthread hhandle hkeeps hbalance =>
      refine .inl ⟨rfl, List.perm_iff_count.mpr fun c => ?_⟩
      have hset := count_setThread (s := s.setHandle h handle') thread' hthread c
      have hset' := count_setHandle handle' hhandle c
      have hc := hbalance c
      omega
  | @emptied h handle houter hhandle =>
      refine .inl ⟨rfl, List.perm_iff_count.mpr fun c => ?_⟩
      have hset := count_setHandle (s := { s with destroyed := s.destroyed ++ handle.clients })
        { handle with clients := [] } hhandle c
      have hgone := count_destroyed (s := s) handle.clients c
      simp only [List.count_nil] at hset
      omega
  | @refused t idx thread hlabel hthread hidx hunlocked =>
      refine .inl ⟨rfl, List.perm_iff_count.mpr fun c => ?_⟩
      have hset := count_setThread (advance thread) hthread c
      rw [advance_clients] at hset
      omega
  | @acquired t idx thread pool hactor hthread hpool hidx hunlocked hfree =>
      refine .inl ⟨rfl, List.perm_iff_count.mpr fun c => ?_⟩
      have hset := count_setThread (s := s.setPool idx { pool with lock := some t })
        { thread with locked := true } hthread c
      have hset' := count_setPool { pool with lock := some t } hpool c
      simp only [Pool.clients, Thread.clients] at hset hset'
      omega
  | @visited t idx random thread pool hlabel hthread hpool hidx hlocked =>
      have hvisited := visit_spec random hidx
        (hcoherent.pools _ (List.mem_of_getElem? hpool))
        (hcoherent.threads _ (List.mem_of_getElem? hthread))
      refine .inl ⟨rfl, List.perm_iff_count.mpr fun c => ?_⟩
      generalize visit thread idx random pool = result at hvisited ⊢
      have hset := count_setThread
        (s := { s with destroyed := s.destroyed ++ result.2.2 }.setPool idx result.1)
        result.2.1 hthread c
      have hset' := count_setPool (s := { s with destroyed := s.destroyed ++ result.2.2 })
        result.1 hpool c
      have hgone := count_destroyed (s := s) result.2.2 c
      have hbalance := hvisited.balance c
      omega

variable {u i : Nat} {threads : List Thread}

theorem hasLock_of_locked (hthread : threads[t]? = some thread) (hlocked : thread.locked = true)
    (hidx : thread.phase.pool? = some idx) : HasLock threads t idx :=
  ⟨thread, hthread, hlocked, hidx⟩

theorem hasLock_iff (hthread : threads[t]? = some thread) :
    HasLock threads t i ↔ thread.locked = true ∧ thread.phase.pool? = some i := by
  constructor
  · rintro ⟨other, hother, hlocked, hidx⟩
    rw [hthread, Option.some.injEq] at hother
    exact hother ▸ ⟨hlocked, hidx⟩
  · rintro ⟨hlocked, hidx⟩
    exact hasLock_of_locked hthread hlocked hidx

theorem hasLock_set_self (hthread : threads[t]? = some thread) :
    HasLock (threads.set t thread') t i ↔ thread'.locked = true ∧ thread'.phase.pool? = some i :=
  hasLock_iff (List.getElem?_set_self (List.getElem?_eq_some_iff.mp hthread).1)

theorem hasLock_set_of_ne (hne : u ≠ t) :
    HasLock (threads.set t thread') u i ↔ HasLock threads u i := by
  rw [HasLock, HasLock, List.getElem?_set_ne hne.symm]

theorem hasLock_set_unlocked (hthread : threads[t]? = some thread)
    (hbefore : thread.locked = false) (hafter : thread'.locked = false) :
    HasLock (threads.set t thread') u i ↔ HasLock threads u i := by
  by_cases hu : u = t
  · subst hu
    rw [hasLock_set_self hthread, hasLock_iff hthread, hbefore, hafter]
    simp
  · exact hasLock_set_of_ne hu

theorem not_hasLock (hthread : threads[t]? = some thread) (hunlocked : thread.locked = false) :
    ¬ HasLock threads t i := by
  rw [hasLock_iff hthread, hunlocked]
  simp

theorem forall_mem_set {α : Type} {p : α → Prop} {items : List α} {item : α} {k : Nat}
    (hitems : ∀ x ∈ items, p x) (hitem : p item) : ∀ x ∈ items.set k item, p x := by
  intro x hx
  obtain hx | rfl := List.mem_or_eq_of_mem_set hx
  · exact hitems x hx
  · exact hitem

theorem locks_acquired (hcoherent : Coherent s) (hthread : s.threads[t]? = some thread)
    (hpool : s.pools[idx]? = some pool) (hidx : thread.phase.pool? = some idx)
    (hunlocked : thread.locked = false) (hfree : pool.lock = none) :
    ∀ i other, (s.pools.set idx { pool with lock := some t })[i]? = some other →
      ∀ u, other.lock = some u ↔ HasLock (s.threads.set t { thread with locked := true }) u i := by
  have hlocks := hcoherent.locks
  intro i other hother u
  -- one pool gets an owner, and the thread holds no other
  by_cases hi : i = idx
  · subst hi
    rw [List.getElem?_set_self (List.getElem?_eq_some_iff.mp hpool).1,
      Option.some.injEq] at hother
    subst hother
    by_cases hu : u = t
    · subst hu
      exact iff_of_true rfl ((hasLock_set_self hthread).mpr ⟨rfl, hidx⟩)
    · have hnot : ¬ HasLock s.threads u i := by
        rw [← hlocks i pool hpool u, hfree]
        simp
      exact iff_of_false (by simpa using Ne.symm hu) (mt (hasLock_set_of_ne hu).mp hnot)
  · rw [List.getElem?_set_ne (Ne.symm hi)] at hother
    rw [hlocks i other hother u]
    by_cases hu : u = t
    · subst hu
      refine iff_of_false (not_hasLock hthread hunlocked) fun hlock => hi ?_
      obtain ⟨-, hpool?⟩ := (hasLock_set_self hthread).mp hlock
      exact Option.some.inj (hpool?.symm.trans hidx)
    · exact (hasLock_set_of_ne hu).symm

theorem locks_visited (random : Nat) (hcoherent : Coherent s)
    (hthread : s.threads[t]? = some thread) (hpool : s.pools[idx]? = some pool)
    (hidx : thread.phase.pool? = some idx) (hlocked : thread.locked = true) :
    ∀ i other, (s.pools.set idx (visit thread idx random pool).1)[i]? = some other →
      ∀ u, other.lock = some u ↔
        HasLock (s.threads.set t (visit thread idx random pool).2.1) u i := by
  have hlocks := hcoherent.locks
  have hvisited := visit_spec random hidx
    (hcoherent.pools _ (List.mem_of_getElem? hpool))
    (hcoherent.threads _ (List.mem_of_getElem? hthread))
  generalize visit thread idx random pool = result at hvisited ⊢
  have hown : pool.lock = some t :=
    (hlocks idx pool hpool t).mpr (hasLock_of_locked hthread hlocked hidx)
  intro i other hother u
  -- the visit gives its lock back
  have hself : ¬ HasLock (s.threads.set t result.2.1) t i := by
    rw [hasLock_set_self hthread, hvisited.unlocked]
    simp
  by_cases hi : i = idx
  · subst hi
    rw [List.getElem?_set_self (List.getElem?_eq_some_iff.mp hpool).1,
      Option.some.injEq] at hother
    subst hother
    rw [hvisited.released]
    refine iff_of_false (by simp) fun hlock => ?_
    by_cases hu : u = t
    · exact hself (hu ▸ hlock)
    · have hother := (hlocks i pool hpool u).mpr ((hasLock_set_of_ne hu).mp hlock)
      exact hu (Option.some.inj (hother.symm.trans hown))
  · rw [List.getElem?_set_ne (Ne.symm hi)] at hother
    rw [hlocks i other hother u]
    by_cases hu : u = t
    · subst hu
      refine iff_of_false (fun hlock => hi ?_) hself
      obtain ⟨-, hpool?⟩ := (hasLock_iff hthread).mp hlock
      exact Option.some.inj (hpool?.symm.trans hidx)
    · exact (hasLock_set_of_ne hu).symm

theorem move_locks (hmove : Move s l s') (hcoherent : Coherent s) :
    ∀ i pool, s'.pools[i]? = some pool → ∀ u, pool.lock = some u ↔ HasLock s'.threads u i := by
  have hlocks := hcoherent.locks
  cases hmove with
  | stay houter => exact hlocks
  | @turn t thread thread' hactor houter hthread hclients hkeeps =>
      obtain ⟨hbefore, hafter, -⟩ := hkeeps (hcoherent.threads _ (List.mem_of_getElem? hthread))
      intro i pool hpool u
      exact (hlocks i pool hpool u).trans (hasLock_set_unlocked hthread hbefore hafter).symm
  | @made t thread baseUrl hactor houter hthread hphase =>
      have hfits := hcoherent.threads _ (List.mem_of_getElem? hthread)
      rw [Fits, hphase] at hfits
      intro i pool hpool u
      refine (hlocks i pool hpool u).trans (hasLock_set_unlocked hthread hfits ?_).symm
      exact hfits
  | @dropped t thread baseUrl client hactor houter hthread hphase =>
      obtain ⟨hfits, -⟩ :=
        fits_connected hphase (hcoherent.threads _ (List.mem_of_getElem? hthread))
      intro i pool hpool u
      refine (hlocks i pool hpool u).trans (hasLock_set_unlocked hthread hfits ?_).symm
      exact hfits
  | @exchanged t h thread thread' handle handle' hactor houter hthread hhandle hkeeps hbalance =>
      obtain ⟨hbefore, hafter, -⟩ := hkeeps (hcoherent.threads _ (List.mem_of_getElem? hthread))
        (hcoherent.handles _ (List.mem_of_getElem? hhandle))
      intro i pool hpool u
      exact (hlocks i pool hpool u).trans (hasLock_set_unlocked hthread hbefore hafter).symm
  | @emptied h handle houter hhandle => exact hlocks
  | @refused t idx thread hlabel hthread hidx hunlocked =>
      obtain ⟨hafter, -⟩ :=
        advance_fits hidx (hcoherent.threads _ (List.mem_of_getElem? hthread))
      intro i pool hpool u
      exact (hlocks i pool hpool u).trans (hasLock_set_unlocked hthread hunlocked hafter).symm
  | @acquired t idx thread pool hactor hthread hpool hidx hunlocked hfree =>
      exact locks_acquired hcoherent hthread hpool hidx hunlocked hfree
  | @visited t idx random thread pool hlabel hthread hpool hidx hlocked =>
      exact locks_visited (s := s) random hcoherent hthread hpool hidx hlocked

theorem move_coherent (hmove : Move s l s') (hcoherent : Coherent s) : Coherent s' := by
  have hlocks := move_locks hmove hcoherent
  have hcustody : ((holders s').map HTTPClient.id).Perm (List.range s'.created) := by
    obtain ⟨hcreated, hperm⟩ | ⟨baseUrl, hcreated, hperm⟩ := move_holders hmove hcoherent
    · rw [hcreated]
      exact (hperm.map _).trans hcoherent.custody
    · rw [hcreated, List.range_succ]
      exact (hperm.map _).trans ((hcoherent.custody.cons s.created).trans
        (List.perm_append_singleton _ _).symm)
  have hpools := hcoherent.pools
  have hthreads := hcoherent.threads
  have hhandles := hcoherent.handles
  cases hmove with
  | stay houter => exact hcoherent
  | @turn t thread thread' hactor houter hthread hclients hkeeps =>
      obtain ⟨-, -, hfits⟩ := hkeeps (hthreads _ (List.mem_of_getElem? hthread))
      exact ⟨hcoherent.size, hpools, forall_mem_set hthreads hfits, hhandles, hcustody, hlocks⟩
  | @made t thread baseUrl hactor houter hthread hphase =>
      have hfits := hthreads _ (List.mem_of_getElem? hthread)
      rw [Fits, hphase] at hfits
      exact ⟨hcoherent.size, hpools, forall_mem_set hthreads ⟨hfits, rfl⟩, hhandles, hcustody,
        hlocks⟩
  | @dropped t thread baseUrl client hactor houter hthread hphase =>
      obtain ⟨hfits, -⟩ := fits_connected hphase (hthreads _ (List.mem_of_getElem? hthread))
      exact ⟨hcoherent.size, hpools, forall_mem_set hthreads hfits, hhandles, hcustody, hlocks⟩
  | @exchanged t h thread thread' handle handle' hactor houter hthread hhandle hkeeps hbalance =>
      obtain ⟨-, -, hfits, hsound⟩ := hkeeps (hthreads _ (List.mem_of_getElem? hthread))
        (hhandles _ (List.mem_of_getElem? hhandle))
      exact ⟨hcoherent.size, hpools, forall_mem_set hthreads hfits,
        forall_mem_set hhandles hsound, hcustody, hlocks⟩
  | @emptied h handle houter hhandle =>
      have hsound : Handle.Sound { handle with clients := [] } := fun c hc => by cases hc
      exact ⟨hcoherent.size, hpools, hthreads, forall_mem_set hhandles hsound, hcustody, hlocks⟩
  | @refused t idx thread hlabel hthread hidx hunlocked =>
      obtain ⟨-, hfits⟩ := advance_fits hidx (hthreads _ (List.mem_of_getElem? hthread))
      exact ⟨hcoherent.size, hpools, forall_mem_set hthreads hfits, hhandles, hcustody, hlocks⟩
  | @acquired t idx thread pool hactor hthread hpool hidx hunlocked hfree =>
      have hfits := hthreads _ (List.mem_of_getElem? hthread)
      have hsound := hpools _ (List.mem_of_getElem? hpool)
      exact ⟨List.length_set.trans hcoherent.size,
        forall_mem_set hpools ⟨hsound.size, hsound.keyed⟩,
        forall_mem_set hthreads (fits_locked hidx hfits), hhandles, hcustody, hlocks⟩
  | @visited t idx random thread pool hlabel hthread hpool hidx hlocked =>
      have hvisited := visit_spec random hidx (hpools _ (List.mem_of_getElem? hpool))
        (hthreads _ (List.mem_of_getElem? hthread))
      exact ⟨List.length_set.trans hcoherent.size, forall_mem_set hpools hvisited.sound,
        forall_mem_set hthreads hvisited.fits, hhandles, hcustody, hlocks⟩

end HaybarnHttpfs.ConnectionCache
