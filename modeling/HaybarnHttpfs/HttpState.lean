import HaybarnHttpfs.Foundation.Memory

/-!
`CachedFile` of the HTTP state: a file that one handle downloads in full, under
the lock of the file, and that every handle may read once it is initialized.
-/

namespace HaybarnHttpfs.HttpState

open HaybarnHttpfs.Foundation.Memory

universe u

variable {α : Type u}

structure CachedFile (α : Type u) where
  data : Cells α := blank
  capacity : Nat := 0
  size : Nat := 0
  initialized : Bool := false

def allocateBuffer (file : CachedFile α) (size : Nat) : CachedFile α :=
  { file with data := blank, capacity := size }

def copyCells (source target : Cells α) (len : Nat) : Cells α :=
  fun i => if i < len then source i else target i

def growBuffer (file : CachedFile α) (newCapacity bytesToCopy : Nat) : CachedFile α :=
  let oldData := file.data
  let file := allocateBuffer file newCapacity
  { file with data := copyCells oldData file.data bytesToCopy }

def write (file : CachedFile α) (buffer : List α) (offset : Nat) : CachedFile α :=
  { file with data := store file.data offset buffer }

def setInitialized (file : CachedFile α) (totalSize : Nat) : CachedFile α :=
  { file with size := totalSize, initialized := true }

/-- The doubling loop of the content handler; `fuel` bounds its iterations. -/
def doubleCapacity (needed : Nat) : Nat → Nat → Nat
  | 0, newCapacity => newCapacity
  | fuel + 1, newCapacity =>
      if newCapacity < needed then doubleCapacity needed fuel (newCapacity * 2)
      else newCapacity

theorem le_doubleCapacity {needed fuel capacity : Nat} (hpositive : 0 < capacity)
    (hfuel : needed ≤ fuel + capacity) : needed ≤ doubleCapacity needed fuel capacity := by
  induction fuel generalizing capacity with
  | zero => simpa [doubleCapacity] using hfuel
  | succ fuel ih =>
      unfold doubleCapacity
      split
      · exact ih (by omega) (by omega)
      · omega

theorem doubleCapacity_pos {needed fuel capacity : Nat} (hpositive : 0 < capacity) :
    0 < doubleCapacity needed fuel capacity := by
  induction fuel generalizing capacity with
  | zero => exact hpositive
  | succ fuel ih =>
      unfold doubleCapacity
      split
      · exact ih (by omega)
      · exact hpositive

/-- `RunGetRequest`'s content handler, on the length of the handle and the file
that its `cached_file_handle` refers to. -/
def contentHandler (data : List α) (length : Nat) (file : CachedFile α) :
    Nat × CachedFile α :=
  if file.capacity = 0 then
    (data.length, write (allocateBuffer file data.length) data 0)
  else
    let needed := length + data.length
    let newCapacity := doubleCapacity needed needed file.capacity
    let file := if newCapacity ≠ file.capacity then growBuffer file newCapacity length
      else file
    (length + data.length, write file data length)

def receiveChunks : List (List α) → Nat → CachedFile α → Nat × CachedFile α
  | [], length, file => (length, file)
  | data :: chunks, length, file =>
      receiveChunks chunks (contentHandler data length file).1 (contentHandler data length file).2

/-- The handle has received exactly `body` into the file. -/
structure Received (body : List α) (length : Nat) (file : CachedFile α) : Prop where
  counted : length = body.length
  holds : Holds file.data body
  unallocated : file.capacity = 0 → body = []
  room : length ≤ file.capacity

theorem holds_store_of_prefix {cells cells' : Cells α} {body data : List α}
    (hholds : Holds cells body) (hcopied : ∀ i < body.length, cells' i = cells i) :
    Holds (store cells' body.length data) (body ++ data) := by
  apply holds_store_append
  intro i hi
  rw [hcopied i hi]
  exact hholds i hi

theorem contentHandler_of_unallocated (data : List α) (length : Nat) {file : CachedFile α}
    (hcapacity : file.capacity = 0) :
    Received data (contentHandler data length file).1 (contentHandler data length file).2 := by
  simp only [contentHandler, hcapacity, if_true]
  refine ⟨rfl, ?_, ?_, ?_⟩
  · exact holds_store_zero blank data
  · intro hempty
    simpa [write, allocateBuffer] using hempty
  · simp [write, allocateBuffer]

theorem Received.contentHandler {body data : List α} {length : Nat} {file : CachedFile α}
    (hreceived : Received body length file) :
    Received (body ++ data) (HttpState.contentHandler data length file).1
      (HttpState.contentHandler data length file).2 := by
  by_cases hcapacity : file.capacity = 0
  · rw [hreceived.unallocated hcapacity]
    exact contentHandler_of_unallocated data length hcapacity
  · have hpositive : 0 < file.capacity := by omega
    have hroom : length + data.length ≤
        doubleCapacity (length + data.length) (length + data.length) file.capacity :=
      le_doubleCapacity hpositive (by omega)
    have hlength := hreceived.counted
    simp only [HttpState.contentHandler, hcapacity, if_false]
    split
    · rename_i hgrow
      refine ⟨by simp [hlength], ?_, ?_, ?_⟩
      · simp only [write, hlength]
        apply holds_store_of_prefix hreceived.holds
        intro i hi
        simp [growBuffer, copyCells, hi]
      · intro hnone
        simp only [write, growBuffer, allocateBuffer] at hnone
        exact absurd hnone (Nat.ne_of_gt (doubleCapacity_pos hpositive))
      · simpa [write, growBuffer, allocateBuffer] using hroom
    · rename_i hkeep
      refine ⟨by simp [hlength], ?_, ?_, ?_⟩
      · simp only [write, hlength]
        exact holds_store_of_prefix hreceived.holds fun i _ => rfl
      · intro hnone
        exact absurd hnone hcapacity
      · simp only [write]
        omega

theorem Received.receiveChunks {body : List α} {chunks : List (List α)} {length : Nat}
    {file : CachedFile α} (hreceived : Received body length file) :
    Received (body ++ chunks.flatten) (HttpState.receiveChunks chunks length file).1
      (HttpState.receiveChunks chunks length file).2 := by
  induction chunks generalizing body length file with
  | nil => simpa [HttpState.receiveChunks] using hreceived
  | cons data chunks ih =>
      rw [List.flatten_cons, ← List.append_assoc]
      exact ih hreceived.contentHandler

/-- What a body leaves behind depends on where it starts: exact from length zero,
and exact from a file without a buffer if the handler is called at all. -/
theorem receiveChunks_exact {chunks : List (List α)} {length : Nat} {file : CachedFile α}
    (hstart : length = 0 ∨ (file.capacity = 0 ∧ chunks ≠ [])) :
    Received chunks.flatten (receiveChunks chunks length file).1
      (receiveChunks chunks length file).2 := by
  rcases hstart with rfl | ⟨hcapacity, hcalled⟩
  · have hnothing : Received [] 0 file :=
      ⟨rfl, fun i hi => by simp at hi, fun _ => rfl, Nat.zero_le _⟩
    exact hnothing.receiveChunks
  · cases chunks with
    | nil => exact absurd rfl hcalled
    | cons data chunks =>
        rw [List.flatten_cons]
        exact (contentHandler_of_unallocated data length hcapacity).receiveChunks

theorem receiveChunks_length {chunks : List (List α)} {length : Nat} {file : CachedFile α}
    (hallocated : chunks = [] ∨ file.capacity ≠ 0) :
    (receiveChunks chunks length file).1 = length + chunks.flatten.length := by
  induction chunks generalizing length file with
  | nil => simp [receiveChunks]
  | cons data chunks ih =>
      have hcapacity : file.capacity ≠ 0 := by simpa using hallocated
      have hpositive : 0 < file.capacity := by omega
      have hnext : (contentHandler data length file).2.capacity ≠ 0 := by
        simp only [contentHandler, hcapacity, if_false]
        split
        · exact Nat.ne_of_gt (doubleCapacity_pos hpositive)
        · exact hcapacity
      rw [receiveChunks, ih (.inr hnext)]
      simp only [contentHandler, hcapacity, if_false, List.flatten_cons, List.length_append]
      omega

theorem receiveChunks_inexact {chunks : List (List α)} {length : Nat} {file : CachedFile α}
    (hstart : ¬ (length = 0 ∨ (file.capacity = 0 ∧ chunks ≠ []))) :
    (receiveChunks chunks length file).1 ≠ chunks.flatten.length := by
  have hallocated : chunks = [] ∨ file.capacity ≠ 0 := by
    by_contra hnot
    rw [not_or, not_not] at hnot
    exact hstart (.inr ⟨hnot.2, hnot.1⟩)
  rw [receiveChunks_length hallocated]
  omega

theorem receiveChunks_initialized (chunks : List (List α)) (length : Nat)
    (file : CachedFile α) :
    (receiveChunks chunks length file).2.initialized = file.initialized := by
  induction chunks generalizing length file with
  | nil => rfl
  | cons data chunks ih =>
      rw [receiveChunks, ih]
      unfold contentHandler
      split
      · rfl
      · simp only
        split
        · rfl
        · rfl

/-- The first `length` cells of the file hold bytes with the property `P`. -/
def Filled (P : α → Prop) (length : Nat) (file : CachedFile α) : Prop :=
  ∀ i < length, ∃ b, file.data i = some b ∧ P b

theorem Filled.mono {P Q : α → Prop} {length : Nat} {file : CachedFile α}
    (hweaken : ∀ b, P b → Q b) (hfilled : Filled P length file) : Filled Q length file := by
  intro i hi
  obtain ⟨b, hcell, hb⟩ := hfilled i hi
  exact ⟨b, hcell, hweaken b hb⟩

theorem filled_store {P : α → Prop} {cells : Cells α} {length : Nat} {data : List α}
    (hcells : ∀ i < length, ∃ b, cells i = some b ∧ P b) (hdata : ∀ b ∈ data, P b) :
    ∀ i < length + data.length, ∃ b, store cells length data i = some b ∧ P b := by
  intro i hi
  unfold store
  split
  · have hin : i - length < data.length := by omega
    exact ⟨data[i - length], List.getElem?_eq_getElem hin, hdata _ (List.getElem_mem hin)⟩
  · exact hcells i (by omega)

theorem filled_contentHandler {P : α → Prop} {data : List α} {length : Nat}
    {file : CachedFile α} (hstart : Filled P length file ∨ file.capacity = 0)
    (hdata : ∀ b ∈ data, P b) :
    Filled P (contentHandler data length file).1 (contentHandler data length file).2 := by
  unfold contentHandler
  split
  · intro i hi
    have hstored := holds_store_zero blank data i hi
    rw [List.getElem?_eq_getElem hi] at hstored
    exact ⟨data[i], hstored, hdata _ (List.getElem_mem hi)⟩
  · rename_i hcapacity
    have hfilled := hstart.resolve_right hcapacity
    simp only
    split
    · apply filled_store _ hdata
      intro i hi
      simpa [growBuffer, copyCells, hi] using hfilled i hi
    · exact filled_store hfilled hdata

theorem Filled.receiveChunks {P : α → Prop} {chunks : List (List α)} {length : Nat}
    {file : CachedFile α} (hfilled : Filled P length file)
    (hchunks : ∀ b ∈ chunks.flatten, P b) :
    Filled P (HttpState.receiveChunks chunks length file).1
      (HttpState.receiveChunks chunks length file).2 := by
  induction chunks generalizing length file with
  | nil => exact hfilled
  | cons data chunks ih =>
      simp only [List.flatten_cons, List.mem_append] at hchunks
      apply ih (filled_contentHandler (.inl hfilled) fun b hb => hchunks b (.inl hb))
      exact fun b hb => hchunks b (.inr hb)

theorem filled_receiveChunks {P : α → Prop} {chunks : List (List α)} {length : Nat}
    {file : CachedFile α}
    (hstart : Filled P length file ∨ (file.capacity = 0 ∧ chunks ≠ []))
    (hchunks : ∀ b ∈ chunks.flatten, P b) :
    Filled P (receiveChunks chunks length file).1 (receiveChunks chunks length file).2 := by
  rcases hstart with hfilled | ⟨hcapacity, hcalled⟩
  · exact hfilled.receiveChunks hchunks
  · cases chunks with
    | nil => exact absurd rfl hcalled
    | cons data chunks =>
        simp only [List.flatten_cons, List.mem_append] at hchunks
        have hfirst : Filled P (contentHandler data length file).1
            (contentHandler data length file).2 :=
          filled_contentHandler (.inr hcapacity) fun b hb => hchunks b (.inl hb)
        exact hfirst.receiveChunks fun b hb => hchunks b (.inr hb)

end HaybarnHttpfs.HttpState
