import HaybarnHttpfs.Foundation.ByteStrings
import HaybarnHttpfs.Foundation.TransitionRuns
import Mathlib.Logic.Function.Basic

/-!
The shared `HTTPMetadataCache` of one S3 file system under its own opens, uploads
and deletes, in any number of client contexts. What is known of a path carries the
number of overwrites and deletes of the path that were complete when it was obtained.
-/

namespace HaybarnHttpfs.MetadataCache

open HaybarnHttpfs.Foundation.ByteStrings HaybarnHttpfs.Foundation.TransitionRuns

universe u

structure HTTPMetadataCacheEntry where
  length : Nat := 0
  lastModified : Nat := 0
  etag : Bytes := []
  versionId : Bytes := []
  properties : List (Bytes × Bytes) := []
  deriving DecidableEq, Repr

structure Dated (T : Type u) where
  value : T
  asOf : Nat
  deriving DecidableEq, Repr

abbrev Cache := Bytes → Option (Dated HTTPMetadataCacheEntry)

def insert (cache : Cache) (path : Bytes) (entry : Dated HTTPMetadataCacheEntry) : Cache :=
  Function.update cache path (some entry)

def erase (cache : Cache) (path : Bytes) : Cache := Function.update cache path none

/-- The flags of an open; that of `RemoveFile` is neither for reading nor for
writing. -/
inductive OpenFlags where
  | read (forceDownload : Bool) (forceDownloadThreshold : Nat)
  | write (writeOverwriteMode : Bool)
  | nullIfNotExists
  deriving DecidableEq, Repr

/-- `downloading` is a `FullDownload`; `opened` is the end of `Initialize`. -/
inductive Stage where
  | finding
  | loading (shouldWriteCache : Bool)
  | loaded (shouldWriteCache : Bool) (info : Dated HTTPMetadataCacheEntry)
      (forceFullDownload : Bool)
  | downloading (asOf : Nat)
  | opened
  deriving DecidableEq, Repr

/-- `region` is that of the handle's auth parameters, which an entry keeps as a
property. -/
structure FileHandle where
  path : Bytes
  context : Nat
  flags : OpenFlags
  region : Bytes := []
  stage : Stage := .finding
  deriving DecidableEq, Repr

/-- `downloads` are the initialized files of the HTTP state of each client context,
by their sizes; `mutations` counts the completed overwrites and deletes of a path;
`initialised` records the opens for reading that found a cache entry, with the age
of the entry and of the path. -/
structure S3FileSystem where
  cache : Cache := fun _ => none
  downloads : Nat → Bytes → Option (Dated Nat) := fun _ _ => none
  handles : Nat → Option FileHandle := fun _ => none
  mutations : Bytes → Nat := fun _ => 0
  initialised : List (Bytes × Nat × Nat) := []

def S3FileSystem.setHandle (s : S3FileSystem) (h : Nat) (handle : Option FileHandle) :
    S3FileSystem :=
  { s with handles := Function.update s.handles h handle }

/-- An overwrite or a delete of the path is complete. -/
def S3FileSystem.mutate (s : S3FileSystem) (path : Bytes) : S3FileSystem :=
  { s with mutations := Function.update s.mutations path (s.mutations path + 1) }

/-- What `LoadFileInfo` gets from the server: the headers of a `HEAD` or of the range
request in its place, the 404 of a file to be written, or a refusal of ranges. -/
inductive HeadAnswer where
  | found (length lastModified : Nat) (etag versionId : Bytes)
  | notFound
  | rangeRequestNotSupported
  deriving DecidableEq, Repr

inductive Label where
  | openFile (h : Nat) (path : Bytes) (context : Nat) (flags : OpenFlags) (region : Bytes)
  | find (h : Nat)
  | loadFileInfo (h : Nat) (answer : HeadAnswer)
  /-- The server answers the `GET` of a full download. -/
  | startDownload (h : Nat)
  | endDownload (h size : Nat)
  | finish (h : Nat)
  /-- `Initialize` starts again with the region that the error named. -/
  | retry (h : Nat) (region : Bytes)
  /-- A failed `Initialize`, or the end of a handle that uploads nothing. -/
  | leave (h : Nat)
  /-- The upload of a handle is complete, or the delete request of `RemoveFile`. -/
  | complete (h : Nat)
  /-- A request of `RemoveFiles` has deleted the paths. -/
  | removeFiles (paths : List Bytes)
  /-- A response has shown that the file changed. -/
  | eraseEntry (path : Bytes)
  | queryEnd (context : Nat)

def shouldFullDownload (forceFullDownload : Bool) (length forceDownloadThreshold : Nat) : Bool :=
  length = 0 || (length < forceDownloadThreshold && length ≠ 0) || forceFullDownload

/-- `GetCacheEntry`. -/
def getCacheEntry (handle : FileHandle) (info : HTTPMetadataCacheEntry) :
    HTTPMetadataCacheEntry :=
  if handle.region.isEmpty then info
  else { info with properties := [(bytes "s3_region", handle.region)] }

/-- `InitializeFromCacheEntry`, as far as it changes later requests. -/
def initializeFromCacheEntry (handle : FileHandle) (entry : HTTPMetadataCacheEntry) :
    FileHandle :=
  { handle with
    region := (entry.properties.lookup (bytes "s3_region")).getD handle.region
    stage := .opened }

def find (s : S3FileSystem) (h : Nat) (handle : FileHandle) : Option S3FileSystem :=
  match handle.flags with
  | .read forceDownload _ =>
      if forceDownload then none
      else
        match s.cache handle.path with
        | some entry =>
            some { (s.setHandle h (some (initializeFromCacheEntry handle entry.value))) with
              initialised := s.initialised ++
                [(handle.path, entry.asOf, s.mutations handle.path)] }
        | none => some (s.setHandle h (some { handle with stage := .loading true }))
  | .write _ | .nullIfNotExists =>
      some (s.setHandle h (some { handle with stage := .loading false }))

/-- A file that the client context has downloaded already stands in for the `HEAD`,
and an overwrite needs none. -/
def loadFileInfo (s : S3FileSystem) (handle : FileHandle) (answer : HeadAnswer) :
    Option (Dated HTTPMetadataCacheEntry × Bool) :=
  match s.downloads handle.context handle.path with
  | some file => some ({ value := { length := file.value }, asOf := file.asOf }, false)
  | none =>
      let asOf := s.mutations handle.path
      if handle.flags = .write true then some ({ value := {}, asOf }, false)
      else
        match answer with
        | .found length lastModified etag versionId =>
            some ({ value := { length, lastModified, etag, versionId }, asOf }, false)
        | .notFound =>
            match handle.flags with
            | .write _ => some ({ value := {}, asOf }, false)
            | _ => none
        | .rangeRequestNotSupported =>
            match handle.flags with
            | .read _ _ => some ({ value := {}, asOf }, true)
            | _ => none

/-- `FullDownload` attaches to the file that the context has, or asks for it. -/
def startDownload (s : S3FileSystem) (h : Nat) (handle : FileHandle) : S3FileSystem :=
  match s.downloads handle.context handle.path with
  | some _ => s.setHandle h (some { handle with stage := .opened })
  | none =>
      s.setHandle h (some { handle with stage := .downloading (s.mutations handle.path) })

/-- The end of `Initialize` without a download. -/
def finish (s : S3FileSystem) (h : Nat) (handle : FileHandle) (shouldWriteCache : Bool)
    (info : Dated HTTPMetadataCacheEntry) (forceFullDownload : Bool) : Option S3FileSystem :=
  let opened := s.setHandle h (some { handle with stage := .opened })
  match handle.flags with
  | .read _ forceDownloadThreshold =>
      if shouldFullDownload forceFullDownload info.value.length forceDownloadThreshold then none
      else if shouldWriteCache then
        let entry := { info with value := getCacheEntry handle info.value }
        some { opened with cache := insert s.cache handle.path entry }
      else some opened
  | .write _ => some { opened with cache := erase s.cache handle.path }
  | .nullIfNotExists => some opened

def step (s : S3FileSystem) : Label → Option S3FileSystem
  | .openFile h path context flags region =>
      match s.handles h with
      | none => some (s.setHandle h (some { path, context, flags, region }))
      | some _ => none
  | .find h =>
      match s.handles h with
      | some handle => if handle.stage = .finding then find s h handle else none
      | none => none
  | .loadFileInfo h answer =>
      match s.handles h with
      | some handle =>
          match handle.stage, loadFileInfo s handle answer with
          | .loading shouldWriteCache, some (info, forceFullDownload) =>
              some (s.setHandle h (some { handle with
                stage := .loaded shouldWriteCache info forceFullDownload }))
          | _, _ => none
      | none => none
  | .startDownload h =>
      match s.handles h with
      | some handle =>
          match handle.flags, handle.stage with
          | .read forceDownload _, .finding =>
              if forceDownload then some (startDownload s h handle) else none
          | .read _ threshold, .loaded _ info forceFullDownload =>
              if shouldFullDownload forceFullDownload info.value.length threshold then
                some (startDownload s h handle)
              else none
          -- the fallback of `Read`
          | .read _ _, .opened => some (startDownload s h handle)
          | _, _ => none
      | none => none
  | .endDownload h size =>
      match s.handles h with
      | some handle =>
          match handle.stage with
          | .downloading asOf =>
              some { (s.setHandle h (some { handle with stage := .opened })) with
                downloads := Function.update s.downloads handle.context
                  (Function.update (s.downloads handle.context) handle.path
                    (some { value := size, asOf })) }
          | _ => none
      | none => none
  | .finish h =>
      match s.handles h with
      | some handle =>
          match handle.stage with
          | .loaded shouldWriteCache info forceFullDownload =>
              finish s h handle shouldWriteCache info forceFullDownload
          | _ => none
      | none => none
  | .retry h region =>
      match s.handles h with
      | some handle =>
          if handle.stage = .opened then none
          else some (s.setHandle h (some { handle with region, stage := .finding }))
      | none => none
  | .leave h =>
      match s.handles h with
      | some _ => some (s.setHandle h none)
      | none => none
  | .complete h =>
      match s.handles h with
      | some handle =>
          match handle.flags, handle.stage with
          | .write _, .opened | .nullIfNotExists, .opened =>
              some ((s.setHandle h none).mutate handle.path)
          | _, _ => none
      | none => none
  | .removeFiles paths => some (paths.foldl S3FileSystem.mutate s)
  | .eraseEntry path => some { s with cache := erase s.cache path }
  | .queryEnd context =>
      some { s with downloads := Function.update s.downloads context fun _ => none }

/-- No open for reading has been initialised from an entry that was obtained before
the last completed overwrite or delete of its path. -/
def Coherent (s : S3FileSystem) : Prop :=
  ∀ path asOf mutations, (path, asOf, mutations) ∈ s.initialised → asOf = mutations

/-- No entry is older than the last completed overwrite or delete of its path. -/
def CacheFresh (s : S3FileSystem) : Prop :=
  ∀ path entry, s.cache path = some entry → entry.asOf = s.mutations path

/-- Whether the entry that the handle is about to insert is not older than the path. -/
def insertsInTime (s : S3FileSystem) (handle : FileHandle) : Bool :=
  match handle.flags, handle.stage with
  | .read _ _, .loaded true info _ => info.asOf = s.mutations handle.path
  | _, _ => true

/-- An overwrite or a delete is completed only while the cache has no entry for the
path, and an entry is inserted only if none has been completed since its metadata
was obtained. -/
def ErasedInTime (s : S3FileSystem) : Label → Prop
  | .complete h => ∀ handle ∈ s.handles h, s.cache handle.path = none
  | .removeFiles paths => ∀ path ∈ paths, s.cache path = none
  | .finish h => ∀ handle ∈ s.handles h, insertsInTime s handle
  | _ => True

instance (s : S3FileSystem) (l : Label) : Decidable (ErasedInTime s l) :=
  match l with
  | .complete h =>
      inferInstanceAs (Decidable (∀ handle ∈ s.handles h, s.cache handle.path = none))
  | .removeFiles paths => inferInstanceAs (Decidable (∀ path ∈ paths, s.cache path = none))
  | .finish h => inferInstanceAs (Decidable (∀ handle ∈ s.handles h, insertsInTime s handle))
  | .openFile .. | .find _ | .loadFileInfo .. | .startDownload _ | .endDownload .. | .retry ..
  | .leave _ | .eraseEntry _ | .queryEnd _ => isTrue trivial

/-- The steps that leave the cache, the age of the paths and the record alone. -/
def Quiet : Label → Prop
  | .find _ | .finish _ | .complete _ | .removeFiles _ | .eraseEntry _ => False
  | _ => True

structure SameCache (s s' : S3FileSystem) : Prop where
  cache : s'.cache = s.cache
  mutations : s'.mutations = s.mutations
  initialised : s'.initialised = s.initialised

theorem sameCache_setHandle (s : S3FileSystem) (h : Nat) (handle : Option FileHandle) :
    SameCache s (s.setHandle h handle) := ⟨rfl, rfl, rfl⟩

theorem sameCache_startDownload (s : S3FileSystem) (h : Nat) (handle : FileHandle) :
    SameCache s (startDownload s h handle) := by
  unfold startDownload
  split
  · exact sameCache_setHandle ..
  · exact sameCache_setHandle ..

theorem sameCache_of_quiet {s s' : S3FileSystem} {l : Label} (hquiet : Quiet l)
    (hstep : step s l = some s') : SameCache s s' := by
  cases l with
  | openFile h path context flags region =>
      simp only [step] at hstep
      split at hstep
      · cases hstep
        exact sameCache_setHandle ..
      · cases hstep
  | loadFileInfo h answer =>
      simp only [step] at hstep
      split at hstep
      · split at hstep
        · cases hstep
          exact sameCache_setHandle ..
        · cases hstep
      · cases hstep
  | startDownload h =>
      simp only [step] at hstep
      split at hstep
      · split at hstep
        · split at hstep
          · cases hstep
            exact sameCache_startDownload ..
          · cases hstep
        · split at hstep
          · cases hstep
            exact sameCache_startDownload ..
          · cases hstep
        · cases hstep
          exact sameCache_startDownload ..
        · cases hstep
      · cases hstep
  | endDownload h size =>
      simp only [step] at hstep
      split at hstep
      · split at hstep
        · cases hstep
          exact ⟨rfl, rfl, rfl⟩
        · cases hstep
      · cases hstep
  | retry h region =>
      simp only [step] at hstep
      split at hstep
      · split at hstep
        · cases hstep
        cases hstep
        exact sameCache_setHandle ..
      · cases hstep
  | leave h =>
      simp only [step] at hstep
      split at hstep
      · cases hstep
        exact sameCache_setHandle ..
      · cases hstep
  | queryEnd context =>
      cases hstep
      exact ⟨rfl, rfl, rfl⟩
  | find h => exact hquiet.elim
  | finish h => exact hquiet.elim
  | complete h => exact hquiet.elim
  | removeFiles paths => exact hquiet.elim
  | eraseEntry path => exact hquiet.elim

theorem CacheFresh.erase {s s' : S3FileSystem} {path : Bytes} (hfresh : CacheFresh s)
    (hcache : s'.cache = MetadataCache.erase s.cache path)
    (hmutations : s'.mutations = s.mutations) :
    CacheFresh s' := by
  intro path' entry hentry
  rw [hcache] at hentry
  rw [hmutations]
  by_cases hpath : path' = path
  · subst hpath
    simp [MetadataCache.erase] at hentry
  · exact hfresh path' entry (by simpa [MetadataCache.erase, hpath] using hentry)

theorem mutations_mutate (s : S3FileSystem) (path path' : Bytes) :
    (s.mutate path).mutations path' = s.mutations path' + if path' = path then 1 else 0 := by
  unfold S3FileSystem.mutate
  by_cases hpath : path' = path
  · subst hpath
    simp
  · simp [hpath]

theorem foldl_mutate_cache (paths : List Bytes) (s : S3FileSystem) :
    (paths.foldl S3FileSystem.mutate s).cache = s.cache := by
  induction paths generalizing s with
  | nil => rfl
  | cons path paths ih => exact ih (s.mutate path)

theorem foldl_mutate_mutations (paths : List Bytes) (s : S3FileSystem) (path : Bytes) :
    (paths.foldl S3FileSystem.mutate s).mutations path = s.mutations path + paths.count path := by
  induction paths generalizing s with
  | nil => rfl
  | cons first paths ih =>
      rw [List.foldl_cons, ih, mutations_mutate, List.count_cons]
      by_cases hpath : path = first
      · subst hpath
        simp
        omega
      · simp [hpath, Ne.symm hpath]

theorem foldl_mutate_initialised (paths : List Bytes) (s : S3FileSystem) :
    (paths.foldl S3FileSystem.mutate s).initialised = s.initialised := by
  induction paths generalizing s with
  | nil => rfl
  | cons path paths ih => exact ih (s.mutate path)

theorem cacheFresh_foldl_mutate {s : S3FileSystem} (hfresh : CacheFresh s) (paths : List Bytes) :
    CacheFresh (paths.foldl S3FileSystem.mutate s) ↔ ∀ path ∈ paths, s.cache path = none := by
  constructor
  · intro hfresh' path hpath
    by_contra hsome
    obtain ⟨entry, hentry⟩ := Option.ne_none_iff_exists'.mp hsome
    have hbefore := hfresh path entry hentry
    have hafter := hfresh' path entry (by rw [foldl_mutate_cache]; exact hentry)
    rw [foldl_mutate_mutations] at hafter
    have hcount := List.count_pos_iff.mpr hpath
    omega
  · intro hnone path entry hentry
    rw [foldl_mutate_cache] at hentry
    rw [foldl_mutate_mutations, List.count_eq_zero.mpr, Nat.add_zero]
    · exact hfresh path entry hentry
    · intro hpath
      rw [hnone path hpath] at hentry
      cases hentry

theorem cacheFresh_of_same {s s' : S3FileSystem} (hfresh : CacheFresh s)
    (hcache : s'.cache = s.cache) (hmutations : s'.mutations = s.mutations) : CacheFresh s' := by
  unfold CacheFresh
  rw [hcache, hmutations]
  exact hfresh

theorem cacheFresh_insert {s s' : S3FileSystem} {path : Bytes}
    (entry : Dated HTTPMetadataCacheEntry) (hfresh : CacheFresh s)
    (hcache : s'.cache = insert s.cache path entry) (hmutations : s'.mutations = s.mutations) :
    CacheFresh s' ↔ entry.asOf = s.mutations path := by
  constructor
  · intro hfresh'
    rw [← hmutations]
    exact hfresh' path entry (by rw [hcache]; exact Function.update_self ..)
  · intro hentry path' entry' hentry'
    rw [hcache] at hentry'
    rw [hmutations]
    by_cases hpath : path' = path
    · subst hpath
      rw [insert, Function.update_self, Option.some.injEq] at hentry'
      subst hentry'
      exact hentry
    · exact hfresh path' entry' (by simpa [insert, hpath] using hentry')

theorem cacheFresh_finish {s s' : S3FileSystem} {h : Nat} {handle : FileHandle}
    {shouldWriteCache forceFullDownload : Bool} {info : Dated HTTPMetadataCacheEntry}
    (hfresh : CacheFresh s)
    (hstage : handle.stage = .loaded shouldWriteCache info forceFullDownload)
    (hfinish : finish s h handle shouldWriteCache info forceFullDownload = some s') :
    CacheFresh s' ↔ insertsInTime s handle := by
  unfold insertsInTime
  rw [hstage]
  cases hflags : handle.flags with
  | read forceDownload threshold =>
      simp only [finish, hflags] at hfinish
      split at hfinish
      · cases hfinish
      · cases shouldWriteCache with
        | true =>
            cases hfinish
            refine Iff.trans ?_ decide_eq_true_iff.symm
            exact cacheFresh_insert { info with value := getCacheEntry handle info.value } hfresh
              rfl rfl
        | false =>
            cases hfinish
            exact ⟨fun _ => rfl, fun _ => cacheFresh_of_same hfresh rfl rfl⟩
  | write writeOverwriteMode =>
      simp only [finish, hflags] at hfinish
      cases hfinish
      exact ⟨fun _ => rfl, fun _ => CacheFresh.erase hfresh rfl rfl⟩
  | nullIfNotExists =>
      simp only [finish, hflags] at hfinish
      cases hfinish
      exact ⟨fun _ => rfl, fun _ => cacheFresh_of_same hfresh rfl rfl⟩

theorem find_same {s s' : S3FileSystem} {h : Nat} {handle : FileHandle}
    (hfind : find s h handle = some s') :
    s'.cache = s.cache ∧ s'.mutations = s.mutations ∧
      (s'.initialised = s.initialised ∨ ∃ entry, s.cache handle.path = some entry ∧
        s'.initialised = s.initialised ++
          [(handle.path, entry.asOf, s.mutations handle.path)]) := by
  unfold find at hfind
  split at hfind
  · split at hfind
    · cases hfind
    · split at hfind
      · rename_i entry hentry
        cases hfind
        exact ⟨rfl, rfl, .inr ⟨entry, hentry, rfl⟩⟩
      · cases hfind
        exact ⟨rfl, rfl, .inl rfl⟩
  · cases hfind
    exact ⟨rfl, rfl, .inl rfl⟩
  · cases hfind
    exact ⟨rfl, rfl, .inl rfl⟩

/-- From a cache without stale entries, a step leads to one with a stale entry
exactly if it is not in time. -/
theorem cacheFresh_step {s s' : S3FileSystem} {l : Label} (hfresh : CacheFresh s)
    (hstep : step s l = some s') : CacheFresh s' ↔ ErasedInTime s l := by
  by_cases hquiet : Quiet l
  · have hsame := sameCache_of_quiet hquiet hstep
    refine ⟨fun _ => ?_, fun _ => cacheFresh_of_same hfresh hsame.cache hsame.mutations⟩
    cases l with
    | _ => first | exact trivial | exact hquiet.elim
  · cases l with
    | find h =>
        simp only [step] at hstep
        split at hstep
        · split at hstep
          · obtain ⟨hcache, hmutations, -⟩ := find_same hstep
            exact ⟨fun _ => trivial, fun _ => cacheFresh_of_same hfresh hcache hmutations⟩
          · cases hstep
        · cases hstep
    | finish h =>
        simp only [step] at hstep
        split at hstep
        · rename_i handle hhandle
          split at hstep
          · rename_i hstage
            rw [cacheFresh_finish hfresh hstage hstep]
            simp only [ErasedInTime, hhandle, Option.mem_def, Option.some.injEq, forall_eq']
          · cases hstep
        · cases hstep
    | complete h =>
        simp only [step] at hstep
        split at hstep
        · rename_i handle hhandle
          have hdeleted : s' = [handle.path].foldl S3FileSystem.mutate (s.setHandle h none) := by
            split at hstep
            · cases hstep
              rfl
            · cases hstep
              rfl
            · cases hstep
          have hclosed : CacheFresh (s.setHandle h none) := hfresh
          rw [hdeleted, cacheFresh_foldl_mutate hclosed]
          simp only [ErasedInTime, hhandle, Option.mem_def, Option.some.injEq, forall_eq',
            List.mem_singleton, forall_eq]
          exact Iff.rfl
        · cases hstep
    | removeFiles paths =>
        cases hstep
        exact cacheFresh_foldl_mutate hfresh paths
    | eraseEntry path =>
        cases hstep
        exact ⟨fun _ => trivial, fun _ => CacheFresh.erase hfresh rfl rfl⟩
    | openFile h path context flags region => exact absurd trivial hquiet
    | loadFileInfo h answer => exact absurd trivial hquiet
    | startDownload h => exact absurd trivial hquiet
    | endDownload h size => exact absurd trivial hquiet
    | retry h region => exact absurd trivial hquiet
    | leave h => exact absurd trivial hquiet
    | queryEnd context => exact absurd trivial hquiet

theorem initialised_step {s s' : S3FileSystem} {l : Label} (hstep : step s l = some s') :
    s'.initialised = s.initialised ∨ ∃ path entry, s.cache path = some entry ∧
      s'.initialised = s.initialised ++ [(path, entry.asOf, s.mutations path)] := by
  by_cases hquiet : Quiet l
  · exact .inl (sameCache_of_quiet hquiet hstep).initialised
  · cases l with
    | find h =>
        simp only [step] at hstep
        split at hstep
        · split at hstep
          · obtain ⟨-, -, hrecord⟩ := find_same hstep
            exact hrecord.imp_right fun ⟨entry, hentry, happend⟩ => ⟨_, entry, hentry, happend⟩
          · cases hstep
        · cases hstep
    | finish h =>
        simp only [step] at hstep
        split at hstep
        · split at hstep
          · unfold finish at hstep
            repeat' split at hstep
            all_goals cases hstep
            all_goals exact .inl rfl
          · cases hstep
        · cases hstep
    | complete h =>
        simp only [step] at hstep
        split at hstep
        · split at hstep
          · cases hstep
            exact .inl rfl
          · cases hstep
            exact .inl rfl
          · cases hstep
        · cases hstep
    | removeFiles paths =>
        cases hstep
        exact .inl (foldl_mutate_initialised paths s)
    | eraseEntry path =>
        cases hstep
        exact .inl rfl
    | openFile h path context flags region => exact absurd trivial hquiet
    | loadFileInfo h answer => exact absurd trivial hquiet
    | startDownload h => exact absurd trivial hquiet
    | endDownload h size => exact absurd trivial hquiet
    | retry h region => exact absurd trivial hquiet
    | leave h => exact absurd trivial hquiet
    | queryEnd context => exact absurd trivial hquiet

def start : S3FileSystem := {}

theorem cacheFresh_start : CacheFresh start := nofun

/-- As long as overwrites and deletes are completed, and entries inserted, in time, no
open for reading starts from metadata that is older than they are. -/
theorem coherent_of_erasedInTime {s : S3FileSystem} {labels : List Label}
    (hrun : Run step ErasedInTime start labels s) : Coherent s := by
  have hinvariant : CacheFresh s ∧ Coherent s := by
    apply hrun.invariant (fun s => CacheFresh s ∧ Coherent s) _ ⟨cacheFresh_start, nofun⟩
    rintro s l s' ⟨hfresh, hcoherent⟩ hok hstep
    refine ⟨(cacheFresh_step hfresh hstep).mpr hok, ?_⟩
    intro path asOf mutations hmem
    rcases initialised_step hstep with hsame | ⟨path', entry, hentry, happend⟩
    · rw [hsame] at hmem
      exact hcoherent path asOf mutations hmem
    · rw [happend, List.mem_append, List.mem_singleton] at hmem
      rcases hmem with hmem | hnew
      · exact hcoherent path asOf mutations hmem
      · cases hnew
        exact hfresh path entry hentry
  exact hinvariant.2

def readFlags : OpenFlags := .read false 0

/-- A reader leaves an entry, an overwrite erases it when it opens, and the entry of a
reader after the upload is found by the next one. -/
theorem coherent_of_erasedInTime_overwrite :
    ∃ labels s, Run step ErasedInTime start labels s ∧ s.initialised = [([0], 1, 1)] ∧
      Coherent s := by
  have hexec : (exec (guarded step ErasedInTime) start
      [.openFile 0 [0] 0 readFlags [], .find 0, .loadFileInfo 0 (.found 8 1 [] []), .finish 0,
        .openFile 1 [0] 0 (.write true) [], .find 1, .loadFileInfo 1 .notFound, .finish 1,
        .complete 1, .openFile 2 [0] 0 readFlags [], .find 2,
        .loadFileInfo 2 (.found 9 2 [] []), .finish 2, .openFile 3 [0] 0 readFlags [],
        .find 3]).map (fun s => s.initialised) = some [([0], 1, 1)] := by decide
  obtain ⟨s, hs, hinitialised⟩ := Option.map_eq_some_iff.mp hexec
  have hrun := run_of_exec_guarded hs
  exact ⟨_, s, hrun, hinitialised, coherent_of_erasedInTime hrun⟩

/-- `RemoveFile` leaves the entry of the file that it deletes; and an entry that is
inserted while a handle writes outlives the upload. -/
theorem stale_entry_found :
    ∃ labels s, Run step Unrestricted start labels s ∧
      s.initialised = [([0], 0, 1), ([1], 0, 1)] ∧ ¬ Coherent s := by
  have hexec : (exec step start
      [.openFile 0 [0] 0 readFlags [], .find 0, .loadFileInfo 0 (.found 8 1 [] []), .finish 0,
        .openFile 1 [0] 0 .nullIfNotExists [], .find 1, .loadFileInfo 1 (.found 8 1 [] []),
        .finish 1, .complete 1, .openFile 2 [0] 0 readFlags [], .find 2,
        .openFile 3 [1] 0 (.write true) [], .find 3, .loadFileInfo 3 .notFound, .finish 3,
        .openFile 4 [1] 0 readFlags [], .find 4, .loadFileInfo 4 (.found 8 1 [] []), .finish 4,
        .complete 3, .openFile 5 [1] 0 readFlags [], .find 5]).map (fun s => s.initialised) =
      some [([0], 0, 1), ([1], 0, 1)] := by decide
  obtain ⟨s, hs, hinitialised⟩ := Option.map_eq_some_iff.mp hexec
  refine ⟨_, s, run_of_exec hs, hinitialised, ?_⟩
  intro hcoherent
  have hstale := hcoherent [0] 0 1 (by simp [hinitialised])
  cases hstale

end HaybarnHttpfs.MetadataCache
