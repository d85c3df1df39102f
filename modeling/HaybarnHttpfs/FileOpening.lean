import HaybarnHttpfs.FileInfo
import HaybarnHttpfs.FullDownload
import HaybarnHttpfs.ReadCursor
import HaybarnHttpfs.SequentialRead

/-!
`OpenFileExtended` and `HTTPFileHandle::Initialize` of any number of handles over files that
do not change. What is known of a file comes from the one who opens it, from a metadata cache,
from a download that other handles share, or from the server.
-/

namespace HaybarnHttpfs.FileOpening

open HaybarnHttpfs.Foundation.ByteStrings HaybarnHttpfs.Foundation.Memory
open HaybarnHttpfs.Foundation.Refinement HaybarnHttpfs.Foundation.TransitionRuns
open HaybarnHttpfs.HttpState HaybarnHttpfs.FileInfo HaybarnHttpfs.ReadCursor
open HaybarnHttpfs.HTTPExchange (ErrorData HTTPResponse)
open HaybarnHttpfs.MetadataCache (HTTPMetadataCacheEntry shouldFullDownload)

universe u

variable {α : Type u}

/-- Without an opener there is neither a database nor a client context. -/
structure FileOpener where
  database : Bool := true
  clientContext : Option Nat := none
  enableHttpMetadataCache : Bool := false
  deriving DecidableEq, Repr

/-- The cache of the file system, or the `http_cache` of a client context. -/
inductive CacheKind where
  | shared
  | ofContext (context : Nat)
  deriving DecidableEq, Repr

/-- The `http_state` of a client context, or the one that a handle makes for itself. -/
inductive StateKind where
  | ofContext (context : Nat)
  | ofHandle (h : Nat)
  deriving DecidableEq, Repr

def tryGetMetadataCache (opener : FileOpener) : Option CacheKind :=
  if !opener.database then none
  else if opener.enableHttpMetadataCache then some .shared
  else opener.clientContext.map .ofContext

def tryGetState (opener : FileOpener) (h : Nat) : StateKind :=
  match opener.clientContext with
  | some context => .ofContext context
  | none => .ofHandle h

/-- The entries of the `extended_info` that the constructor of a handle looks for. -/
structure ExtendedOpenFileInfo where
  lastModified : Option Nat := none
  etag : Option Bytes := none
  fileSize : Option Nat := none
  forceFullDownload : Option Bool := none
  deriving DecidableEq, Repr

structure OpenFileInfo where
  path : Bytes
  extendedInfo : Option ExtendedOpenFileInfo := none
  deriving DecidableEq, Repr

/-- An `OpenFileExtended`; `flags` are those that `LoadFileInfo` looks at. -/
structure OpenFile where
  file : OpenFileInfo
  flags : FileOpenFlags := {}
  openForAppending : Bool := false
  returnNullIfNotExists : Bool := false
  directIo : Bool := false
  requireParallelAccess : Bool := false
  forceDownload : Bool := false
  httpParams : LoadParams := {}
  opener : FileOpener := {}
  deriving DecidableEq, Repr

/-- The constructor of `HTTPFileHandle`. -/
def newHandle (opening : OpenFile) : HTTPFileHandle :=
  let handle : HTTPFileHandle :=
    { path := opening.file.path, flags := opening.flags, httpParams := opening.httpParams }
  match opening.file.extendedInfo with
  | none => handle
  | some info =>
      { handle with
        lastModified := info.lastModified.getD 0
        etag := info.etag.getD []
        length := info.fileSize.getD 0
        forceFullDownload := info.forceFullDownload.getD false
        initialized := info.lastModified.isSome && info.etag.isSome && info.fileSize.isSome }

/-- An open that may fail for a missing file does not set the mode. -/
def openFileExtended (opening : OpenFile) : HTTPFileHandle :=
  { newHandle opening with
    writeOverwriteMode := !opening.returnNullIfNotExists && opening.flags.openForWriting &&
      !opening.openForAppending && !opening.flags.openForReading }

/-- How far `Initialize` has come; `shouldWriteCache` is its local variable. A download is
`last` if nothing comes after it, in an open that forces it and in a read that falls back. -/
inductive Stage where
  | created
  /-- A cache entry was found. -/
  | found
  /-- At the beginning of `LoadFileInfo`. -/
  | peeking (shouldWriteCache : Bool)
  /-- At the `HEAD` request. -/
  | asking (shouldWriteCache : Bool)
  | loaded (shouldWriteCache : Bool)
  | downloading (last : Bool)
  | downloaded
  | opened
  /-- A download has failed. -/
  | failed
  deriving DecidableEq, Repr

structure FileHandle where
  opening : OpenFile
  info : HTTPFileHandle
  stage : Stage := .created
  deriving DecidableEq, Repr

/-- A file in the HTTP state of a client context or of a handle. -/
abbrev Place := StateKind × Bytes

/-- `downloads` are the cached files of the HTTP states, with their locks. -/
structure HTTPFileSystem (α : Type u) where
  caches : CacheKind × Bytes → Option HTTPMetadataCacheEntry := fun _ => none
  downloads : Place → FullDownload.HTTPState α := fun _ => {}
  handles : Nat → Option FileHandle := fun _ => none

inductive Label (α : Type u) where
  | openFile (h : Nat) (opening : OpenFile)
  /-- `Initialize` up to the lookup in the metadata cache. -/
  | enter (h : Nat)
  /-- `GetCachedFile` and `GetHandle`, to see whether the file is downloaded. -/
  | attach (h : Nat)
  | loadFileInfo (h : Nat) (head : Except ErrorData HTTPResponse) (transfers : List ProbeTransfer)
  | startDownload (h : Nat)
  | attempt (h : Nat) (a : FullDownload.Attempt α)
  | failDownload (h : Nat)
  /-- The end of `Initialize`. -/
  | finish (h : Nat)
  /-- A failed open, or the destructor. -/
  | leave (h : Nat)
  /-- A response has shown that the file changed. -/
  | eraseEntry (path : Bytes)
  /-- `EraseCachedFile`. -/
  | eraseCachedFile (place : Place)
  | queryEnd (context : Nat)

def FileHandle.place (handle : FileHandle) (h : Nat) : Place :=
  (tryGetState handle.opening.opener h, handle.opening.file.path)

def FileHandle.reading (handle : FileHandle) : Bool := handle.opening.flags.openForReading

def FileHandle.shouldDownload (handle : FileHandle) : Bool :=
  shouldFullDownload handle.info.forceFullDownload handle.info.length
    handle.opening.httpParams.forceDownloadThreshold

variable (s : HTTPFileSystem α) (h : Nat) (handle : FileHandle)

def HTTPFileSystem.setHandle (handle : Option FileHandle) : HTTPFileSystem α :=
  { s with handles := Function.update s.handles h handle }

def HTTPFileSystem.setDownload (place : Place) (state : FullDownload.HTTPState α) :
    HTTPFileSystem α :=
  { s with downloads := Function.update s.downloads place state }

def HTTPFileSystem.setCache (cache : CacheKind × Bytes) (entry : Option HTTPMetadataCacheEntry) :
    HTTPFileSystem α :=
  { s with caches := Function.update s.caches cache entry }

/-- The handle in the HTTP state, with what its `cached_file_handle` refers to. -/
def HTTPFileSystem.download : FullDownload.Handle :=
  (s.downloads (handle.place h)).handles h

def initializeFromCacheEntry (info : HTTPFileHandle) (entry : HTTPMetadataCacheEntry) :
    HTTPFileHandle :=
  { info with
    lastModified := entry.lastModified
    length := entry.length
    etag := entry.etag
    versionId := entry.versionId }

def getCacheEntry (info : HTTPFileHandle) : HTTPMetadataCacheEntry where
  length := info.length
  lastModified := info.lastModified
  etag := info.etag
  versionId := info.versionId

def enter : Option (HTTPFileSystem α) :=
  if handle.reading && handle.opening.forceDownload then none
  else if handle.reading then
    match tryGetMetadataCache handle.opening.opener with
    | none => some (s.setHandle h (some { handle with stage := .peeking false }))
    | some cache =>
        match s.caches (cache, handle.opening.file.path) with
        | some entry =>
            some (s.setHandle h (some { handle with
              info := initializeFromCacheEntry handle.info entry
              stage := .found }))
        | none => some (s.setHandle h (some { handle with stage := .peeking true }))
  else some (s.setHandle h (some { handle with stage := .peeking false }))

/-- `GetHandle` waits for the lock of a file that is not initialized. -/
def attach : Option (HTTPFileSystem α) :=
  let place := handle.place h
  let state := s.downloads place
  let file := state.files (FullDownload.getCachedFile state)
  if file.initialized then
    (FullDownload.step state (.start h handle.info.length)).bind fun state =>
      match handle.stage with
      | .found =>
          some ((s.setDownload place state).setHandle h (some { handle with stage := .opened }))
      | .peeking shouldWriteCache =>
          some ((s.setDownload place state).setHandle h (some { handle with
            info := { handle.info with length := file.size, initialized := true }
            stage := .loaded shouldWriteCache }))
      | _ => none
  else if state.locks (FullDownload.getCachedFile state) = none then
    let s := s.setDownload place (FullDownload.registerFile state)
    match handle.stage with
    | .found => some (s.setHandle h (some { handle with stage := .opened }))
    | .peeking shouldWriteCache =>
        some (s.setHandle h (some { handle with stage := .asking shouldWriteCache }))
    | _ => none
  else none

/-- The file that a handle is attached to gives way to the one that is found now. -/
def giveUp (state : FullDownload.HTTPState α) (h : Nat) : FullDownload.HTTPState α :=
  match (state.handles h).phase with
  | .attached _ => state.setHandle h { (state.handles h) with phase := .idle }
  | _ => state

/-- The handle counts what it receives in its length. -/
def receive (last : Bool) (state : FullDownload.HTTPState α) : HTTPFileSystem α :=
  let info := { handle.info with length := (state.handles h).length }
  let stage :=
    match (state.handles h).phase with
    | .attached _ => if last then Stage.opened else .downloaded
    | _ => .downloading last
  (s.setDownload (handle.place h) state).setHandle h (some { handle with info, stage })

/-- The beginning of `FullDownload`. -/
def beginDownload (last : Bool) : Option (HTTPFileSystem α) :=
  (FullDownload.step (giveUp (s.downloads (handle.place h)) h)
    (.start h handle.info.length)).map (receive s h handle last)

def finish (shouldWriteCache : Bool) : HTTPFileSystem α :=
  let opened := s.setHandle h (some { handle with stage := .opened })
  match tryGetMetadataCache handle.opening.opener with
  | none => opened
  | some cache =>
      let key := (cache, handle.opening.file.path)
      let inserted :=
        if shouldWriteCache then opened.setCache key (some (getCacheEntry handle.info))
        else opened
      if handle.opening.flags.openForWriting then inserted.setCache key none else inserted

def forget (state : FullDownload.HTTPState α) : FullDownload.HTTPState α :=
  { state with cachedFile := none }

/-- The destructor lets go of the cached file and of the lock that it may have on it. -/
def leave : HTTPFileSystem α :=
  let state := s.downloads (handle.place h)
  (s.setDownload (handle.place h)
    ((FullDownload.step state (.drop h)).getD state)).setHandle h none

def openStep : Option (HTTPFileSystem α) :=
  match handle.stage with
  | .created =>
      if handle.reading && handle.opening.forceDownload then
        beginDownload s h handle true
      else none
  | .loaded _ =>
      if handle.reading && handle.shouldDownload then beginDownload s h handle false else none
  -- the fallback of `Read`
  | .opened =>
      if handle.reading && (s.download h handle).phase = .idle then beginDownload s h handle true
      else none
  | _ => none

def finishStep : Option (HTTPFileSystem α) :=
  match handle.stage with
  | .loaded shouldWriteCache =>
      if handle.reading && handle.shouldDownload then none
      else some (finish s h handle (handle.reading && shouldWriteCache))
  | .downloaded => some (finish s h handle false)
  | _ => none

def step (context : FileInfoContext) (s : HTTPFileSystem α) : Label α → Option (HTTPFileSystem α)
  | .openFile h opening =>
      match s.handles h with
      | none => some (s.setHandle h (some { opening, info := openFileExtended opening }))
      | some _ => none
  | .enter h =>
      (s.handles h).bind fun handle => if handle.stage = .created then enter s h handle else none
  | .attach h => (s.handles h).bind (attach s h)
  | .loadFileInfo h head transfers =>
      (s.handles h).bind fun handle =>
        match handle.stage, loadFileInfo context handle.info none head transfers with
        | .asking shouldWriteCache, .ok info =>
            some (s.setHandle h (some { handle with info, stage := .loaded shouldWriteCache }))
        | _, _ => none
  | .startDownload h => (s.handles h).bind (openStep s h)
  | .attempt h a =>
      (s.handles h).bind fun handle =>
        match handle.stage with
        | .downloading last =>
            (FullDownload.step (s.downloads (handle.place h)) (.attempt h a)).map
              (receive s h handle last)
        | _ => none
  | .failDownload h =>
      (s.handles h).bind fun handle =>
        match handle.stage with
        | .downloading _ =>
            (FullDownload.step (s.downloads (handle.place h)) (.fail h)).map fun state =>
              (s.setDownload (handle.place h) state).setHandle h
                (some { handle with stage := .failed })
        | _ => none
  | .finish h => (s.handles h).bind (finishStep s h)
  | .leave h => (s.handles h).map (leave s h)
  | .eraseEntry path => some (s.setCache (.shared, path) none)
  | .eraseCachedFile place => some (s.setDownload place (forget (s.downloads place)))
  | .queryEnd context =>
      some { s with
        caches := fun cache => if cache.1 = .ofContext context then none else s.caches cache
        downloads := fun place =>
          if place.1 = .ofContext context then forget (s.downloads place) else s.downloads place }

/-- The handle as it goes on to read; without a download it has a read buffer, unless it skips
it. -/
def reader : BufferedRead.HTTPFileHandle α where
  directIo := handle.opening.directIo
  requireParallelAccess := handle.opening.requireParallelAccess
  autoFallbackToFullDownload := handle.opening.httpParams.autoFallbackToFullDownload
  length := handle.info.length
  readBuffer := BufferedRead.allocate
    (if handle.opening.directIo || handle.opening.requireParallelAccess then 0
    else BufferedRead.initialReadBufferLen)
  cachedFileHandle :=
    match (s.download h handle).phase with
    | .attached file => some ((s.downloads (handle.place h)).files file)
    | _ => none

/-- A file size in the extended info is that of the file. -/
def Truthful (size : Nat) (file : OpenFileInfo) : Prop :=
  ∀ info ∈ file.extendedInfo, ∀ fileSize ∈ info.fileSize, fileSize = size

/-- The server answers for objects that do not change, its answers can be read, and a download
that completes has started with nothing in the file. -/
def Admitted (objects : Bytes → List α) (s : HTTPFileSystem α) : Label α → Prop
  | .openFile _ opening => Truthful (objects opening.file.path).length opening.file
  | .loadFileInfo h head transfers => ∀ handle ∈ s.handles h,
      let size := (objects handle.opening.file.path).length
      (∀ response, head = .ok response → HeadConforms size response) ∧
        (∀ transfer ∈ transfers, ∀ response, transfer.head = some response →
          ProbeConforms size response) ∧
        ∀ probe, Delivered handle.info transfers probe → ¬ Misread size probe
  | .attempt h a => ∀ handle ∈ s.handles h,
      (a.finishes = true → a.body = objects handle.opening.file.path) ∧
        FullDownload.CompletesFromStart (s.downloads (handle.place h)) (.attempt h a)
  | _ => True

/-- Every initialized file is the object, and nobody is attached to any other file. -/
structure Copies (object : List α) (state : FullDownload.HTTPState α) : Prop where
  exact : FullDownload.DownloadsExact state
  bodies : ∀ file, (state.files file).initialized = true → state.bodies file = object
  attached : ∀ h file, (state.handles h).phase = .attached file →
    (state.files file).initialized = true

/-- A handle without a download in progress. -/
def Rests (phase : FullDownload.Phase) : Prop := phase = .idle ∨ ∃ file, phase = .attached file

variable {object : List α} {state state' : FullDownload.HTTPState α} {file : Nat}

theorem Copies.copy (hcopies : Copies object state)
    (hinitialized : (state.files file).initialized = true) :
    (state.files file).size = object.length ∧ Holds (state.files file).data object := by
  have hexact := hcopies.exact.exact file hinitialized
  rwa [hcopies.bodies file hinitialized] at hexact

theorem copies_init (object : List α) : Copies object {} where
  exact := FullDownload.downloadsExact_init
  bodies _ hinitialized := by cases hinitialized
  attached _ _ hphase := by cases hphase

theorem Copies.of_same (hcopies : Copies object state)
    (hlocked : FullDownload.Locked state') (hfiles : state'.files = state.files)
    (hbodies : state'.bodies = state.bodies)
    (hattached : ∀ h file, (state'.handles h).phase = .attached file →
      (state.handles h).phase = .attached file ∨ (state.files file).initialized = true) :
    Copies object state' := by
  refine ⟨⟨hcopies.exact.exact.of_same hfiles hbodies, hlocked⟩, ?_, ?_⟩
  · rw [hfiles, hbodies]
    exact hcopies.bodies
  · intro h file hphase
    rw [hfiles]
    obtain hbefore | hinitialized := hattached h file hphase
    · exact hcopies.attached h file hbefore
    · exact hinitialized

theorem Copies.registerFile (hcopies : Copies object state) :
    Copies object (FullDownload.registerFile state) := by
  refine hcopies.of_same ?_ (FullDownload.registerFile_files state)
    (FullDownload.registerFile_bodies state) fun h file hphase => .inl ?_
  · have hlocked := hcopies.exact.locked
    simpa [FullDownload.Locked, FullDownload.HoldsLock] using hlocked
  · rwa [FullDownload.registerFile_handles] at hphase

theorem Copies.forget (hcopies : Copies object state) : Copies object (forget state) :=
  hcopies.of_same hcopies.exact.locked rfl rfl fun _ _ hphase => .inl hphase

theorem giveUp_others (state : FullDownload.HTTPState α) {h h' : Nat} (hne : h' ≠ h) :
    (giveUp state h).handles h' = state.handles h' := by
  unfold giveUp
  split
  · simp [FullDownload.HTTPState.setHandle, hne]
  · rfl

theorem Copies.giveUp (hcopies : Copies object state) (h : Nat) :
    Copies object (giveUp state h) := by
  unfold FileOpening.giveUp
  split
  · refine hcopies.of_same (hcopies.exact.locked.detach _ fun file => ?_) rfl rfl ?_
    · exact ⟨by simp, by simp⟩
    · intro h' file hphase
      by_cases hh : h' = h
      · subst hh
        simp [FullDownload.HTTPState.setHandle] at hphase
      · exact .inl (by simpa [FullDownload.HTTPState.setHandle, hh] using hphase)
  · exact hcopies

/-- Frame rule: the other handles refer to the files that they did. -/
theorem others_step {l : FullDownload.Label α} {h : Nat} (hactor : FullDownload.actor l = some h)
    (hstep : FullDownload.step state l = some state') :
    ∀ h' ≠ h, (state'.handles h').phase = (state.handles h').phase := by
  intro h' hne
  have hother : FullDownload.actor l ≠ some h' := by
    rw [hactor]
    exact fun heq => hne (Option.some.inj heq).symm
  rw [FullDownload.handles_step hother hstep]

/-- What `start` leaves behind: the handle is attached to a file, or downloads one. -/
theorem start_cases {h length : Nat}
    (hstep : FullDownload.step state (.start h length) = some state') :
    (∃ file, (state.files file).initialized = true ∧
      state' = (FullDownload.registerFile state).setHandle h
        { length := (state.files file).size, phase := .attached file }) ∨
    ∃ file, (state'.handles h).phase = .downloading file := by
  simp only [FullDownload.step] at hstep
  split at hstep
  · cases hstep
  · split at hstep
    · rename_i hinitialized
      cases hstep
      rw [FullDownload.registerFile_files] at hinitialized ⊢
      exact .inl ⟨_, hinitialized, rfl⟩
    · split at hstep
      · cases hstep
        exact .inr ⟨FullDownload.getCachedFile state, by simp [FullDownload.HTTPState.setHandle]⟩
      · cases hstep

/-- The file that `GetCachedFile` finds is downloaded. -/
def Present (state : FullDownload.HTTPState α) : Prop :=
  (state.files (FullDownload.getCachedFile state)).initialized = true

theorem start_present {h length : Nat} (hpresent : Present state)
    (hstep : FullDownload.step state (.start h length) = some state') :
    (state'.handles h).phase = .attached (FullDownload.getCachedFile state) := by
  have hinitialized : (state.files (FullDownload.getCachedFile state)).initialized = true :=
    hpresent
  simp only [FullDownload.step, FullDownload.registerFile_files, if_pos hinitialized] at hstep
  split at hstep
  · cases hstep
  cases hstep
  simp [FullDownload.HTTPState.setHandle]

theorem attached_start {h h' length : Nat}
    (hstep : FullDownload.step state (.start h length) = some state')
    (hphase : (state'.handles h').phase = .attached file) :
    (state.handles h').phase = .attached file ∨ (state.files file).initialized = true := by
  by_cases hh : h' = h
  · subst hh
    obtain ⟨found, hinitialized, rfl⟩ | ⟨other, hother⟩ := start_cases hstep
    · obtain rfl : found = file := by simpa [FullDownload.HTTPState.setHandle] using hphase
      exact .inr hinitialized
    · rw [hother] at hphase
      cases hphase
  · rw [others_step rfl hstep h' hh] at hphase
    exact .inl hphase

theorem Copies.start {h length : Nat} (hcopies : Copies object state)
    (hstep : FullDownload.step state (.start h length) = some state') : Copies object state' := by
  obtain ⟨_, _, _, hlabel, -⟩ | ⟨hfiles, hbodies⟩ := FullDownload.step_files hstep
  · cases hlabel
  · exact hcopies.of_same (hcopies.exact.locked.step hstep) hfiles hbodies fun h' file hphase =>
      attached_start hstep hphase

theorem Copies.release {l : FullDownload.Label α} {h : Nat} (hcopies : Copies object state)
    (hl : l = .drop h ∨ l = .fail h) (hstep : FullDownload.step state l = some state') :
    Copies object state' := by
  have hactor : FullDownload.actor l = some h := by
    rcases hl with rfl | rfl
    · rfl
    · rfl
  obtain ⟨_, _, _, rfl, -⟩ | ⟨hfiles, hbodies⟩ := FullDownload.step_files hstep
  · rcases hl with hl | hl
    · cases hl
    · cases hl
  · refine hcopies.of_same (hcopies.exact.locked.step hstep) hfiles hbodies
      fun h' file hphase => ?_
    by_cases hh : h' = h
    · subst hh
      exfalso
      rcases hl with rfl | rfl
      · simp only [FullDownload.step] at hstep
        split at hstep
        · cases hstep
        · cases hstep
          simp [FullDownload.HTTPState.setHandle] at hphase
        · cases hstep
          simp [FullDownload.HTTPState.setHandle] at hphase
        · cases hstep
          simp [FullDownload.HTTPState.setHandle] at hphase
      · simp only [FullDownload.step] at hstep
        split at hstep
        · cases hstep
          simp [FullDownload.HTTPState.setHandle] at hphase
        · cases hstep
    · rw [others_step hactor hstep h' hh] at hphase
      exact .inl hphase

section

variable (state) (h target : Nat) (a : FullDownload.Attempt α)

theorem receiveAttempt_others {other : Nat} (hother : other ≠ target) :
    (FullDownload.receiveAttempt state h target a).files other = state.files other ∧
      (FullDownload.receiveAttempt state h target a).bodies other = state.bodies other := by
  unfold FullDownload.receiveAttempt
  simp only
  split
  · simp [FullDownload.HTTPState.setHandle, FullDownload.HTTPState.setLock,
      FullDownload.HTTPState.setBody, FullDownload.HTTPState.setFile, hother]
  · simp [FullDownload.HTTPState.setHandle, FullDownload.HTTPState.setFile, hother]

theorem receiveAttempt_finished {a : FullDownload.Attempt α} (hfinishes : a.finishes = true) :
    let received := FullDownload.receiveAttempt state h target a
    received.bodies target = a.body ∧ (received.files target).initialized = true ∧
      received.handles h =
        { length := (received.files target).size, phase := .attached target } := by
  simp [FullDownload.receiveAttempt, hfinishes, FullDownload.HTTPState.setHandle,
    FullDownload.HTTPState.setLock, FullDownload.HTTPState.setBody,
    FullDownload.HTTPState.setFile, setInitialized]

theorem receiveAttempt_unfinished {a : FullDownload.Attempt α} (hfinishes : a.finishes ≠ true) :
    let received := FullDownload.receiveAttempt state h target a
    (received.files target).initialized = (state.files target).initialized ∧
      (received.handles h).phase = .downloading target := by
  have hsame :=
    receiveChunks_initialized a.delivered (state.handles h).length (state.files target)
  simp [FullDownload.receiveAttempt, hfinishes, FullDownload.HTTPState.setHandle,
    FullDownload.HTTPState.setFile, hsame]

end

theorem Copies.attempt {h : Nat} {a : FullDownload.Attempt α} (hcopies : Copies object state)
    (hbody : a.finishes = true → a.body = object)
    (hstart : FullDownload.CompletesFromStart state (.attempt h a))
    (hstep : FullDownload.step state (.attempt h a) = some state') : Copies object state' := by
  have hexact := hcopies.exact.step hstart hstep
  have hothers := others_step rfl hstep
  simp only [FullDownload.step] at hstep
  split at hstep
  · cases hstep
    rename_i target hphase
    have hopen := (hcopies.exact.locked h target (.inl hphase)).2
    refine ⟨hexact, fun file hinitialized => ?_, fun h' file hattached => ?_⟩
    · by_cases hfile : file = target
      · subst hfile
        by_cases hfinishes : a.finishes = true
        · rw [(receiveAttempt_finished state h file hfinishes).1]
          exact hbody hfinishes
        · rw [(receiveAttempt_unfinished state h file hfinishes).1, hopen] at hinitialized
          cases hinitialized
      · obtain ⟨hfiles, hbodies⟩ := receiveAttempt_others state h target a hfile
        rw [hfiles] at hinitialized
        rw [hbodies]
        exact hcopies.bodies file hinitialized
    · by_cases hh : h' = h
      · subst hh
        by_cases hfinishes : a.finishes = true
        · obtain ⟨-, hinitialized, hhandle⟩ := receiveAttempt_finished state h' target hfinishes
          rw [hhandle] at hattached
          cases hattached
          exact hinitialized
        · rw [(receiveAttempt_unfinished state h' target hfinishes).2] at hattached
          cases hattached
      · rw [hothers h' hh] at hattached
        have hinitialized := hcopies.attached h' file hattached
        have hfile : file ≠ target := by
          rintro rfl
          rw [hopen] at hinitialized
          cases hinitialized
        rw [(receiveAttempt_others state h target a hfile).1]
        exact hinitialized
  · cases hstep

theorem sized_of_loadFileInfo {context : FileInfoContext} {size : Nat}
    {info info' : HTTPFileHandle}
    {head : Except ErrorData HTTPResponse} {transfers : List ProbeTransfer}
    (hknown : Sized size info)
    (hhead : ∀ response, head = .ok response → HeadConforms size response)
    (hprobe : ∀ transfer ∈ transfers, ∀ response, transfer.head = some response →
      ProbeConforms size response)
    (hread : ∀ probe, Delivered info transfers probe → ¬ Misread size probe)
    (hload : loadFileInfo context info none head transfers = .ok info') : Sized size info' := by
  simp only [loadFileInfo] at hload
  split at hload
  · cases hload
    exact hknown
  · rename_i hunknown
    rw [Bool.or_eq_true, not_or] at hunknown
    split at hload
    · cases hload
      exact sized_iff.mpr (.inr (.inl rfl))
    · split at hload
      · cases hload
      · rename_i response
        split at hload
        · rename_i hok
          cases hload
          exact sized_of_head (hhead response rfl) hok
        · split at hload
          · split at hload
            · cases hload
            cases hload
            exact sized_iff.mpr (.inr (.inl rfl))
          · split at hload
            · have hforce : info.forceFullDownload = false := (Bool.not_eq_true _).mp hunknown.2
              exact (sized_of_range_iff hforce hprobe).mpr hread info' hload
            · cases hload

theorem openFileExtended_sized {opening : OpenFile} {size : Nat}
    (htruthful : Truthful size opening.file) : Sized size (openFileExtended opening) := by
  rw [sized_iff]
  cases hinfo : opening.file.extendedInfo with
  | none => exact .inr (.inl (by simp [openFileExtended, newHandle, hinfo]))
  | some info =>
      cases hsize : info.fileSize with
      | none => exact .inr (.inl (by simp [openFileExtended, newHandle, hinfo, hsize]))
      | some fileSize =>
          left
          have hfile := htruthful info hinfo fileSize hsize
          simp [openFileExtended, newHandle, hinfo, hsize, hfile]

/-- What a handle knows at each stage; `phase` is that of its cached file. -/
def StageSound (object : List α) (handle : FileHandle) (phase : FullDownload.Phase) : Prop :=
  match handle.stage with
  | .created | .peeking _ | .asking _ => Sized object.length handle.info ∧ phase = .idle
  | .found => handle.info.length = object.length ∧ phase = .idle
  | .loaded _ => (handle.reading = true → Sized object.length handle.info) ∧ Rests phase
  | .downloaded => handle.info.length = object.length ∧ Rests phase
  | .opened => (handle.reading = true → handle.info.length = object.length) ∧ Rests phase
  | .downloading _ | .failed => True

/-- A state of the file system whose files are the objects. -/
structure Sound (objects : Bytes → List α) (s : HTTPFileSystem α) : Prop where
  caches : ∀ kind path entry, s.caches (kind, path) = some entry →
    entry.length = (objects path).length
  copies : ∀ kind path, Copies (objects path) (s.downloads (kind, path))
  stages : ∀ h handle, s.handles h = some handle →
    StageSound (objects handle.opening.file.path) handle (s.download h handle).phase
  idle : ∀ h place, (∀ handle, s.handles h = some handle → handle.place h ≠ place) →
    ((s.downloads place).handles h).phase = .idle

variable {objects : Bytes → List α} {s s' : HTTPFileSystem α} {h : Nat}
  {handle handle' : FileHandle}

theorem sound_start : Sound objects ({} : HTTPFileSystem α) where
  caches _ _ _ hentry := by cases hentry
  copies _ path := copies_init (objects path)
  stages _ _ hhandle := by cases hhandle
  idle _ _ _ := rfl

theorem place_eq (hopening : handle'.opening = handle.opening) :
    handle'.place h = handle.place h := by
  rw [FileHandle.place, FileHandle.place, hopening]

theorem Sound.idle_elsewhere {place : Place} (hsound : Sound objects s)
    (hhandle : s.handles h = some handle) (hplace : place ≠ handle.place h) :
    ((s.downloads place).handles h).phase = .idle := by
  refine hsound.idle h place fun other hother => ?_
  rw [hhandle] at hother
  cases hother
  exact Ne.symm hplace

theorem Sound.copies_setDownload (hsound : Sound objects s)
    (hcopies : Copies (objects handle.opening.file.path) state) (kind : StateKind)
    (path : Bytes) :
    Copies (objects path) ((s.setDownload (handle.place h) state).downloads (kind, path)) := by
  change Copies (objects path) (Function.update s.downloads (handle.place h) state (kind, path))
  by_cases hplace : (kind, path) = handle.place h
  · rw [hplace, Function.update_self]
    obtain rfl : path = handle.opening.file.path := congrArg Prod.snd hplace
    exact hcopies
  · rw [Function.update_of_ne hplace]
    exact hsound.copies kind path

/-- Frame rule: a handle whose phase stays at one place has its phase everywhere. -/
theorem phase_setDownload {h' : Nat} {other : Place}
    (hphase : (state.handles h').phase = ((s.downloads other).handles h').phase) (place : Place) :
    (((s.setDownload other state).downloads place).handles h').phase =
      ((s.downloads place).handles h').phase := by
  change ((Function.update s.downloads other state place).handles h').phase = _
  by_cases hplace : place = other
  · subst hplace
    rw [Function.update_self]
    exact hphase
  · rw [Function.update_of_ne hplace]

/-- Frame rule: a step of one handle at its own place. -/
theorem Sound.put {handle' : Option FileHandle} (hsound : Sound objects s)
    (hhandle : s.handles h = some handle)
    (hcopies : Copies (objects handle.opening.file.path) state)
    (hothers : ∀ h' ≠ h, (state.handles h').phase =
      ((s.downloads (handle.place h)).handles h').phase)
    (hnext : match handle' with
      | some handle' => handle'.opening = handle.opening ∧
          StageSound (objects handle.opening.file.path) handle' (state.handles h).phase
      | none => (state.handles h).phase = .idle) :
    Sound objects ((s.setDownload (handle.place h) state).setHandle h handle') := by
  have hphase : ∀ h' ≠ h, ∀ place,
      ((Function.update s.downloads (handle.place h) state place).handles h').phase =
        ((s.downloads place).handles h').phase :=
    fun h' hh => phase_setDownload (hothers h' hh)
  refine ⟨hsound.caches, hsound.copies_setDownload hcopies, fun h' other hother => ?_,
    fun h' place haway => ?_⟩
  · change Function.update s.handles h handle' h' = some other at hother
    change StageSound _ other
      ((Function.update s.downloads (handle.place h) state (other.place h')).handles h').phase
    by_cases hh : h' = h
    · subst hh
      rw [Function.update_self] at hother
      subst hother
      obtain ⟨hopening, hstage⟩ := hnext
      rw [place_eq hopening, Function.update_self, hopening]
      exact hstage
    · rw [Function.update_of_ne hh] at hother
      rw [hphase h' hh]
      exact hsound.stages h' other hother
  · change ((Function.update s.downloads (handle.place h) state place).handles h').phase = .idle
    change ∀ other, Function.update s.handles h handle' h' = some other → _ at haway
    by_cases hh : h' = h
    · subst hh
      rw [Function.update_self] at haway
      cases handle' with
      | none =>
          by_cases hplace : place = handle.place h'
          · subst hplace
            rw [Function.update_self]
            exact hnext
          · rw [Function.update_of_ne hplace]
            exact hsound.idle_elsewhere hhandle hplace
      | some next =>
          have hplace : place ≠ handle.place h' := by
            rw [← place_eq hnext.1]
            exact Ne.symm (haway next rfl)
          rw [Function.update_of_ne hplace]
          exact hsound.idle_elsewhere hhandle hplace
    · rw [Function.update_of_ne hh] at haway
      rw [hphase h' hh]
      exact hsound.idle h' place haway

theorem Sound.copiesAt (hsound : Sound objects s) (h : Nat) (handle : FileHandle) :
    Copies (objects handle.opening.file.path) (s.downloads (handle.place h)) :=
  hsound.copies (handle.place h).1 (handle.place h).2

theorem Sound.move (hsound : Sound objects s) (hhandle : s.handles h = some handle)
    (hopening : handle'.opening = handle.opening)
    (hstage : StageSound (objects handle.opening.file.path) handle' (s.download h handle).phase) :
    Sound objects (s.setHandle h (some handle')) := by
  have hput : Sound objects ((s.setDownload (handle.place h)
      (s.downloads (handle.place h))).setHandle h (some handle')) :=
    hsound.put hhandle (hsound.copiesAt h handle) (fun _ _ => rfl) ⟨hopening, hstage⟩
  have hsame : s.setDownload (handle.place h) (s.downloads (handle.place h)) = s := by
    rw [HTTPFileSystem.setDownload, Function.update_eq_self]
  rwa [hsame] at hput

theorem Sound.setCache {cache : CacheKind × Bytes} {entry : Option HTTPMetadataCacheEntry}
    (hsound : Sound objects s)
    (hentry : ∀ value ∈ entry, value.length = (objects cache.2).length) :
    Sound objects (s.setCache cache entry) := by
  refine ⟨fun kind path value hvalue => ?_, hsound.copies, hsound.stages, hsound.idle⟩
  change Function.update s.caches cache entry (kind, path) = some value at hvalue
  by_cases hcache : (kind, path) = cache
  · subst hcache
    rw [Function.update_self] at hvalue
    exact hentry value hvalue
  · rw [Function.update_of_ne hcache] at hvalue
    exact hsound.caches kind path value hvalue

theorem Sound.openFile {opening : OpenFile} (hsound : Sound objects s)
    (hfree : s.handles h = none)
    (htruthful : Truthful (objects opening.file.path).length opening.file) :
    Sound objects (s.setHandle h (some { opening, info := openFileExtended opening })) := by
  refine ⟨hsound.caches, hsound.copies, fun h' handle hhandle => ?_, fun h' place haway => ?_⟩
  · change Function.update s.handles h _ h' = some handle at hhandle
    by_cases hh : h' = h
    · subst hh
      rw [Function.update_self] at hhandle
      cases hhandle
      refine ⟨openFileExtended_sized htruthful, hsound.idle h' _ fun other hother => ?_⟩
      rw [hfree] at hother
      cases hother
    · rw [Function.update_of_ne hh] at hhandle
      exact hsound.stages h' handle hhandle
  · refine hsound.idle h' place fun other hother => haway other ?_
    change Function.update s.handles h _ h' = some other
    have hh : h' ≠ h := by
      rintro rfl
      rw [hfree] at hother
      cases hother
    rw [Function.update_of_ne hh]
    exact hother

theorem enter_cases (hstep : enter s h handle = some s') :
    (∃ shouldWriteCache, s' = s.setHandle h
        (some { handle with stage := .peeking shouldWriteCache })) ∨
      ∃ cache entry, s.caches (cache, handle.opening.file.path) = some entry ∧
        s' = s.setHandle h (some { handle with
          info := initializeFromCacheEntry handle.info entry
          stage := .found }) := by
  unfold enter at hstep
  split at hstep
  · cases hstep
  · split at hstep
    · split at hstep
      · cases hstep
        exact .inl ⟨false, rfl⟩
      · split at hstep
        · rename_i cache _ _ entry hentry
          cases hstep
          exact .inr ⟨cache, entry, hentry, rfl⟩
        · cases hstep
          exact .inl ⟨true, rfl⟩
    · cases hstep
      exact .inl ⟨false, rfl⟩

theorem Sound.enter (hsound : Sound objects s) (hhandle : s.handles h = some handle)
    (hstage : handle.stage = .created) (hstep : enter s h handle = some s') :
    Sound objects s' := by
  have hbefore := hsound.stages h handle hhandle
  simp only [StageSound, hstage] at hbefore
  obtain ⟨shouldWriteCache, rfl⟩ | ⟨cache, entry, hentry, rfl⟩ := enter_cases hstep
  · exact hsound.move hhandle rfl hbefore
  · exact hsound.move hhandle rfl ⟨hsound.caches _ _ _ hentry, hbefore.2⟩

theorem Sound.attach (hsound : Sound objects s) (hhandle : s.handles h = some handle)
    (hstep : attach s h handle = some s') : Sound objects s' := by
  have hbefore := hsound.stages h handle hhandle
  have hcopies := hsound.copiesAt h handle
  simp only [FileOpening.attach] at hstep
  split at hstep
  · rename_i hinitialized
    obtain ⟨state, hstart, hstep⟩ := Option.bind_eq_some_iff.mp hstep
    have hothers := others_step rfl hstart
    have hattached := start_present hinitialized hstart
    have hsize := (hcopies.copy hinitialized).1
    split at hstep
    · rename_i hstage
      cases hstep
      simp only [StageSound, hstage] at hbefore
      exact hsound.put hhandle (hcopies.start hstart) hothers
        ⟨rfl, fun _ => hbefore.1, .inr ⟨_, hattached⟩⟩
    · cases hstep
      exact hsound.put hhandle (hcopies.start hstart) hothers
        ⟨rfl, fun _ => sized_iff.mpr (.inl hsize), .inr ⟨_, hattached⟩⟩
    · cases hstep
  · split at hstep
    · have hothers : ∀ h', ((FullDownload.registerFile (s.downloads (handle.place h))).handles
          h').phase = ((s.downloads (handle.place h)).handles h').phase := fun h' => by
        rw [FullDownload.registerFile_handles]
      split at hstep
      · rename_i hstage
        cases hstep
        simp only [StageSound, hstage] at hbefore
        refine hsound.put hhandle hcopies.registerFile (fun h' _ => hothers h') ⟨rfl, ?_⟩
        exact ⟨fun _ => hbefore.1, .inl ((hothers h).trans hbefore.2)⟩
      · rename_i hstage
        cases hstep
        simp only [StageSound, hstage] at hbefore
        refine hsound.put hhandle hcopies.registerFile (fun h' _ => hothers h') ⟨rfl, ?_⟩
        exact ⟨hbefore.1, (hothers h).trans hbefore.2⟩
      · cases hstep
    · cases hstep

theorem Sound.receive {last : Bool} (hsound : Sound objects s)
    (hhandle : s.handles h = some handle)
    (hcopies : Copies (objects handle.opening.file.path) state)
    (hothers : ∀ h' ≠ h, (state.handles h').phase =
      ((s.downloads (handle.place h)).handles h').phase)
    (hlength : ∀ file, (state.handles h).phase = .attached file →
      (state.handles h).length = (state.files file).size) :
    Sound objects (receive s h handle last state) := by
  refine hsound.put hhandle hcopies hothers ⟨rfl, ?_⟩
  simp only [StageSound]
  cases hphase : (state.handles h).phase with
  | attached file =>
      have hsize := (hlength file hphase).trans (hcopies.copy (hcopies.attached h file hphase)).1
      cases last
      · exact ⟨hsize, .inr ⟨file, rfl⟩⟩
      · exact ⟨fun _ => hsize, .inr ⟨file, rfl⟩⟩
  | idle => trivial
  | downloading file => trivial
  | failed file => trivial

theorem Sound.beginDownload {last : Bool} (hsound : Sound objects s)
    (hhandle : s.handles h = some handle) (hstep : beginDownload s h handle last = some s') :
    Sound objects s' := by
  obtain ⟨state, hstart, rfl⟩ := Option.map_eq_some_iff.mp hstep
  have hcopies := (hsound.copiesAt h handle).giveUp h
  refine hsound.receive hhandle (hcopies.start hstart) (fun h' hh => ?_) fun file hphase => ?_
  · rw [others_step rfl hstart h' hh, giveUp_others _ hh]
  · obtain ⟨found, -, rfl⟩ | ⟨other, hother⟩ := start_cases hstart
    · obtain rfl : found = file := by simpa [FullDownload.HTTPState.setHandle] using hphase
      simp [FullDownload.HTTPState.setHandle]
    · rw [hother] at hphase
      cases hphase

theorem beginDownload_of_openStep (hstep : openStep s h handle = some s') :
    ∃ last, beginDownload s h handle last = some s' := by
  unfold openStep at hstep
  split at hstep
  · split at hstep
    · exact ⟨true, hstep⟩
    · cases hstep
  · split at hstep
    · exact ⟨false, hstep⟩
    · cases hstep
  · split at hstep
    · exact ⟨true, hstep⟩
    · cases hstep
  · cases hstep

theorem Sound.openStep (hsound : Sound objects s) (hhandle : s.handles h = some handle)
    (hstep : openStep s h handle = some s') : Sound objects s' := by
  obtain ⟨last, hbegin⟩ := beginDownload_of_openStep hstep
  exact hsound.beginDownload hhandle hbegin

theorem Sound.attempt {a : FullDownload.Attempt α} {last : Bool} (hsound : Sound objects s)
    (hhandle : s.handles h = some handle)
    (hbody : a.finishes = true → a.body = objects handle.opening.file.path)
    (hcompletes : FullDownload.CompletesFromStart (s.downloads (handle.place h)) (.attempt h a))
    (hstep : FullDownload.step (s.downloads (handle.place h)) (.attempt h a) = some state) :
    Sound objects (FileOpening.receive s h handle last state) := by
  have hcopies := hsound.copiesAt h handle
  refine hsound.receive hhandle (hcopies.attempt hbody hcompletes hstep) (others_step rfl hstep)
    fun file hphase => ?_
  simp only [FullDownload.step] at hstep
  split at hstep
  · cases hstep
    rename_i target _
    by_cases hfinishes : a.finishes = true
    · obtain ⟨-, -, hnow⟩ :=
        receiveAttempt_finished (s.downloads (handle.place h)) h target hfinishes
      rw [hnow] at hphase ⊢
      cases hphase
      rfl
    · rw [(receiveAttempt_unfinished (s.downloads (handle.place h)) h target hfinishes).2]
        at hphase
      cases hphase
  · cases hstep

theorem Sound.finish {shouldWriteCache : Bool} (hsound : Sound objects s)
    (hhandle : s.handles h = some handle)
    (hlength : handle.reading = true →
      handle.info.length = (objects handle.opening.file.path).length)
    (hwrite : shouldWriteCache = true → handle.reading = true)
    (hrests : Rests (s.download h handle).phase) :
    Sound objects (finish s h handle shouldWriteCache) := by
  have hopened : Sound objects (s.setHandle h (some { handle with stage := .opened })) :=
    hsound.move hhandle rfl ⟨hlength, hrests⟩
  unfold FileOpening.finish
  simp only
  split
  · exact hopened
  · rename_i cache _
    have hinserted : Sound objects (if shouldWriteCache then
        (s.setHandle h (some { handle with stage := .opened })).setCache
          (cache, handle.opening.file.path) (some (getCacheEntry handle.info))
        else s.setHandle h (some { handle with stage := .opened })) := by
      split
      · rename_i hinsert
        refine hopened.setCache fun value hvalue => ?_
        cases hvalue
        exact hlength (hwrite hinsert)
      · exact hopened
    split
    · exact hinserted.setCache fun value hvalue => by cases hvalue
    · exact hinserted

theorem length_of_sized {info : HTTPFileHandle} {size threshold : Nat} (hsized : Sized size info)
    (hplain : shouldFullDownload info.forceFullDownload info.length threshold = false) :
    info.length = size := by
  simp only [shouldFullDownload, Bool.or_eq_false_iff, decide_eq_false_iff_not] at hplain
  obtain hlength | hzero | hforce := sized_iff.mp hsized
  · exact hlength
  · exact absurd hzero hplain.1.1
  · rw [hplain.2] at hforce
    cases hforce

theorem Sound.finishStep (hsound : Sound objects s) (hhandle : s.handles h = some handle)
    (hstep : finishStep s h handle = some s') : Sound objects s' := by
  have hbefore := hsound.stages h handle hhandle
  unfold FileOpening.finishStep at hstep
  split at hstep
  · rename_i hstage
    simp only [StageSound, hstage] at hbefore
    split at hstep
    · cases hstep
    cases hstep
    rename_i hplain
    refine hsound.finish hhandle (fun hreading => ?_) (fun hinsert => ?_) hbefore.2
    · rw [hreading, Bool.true_and, Bool.not_eq_true] at hplain
      exact length_of_sized (hbefore.1 hreading) hplain
    · exact (Bool.and_eq_true_iff.mp hinsert).1
  · rename_i hstage
    simp only [StageSound, hstage] at hbefore
    cases hstep
    exact hsound.finish hhandle (fun _ => hbefore.1) (fun hinsert => by cases hinsert) hbefore.2
  · cases hstep

theorem Sound.leave (hsound : Sound objects s) (hhandle : s.handles h = some handle) :
    Sound objects (leave s h handle) := by
  have hcopies := hsound.copiesAt h handle
  simp only [FileOpening.leave]
  cases hdrop : FullDownload.step (s.downloads (handle.place h)) (.drop h) with
  | none =>
      rw [Option.getD_none]
      refine hsound.put hhandle hcopies (fun _ _ => rfl) ?_
      simp only [FullDownload.step] at hdrop
      split at hdrop
      · rename_i hphase
        exact hphase
      · cases hdrop
      · cases hdrop
      · cases hdrop
  | some state =>
      rw [Option.getD_some]
      refine hsound.put hhandle (hcopies.release (.inl rfl) hdrop) (others_step rfl hdrop) ?_
      simp only [FullDownload.step] at hdrop
      split at hdrop
      · cases hdrop
      · cases hdrop
        simp [FullDownload.HTTPState.setHandle]
      · cases hdrop
        simp [FullDownload.HTTPState.setHandle]
      · cases hdrop
        simp [FullDownload.HTTPState.setHandle]

theorem Sound.failDownload (hsound : Sound objects s) (hhandle : s.handles h = some handle)
    (hstep : FullDownload.step (s.downloads (handle.place h)) (.fail h) = some state) :
    Sound objects ((s.setDownload (handle.place h) state).setHandle h
      (some { handle with stage := .failed })) := by
  have hcopies := hsound.copiesAt h handle
  exact hsound.put hhandle (hcopies.release (.inr rfl) hstep) (others_step rfl hstep)
    ⟨rfl, trivial⟩

theorem Sound.forgetAt (hsound : Sound objects s) (gone : Place → Bool) :
    Sound objects { s with
      downloads := fun place =>
        if gone place then forget (s.downloads place) else s.downloads place } := by
  have hsame : ∀ place, (if gone place then forget (s.downloads place)
      else s.downloads place).handles = (s.downloads place).handles := by
    intro place
    split
    · rfl
    · rfl
  refine ⟨hsound.caches, fun kind path => ?_, fun h handle hhandle => ?_, fun h place haway => ?_⟩
  · change Copies _ (if gone (kind, path) then forget (s.downloads (kind, path))
      else s.downloads (kind, path))
    split
    · exact (hsound.copies kind path).forget
    · exact hsound.copies kind path
  · have hbefore := hsound.stages h handle hhandle
    rw [HTTPFileSystem.download] at hbefore ⊢
    rw [← hsame] at hbefore
    exact hbefore
  · have hbefore := hsound.idle h place haway
    rw [← hsame] at hbefore
    exact hbefore

theorem Sound.step {context : FileInfoContext} {l : Label α} (hsound : Sound objects s)
    (hok : Admitted objects s l) (hstep : step context s l = some s') : Sound objects s' := by
  cases l with
  | openFile h opening =>
      simp only [FileOpening.step] at hstep
      split at hstep
      · cases hstep
        rename_i hfree
        exact hsound.openFile hfree hok
      · cases hstep
  | enter h =>
      obtain ⟨handle, hhandle, hstep⟩ := Option.bind_eq_some_iff.mp hstep
      split at hstep
      · rename_i hstage
        exact hsound.enter hhandle hstage hstep
      · cases hstep
  | attach h =>
      obtain ⟨handle, hhandle, hstep⟩ := Option.bind_eq_some_iff.mp hstep
      exact hsound.attach hhandle hstep
  | loadFileInfo h head transfers =>
      obtain ⟨handle, hhandle, hstep⟩ := Option.bind_eq_some_iff.mp hstep
      have hbefore := hsound.stages h handle hhandle
      obtain ⟨hhead, hprobe, hread⟩ := hok handle hhandle
      split at hstep
      · cases hstep
        rename_i hstage hload
        simp only [StageSound, hstage] at hbefore
        exact hsound.move hhandle rfl
          ⟨fun _ => sized_of_loadFileInfo hbefore.1 hhead hprobe hread hload, .inl hbefore.2⟩
      · cases hstep
  | startDownload h =>
      obtain ⟨handle, hhandle, hstep⟩ := Option.bind_eq_some_iff.mp hstep
      exact hsound.openStep hhandle hstep
  | attempt h a =>
      obtain ⟨handle, hhandle, hstep⟩ := Option.bind_eq_some_iff.mp hstep
      obtain ⟨hbody, hcompletes⟩ := hok handle hhandle
      split at hstep
      · obtain ⟨state, hattempt, rfl⟩ := Option.map_eq_some_iff.mp hstep
        exact hsound.attempt hhandle hbody hcompletes hattempt
      · cases hstep
  | failDownload h =>
      obtain ⟨handle, hhandle, hstep⟩ := Option.bind_eq_some_iff.mp hstep
      split at hstep
      · obtain ⟨state, hfail, rfl⟩ := Option.map_eq_some_iff.mp hstep
        exact hsound.failDownload hhandle hfail
      · cases hstep
  | finish h =>
      obtain ⟨handle, hhandle, hstep⟩ := Option.bind_eq_some_iff.mp hstep
      exact hsound.finishStep hhandle hstep
  | leave h =>
      obtain ⟨handle, hhandle, rfl⟩ := Option.map_eq_some_iff.mp hstep
      exact hsound.leave hhandle
  | eraseEntry path =>
      cases hstep
      exact hsound.setCache fun value hvalue => by cases hvalue
  | eraseCachedFile place =>
      cases hstep
      have hforgot := hsound.forgetAt (fun other => decide (other = place))
      -- one place forgotten, as an update of the table
      have hsame : (fun other => if decide (other = place) = true then forget (s.downloads other)
          else s.downloads other) =
          Function.update s.downloads place (forget (s.downloads place)) := by
        funext other
        rw [Function.update_apply]
        by_cases hother : other = place
        · subst hother
          simp
        · simp [hother]
      rw [hsame] at hforgot
      exact hforgot
  | queryEnd context =>
      cases hstep
      have hforgot := hsound.forgetAt (fun place => decide (place.1 = .ofContext context))
      simp only [decide_eq_true_eq] at hforgot
      refine ⟨fun kind path entry hentry => ?_, hforgot.copies, hforgot.stages, hforgot.idle⟩
      change (if kind = .ofContext context then none else s.caches (kind, path)) =
        some entry at hentry
      split at hentry
      · cases hentry
      · exact hsound.caches kind path entry hentry

theorem sound_of_run {context : FileInfoContext} {labels : List (Label α)}
    (hrun : Run (step context) (Admitted objects) {} labels s) : Sound objects s :=
  hrun.invariant (Sound objects) (fun _ _ _ hsound hok hstep => hsound.step hok hstep) sound_start

/-- A handle that reads from a copy of the object, and has sent no range request. -/
structure Copied (object : List α) (h : BufferedRead.HTTPFileHandle α)
    (position : Nat) : Prop where
  length : h.length = object.length
  position : h.fileOffset = position
  requests : h.requests = []
  copy : ∃ file, h.cachedFileHandle = some file ∧ file.initialized = true ∧
    file.size = object.length ∧ Holds file.data object

theorem Copied.read {h : BufferedRead.HTTPFileHandle α} {position nrBytes location : Nat}
    (hcopied : Copied object h position) (serve : Nat → Nat → BufferedRead.RangeReply α)
    (download : BufferedRead.Download α) (hbounded : location + nrBytes ≤ object.length) :
    ∃ h', BufferedRead.read serve download h nrBytes location =
        some (h', .ok ((slice object location nrBytes).map some)) ∧
      Copied object h' (location + nrBytes) := by
  obtain ⟨file, hcached, hinitialized, hsize, hdata⟩ := hcopied.copy
  have hloaded : load file.data location nrBytes = (slice object location nrBytes).map some :=
    SequentialRead.load_eq_slice hbounded fun i hi => hdata (location + i) (by omega)
  have hlong : ¬ file.size < location + nrBytes := by omega
  refine ⟨{ h with fileOffset := location + nrBytes }, ?_, hcopied.length, rfl, hcopied.requests,
    file, hcached, hinitialized, hsize, hdata⟩
  simp [BufferedRead.read, BufferedRead.readInternal, hcached, BufferedRead.readCached,
    hinitialized, hlong, BufferedRead.finishRead, hloaded]

theorem handleStep_simulates_copied (object : List α) :
    Simulates (@handleStep α object) (cursorStep object) (Copied object) Agree := by
  intro h position op position' answer' hcopied hcursor
  cases op with
  | readAt nrBytes location server download =>
      simp only [cursorStep] at hcursor
      split at hcursor
      · cases hcursor
        rename_i hbounded
        obtain ⟨h', hread, hcopied'⟩ := hcopied.read server.serve download hbounded
        refine ⟨h', ⟨_, h'.fileOffset⟩, ?_, ⟨rfl, hcopied'.position⟩, hcopied'⟩
        simp [handleStep, answerRead, hread]
      · cases hcursor
  | readNext nrBytes server download =>
      simp only [cursorStep] at hcursor
      split at hcursor
      · cases hcursor
        rename_i hposition
        have hclamped : BufferedRead.clampedRead h nrBytes =
            min (object.length - position) nrBytes := by
          rw [BufferedRead.clampedRead, hcopied.length, hcopied.position,
            BufferedRead.idxSub_of_le hposition]
        obtain ⟨h', hread, hcopied'⟩ := hcopied.read server.serve download
          (show position + min (object.length - position) nrBytes ≤ object.length by omega)
        refine ⟨h', ⟨_, h'.fileOffset⟩, ?_, ⟨rfl, hcopied'.position⟩, hcopied'⟩
        simp [handleStep, answerRead, hclamped, hcopied.position, hread]
      · cases hcursor
  | seek location =>
      cases hcursor
      exact ⟨_, _, rfl, ⟨rfl, rfl⟩, hcopied.length, rfl, hcopied.requests, hcopied.copy⟩

/-- However the handles of a file system are opened, and whatever the others do meanwhile, a
handle that is open for reading reads the object and nothing else: it is a cursor over it. With
a downloaded file it does not ask the server again. -/
theorem opened_reads_object {context : FileInfoContext} {labels : List (Label α)}
    (hrun : Run (step context) (Admitted objects) {} labels s)
    (hhandle : s.handles h = some handle) (hopened : handle.stage = .opened)
    (hreading : handle.reading = true)
    (ops : List (CursorOp (objects handle.opening.file.path))) (position : Nat)
    (answers' : List (CursorAnswer (List α)))
    (hcursor : trace (cursorStep (objects handle.opening.file.path)) 0 ops =
      some (position, answers')) :
    ∃ reading answers, trace handleStep (reader s h handle) ops = some (reading, answers) ∧
      List.Forall₂ Agree answers answers' ∧ reading.fileOffset = position ∧
      RequestsWithin (objects handle.opening.file.path) reading ∧
      ((s.download h handle).phase ≠ .idle → reading.requests = []) := by
  have hsound := sound_of_run hrun
  have hstage := hsound.stages h handle hhandle
  simp only [StageSound, hopened] at hstage
  obtain ⟨hlength, hrests⟩ := hstage
  have hsize := hlength hreading
  obtain hidle | ⟨file, hattached⟩ := hrests
  · have hreader : reader s h handle = ReadIntegrity.openHandle handle.opening.directIo
        handle.opening.requireParallelAccess
        handle.opening.httpParams.autoFallbackToFullDownload
        (objects handle.opening.file.path) := by
      rw [reader, hidle, hsize]
      rfl
    obtain ⟨reading, answers, htrace, hagree, hrepresents⟩ :=
      (handleStep_simulates (objects handle.opening.file.path)).trace
        (represents_openHandle handle.opening.directIo handle.opening.requireParallelAccess
          handle.opening.httpParams.autoFallbackToFullDownload (objects handle.opening.file.path))
        hcursor
    rw [← hreader] at htrace
    exact ⟨reading, answers, htrace, hagree, hrepresents.position, hrepresents.ready.requests,
      fun hne => absurd hidle hne⟩
  · have hcopies := hsound.copiesAt h handle
    have hinitialized := hcopies.attached h file hattached
    have hcopied : Copied (objects handle.opening.file.path) (reader s h handle) 0 := by
      refine ⟨hsize, rfl, rfl, _, ?_, hinitialized, hcopies.copy hinitialized⟩
      rw [reader, hattached]
    obtain ⟨reading, answers, htrace, hagree, hend⟩ :=
      (handleStep_simulates_copied (objects handle.opening.file.path)).trace hcopied hcursor
    refine ⟨reading, answers, htrace, hagree, hend.position, ?_, fun _ => hend.requests⟩
    intro request hrequest
    rw [hend.requests] at hrequest
    cases hrequest

/-- The first handle downloads the file. -/
def firstDownload : List (Label UInt8) :=
  [.openFile 0
      { file := { path := [102] }, forceDownload := true, opener := { clientContext := some 0 } },
    .startDownload 0,
    .attempt 0 { client := .httplib, status := 200, chunks := [ReadIntegrity.letters] }]

/-- The second finds it. -/
def secondOpen : List (Label UInt8) :=
  [.openFile 1 { file := { path := [102] }, opener := { clientContext := some 0 } }, .enter 1,
    .attach 1, .finish 1]

def downloadedOnce : HTTPFileSystem UInt8 := (exec (step plainContext) {} firstDownload).getD {}

def foundAgain : HTTPFileSystem UInt8 :=
  (exec (step plainContext) downloadedOnce secondOpen).getD {}

theorem run_firstDownload :
    Run (step plainContext) (Admitted fun _ => ReadIntegrity.letters) {} firstDownload
      downloadedOnce := by
  refine .cons ?_ rfl (.cons trivial rfl (.cons ?_ rfl (.nil _)))
  · rintro _ ⟨⟩
  · rintro handle ⟨⟩
    exact ⟨fun _ => rfl, fun _ _ _ => .inl rfl⟩

theorem run_secondOpen :
    Run (step plainContext) (Admitted fun _ => ReadIntegrity.letters) downloadedOnce secondOpen
      foundAgain := by
  refine .cons ?_ rfl (.cons trivial rfl (.cons trivial rfl (.cons trivial rfl (.nil _))))
  rintro _ ⟨⟩

theorem opened_reads_object_shared :
    ∃ handle reading answers, foundAgain.handles 1 = some handle ∧
      trace handleStep (reader foundAgain 1 handle)
        [.readAt 1 2 (exactServer ReadIntegrity.letters) (.failed 0)] = some (reading, answers) ∧
      List.Forall₂ Agree answers [⟨[99], 3⟩] ∧ reading.requests = [] := by
  obtain ⟨handle, hhandle, hopened, hreading, hphase⟩ : ∃ handle,
      foundAgain.handles 1 = some handle ∧ handle.stage = .opened ∧ handle.reading = true ∧
        (foundAgain.download 1 handle).phase = .attached 0 := ⟨_, rfl, rfl, rfl, rfl⟩
  obtain ⟨reading, answers, htrace, hagree, -, -, hrequests⟩ :=
    opened_reads_object (run_firstDownload.append run_secondOpen) hhandle hopened hreading
      [.readAt 1 2 (exactServer ReadIntegrity.letters) (.failed 0)] 3 [⟨[99], 3⟩] rfl
  exact ⟨handle, reading, answers, hhandle, htrace, hagree, hrequests (by rw [hphase]; simp)⟩

theorem getCachedFile_registerFile (state : FullDownload.HTTPState α) :
    FullDownload.getCachedFile (FullDownload.registerFile state) =
      FullDownload.getCachedFile state := by
  unfold FullDownload.registerFile
  split
  · rfl
  · rename_i hnone
    simp [FullDownload.getCachedFile, hnone]

theorem getCachedFile_step {l : FullDownload.Label α} (hl : l ≠ .erase)
    (hstep : FullDownload.step state l = some state') :
    FullDownload.getCachedFile state' = FullDownload.getCachedFile state := by
  cases l with
  | start h length =>
      rw [← getCachedFile_registerFile state]
      simp only [FullDownload.step] at hstep
      split at hstep
      · cases hstep
      · split at hstep
        · cases hstep
          rfl
        · split at hstep
          · cases hstep
            rfl
          · cases hstep
  | attempt h a =>
      simp only [FullDownload.step] at hstep
      split at hstep
      · cases hstep
        unfold FullDownload.receiveAttempt
        simp only
        split
        · rfl
        · rfl
      · cases hstep
  | fail h =>
      simp only [FullDownload.step] at hstep
      split at hstep
      · cases hstep
        rfl
      · cases hstep
  | drop h =>
      simp only [FullDownload.step] at hstep
      split at hstep
      · cases hstep
      · cases hstep
        rfl
      · cases hstep
        rfl
      · cases hstep
        rfl
  | erase => exact absurd rfl hl

theorem Present.step {l : FullDownload.Label α} (hpresent : Present state)
    (hlocked : FullDownload.Locked state) (hl : l ≠ .erase)
    (hstep : FullDownload.step state l = some state') : Present state' := by
  rw [Present, getCachedFile_step hl hstep]
  obtain ⟨h, a, target, rfl, hphase, rfl⟩ | ⟨hfiles, -⟩ := FullDownload.step_files hstep
  · have hopen := (hlocked h target (.inl hphase)).2
    have hother : FullDownload.getCachedFile state ≠ target := by
      rintro rfl
      rw [hpresent] at hopen
      cases hopen
    rw [(receiveAttempt_others state h target a hother).1]
    exact hpresent
  · rw [hfiles]
    exact hpresent

theorem Present.giveUp (hpresent : Present state) (h : Nat) : Present (giveUp state h) := by
  unfold FileOpening.giveUp
  split
  · exact hpresent
  · exact hpresent

/-- The stages at which a handle waits for the server. -/
def Stage.waits : Stage → Bool
  | .asking _ | .downloading _ => true
  | _ => false

/-- Nobody has begun to wait for the server since. -/
structure Shared (place : Place) (origin s : HTTPFileSystem α) : Prop where
  present : Present (s.downloads place)
  waiting : ∀ h handle, s.handles h = some handle → handle.place h = place →
    handle.stage.waits = true → ∃ before, origin.handles h = some before ∧
      before.place h = place ∧ before.stage = handle.stage

/-- The steps that leave the downloaded file in its place. -/
def Keeps (place : Place) : Label α → Prop
  | .eraseCachedFile other => other ≠ place
  | .queryEnd context => place.1 ≠ .ofContext context
  | _ => True

variable {place : Place} {origin : HTTPFileSystem α}

theorem Shared.setHandle (hshared : Shared place origin s) {handle' : Option FileHandle}
    (hwaits : ∀ next ∈ handle', next.place h = place → next.stage.waits = true →
      ∃ before, s.handles h = some before ∧ before.place h = place ∧ before.stage = next.stage) :
    Shared place origin (s.setHandle h handle') := by
  refine ⟨hshared.present, fun h' other hother hplace hwaiting => ?_⟩
  change Function.update s.handles h handle' h' = some other at hother
  by_cases hh : h' = h
  · subst hh
    rw [Function.update_self] at hother
    obtain ⟨before, hbefore, hsame, hstage⟩ := hwaits other hother hplace hwaiting
    rw [← hstage] at hwaiting ⊢
    exact hshared.waiting h' before hbefore hsame hwaiting
  · rw [Function.update_of_ne hh] at hother
    exact hshared.waiting h' other hother hplace hwaiting

theorem Shared.setDownload (hshared : Shared place origin s) (other : Place)
    (hpresent : other = place → Present state) :
    Shared place origin (s.setDownload other state) := by
  refine ⟨?_, hshared.waiting⟩
  change Present (Function.update s.downloads other state place)
  by_cases hplace : place = other
  · subst hplace
    rw [Function.update_self]
    exact hpresent rfl
  · rw [Function.update_of_ne hplace]
    exact hshared.present

theorem Shared.settle (hshared : Shared place origin s) (hstage : handle'.stage.waits = false) :
    Shared place origin (s.setHandle h (some handle')) :=
  hshared.setHandle fun next hnext _ hwaiting => by
    cases hnext
    rw [hstage] at hwaiting
    cases hwaiting

theorem Shared.receive {last : Bool} (hshared : Shared place origin s)
    (hpresent : handle.place h = place → Present state)
    (hattached : handle.place h = place →
      (∃ file, (state.handles h).phase = .attached file) ∨
        s.handles h = some handle ∧ handle.stage = .downloading last) :
    Shared place origin (receive s h handle last state) := by
  refine (hshared.setDownload _ hpresent).setHandle fun next hnext hplace hwaiting => ?_
  cases hnext
  obtain ⟨file, hphase⟩ | ⟨hhandle, hstage⟩ := hattached hplace
  · cases last with
    | _ => simp [hphase, Stage.waits] at hwaiting
  · refine ⟨handle, hhandle, hplace, ?_⟩
    rw [hstage]
    split
    · rename_i hphase
      cases last with
      | _ => simp [hphase, Stage.waits] at hwaiting
    · rfl

theorem Shared.beginDownload {last : Bool} (hshared : Shared place origin s)
    (hlocked : FullDownload.Locked (giveUp (s.downloads (handle.place h)) h))
    (hstep : beginDownload s h handle last = some s') : Shared place origin s' := by
  obtain ⟨state, hstart, rfl⟩ := Option.map_eq_some_iff.mp hstep
  have hbefore : handle.place h = place →
      Present (FileOpening.giveUp (s.downloads (handle.place h)) h) := fun hplace => by
    rw [hplace]
    exact hshared.present.giveUp h
  exact hshared.receive
    (fun hplace => (hbefore hplace).step hlocked (by simp) hstart)
    fun hplace => .inl ⟨_, start_present (hbefore hplace) hstart⟩

theorem Shared.attach (hshared : Shared place origin s)
    (hlocked : FullDownload.Locked (s.downloads (handle.place h)))
    (hstep : attach s h handle = some s') : Shared place origin s' := by
  simp only [FileOpening.attach] at hstep
  split at hstep
  · obtain ⟨state, hstart, hstep⟩ := Option.bind_eq_some_iff.mp hstep
    have hnext : Shared place origin (s.setDownload (handle.place h) state) :=
      hshared.setDownload _ fun hplace => by
        have hpresent := hshared.present
        rw [← hplace] at hpresent
        exact hpresent.step hlocked (by simp) hstart
    split at hstep
    · cases hstep
      exact hnext.settle rfl
    · cases hstep
      exact hnext.settle rfl
    · cases hstep
  · rename_i huninitialized
    have haway : handle.place h ≠ place := by
      rintro rfl
      exact huninitialized hshared.present
    split at hstep
    · have hnext : Shared place origin (s.setDownload (handle.place h)
          (FullDownload.registerFile (s.downloads (handle.place h)))) :=
        hshared.setDownload _ fun hplace => absurd hplace haway
      split at hstep
      · cases hstep
        exact hnext.settle rfl
      · cases hstep
        refine hnext.setHandle fun next hother hplace _ => ?_
        cases hother
        exact absurd hplace haway
      · cases hstep
    · cases hstep

theorem Shared.finish {shouldWriteCache : Bool} (hshared : Shared place origin s) :
    Shared place origin (finish s h handle shouldWriteCache) := by
  have hopened : Shared place origin (s.setHandle h (some { handle with stage := .opened })) :=
    hshared.settle rfl
  unfold FileOpening.finish
  simp only
  split
  · exact hopened
  · split
    · split
      · exact ⟨hopened.present, hopened.waiting⟩
      · exact ⟨hopened.present, hopened.waiting⟩
    · split
      · exact ⟨hopened.present, hopened.waiting⟩
      · exact hopened

theorem Shared.openStep (hshared : Shared place origin s)
    (hlocked : FullDownload.Locked (giveUp (s.downloads (handle.place h)) h))
    (hstep : openStep s h handle = some s') : Shared place origin s' := by
  obtain ⟨last, hbegin⟩ := beginDownload_of_openStep hstep
  exact hshared.beginDownload hlocked hbegin

theorem Shared.enter (hshared : Shared place origin s) (hstep : enter s h handle = some s') :
    Shared place origin s' := by
  obtain ⟨shouldWriteCache, rfl⟩ | ⟨cache, entry, -, rfl⟩ := enter_cases hstep
  · exact hshared.settle rfl
  · exact hshared.settle rfl

theorem Shared.step {context : FileInfoContext} {l : Label α} (hshared : Shared place origin s)
    (hsound : Sound objects s) (hkeeps : Keeps place l) (hstep : step context s l = some s') :
    Shared place origin s' := by
  have hlocked : ∀ other, FullDownload.Locked (s.downloads other) := fun other =>
    (hsound.copies other.1 other.2).exact.locked
  -- the downloads of the handle's place after a step other than `erase`
  have hstays : ∀ {other : Place} {state : FullDownload.HTTPState α} {l : FullDownload.Label α},
      l ≠ .erase → FullDownload.step (s.downloads other) l = some state → other = place →
        Present state := by
    rintro other state l hl hstep rfl
    exact hshared.present.step (hlocked _) hl hstep
  cases l with
  | openFile h opening =>
      simp only [FileOpening.step] at hstep
      split at hstep
      · cases hstep
        exact hshared.settle rfl
      · cases hstep
  | enter h =>
      obtain ⟨handle, -, hstep⟩ := Option.bind_eq_some_iff.mp hstep
      split at hstep
      · exact hshared.enter hstep
      · cases hstep
  | attach h =>
      obtain ⟨handle, -, hstep⟩ := Option.bind_eq_some_iff.mp hstep
      exact hshared.attach (hlocked _) hstep
  | loadFileInfo h head transfers =>
      obtain ⟨handle, -, hstep⟩ := Option.bind_eq_some_iff.mp hstep
      split at hstep
      · cases hstep
        exact hshared.settle rfl
      · cases hstep
  | startDownload h =>
      obtain ⟨handle, -, hstep⟩ := Option.bind_eq_some_iff.mp hstep
      exact hshared.openStep
        ((hsound.copiesAt h handle).giveUp h).exact.locked hstep
  | attempt h a =>
      obtain ⟨handle, hhandle, hstep⟩ := Option.bind_eq_some_iff.mp hstep
      split at hstep
      · rename_i last hstage
        obtain ⟨state, hattempt, rfl⟩ := Option.map_eq_some_iff.mp hstep
        exact hshared.receive (hstays (by simp) hattempt) fun _ => .inr ⟨hhandle, hstage⟩
      · cases hstep
  | failDownload h =>
      obtain ⟨handle, hhandle, hstep⟩ := Option.bind_eq_some_iff.mp hstep
      split at hstep
      · obtain ⟨state, hfail, rfl⟩ := Option.map_eq_some_iff.mp hstep
        exact (hshared.setDownload _ (hstays (by simp) hfail)).settle rfl
      · cases hstep
  | finish h =>
      obtain ⟨handle, -, hstep⟩ := Option.bind_eq_some_iff.mp hstep
      unfold finishStep at hstep
      split at hstep
      · split at hstep
        · cases hstep
        cases hstep
        exact hshared.finish
      · cases hstep
        exact hshared.finish
      · cases hstep
  | leave h =>
      obtain ⟨handle, -, rfl⟩ := Option.map_eq_some_iff.mp hstep
      simp only [leave]
      refine (hshared.setDownload _ fun hplace => ?_).setHandle fun next hnext => by cases hnext
      cases hdrop : FullDownload.step (s.downloads (handle.place h)) (.drop h) with
      | none =>
          rw [Option.getD_none, hplace]
          exact hshared.present
      | some state => exact hstays (by simp) hdrop hplace
  | eraseEntry path =>
      cases hstep
      exact ⟨hshared.present, hshared.waiting⟩
  | eraseCachedFile other =>
      cases hstep
      exact hshared.setDownload other fun hplace => absurd hplace hkeeps
  | queryEnd context =>
      cases hstep
      refine ⟨?_, hshared.waiting⟩
      change Present (if place.1 = .ofContext context then forget (s.downloads place)
        else s.downloads place)
      rw [if_neg hkeeps]
      exact hshared.present

theorem getCachedFile_giveUp (state : FullDownload.HTTPState α) (h : Nat) :
    FullDownload.getCachedFile (giveUp state h) = FullDownload.getCachedFile state := by
  unfold giveUp
  split
  · rfl
  · rfl

theorem downloads_setDownload (s : HTTPFileSystem α) (place : Place)
    (state : FullDownload.HTTPState α) : (s.setDownload place state).downloads place = state := by
  simp [HTTPFileSystem.setDownload]

/-- What a handle at this stage has of its file, which is downloaded. -/
def Stage.served (phase : FullDownload.Phase) (file : Nat) : Stage → Prop
  | .created | .found | .peeking _ => True
  | .loaded _ | .downloaded | .opened => phase = .attached file
  | .asking _ | .downloading _ | .failed => False

/-- The handle has not come to its file yet, or it has the downloaded one. -/
def Served (place : Place) (h : Nat) (s : HTTPFileSystem α) : Prop :=
  ∀ handle, s.handles h = some handle → handle.place h = place →
    handle.stage.served (s.download h handle).phase
      (FullDownload.getCachedFile (s.downloads place))

variable {h' : Nat}

theorem Served.of_same (hserved : Served place h s) (hhandles : s'.handles h = s.handles h)
    (hdownload : s'.downloads place = s.downloads place) : Served place h s' := by
  intro handle hhandle hplace
  rw [hhandles] at hhandle
  have hbefore := hserved handle hhandle hplace
  rw [HTTPFileSystem.download, hplace] at hbefore ⊢
  rwa [hdownload]

theorem Served.setHandle_other (hserved : Served place h s) (hh : h' ≠ h)
    (handle' : Option FileHandle) : Served place h (s.setHandle h' handle') :=
  hserved.of_same (Function.update_of_ne hh.symm _ _) rfl

theorem served_setHandle {handle' : Option FileHandle}
    (hnext : ∀ next ∈ handle', next.place h = place → next.stage.served
      ((s.downloads place).handles h).phase (FullDownload.getCachedFile (s.downloads place))) :
    Served place h (s.setHandle h handle') := by
  intro next hother hplace
  change Function.update s.handles h handle' h = some next at hother
  rw [Function.update_self] at hother
  have hserved := hnext next hother hplace
  rwa [HTTPFileSystem.download, hplace]

theorem Served.setDownload (hserved : Served place h s) (other : Place)
    (hsame : other = place → (state.handles h).phase = ((s.downloads place).handles h).phase ∧
      FullDownload.getCachedFile state = FullDownload.getCachedFile (s.downloads place)) :
    Served place h (s.setDownload other state) := by
  intro handle hhandle hplace
  have hbefore := hserved handle hhandle hplace
  rw [HTTPFileSystem.download, hplace] at hbefore ⊢
  change handle.stage.served ((Function.update s.downloads other state place).handles h).phase
    (FullDownload.getCachedFile (Function.update s.downloads other state place))
  by_cases hother : other = place
  · obtain ⟨hphase, hfile⟩ := hsame hother
    rw [hother, Function.update_self, hphase, hfile]
    exact hbefore
  · rw [Function.update_of_ne (Ne.symm hother)]
    exact hbefore

/-- Frame rule: what another handle does leaves the handle with its file. -/
theorem Served.setDownload_step {l : FullDownload.Label α} {other : Place}
    (hserved : Served place h s) (hh : h' ≠ h) (hactor : FullDownload.actor l = some h')
    (hl : l ≠ .erase) (hstep : FullDownload.step (s.downloads other) l = some state) :
    Served place h (s.setDownload other state) := by
  refine hserved.setDownload other ?_
  rintro rfl
  exact ⟨others_step hactor hstep h hh.symm, getCachedFile_step hl hstep⟩

theorem Served.beginDownload {last : Bool} (hserved : Served place h s)
    (hpresent : Present (s.downloads place)) (hstep : beginDownload s h' handle last = some s') :
    Served place h s' := by
  obtain ⟨state, hstart, rfl⟩ := Option.map_eq_some_iff.mp hstep
  have hfile := (getCachedFile_step (by simp) hstart).trans (getCachedFile_giveUp _ h')
  by_cases hh : h' = h
  · subst hh
    refine served_setHandle ?_
    rintro _ ⟨⟩ hplace
    have hplace : handle.place h' = place := hplace
    have hattached := start_present (by rw [hplace]; exact hpresent.giveUp h') hstart
    rw [getCachedFile_giveUp] at hattached
    simp only [hplace, downloads_setDownload, hfile, hattached]
    cases last with
    | false => rfl
    | true => rfl
  · refine (hserved.setDownload (handle.place h') ?_).setHandle_other hh _
    rintro rfl
    exact ⟨by rw [others_step rfl hstart h (Ne.symm hh), giveUp_others _ (Ne.symm hh)], hfile⟩

theorem Served.attach (hserved : Served place h s) (hpresent : Present (s.downloads place))
    (hstep : attach s h' handle = some s') : Served place h s' := by
  simp only [FileOpening.attach] at hstep
  split at hstep
  · obtain ⟨state, hstart, hstep⟩ := Option.bind_eq_some_iff.mp hstep
    have hserves : ∀ next : FileHandle, next.opening = handle.opening →
        (∀ phase file, phase = .attached file → next.stage.served phase file) →
          Served place h ((s.setDownload (handle.place h') state).setHandle h' (some next)) := by
      intro next hopening hnext
      by_cases hh : h' = h
      · subst hh
        refine served_setHandle ?_
        rintro _ ⟨⟩ hplace
        rw [place_eq hopening] at hplace
        apply hnext
        have hattached := start_present (by rw [hplace]; exact hpresent) hstart
        rw [hplace, downloads_setDownload, hattached, getCachedFile_step (by simp) hstart]
      · exact (hserved.setDownload_step hh rfl (by simp) hstart).setHandle_other hh _
    split at hstep
    · cases hstep
      exact hserves _ rfl fun _ _ hphase => hphase
    · cases hstep
      exact hserves _ rfl fun _ _ hphase => hphase
    · cases hstep
  · rename_i huninitialized
    have haway : handle.place h' ≠ place := by
      rintro rfl
      exact huninitialized hpresent
    have hserves : ∀ next : FileHandle, next.opening = handle.opening →
        Served place h ((s.setDownload (handle.place h')
          (FullDownload.registerFile (s.downloads (handle.place h')))).setHandle h'
            (some next)) := by
      intro next hopening
      by_cases hh : h' = h
      · subst hh
        refine served_setHandle ?_
        rintro _ ⟨⟩ hplace
        rw [place_eq hopening] at hplace
        exact absurd hplace haway
      · exact (hserved.setDownload _ fun hplace => absurd hplace haway).setHandle_other hh _
    split at hstep
    · split at hstep
      · cases hstep
        exact hserves _ rfl
      · cases hstep
        exact hserves _ rfl
      · cases hstep
    · cases hstep

theorem Served.finish {shouldWriteCache : Bool} (hserved : Served place h s)
    (hhandle : s.handles h' = some handle)
    (hstage : ∀ phase file, handle.stage.served phase file → phase = .attached file) :
    Served place h (finish s h' handle shouldWriteCache) := by
  have hopened : Served place h (s.setHandle h' (some { handle with stage := .opened })) := by
    by_cases hh : h' = h
    · subst hh
      refine served_setHandle ?_
      rintro _ ⟨⟩ hplace
      have hbefore := hstage _ _ (hserved handle hhandle hplace)
      have hplace : handle.place h' = place := hplace
      rwa [HTTPFileSystem.download, hplace] at hbefore
    · exact hserved.setHandle_other hh _
  unfold FileOpening.finish
  simp only
  split
  · exact hopened
  · split
    · split
      · exact hopened.of_same rfl rfl
      · exact hopened.of_same rfl rfl
    · split
      · exact hopened.of_same rfl rfl
      · exact hopened

theorem Served.away (hserved : Served place h s) (hhandle : s.handles h = some handle)
    (hwaits : handle.stage.waits = true) : handle.place h ≠ place := by
  intro hplace
  have hbefore := hserved handle hhandle hplace
  cases hstage : handle.stage with
  | asking | downloading =>
      rw [hstage] at hbefore
      exact hbefore
  | _ =>
      rw [hstage] at hwaits
      cases hwaits

theorem Served.setHandle_begun (hserved : Served place h s) {next : FileHandle}
    (hbegun : ∀ phase file, next.stage.served phase file) :
    Served place h (s.setHandle h' (some next)) := by
  by_cases hh : h' = h
  · subst hh
    refine served_setHandle ?_
    rintro _ ⟨⟩ _
    exact hbegun _ _
  · exact hserved.setHandle_other hh _

theorem Served.setHandle_waited (hserved : Served place h s)
    (hhandle : s.handles h' = some handle)
    (hwaits : handle.stage.waits = true) {next : FileHandle}
    (hopening : next.opening = handle.opening) :
    Served place h (s.setHandle h' (some next)) := by
  by_cases hh : h' = h
  · subst hh
    refine served_setHandle ?_
    rintro _ ⟨⟩ hplace
    rw [place_eq hopening] at hplace
    exact absurd hplace (hserved.away hhandle hwaits)
  · exact hserved.setHandle_other hh _

theorem Served.setDownload_waited {l : FullDownload.Label α} (hserved : Served place h s)
    (hhandle : s.handles h' = some handle) (hwaits : handle.stage.waits = true)
    (hactor : FullDownload.actor l = some h') (hl : l ≠ .erase)
    (hstep : FullDownload.step (s.downloads (handle.place h')) l = some state) {next : FileHandle}
    (hopening : next.opening = handle.opening) :
    Served place h ((s.setDownload (handle.place h') state).setHandle h' (some next)) := by
  by_cases hh : h' = h
  · subst hh
    have haway := hserved.away hhandle hwaits
    exact (hserved.setDownload _ fun hplace => absurd hplace haway).setHandle_waited
      hhandle hwaits hopening
  · exact (hserved.setDownload_step hh hactor hl hstep).setHandle_other hh _

theorem Served.leave (hserved : Served place h s) (handle : FileHandle) :
    Served place h (leave s h' handle) := by
  simp only [FileOpening.leave]
  by_cases hh : h' = h
  · subst hh
    refine served_setHandle ?_
    rintro _ ⟨⟩
  · refine Served.setHandle_other ?_ hh _
    cases hdrop : FullDownload.step (s.downloads (handle.place h')) (.drop h') with
    | none => exact hserved.setDownload _ (by rintro rfl; exact ⟨rfl, rfl⟩)
    | some state => exact hserved.setDownload_step hh rfl (by simp) hdrop

theorem Served.step {context : FileInfoContext} {l : Label α} (hserved : Served place h s)
    (hpresent : Present (s.downloads place)) (hkeeps : Keeps place l)
    (hstep : step context s l = some s') : Served place h s' := by
  cases l with
  | openFile h' opening =>
      simp only [FileOpening.step] at hstep
      split at hstep
      · cases hstep
        exact hserved.setHandle_begun fun _ _ => trivial
      · cases hstep
  | enter h' =>
      obtain ⟨handle, -, hstep⟩ := Option.bind_eq_some_iff.mp hstep
      split at hstep
      · obtain ⟨shouldWriteCache, rfl⟩ | ⟨cache, entry, -, rfl⟩ := enter_cases hstep
        · exact hserved.setHandle_begun fun _ _ => trivial
        · exact hserved.setHandle_begun fun _ _ => trivial
      · cases hstep
  | attach h' =>
      obtain ⟨handle, -, hstep⟩ := Option.bind_eq_some_iff.mp hstep
      exact hserved.attach hpresent hstep
  | loadFileInfo h' head transfers =>
      obtain ⟨handle, hhandle, hstep⟩ := Option.bind_eq_some_iff.mp hstep
      split at hstep
      · rename_i hstage _
        cases hstep
        exact hserved.setHandle_waited hhandle (by rw [hstage]; rfl) rfl
      · cases hstep
  | startDownload h' =>
      obtain ⟨handle, -, hstep⟩ := Option.bind_eq_some_iff.mp hstep
      obtain ⟨last, hbegin⟩ := beginDownload_of_openStep hstep
      exact hserved.beginDownload hpresent hbegin
  | attempt h' a =>
      obtain ⟨handle, hhandle, hstep⟩ := Option.bind_eq_some_iff.mp hstep
      split at hstep
      · rename_i last hstage
        obtain ⟨state, hattempt, rfl⟩ := Option.map_eq_some_iff.mp hstep
        exact hserved.setDownload_waited hhandle (by rw [hstage]; rfl) rfl (by simp) hattempt rfl
      · cases hstep
  | failDownload h' =>
      obtain ⟨handle, hhandle, hstep⟩ := Option.bind_eq_some_iff.mp hstep
      split at hstep
      · rename_i last hstage
        obtain ⟨state, hfail, rfl⟩ := Option.map_eq_some_iff.mp hstep
        exact hserved.setDownload_waited hhandle (by rw [hstage]; rfl) rfl (by simp) hfail rfl
      · cases hstep
  | finish h' =>
      obtain ⟨handle, hhandle, hstep⟩ := Option.bind_eq_some_iff.mp hstep
      unfold finishStep at hstep
      split at hstep
      · rename_i shouldWriteCache hstage
        split at hstep
        · cases hstep
        · cases hstep
          refine hserved.finish hhandle ?_
          rw [hstage]
          exact fun _ _ hphase => hphase
      · rename_i hstage
        cases hstep
        refine hserved.finish hhandle ?_
        rw [hstage]
        exact fun _ _ hphase => hphase
      · cases hstep
  | leave h' =>
      obtain ⟨handle, -, rfl⟩ := Option.map_eq_some_iff.mp hstep
      exact hserved.leave handle
  | eraseEntry path =>
      cases hstep
      exact hserved.of_same rfl rfl
  | eraseCachedFile other =>
      cases hstep
      -- `Keeps` spares the place of the handle
      exact hserved.setDownload other fun hplace => absurd hplace hkeeps
  | queryEnd context =>
      cases hstep
      exact hserved.of_same rfl (if_neg hkeeps)

/-- Once a file is downloaded, and until the query ends or the file is erased, no handle of its
client context comes to wait for the server: whoever waits has waited all along, and who is
opened since is served from the download. -/
theorem download_is_shared {context : FileInfoContext} {labels more : List (Label α)}
    (hrun : Run (step context) (Admitted objects) {} labels s)
    (hpresent : Present (s.downloads place))
    (hmore : Run (step context) (fun s l => Admitted objects s l ∧ Keeps place l) s more s') :
    Present (s'.downloads place) ∧
      (∀ h handle, s'.handles h = some handle → handle.place h = place →
        handle.stage.waits = true → ∃ before, s.handles h = some before ∧
          before.place h = place ∧ before.stage = handle.stage) ∧
      ∀ earlier h opening later, more = earlier ++ .openFile h opening :: later →
        Served place h s' := by
  have hshared : ∀ {t t' labels}, Run (step context)
      (fun s l => Admitted objects s l ∧ Keeps place l) t labels t' →
        Sound objects t ∧ Shared place s t → Sound objects t' ∧ Shared place s t' := by
    intro t t' labels hrun hbefore
    refine hrun.invariant (fun t => Sound objects t ∧ Shared place s t) ?_ hbefore
    rintro t l t' ⟨hsound, hshared⟩ ⟨hok, hkeeps⟩ hstep
    exact ⟨hsound.step hok hstep, hshared.step hsound hkeeps hstep⟩
  have hstart : Sound objects s ∧ Shared place s s :=
    ⟨sound_of_run hrun, hpresent, fun h handle hhandle hplace _ => ⟨handle, hhandle, hplace, rfl⟩⟩
  obtain ⟨-, hend⟩ := hshared hmore hstart
  refine ⟨hend.present, hend.waiting, ?_⟩
  rintro earlier h opening later rfl
  obtain ⟨m, hearlier, hrest⟩ := hmore.split
  obtain ⟨hsound, hbetween⟩ := hshared hearlier hstart
  cases hrest with
  | @cons _ m' _ _ _ hok hopen hlater =>
      have hopened : Served place h m' := by
        simp only [FileOpening.step] at hopen
        split at hopen
        · cases hopen
          refine served_setHandle ?_
          rintro _ ⟨⟩ _
          trivial
        · cases hopen
      have hnext : Sound objects m' ∧ Shared place s m' :=
        hshared (.single hok hopen) ⟨hsound, hbetween⟩
      have hall : (Sound objects s' ∧ Shared place s s') ∧ Served place h s' := by
        refine hlater.invariant
          (fun t => (Sound objects t ∧ Shared place s t) ∧ Served place h t) ?_ ⟨hnext, hopened⟩
        rintro t l t' ⟨hboth, hserved⟩ hok hstep
        exact ⟨hshared (.single hok hstep) hboth,
          hserved.step hboth.2.present hok.2 hstep⟩
      exact hall.2

/-- The second handle is opened without a request, on the file of the first one. -/
theorem download_is_shared_second :
    ∃ handle, foundAgain.handles 1 = some handle ∧ handle.stage = .opened ∧
      (foundAgain.download 1 handle).phase = .attached 0 ∧
      ∀ h waiting, foundAgain.handles h = some waiting →
        waiting.place h = (.ofContext 0, [102]) → waiting.stage.waits = false := by
  have hmore : Run (step plainContext)
      (fun s l => Admitted (fun _ => ReadIntegrity.letters) s l ∧ Keeps (.ofContext 0, [102]) l)
      downloadedOnce secondOpen foundAgain := by
    refine .cons ⟨?_, trivial⟩ rfl (.cons ⟨trivial, trivial⟩ rfl (.cons ⟨trivial, trivial⟩ rfl
      (.cons ⟨trivial, trivial⟩ rfl (.nil _))))
    rintro _ ⟨⟩
  have hpresent : Present (downloadedOnce.downloads (.ofContext 0, [102])) := rfl
  obtain ⟨-, hwaiting, hserved⟩ := download_is_shared run_firstDownload hpresent hmore
  refine ⟨_, rfl, rfl, hserved [] 1 _ _ rfl _ rfl rfl, fun h waiting hhandle hplace => ?_⟩
  by_contra hwaits
  obtain ⟨before, hbefore, -, hstage⟩ :=
    hwaiting h waiting hhandle hplace ((Bool.not_eq_false _).mp hwaits)
  have hrests : ∀ before, downloadedOnce.handles h = some before → before.stage = .opened := by
    intro before hbefore
    match h, hbefore with
    | 0, hbefore =>
        cases hbefore
        rfl
  rw [← hstage, hrests before hbefore] at hwaits
  exact hwaits rfl

end HaybarnHttpfs.FileOpening
