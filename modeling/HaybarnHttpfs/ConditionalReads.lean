import HaybarnHttpfs.FullDownload
import HaybarnHttpfs.ReadWindow

/-!
Conditional reads: the preconditions that the three file systems send, the ETag
comparison of `RunGetRangeRequest`, and the versions of an object that reach the
readers through range requests, the read buffer and the shared downloads.
-/

namespace HaybarnHttpfs.ConditionalReads

open HaybarnHttpfs.Foundation.ByteStrings HaybarnHttpfs.Foundation.Memory
open HaybarnHttpfs.Foundation.TransitionRuns
open HaybarnHttpfs.HttpState HaybarnHttpfs.RangeRequest HaybarnHttpfs.BufferedRead
open HaybarnHttpfs.ReadWindow
open HaybarnHttpfs.FullDownload (HTTPState Phase Locked)

universe u

variable {α β : Type u}

/-- The characters of an entity tag between its quotes. -/
structure OpaqueTag where
  text : Bytes
  unquoted : quote ∉ text
  deriving DecidableEq

inductive ETag where
  | strong (tag : OpaqueTag)
  | weak (tag : OpaqueTag)
  deriving DecidableEq

/-- The characters `W/`. -/
def weakMark : Bytes := [87, 47]

def ETag.render : ETag → Bytes
  | .strong tag => quote :: (tag.text ++ [quote])
  | .weak tag => weakMark ++ quote :: (tag.text ++ [quote])

def isStrongEtag (etag : Bytes) : Bool :=
  etag.length ≥ 2 && !startsWith etag weakMark

inductive Precondition where
  | none
  | ifMatch (etag : Bytes)
  | ifUnmodifiedSince (date : Nat)
  deriving DecidableEq

inductive FileSystem where
  | http
  | s3
  | huggingFace
  deriving DecidableEq, Repr

/-- What the opening of a handle recorded, and the options of the handle. -/
structure OpenFile where
  fileSystem : FileSystem
  etag : Option ETag := none
  lastModified : Nat := 0
  length : Nat := 0
  unsafeDisableEtagChecks : Bool := false
  directIo : Bool := false
  requireParallelAccess : Bool := false
  autoFallbackToFullDownload : Bool := true

def OpenFile.etagBytes (file : OpenFile) : Bytes :=
  match file.etag with
  | none => []
  | some etag => etag.render

/-- `AddConsistencyPreconditions`. -/
def consistencyPrecondition (file : OpenFile) : Precondition :=
  if file.unsafeDisableEtagChecks then .none
  else if isStrongEtag file.etagBytes then .ifMatch file.etagBytes
  else if file.lastModified > 0 then .ifUnmodifiedSince file.lastModified
  else .none

/-- The precondition of `GetRequest` and of `GetRangeRequest`. Those of
`S3FileSystem` go to the runners with the signed headers alone; those of
`HuggingFaceFileSystem` forward to `HTTPFileSystem`. -/
def readPrecondition (file : OpenFile) : Precondition :=
  match file.fileSystem with
  | .http | .huggingFace => consistencyPrecondition file
  | .s3 => .none

/-- The handle has recorded the strong ETag `tag`, and checks are on. -/
def Records (file : OpenFile) (tag : OpaqueTag) : Prop :=
  file.unsafeDisableEtagChecks = false ∧ file.etag = some (.strong tag)

theorem stripETagQuotes_strong (tag : OpaqueTag) :
    stripETagQuotes (ETag.strong tag).render = tag.text := by
  have hlast : (quote :: (tag.text ++ [quote])).getLast? = some quote := by
    rw [← List.cons_append, List.getLast?_concat]
  simp [ETag.render, stripETagQuotes, substr, hlast]

theorem stripETagQuotes_weak (tag : OpaqueTag) :
    quote ∈ stripETagQuotes (ETag.weak tag).render := by
  have hfirst : (ETag.weak tag).render.head? ≠ some quote := by
    simp [ETag.render, weakMark, quote]
  unfold stripETagQuotes
  rw [if_neg fun hquoted => hfirst hquoted.2.1]
  simp [ETag.render]

theorem eq_strong_of_strip {etag : ETag} {tag : OpaqueTag}
    (hstrip : stripETagQuotes etag.render = stripETagQuotes (ETag.strong tag).render) :
    etag = .strong tag := by
  rw [stripETagQuotes_strong] at hstrip
  cases etag with
  | strong other =>
      rw [stripETagQuotes_strong] at hstrip
      obtain ⟨text, hunquoted⟩ := other
      cases hstrip
      rfl
  | weak other =>
      have hquoted := stripETagQuotes_weak other
      rw [hstrip] at hquoted
      exact absurd hquoted tag.unquoted

theorem eq_strong_of_render {etag : ETag} {tag : OpaqueTag}
    (hrender : etag.render = (ETag.strong tag).render) : etag = .strong tag :=
  eq_strong_of_strip (congrArg stripETagQuotes hrender)

theorem isEmpty_render (etag : ETag) : etag.render.isEmpty = false := by
  cases etag with
  | _ => rfl

theorem isStrongEtag_strong (tag : OpaqueTag) : isStrongEtag (ETag.strong tag).render := by
  simp only [isStrongEtag, startsWith, ETag.render, Bool.and_eq_true, Bool.not_eq_true']
  refine ⟨by simp, ?_⟩
  rfl

theorem consistencyPrecondition_of_records {file : OpenFile} {tag : OpaqueTag}
    (hrecords : Records file tag) :
    consistencyPrecondition file = .ifMatch (ETag.strong tag).render := by
  obtain ⟨hchecked, hetag⟩ := hrecords
  have hbytes : file.etagBytes = (ETag.strong tag).render := by
    simp [OpenFile.etagBytes, hetag]
  simp [consistencyPrecondition, hchecked, hbytes, isStrongEtag_strong]

/-- A byte with the version it belongs to: the ETag of that version, or `none`
for a byte of an error or redirect page. -/
structure Served (β : Type u) where
  value : β
  origin : Option ETag
  deriving DecidableEq

def FromVersion (tag : OpaqueTag) (b : Served β) : Prop := b.origin = some (.strong tag)

/-- The requests that one call of `GetRangeRequest` makes with the same buffer:
those of S3 come again after an auth refresh or a region redirect. -/
def runCalls (get : RangeGet) :
    List (List (Transfer (Served β))) → RangeReply (Served β) → RangeReply (Served β)
  | [], reply => reply
  | transfers :: calls, reply =>
      runCalls get calls
        { written := (runGetRangeRequest get transfers reply.written).1
          result := (runGetRangeRequest get transfers reply.written).2 }

def getRangeRequest (get : RangeGet) (calls : List (List (Transfer (Served β)))) :
    RangeReply (Served β) :=
  runCalls get calls { written := blank, result := .threw .connection }

/-- For each request that a read may send, the calls and attempts it meets. -/
abbrev Replies (β : Type u) := Nat → Nat → List (List (Transfer (Served β)))

def OpenFile.rangeGet (file : OpenFile) (bufferOutLen : Nat) : RangeGet :=
  { bufferOutLen
    etag := file.etagBytes
    unsafeDisableEtagChecks := file.unsafeDisableEtagChecks
    autoFallbackToFullFileDownload := file.autoFallbackToFullDownload }

def serve (file : OpenFile) (replies : Replies β) (offset len : Nat) :
    RangeReply (Served β) :=
  getRangeRequest (file.rangeGet len) (replies offset len)

def OpenFile.reader (file : OpenFile) : HTTPFileHandle (Served β) :=
  { directIo := file.directIo
    requireParallelAccess := file.requireParallelAccess
    autoFallbackToFullDownload := file.autoFallbackToFullDownload
    length := file.length
    readBuffer := allocate (if file.directIo || file.requireParallelAccess then 0
      else initialReadBufferLen) }

/-- Handles on one path that share an HTTP state. `returned` records the bytes of
every successful read with the handle that asked for them. -/
structure Session (β : Type u) where
  readers : Nat → HTTPFileHandle (Served β)
  downloads : HTTPState (Served β) := {}
  returned : List (Nat × List (Option (Served β))) := []

def Session.opened (files : Nat → OpenFile) : Session β :=
  { readers := fun h => (files h).reader }

/-- `Read` falls back to a full download and reads again; here the read, the
steps of the download and the second read are labels of their own. -/
inductive Label (β : Type u) where
  | read (h nrBytes location : Nat) (replies : Replies β)
  | download (l : FullDownload.Label (Served β))

def cachedFileHandle (s : Session β) (h : Nat) : Option (CachedFile (Served β)) :=
  match (s.downloads.handles h).phase with
  | .idle => none
  | .downloading file | .attached file | .failed file => some (s.downloads.files file)

def reader (s : Session β) (h : Nat) : HTTPFileHandle (Served β) :=
  { s.readers h with cachedFileHandle := cachedFileHandle s h }

def downloadingHandle : FullDownload.Label (Served β) → Option Nat
  | .start h _ | .attempt h _ | .fail h | .drop h => some h
  | .erase => none

/-- A download counts into the length of its handle. -/
def Session.setDownloads (s : Session β) (downloads : HTTPState (Served β))
    (l : FullDownload.Label (Served β)) : Session β :=
  match downloadingHandle l with
  | none => { s with downloads }
  | some h =>
      { s with
        downloads
        readers := Function.update s.readers h
          { s.readers h with length := (downloads.handles h).length } }

def readBytes : ReadResult (Served β) → Option (List (Option (Served β)))
  | .done bytes => some bytes
  | _ => none

def step (files : Nat → OpenFile) (s : Session β) : Label β → Option (Session β)
  | .read h nrBytes location replies =>
      match readInternal (serve (files h) replies) (reader s h) nrBytes location with
      | none => none
      | some (h', result) =>
          some { s with
            readers := Function.update s.readers h h'
            returned := s.returned ++ ((readBytes result).map fun bytes => (h, bytes)).toList }
  | .download l =>
      match FullDownload.step s.downloads l with
      | none => none
      | some downloads => some (s.setDownloads downloads l)

/-- Every byte that a read has returned belongs to the recorded version. -/
def NeverMixed (files : Nat → OpenFile) (s : Session β) : Prop :=
  ∀ h bytes, (h, bytes) ∈ s.returned → ∀ tag, Records (files h) tag →
    ∀ cell ∈ bytes, ∃ b, cell = some b ∧ FromVersion tag b

/-- The response comes from the version `current`, and only if the precondition
allows it. -/
def ServedFrom (sent : Precondition) (current : ETag) (body : List (Served β)) : Prop :=
  (∀ b ∈ body, b.origin = some current) ∧
    ∀ etag, sent = .ifMatch etag → current.render = etag

/-- A server that evaluates `If-Match` and sends the current ETag with every
response below 300. -/
def TransferConforms (sent : Precondition) (transfer : Transfer (Served β)) : Prop :=
  ∀ head, transfer.head = some head → head.status < 300 →
    head.success ∧ ∃ current, head.etag = some current.render ∧
      ServedFrom sent current transfer.chunks.flatten

def AttemptConforms (sent : Precondition) (a : FullDownload.Attempt (Served β)) : Prop :=
  a.status < 300 → ∃ current, ServedFrom sent current a.body

def ServerConforms (files : Nat → OpenFile) : Label β → Prop
  | .read h _ _ replies => ∀ offset len, ∀ transfers ∈ replies offset len,
      ∀ transfer ∈ transfers, TransferConforms (readPrecondition (files h)) transfer
  | .download (.attempt h a) => AttemptConforms (readPrecondition (files h)) a
  | .download _ => True

/-- A response is not taken for data unless its status is below 300. -/
def NoPageForData (file : OpenFile) (replies : Replies β) : Prop :=
  ∀ offset len head, (serve file replies offset len).result = .response head →
    acceptsHead head → head.status < 300

/-- Where a handle of the version `tag` would come to bytes of another one: a
refused refill that spoils the window, a page taken for data, an initialized file
of another version, the full download of S3, and what earlier attempts left in
the file. -/
def VersionsKept (files : Nat → OpenFile) (s : Session β) : Label β → Prop
  | .read h nrBytes location replies => ∀ tag, Records (files h) tag →
      NoPageForData (files h) replies ∧
        RefillHarmless (fun _ => FromVersion tag) (serve (files h) replies) (reader s h)
          nrBytes location
  | .download (.start h _) => ∀ tag, Records (files h) tag →
      let file := s.downloads.files (FullDownload.getCachedFile s.downloads)
      file.initialized → Filled (FromVersion tag) file.size file
  | .download (.attempt h a) => ∀ tag, Records (files h) tag → a.finishes →
      ((files h).fileSystem = .s3 → ∀ b ∈ a.body, FromVersion tag b) ∧
        ∀ file, (s.downloads.handles h).phase = .downloading file →
          Filled (FromVersion tag) (s.downloads.handles h).length (s.downloads.files file) ∨
            ((s.downloads.files file).capacity = 0 ∧ a.delivered ≠ [])
  | .download _ => True

theorem mem_load {cells : Cells α} {offset len : Nat} {cell : Option α}
    (hcell : cell ∈ load cells offset len) : ∃ i < len, cell = cells (offset + i) := by
  unfold load at hcell
  obtain ⟨i, hi, rfl⟩ := List.mem_map.mp hcell
  exact ⟨i, List.mem_range.mp hi, rfl⟩

theorem current_of_accepted {file : OpenFile} {tag : OpaqueTag} {len : Nat}
    {head : ResponseHead} {current : ETag} (hrecords : Records file tag)
    (hmatch : etagMismatch (file.rangeGet len) head = false)
    (hetag : head.etag = some current.render) : current = .strong tag := by
  obtain ⟨hchecked, hrecorded⟩ := hrecords
  apply eq_strong_of_strip
  simpa [etagMismatch, hetag, OpenFile.rangeGet, OpenFile.etagBytes, hchecked, hrecorded,
    isEmpty_render] using hmatch

/-- A reply whose acceptance vouches for the bytes it wrote. -/
def ReplyFrom (tag : OpaqueTag) (len : Nat) (reply : RangeReply (Served β)) : Prop :=
  ∀ head, reply.result = .response head → acceptsHead head → head.status < 300 →
    ∀ i < len, ∃ b, reply.written i = some b ∧ FromVersion tag b

theorem replyFrom_call {file : OpenFile} {tag : OpaqueTag} {len : Nat} {sent : Precondition}
    {transfers : List (Transfer (Served β))} (hrecords : Records file tag)
    (hconforms : ∀ transfer ∈ transfers, TransferConforms sent transfer)
    (bufferOut : Cells (Served β)) :
    ReplyFrom tag len
      { written := (runGetRangeRequest (file.rangeGet len) transfers bufferOut).1
        result := (runGetRangeRequest (file.rangeGet len) transfers bufferOut).2 } := by
  intro head hresult _ hstatus i hi
  obtain ⟨transfer, htransfer, hhead, -, -, hstored⟩ :=
    runGetRangeRequest_response (Prod.ext rfl hresult)
  obtain ⟨hmatch, hholds, hlength⟩ := hstored hstatus
  obtain ⟨hsuccess, current, hetag, hbody, -⟩ :=
    hconforms transfer htransfer head hhead hstatus
  have hcurrent := current_of_accepted hrecords hmatch hetag
  subst hcurrent
  have hin : i < transfer.chunks.flatten.length := by
    rw [hlength hsuccess]
    exact hi
  refine ⟨transfer.chunks.flatten[i], ?_, hbody _ (List.getElem_mem hin)⟩
  exact (hholds i hin).trans (List.getElem?_eq_getElem hin)

theorem replyFrom_runCalls {file : OpenFile} {tag : OpaqueTag} {len : Nat}
    {sent : Precondition} {calls : List (List (Transfer (Served β)))}
    {reply : RangeReply (Served β)} (hrecords : Records file tag)
    (hconforms : ∀ transfers ∈ calls, ∀ transfer ∈ transfers, TransferConforms sent transfer)
    (hreply : ReplyFrom tag len reply) :
    ReplyFrom tag len (runCalls (file.rangeGet len) calls reply) := by
  induction calls generalizing reply with
  | nil => exact hreply
  | cons transfers calls ih =>
      rw [List.forall_mem_cons] at hconforms
      exact ih hconforms.2 (replyFrom_call hrecords hconforms.1 reply.written)

theorem repliesGood_serve {file : OpenFile} {tag : OpaqueTag} {sent : Precondition}
    {replies : Replies β} (hrecords : Records file tag)
    (hconforms : ∀ offset len, ∀ transfers ∈ replies offset len, ∀ transfer ∈ transfers,
      TransferConforms sent transfer)
    (hpage : NoPageForData file replies) :
    RepliesGood (fun _ => FromVersion tag) (serve file replies) := by
  intro offset len haccepted i hi
  have hfrom : ReplyFrom tag len (serve file replies offset len) := by
    apply replyFrom_runCalls hrecords (hconforms offset len)
    intro head hresult
    cases hresult
  cases hresult : (serve file replies offset len).result with
  | response head =>
      rw [hresult] at haccepted
      exact hfrom head hresult haccepted (hpage offset len head hresult haccepted) i hi
  | requestError e =>
      rw [hresult] at haccepted
      cases haccepted
  | threw e =>
      rw [hresult] at haccepted
      cases haccepted

theorem body_of_conforming {file : OpenFile} {tag : OpaqueTag}
    {a : FullDownload.Attempt (Served β)} (hrecords : Records file tag)
    (hfinishes : a.finishes) (hconforms : AttemptConforms (readPrecondition file) a)
    (hs3 : file.fileSystem = .s3 → ∀ b ∈ a.body, FromVersion tag b) :
    ∀ b ∈ a.body, FromVersion tag b := by
  have hstatus : a.status < 300 := by
    simp only [FullDownload.Attempt.finishes, Bool.and_eq_true, decide_eq_true_eq] at hfinishes
    omega
  by_cases hsystem : file.fileSystem = .s3
  · exact hs3 hsystem
  · have hsent : readPrecondition file = .ifMatch (ETag.strong tag).render := by
      rw [← consistencyPrecondition_of_records hrecords]
      unfold readPrecondition
      split
      · rfl
      · rfl
      · rename_i hsystem'
        exact absurd hsystem' hsystem
    obtain ⟨current, hbody, hcurrent⟩ := hconforms hstatus
    rw [eq_strong_of_render (hcurrent _ hsent)] at hbody
    exact hbody

/-- The invariant: what a handle that recorded `tag` may still read comes from
the version `tag`. -/
structure Consistent (files : Nat → OpenFile) (s : Session β) : Prop where
  locked : Locked s.downloads
  attached : ∀ h file, (s.downloads.handles h).phase = .attached file →
    (s.downloads.files file).initialized ∧ ∀ tag, Records (files h) tag →
      Filled (FromVersion tag) (s.downloads.files file).size (s.downloads.files file)
  window : ∀ h tag, Records (files h) tag →
    WindowGood (fun _ => FromVersion tag) (s.readers h)
  neverMixed : NeverMixed files s

theorem Consistent.opened (files : Nat → OpenFile) :
    Consistent files (Session.opened files : Session β) := by
  refine ⟨FullDownload.downloadsExact_init.locked, nofun, ?_, nofun⟩
  intro h tag _
  exact ⟨Nat.zero_le _, fun i hi => by simp [Session.opened, OpenFile.reader] at hi⟩

theorem Consistent.readCached {files : Nat → OpenFile} {s : Session β} {h : Nat}
    {tag : OpaqueTag} (hs : Consistent files s) (hrecords : Records (files h) tag)
    {file : CachedFile (Served β)} (hcached : cachedFileHandle s h = some file)
    {hfh h' : HTTPFileHandle (Served β)} {nrBytes location : Nat}
    {bytes : List (Option (Served β))}
    (hread : BufferedRead.readCached hfh file nrBytes location = (h', .done bytes)) :
    ∀ cell ∈ bytes, ∃ b, cell = some b ∧ FromVersion tag b := by
  unfold BufferedRead.readCached at hread
  split at hread
  · cases hread
  · rename_i hinitialized
    rw [Bool.not_eq_true, Bool.not_eq_false'] at hinitialized
    split at hread
    · cases hread
    cases hread
    rename_i hfits
    have hfilled : Filled (FromVersion tag) file.size file := by
      unfold cachedFileHandle at hcached
      split at hcached
      · cases hcached
      · cases hcached
        rename_i f hphase
        have hopen := (hs.locked h f (.inl hphase)).2
        rw [hopen] at hinitialized
        cases hinitialized
      · cases hcached
        rename_i f hphase
        exact (hs.attached h f hphase).2 tag hrecords
      · cases hcached
        rename_i f hphase
        have hopen := (hs.locked h f (.inr hphase)).2
        rw [hopen] at hinitialized
        cases hinitialized
    intro cell hcell
    obtain ⟨i, hi, rfl⟩ := mem_load hcell
    exact hfilled (location + i) (by omega)

theorem Consistent.readInternal {files : Nat → OpenFile} {s : Session β} {h : Nat}
    {tag : OpaqueTag} {replies : Replies β} (hs : Consistent files s)
    (hrecords : Records (files h) tag)
    (hreplies : RepliesGood (fun _ => FromVersion tag) (serve (files h) replies))
    {h' : HTTPFileHandle (Served β)} {nrBytes location : Nat}
    {bytes : List (Option (Served β))}
    (hread : BufferedRead.readInternal (serve (files h) replies) (reader s h) nrBytes
      location = some (h', .done bytes)) :
    ∀ cell ∈ bytes, ∃ b, cell = some b ∧ FromVersion tag b := by
  cases hcached : cachedFileHandle s h with
  | some file =>
      have hfile : (reader s h).cachedFileHandle = some file := hcached
      simp only [BufferedRead.readInternal, hfile, Option.some.injEq] at hread
      exact hs.readCached hrecords hcached hread
  | none =>
      have hwindow : WindowGood (fun _ => FromVersion tag) (reader s h) :=
        (hs.window h tag hrecords).of_same ⟨rfl, rfl, rfl⟩
      obtain ⟨-, hbytes⟩ := readInternal_bytes hwindow hreplies hcached hread
      intro cell hcell
      obtain ⟨i, hi⟩ := List.mem_iff_getElem?.mp hcell
      exact hbytes i cell hi

theorem Consistent.read {files : Nat → OpenFile} {s s' : Session β}
    {h nrBytes location : Nat} {replies : Replies β} (hs : Consistent files s)
    (hserver : ServerConforms files (.read h nrBytes location replies))
    (hkept : VersionsKept files s (.read h nrBytes location replies))
    (hstep : step files s (.read h nrBytes location replies) = some s') :
    Consistent files s' := by
  simp only [step] at hstep
  split at hstep
  · cases hstep
  cases hstep
  rename_i h' result hread
  have hreplies : ∀ tag, Records (files h) tag →
      RepliesGood (fun _ => FromVersion tag) (serve (files h) replies) :=
    fun tag hrecords => repliesGood_serve hrecords hserver (hkept tag hrecords).1
  refine ⟨hs.locked, hs.attached, ?_, ?_⟩
  · intro other tag hrecords
    by_cases hother : other = h
    · subst hother
      simp only [Function.update_self]
      have hwindow : WindowGood (fun _ => FromVersion tag) (reader s other) :=
        (hs.window other tag hrecords).of_same ⟨rfl, rfl, rfl⟩
      exact hwindow.readInternal ((hreplies tag hrecords).refillExact _ _ _)
        (hkept tag hrecords).2 hread
    · simp only [Function.update_of_ne hother]
      exact hs.window other tag hrecords
  · intro other bytes hreturned tag hrecords
    rw [List.mem_append] at hreturned
    rcases hreturned with hbefore | hnow
    · exact hs.neverMixed other bytes hbefore tag hrecords
    · cases result with
      | done read =>
          simp only [readBytes, Option.map_some, Option.toList_some, List.mem_singleton,
            Prod.mk.injEq] at hnow
          obtain ⟨rfl, rfl⟩ := hnow
          exact hs.readInternal hrecords (hreplies tag hrecords) hread
      | notSupported => cases hnow
      | threw e => cases hnow

theorem sameWindow_setDownloads (s : Session β) (downloads : HTTPState (Served β))
    (l : FullDownload.Label (Served β)) (h : Nat) :
    SameWindow (s.readers h) ((s.setDownloads downloads l).readers h) := by
  unfold Session.setDownloads
  split
  · exact SameWindow.refl _
  · rename_i h' _
    by_cases hh : h = h'
    · subst hh
      simp only [Function.update_self]
      exact ⟨rfl, rfl, rfl⟩
    · simp only [Function.update_of_ne hh]
      exact SameWindow.refl _

theorem setDownloads_downloads (s : Session β) (downloads : HTTPState (Served β))
    (l : FullDownload.Label (Served β)) : (s.setDownloads downloads l).downloads = downloads := by
  unfold Session.setDownloads
  split
  · rfl
  · rfl

theorem setDownloads_returned (s : Session β) (downloads : HTTPState (Served β))
    (l : FullDownload.Label (Served β)) : (s.setDownloads downloads l).returned = s.returned := by
  unfold Session.setDownloads
  split
  · rfl
  · rfl

theorem receiveAttempt_files_of_ne {s : HTTPState α} {h file f : Nat}
    (a : FullDownload.Attempt α) (hf : f ≠ file) :
    (FullDownload.receiveAttempt s h file a).files f = s.files f := by
  unfold FullDownload.receiveAttempt
  simp only
  split
  · simp [HTTPState.setHandle, HTTPState.setLock, HTTPState.setBody, HTTPState.setFile, hf]
  · simp [HTTPState.setHandle, HTTPState.setFile, hf]

theorem filled_receiveAttempt {s : HTTPState (Served β)} {h file : Nat} {tag : OpaqueTag}
    {a : FullDownload.Attempt (Served β)} (hfinishes : a.finishes)
    (hbody : ∀ b ∈ a.body, FromVersion tag b)
    (hstart : Filled (FromVersion tag) (s.handles h).length (s.files file) ∨
      ((s.files file).capacity = 0 ∧ a.delivered ≠ [])) :
    let s' := FullDownload.receiveAttempt s h file a
    Filled (FromVersion tag) (s'.files file).size (s'.files file) := by
  rw [← FullDownload.Attempt.flatten_delivered hfinishes] at hbody
  have hfilled := filled_receiveChunks hstart hbody
  simpa [FullDownload.receiveAttempt, hfinishes, HTTPState.setHandle, HTTPState.setLock,
    HTTPState.setBody, HTTPState.setFile, setInitialized, Filled] using hfilled

theorem initialized_receiveAttempt {s : HTTPState α} {h file : Nat}
    {a : FullDownload.Attempt α} (hfinishes : a.finishes) :
    ((FullDownload.receiveAttempt s h file a).files file).initialized := by
  simp [FullDownload.receiveAttempt, hfinishes, HTTPState.setHandle, HTTPState.setLock,
    HTTPState.setBody, HTTPState.setFile, setInitialized]

theorem Consistent.files_eq {files : Nat → OpenFile} {s : Session β}
    {downloads : HTTPState (Served β)} {l : FullDownload.Label (Served β)} {file : Nat}
    (hs : Consistent files s) (hinitialized : (s.downloads.files file).initialized)
    (hstep : FullDownload.step s.downloads l = some downloads) :
    downloads.files file = s.downloads.files file := by
  rcases FullDownload.step_files hstep with ⟨h, a, f, -, hphase, rfl⟩ | ⟨hfiles, -⟩
  · apply receiveAttempt_files_of_ne
    rintro rfl
    have hopen := (hs.locked h file (.inl hphase)).2
    rw [hinitialized] at hopen
    cases hopen
  · rw [hfiles]

theorem Consistent.attached_step {files : Nat → OpenFile} {s : Session β}
    {downloads : HTTPState (Served β)} {l : FullDownload.Label (Served β)}
    (hs : Consistent files s) (hserver : ServerConforms files (.download l))
    (hkept : VersionsKept files s (.download l))
    (hstep : FullDownload.step s.downloads l = some downloads) {h file : Nat}
    (hattached : (downloads.handles h).phase = .attached file) :
    (downloads.files file).initialized ∧ ∀ tag, Records (files h) tag →
      Filled (FromVersion tag) (downloads.files file).size (downloads.files file) := by
  rcases FullDownload.step_attached hstep hattached with
    hbefore | ⟨length, rfl, rfl, hinitialized⟩ | ⟨a, rfl, hfinishes, hphase⟩
  · rw [hs.files_eq (hs.attached h file hbefore).1 hstep]
    exact hs.attached h file hbefore
  · rw [hs.files_eq hinitialized hstep]
    exact ⟨hinitialized, fun tag hrecords => hkept tag hrecords hinitialized⟩
  · simp only [FullDownload.step, hphase, Option.some.injEq] at hstep
    subst hstep
    refine ⟨initialized_receiveAttempt hfinishes, ?_⟩
    intro tag hrecords
    obtain ⟨hs3, hstart⟩ := hkept tag hrecords hfinishes
    exact filled_receiveAttempt hfinishes
      (body_of_conforming hrecords hfinishes hserver hs3) (hstart file hphase)

theorem Consistent.download {files : Nat → OpenFile} {s s' : Session β}
    {l : FullDownload.Label (Served β)} (hs : Consistent files s)
    (hserver : ServerConforms files (.download l))
    (hkept : VersionsKept files s (.download l))
    (hstep : step files s (.download l) = some s') : Consistent files s' := by
  simp only [step] at hstep
  split at hstep
  · cases hstep
  cases hstep
  rename_i downloads hdownload
  refine ⟨?_, ?_, ?_, ?_⟩
  · rw [setDownloads_downloads]
    exact hs.locked.step hdownload
  · intro h file hattached
    rw [setDownloads_downloads] at hattached ⊢
    exact hs.attached_step hserver hkept hdownload hattached
  · intro h tag hrecords
    exact (hs.window h tag hrecords).of_same (sameWindow_setDownloads s downloads l h)
  · unfold NeverMixed
    rw [setDownloads_returned]
    exact hs.neverMixed

/-- Over runs against a conforming server: a read returns bytes of the recorded
version only, if no step lets bytes of another version into the handle. -/
theorem neverMixed_of_versionsKept (files : Nat → OpenFile) (labels : List (Label β))
    (s : Session β)
    (hrun : Run (step files) (fun s l => ServerConforms files l ∧ VersionsKept files s l)
      (Session.opened files) labels s) : NeverMixed files s := by
  have hs : Consistent files s := by
    apply hrun.invariant (Consistent files) _ (Consistent.opened files)
    rintro s l s' hs ⟨hserver, hkept⟩ hstep
    cases l with
    | read h nrBytes location replies => exact hs.read hserver hkept hstep
    | download l => exact hs.download hserver hkept hstep
  exact hs.neverMixed

def version (c : UInt8) (hc : quote ∉ [c]) : OpaqueTag := { text := [c], unquoted := hc }

def firstVersion : OpaqueTag := version 49 (by decide)
def secondVersion : OpaqueTag := version 50 (by decide)

def pieceOf (tag : OpaqueTag) (data : List UInt8) : List (Served UInt8) :=
  data.map fun value => { value, origin := some (.strong tag) }

/-- An object of one byte, opened when its version was the first. -/
def openedFile (fileSystem : FileSystem) : Nat → OpenFile :=
  fun _ => { fileSystem, etag := some (.strong firstVersion), length := 1, directIo := true }

theorem records_openedFile (fileSystem : FileSystem) (h : Nat) :
    Records (openedFile fileSystem h) firstVersion :=
  ⟨rfl, rfl⟩

/-- A range request that the first version answers. -/
def rangeRead : Label UInt8 :=
  .read 0 1 0 fun _ _ =>
    [[{ head := some { status := 206, etag := some (ETag.strong firstVersion).render }
        chunks := [pieceOf firstVersion [97]] }]]

theorem neverMixed_of_versionsKept_range :
    ∃ s, Run (step (openedFile .http))
        (fun s l => ServerConforms (openedFile .http) l ∧ VersionsKept (openedFile .http) s l)
        (Session.opened (openedFile .http)) [rangeRead] s ∧
      s.returned = [(0, [some { value := 97, origin := some (.strong firstVersion) }])] ∧
      NeverMixed (openedFile .http) s := by
  have hexec : (step (openedFile .http) (Session.opened (openedFile .http))
      rangeRead).map (fun s => s.returned) =
      some [(0, [some { value := 97, origin := some (.strong firstVersion) }])] := by
    decide
  obtain ⟨s, hs, hreturned⟩ := Option.map_eq_some_iff.mp hexec
  have hserver : ServerConforms (openedFile .http) rangeRead := by
    intro offset len transfers htransfers transfer htransfer head hhead _
    rw [List.mem_singleton] at htransfers
    subst htransfers
    rw [List.mem_singleton] at htransfer
    subst htransfer
    cases hhead
    refine ⟨rfl, .strong firstVersion, rfl, by decide, ?_⟩
    rintro etag hsent
    cases hsent
    rfl
  have hkept : VersionsKept (openedFile .http) (Session.opened (openedFile .http))
      rangeRead := by
    intro tag _
    refine ⟨?_, ?_⟩
    · intro offset len head hresponse _
      obtain ⟨transfer, htransfer, hhead, -⟩ :=
        runGetRangeRequest_response (Prod.ext rfl hresponse)
      rw [List.mem_singleton] at htransfer
      subst htransfer
      cases hhead
      decide
    · intro offset hrefill
      cases hrefill
  have hrun : Run (step (openedFile .http)) (fun s l =>
      ServerConforms (openedFile .http) l ∧ VersionsKept (openedFile .http) s l)
      (Session.opened (openedFile .http)) [rangeRead] s :=
    .single ⟨hserver, hkept⟩ hs
  exact ⟨s, hrun, hreturned, neverMixed_of_versionsKept (openedFile .http) [rangeRead] s hrun⟩

/-- The object is replaced between the `HEAD` of an S3 handle and its full
download. -/
def replacedBeforeDownload : List (Label UInt8) :=
  [.download (.start 0 1),
    .download (.attempt 0
      { client := .curl, status := 200, chunks := [pieceOf secondVersion [98]] }),
    .read 0 1 0 fun _ _ => []]

theorem full_download_returns_other_version :
    ∃ s, Run (step (openedFile .s3)) (fun _ l => ServerConforms (openedFile .s3) l)
        (Session.opened (openedFile .s3)) replacedBeforeDownload s ∧
      Records (openedFile .s3 0) firstVersion ∧
      s.returned = [(0, [some { value := 98, origin := some (.strong secondVersion) }])] ∧
      ¬ NeverMixed (openedFile .s3) s := by
  have hexec : (exec (step (openedFile .s3)) (Session.opened (openedFile .s3))
      replacedBeforeDownload).map (fun s => s.returned) =
      some [(0, [some { value := 98, origin := some (.strong secondVersion) }])] := by
    decide
  obtain ⟨s, hs, hreturned⟩ := Option.map_eq_some_iff.mp hexec
  have hserver : ∀ l ∈ replacedBeforeDownload, ServerConforms (openedFile .s3) l := by
    simp only [replacedBeforeDownload, List.forall_mem_cons, List.not_mem_nil, false_imp_iff,
      implies_true, and_true]
    refine ⟨trivial, ?_, ?_⟩
    · intro _
      refine ⟨.strong secondVersion, by decide, ?_⟩
      rintro etag hsent
      cases hsent
    · intro offset len transfers htransfers
      cases htransfers
  refine ⟨s, (run_of_exec hs).labelled _ hserver, records_openedFile .s3 0, hreturned, ?_⟩
  intro hnever
  have hbyte := hnever 0 _ (by rw [hreturned]; exact List.mem_singleton_self _) firstVersion
    (records_openedFile .s3 0) _ (List.mem_singleton_self _)
  obtain ⟨b, hb, hfrom⟩ := hbyte
  cases hb
  unfold FromVersion at hfrom
  contradiction

end HaybarnHttpfs.ConditionalReads
