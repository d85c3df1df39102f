import HaybarnHttpfs.BufferedRead
import HaybarnHttpfs.Foundation.ByteStrings
import Mathlib.Algebra.GroupWithZero.Nat

/-!
`S3FileSystem::Write` and `S3MultiPartUpload`: the thread that writes, flushes
and finalizes, the upload threads it detaches, and the server that keeps the
parts. A step of the writer reads or writes at most one variable that it shares
with the upload threads.
-/

namespace HaybarnHttpfs.S3MultiPartUpload

open HaybarnHttpfs.Foundation.ByteStrings HaybarnHttpfs.Foundation.Memory
open HaybarnHttpfs.BufferedRead (idxSub)

universe u

variable {β : Type u}

structure S3ConfigParams where
  partSize : Nat
  maxUploadThreads : Nat
  kmsKeyId : Bytes := []
  /-- `http_retries`. -/
  retries : Nat := 3

structure S3WriteBuffer (β : Type u) where
  partNo : Nat
  idx : Nat := 0
  bufferStart : Nat
  buffer : Cells β := blank
  uploading : Bool := false

/-- Where an upload thread stands in `UploadBuffer`. -/
inductive Stage where
  | putting
  | insertingEtag (etag : Bytes)
  | counting
  | pushingError
  | notifying
  | finished
  deriving DecidableEq

/-- A part that was handed to an upload thread. `etag` is what the server
answered and `failed` that the request failed; `early` marks the uploads that
started before the first `Finalize` was over. -/
structure UploadThread (β : Type u) where
  partNo : Nat
  body : List (Option β)
  stage : Stage := .putting
  etag : Option Bytes := none
  failed : Bool := false
  early : Bool

/-- What `FlushBuffer` returns to: the loop of `Write` after `bytesToWrite` more
bytes, or the loop of `FlushAllBuffers`. -/
inductive Caller (β : Type u) where
  | write (location : Nat) (data : List β) (bytesWritten bytesToWrite : Nat)
  | flushAll (toFlush : List Nat)

/-- Where the writer stands. -/
inductive Pc (β : Type u) where
  | idle
  | writing (location : Nat) (data : List β) (bytesWritten : Nat)
  | waitingForSlot (buffer : S3WriteBuffer β) (caller : Caller β)
  | initializing (buffer : S3WriteBuffer β) (caller : Caller β)
  | initializingAll (toFlush : List Nat)
  | uploadingSingle (buffer : S3WriteBuffer β)
  | flushingAll (toFlush : List Nat)
  | waitingForUploads
  | flushed
  | completing (parts : List (Nat × Bytes)) (transientRetries : Nat)
  | terminated

/-- `parts` and `object` are the server's. The last fields record the run: the
bytes of the `Write` calls that returned normally, the object and these bytes at
each normal return of `Finalize`, whether a `Finalize` is over, the buffer
accesses as offset and length, and whether a completion was refused. -/
structure Upload (β : Type u) where
  fileOffset : Nat := 0
  writeBuffers : List (S3WriteBuffer β) := []
  initializedMultipartUpload : Bool := false
  uploadFinalized : Bool := false
  uploadsInProgress : Nat := 0
  partEtags : Nat → Option Bytes := fun _ => none
  partsUploaded : Nat := 0
  hasError : Bool := false
  threads : List (UploadThread β) := []
  pc : Pc β := .idle
  parts : Nat → Option (Bytes × List (Option β)) := fun _ => none
  object : Option (List (Option β)) := none
  written : List β := []
  commits : List (Option (List (Option β)) × List β) := []
  finalizeEnded : Bool := false
  accesses : List (Nat × Nat) := []
  completeRefused : Bool := false

/-- The limit of the `uint16_t` buffer indexes and counters. -/
def uint16Limit : Nat := 2 ^ 16

def findBuffer (buffers : List (S3WriteBuffer β)) (partNo : Nat) : Option (S3WriteBuffer β) :=
  buffers.find? fun b => b.partNo = partNo

def eraseBuffer (buffers : List (S3WriteBuffer β)) (partNo : Nat) : List (S3WriteBuffer β) :=
  buffers.filter fun b => b.partNo ≠ partNo

def putBuffer (buffers : List (S3WriteBuffer β)) (b : S3WriteBuffer β) :
    List (S3WriteBuffer β) :=
  b :: eraseBuffer buffers b.partNo

/-- `GetBuffer`, before the map takes in the bytes of the write. -/
def getBuffer (c : S3ConfigParams) (s : Upload β) (writeBufferIdx : Nat) : S3WriteBuffer β :=
  (findBuffer s.writeBuffers writeBufferIdx).getD
    { partNo := writeBufferIdx, bufferStart := writeBufferIdx * c.partSize }

def endFinalize (s : Upload β) : Upload β := { s with pc := .idle, finalizeEnded := true }

def returnFinalize (s : Upload β) : Upload β :=
  { endFinalize s with commits := s.commits ++ [(s.object, s.written)] }

def resume (s : Upload β) : Caller β → Upload β
  | .write location data bytesWritten bytesToWrite =>
      { s with
        fileOffset := s.fileOffset + bytesToWrite
        pc := .writing location data (bytesWritten + bytesToWrite) }
  | .flushAll toFlush => { s with pc := .flushingAll toFlush }

/-- An exception out of `FlushBuffer` leaves `Write` or `Finalize`. -/
def throwTo (s : Upload β) : Caller β → Upload β
  | .write _ _ _ _ => { s with pc := .idle }
  | .flushAll _ => endFinalize s

/-- `FlushBuffer` up to the erasure of the buffer from the map. -/
def flushBuffer (s : Upload β) (b : S3WriteBuffer β) (caller : Caller β) : Upload β :=
  if b.idx = 0 then resume s caller
  else if b.uploading then resume s caller
  else
    let b := { b with uploading := true }
    -- `RethrowIOError` comes before the erasure, so the buffer stays in the map
    if s.hasError then throwTo { s with writeBuffers := putBuffer s.writeBuffers b } caller
    else
      { s with
        writeBuffers := eraseBuffer s.writeBuffers b.partNo
        pc := .waitingForSlot b caller }

/-- One iteration of the loop of `Write`. -/
def writeChunk (c : S3ConfigParams) (s : Upload β) (location : Nat) (data : List β)
    (bytesWritten : Nat) : Upload β :=
  let currLocation := location + bytesWritten
  -- only a write at the end of the file is supported
  if currLocation ≠ s.fileOffset then { s with pc := .idle }
  else
    let b := getBuffer c s (currLocation / c.partSize % uint16Limit)
    let idxToWrite := idxSub currLocation b.bufferStart
    let bytesToWrite := min (data.length - bytesWritten) (idxSub c.partSize idxToWrite)
    let b := { b with
      buffer := store b.buffer idxToWrite (slice data bytesWritten bytesToWrite)
      idx := b.idx + bytesToWrite }
    let s := { s with
      writeBuffers := putBuffer s.writeBuffers b
      accesses := s.accesses ++ [(idxToWrite, bytesToWrite)] }
    let caller := .write location data bytesWritten bytesToWrite
    if b.idx ≥ c.partSize then flushBuffer s b caller else resume s caller

/-- The thread that runs `UploadBuffer` on the buffer, which nobody writes any
more. -/
def uploadThread (s : Upload β) (b : S3WriteBuffer β) : UploadThread β :=
  { partNo := b.partNo, body := load b.buffer 0 b.idx, early := !s.finalizeEnded }

def spawnUpload (s : Upload β) (b : S3WriteBuffer β) (caller : Caller β) : Upload β :=
  resume { s with
    threads := s.threads ++ [uploadThread s b]
    accesses := s.accesses ++ [(0, b.idx)] } caller

def acquireSlot (s : Upload β) (b : S3WriteBuffer β) (caller : Caller β) : Upload β :=
  let s := { s with uploadsInProgress := (s.uploadsInProgress + 1) % uint16Limit }
  if s.initializedMultipartUpload then spawnUpload s b caller
  else { s with pc := .initializing b caller }

/-- The parts that `FinalizeMultipartUpload` lists; `none` is the unknown part
number. -/
def completeBody (partEtags : Nat → Option Bytes) (parts : Nat) : Option (List (Nat × Bytes)) :=
  (List.range parts).mapM fun i => (partEtags i).map fun etag => (i + 1, etag)

def finalizeMultipartUpload (s : Upload β) : Upload β :=
  if s.uploadFinalized then returnFinalize s
  else
    let s := { s with uploadFinalized := true }
    match completeBody s.partEtags s.partsUploaded with
    | none => endFinalize s
    | some parts => { s with pc := .completing parts 0 }

/-- The next step of the writer, if it waits for no answer. -/
def writerStep (c : S3ConfigParams) (s : Upload β) : Option (Upload β) :=
  match s.pc with
  | .writing location data bytesWritten =>
      if bytesWritten < data.length then some (writeChunk c s location data bytesWritten)
      else some { s with pc := .idle, written := s.written ++ data }
  | .waitingForSlot b caller =>
      -- the wait for a free upload thread
      if s.uploadsInProgress ≥ c.maxUploadThreads then none
      else some (acquireSlot s b caller)
  | .flushingAll [] => some { s with pc := .waitingForUploads }
  | .flushingAll (partNo :: toFlush) =>
      match findBuffer s.writeBuffers partNo with
      | none => some { s with pc := .flushingAll toFlush }
      | some b =>
          if b.uploading then some { s with pc := .flushingAll toFlush }
          else some (flushBuffer s b (.flushAll toFlush))
  | .waitingForUploads =>
      if s.uploadsInProgress ≠ 0 then none
      else if s.hasError then some (endFinalize s)
      else some { s with pc := .flushed }
  | .flushed =>
      if s.partsUploaded = 0 then some (returnFinalize s)
      else some (finalizeMultipartUpload s)
  | _ => none

/-- `Finalize` up to its first request; `toFlush` is the order in which the map
lists its buffers. -/
def finalize (c : S3ConfigParams) (s : Upload β) (toFlush : List Nat) : Option (Upload β) :=
  if s.uploadFinalized then some (returnFinalize s)
  else if toFlush.Perm (s.writeBuffers.map (·.partNo)) then
    if s.initializedMultipartUpload then some { s with pc := .flushingAll toFlush }
    else
      -- a single buffer is put as one object, unless there is a KMS key
      match s.writeBuffers with
      | [b] =>
          if c.kmsKeyId.isEmpty then
            some { s with
              pc := .uploadingSingle b
              accesses := s.accesses ++ [(0, b.idx)] }
          else some { s with pc := .initializingAll toFlush }
      | _ => some { s with pc := .initializingAll toFlush }
  else none

def notifyUploadsInProgress (s : Upload β) : Upload β :=
  { s with uploadsInProgress := s.uploadsInProgress - 1 }

/-- The answer to the initiate request. -/
def initialized (s : Upload β) (ok : Bool) : Option (Upload β) :=
  match s.pc with
  | .initializing b caller =>
      if ok then some (spawnUpload { s with initializedMultipartUpload := true } b caller)
      else some (throwTo (notifyUploadsInProgress s) caller)
  | .initializingAll toFlush =>
      if ok then
        some { s with initializedMultipartUpload := true, pc := .flushingAll toFlush }
      else some (endFinalize s)
  | _ => none

/-- A request that fails may still have taken effect. -/
inductive Reply where
  | ok
  | failed (tookEffect : Bool)
  deriving DecidableEq

def singleUploaded (s : Upload β) (reply : Reply) : Option (Upload β) :=
  match s.pc with
  | .uploadingSingle b =>
      let body := load b.buffer 0 b.idx
      match reply with
      | .ok => some (returnFinalize { s with object := some body, uploadFinalized := true })
      | .failed tookEffect =>
          some (endFinalize { s with object := if tookEffect then some body else s.object })
  | _ => none

/-- The object that the server assembles, if it holds every part listed. -/
def assemble (stored : Nat → Option (Bytes × List (Option β))) (parts : List (Nat × Bytes)) :
    Option (List (Option β)) :=
  (parts.mapM fun (partNumber, etag) =>
    match stored (partNumber - 1) with
    | some (etag', body) => if etag' = etag then some body else none
    | none => none).map List.flatten

inductive CompleteReply where
  | completed
  | internalError
  | failed (tookEffect : Bool)
  deriving DecidableEq

def refuseCompletion (s : Upload β) : Upload β :=
  endFinalize { s with completeRefused := true }

def completed (c : S3ConfigParams) (s : Upload β) (reply : CompleteReply) :
    Option (Upload β) :=
  match s.pc with
  | .completing parts transientRetries =>
      match reply, assemble s.parts parts with
      | .completed, some object => some (returnFinalize { s with object := some object })
      -- a server that misses a part listed does not answer so
      | .completed, none => none
      | .internalError, _ =>
          if transientRetries < c.retries then
            some { s with pc := .completing parts (transientRetries + 1) }
          else some (refuseCompletion s)
      | .failed true, some object => some (endFinalize { s with object := some object })
      | .failed _, _ => some (refuseCompletion s)
  | _ => none

def setThread (s : Upload β) (k : Nat) (thread : UploadThread β) : Upload β :=
  { s with threads := s.threads.set k thread }

inductive PartReply where
  | uploaded (etag : Bytes)
  | failed (stored : Option Bytes)
  deriving DecidableEq

def storePart (s : Upload β) (thread : UploadThread β) (etag : Bytes) : Upload β :=
  { s with parts := Function.update s.parts thread.partNo (some (etag, thread.body)) }

/-- The answer to the request of an upload thread. -/
def partUploaded (s : Upload β) (k : Nat) (reply : PartReply) : Option (Upload β) :=
  match s.threads[k]? with
  | none => none
  | some thread =>
      if thread.stage ≠ .putting then none
      else
        match reply with
        | .uploaded etag =>
            some (setThread (storePart s thread etag) k
              { thread with stage := .insertingEtag etag, etag := some etag })
        | .failed stored =>
            let s := match stored with
              | some etag => storePart s thread etag
              | none => s
            some (setThread s k { thread with stage := .pushingError, failed := true })

/-- The next step of an upload thread, if it waits for no answer. -/
def threadStep (s : Upload β) (k : Nat) : Option (Upload β) :=
  match s.threads[k]? with
  | none => none
  | some thread =>
      match thread.stage with
      | .putting => none
      | .insertingEtag etag =>
          -- `insert` keeps a tag that is there
          let partEtags := if (s.partEtags thread.partNo).isSome then s.partEtags
            else Function.update s.partEtags thread.partNo (some etag)
          some (setThread { s with partEtags } k { thread with stage := .counting })
      | .counting =>
          some (setThread { s with partsUploaded := (s.partsUploaded + 1) % uint16Limit } k
            { thread with stage := .notifying })
      | .pushingError =>
          some (setThread { s with hasError := true } k { thread with stage := .notifying })
      | .notifying =>
          -- an exception out of a detached thread
          if s.uploadsInProgress = 0 then some { s with pc := .terminated }
          else some (setThread (notifyUploadsInProgress s) k { thread with stage := .finished })
      | .finished => none

inductive Label (β : Type u) where
  | write (location : Nat) (data : List β)
  | finalize (toFlush : List Nat)
  | writer
  | initialized (ok : Bool)
  | singleUploaded (reply : Reply)
  | completed (reply : CompleteReply)
  | partUploaded (k : Nat) (reply : PartReply)
  | thread (k : Nat)

/-- `finalize` is `FileSync`, `Close` or the destructor of the handle. -/
def step (c : S3ConfigParams) (s : Upload β) : Label β → Option (Upload β)
  | .write location data =>
      match s.pc with
      | .idle => some { s with pc := .writing location data 0 }
      | _ => none
  | .finalize toFlush =>
      match s.pc with
      | .idle => finalize c s toFlush
      | _ => none
  | .writer => writerStep c s
  | .initialized ok => initialized s ok
  | .singleUploaded reply => singleUploaded s reply
  | .completed reply => completed c s reply
  | .partUploaded k reply => partUploaded s k reply
  | .thread k => threadStep s k

end HaybarnHttpfs.S3MultiPartUpload
