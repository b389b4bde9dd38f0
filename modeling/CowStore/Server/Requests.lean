import CowStore.Local.AppendPublish
import CowStore.Server.Handle

/-!
# The requests of the block server and of the native server

What the servers execute: the requests, the stripes that their calls lock, and the operations
of the coordinator that answer them.  An operation of the coordinator is one step here.
-/

namespace CowStore.Server

open Lib Object Local StorageError

def serverLockStripes : Nat := 64

def stripeForRaw (raw : Nat) : Nat := raw % serverLockStripes

def runOp {α : Type} (x : Op α) (s : Coordinator) : Result α × Coordinator :=
  match x s with
  | .ok a s' => (.ok a, s')
  | .error e s' => (.error e, s')

structure FlushResult where
  deviceId : Nat
  durableThrough : Nat
  deriving DecidableEq, Repr

/-! ## Blocks -/

inductive FlushScope
  | device
  | all
  deriving DecidableEq, Repr

structure CreateDeviceRequest where
  spec : DeviceSpec
  name : Option String
  deriving DecidableEq, Repr

structure ForkRequest where
  target : Option Nat
  name : Option String
  deriving DecidableEq, Repr

inductive BlockRequest
  | create (request : CreateDeviceRequest)
  | info (deviceId : Nat)
  | read (deviceId : Nat) (range : ByteRange) (verification : ReadVerification)
  | write (deviceId offset : Nat) (bytes : List UInt8) (integrity : PayloadIntegrity)
      (durability : WriteDurability)
  | commitBatch (deviceId : Nat) (writes : List BlockBatchWrite) (durability : WriteDurability)
  | flush (deviceId : Nat) (scope : FlushScope)
  | writeZeroes (deviceId : Nat) (range : ByteRange)
  | discard (deviceId : Nat) (range : ByteRange)
  | fork (source : Nat) (request : ForkRequest)
  | restore (source : Nat) (point : RestorePoint)
  | delete (deviceId : Nat)
  deriving DecidableEq, Repr

structure DeleteResult where
  deviceId : Nat
  commitSeq : Nat
  deriving DecidableEq, Repr

inductive BlockResponse
  | created (deviceId : Nat)
  | info (info : DeviceInfo)
  | read (bytes : List UInt8)
  | write (commit : WriteCommit)
  | batchCommitted (commit : BlockBatchCommit)
  | flush (result : FlushResult)
  | forked (deviceId : Nat)
  | restored (deviceId : Nat)
  | deleted (result : DeleteResult)
  deriving DecidableEq, Repr

def BlockRequest.targetDeviceId : BlockRequest → Option Nat
  | info deviceId | read deviceId _ _ | write deviceId _ _ _ _ | commitBatch deviceId _ _
  | flush deviceId _ | writeZeroes deviceId _ | discard deviceId _ | delete deviceId => some deviceId
  | fork source _ | restore source _ => some source
  | create _ => none

def blockRequestStripe (request : BlockRequest) : Nat :=
  (request.targetDeviceId.map stripeForRaw).getD 0

section

variable (crc : List UInt8 → Nat) (config : LocalStoreConfig)

def writeDeviceWithIntegrity (deviceId offset : Nat) (data : List UInt8) (durability : WriteDurability)
    (integrity : PayloadIntegrity) : Op WriteCommit := do
  let s ← get
  let info ← s.metadata.deviceInfo deviceId
  failIf (data.length ≥ u64Bound) (invalidArgument "write byte length overflows u64")
  let range : ByteRange := ⟨offset, data.length⟩
  range.validateForDevice info.spec
  if data.length = 0 then
    return ⟨deviceId, info.latestCommit, range, durability⟩
  else
    let (commit, _) ← commitBlockBatchWithDelta crc config deviceId [⟨offset, data, integrity⟩]
      durability
    return ⟨commit.deviceId, commit.commitSeq, range, commit.durability⟩

def BlockRequest.execute : BlockRequest → Op BlockResponse
  | create request => do
    let head ← onMetadata (createDevice config request.spec)
    return .created head.deviceId
  | info deviceId => do
    let s ← get
    return .info (← s.metadata.deviceInfo deviceId)
  | read deviceId range verification => do
    let s ← get
    return .read (← s.readDeviceWithVerification crc deviceId range range.len verification)
  | write deviceId offset bytes integrity durability =>
    return .write (← writeDeviceWithIntegrity crc config deviceId offset bytes durability integrity)
  | commitBatch deviceId writes durability => do
    let (commit, _) ← commitBlockBatchWithDelta crc config deviceId writes durability
    return .batchCommitted commit
  | writeZeroes deviceId range => do
    let (commit, _) ← writeZeroesWithDelta config deviceId range.offset range.len
    return .write commit
  | discard deviceId range => do
    let (commit, _) ← discardDeviceWithDelta config deviceId range.offset range.len
    return .write commit
  | flush deviceId _ => do
    let s ← get
    let info ← s.metadata.deviceInfo deviceId
    return .flush ⟨deviceId, info.latestCommit⟩
  | fork source request => do
    let head ← onMetadata (forkDevice config source request.target)
    return .forked head.deviceId
  | restore source point => do
    let head ← onMetadata (restoreDevice config source point)
    return .restored head.deviceId
  | delete deviceId => do
    let commitSeq ← onMetadata (deleteDevice deviceId)
    return .deleted ⟨deviceId, commitSeq⟩

def serveBlock (request : BlockRequest) (s : Coordinator) : Result BlockResponse × Coordinator :=
  runOp (request.execute crc config) s

end

/-- `LocalBlockServer`. -/
def blockService : Service BlockRequest BlockResponse BlockRequest fun _ => Result BlockResponse where
  kind := "block"
  stripe := blockRequestStripe
  program request := do
    let result ← Script.request request
    liftM result

/-! ## Keyspaces and files -/

inductive NativeRequest
  | createKeyspace (name : Option String)
  | keyspaceInfo (keyspaceId : Nat)
  | createFile (keyspaceId : Nat) (name : Option String)
  | fileInfo (keyspaceId fileId : Nat)
  | read (keyspaceId fileId : Nat) (range : ByteRange) (verification : ReadVerification)
  | commitFileBatch (keyspaceId fileId : Nat) (writes : List FileBatchWrite)
      (integrity : PayloadIntegrity) (durability : WriteDurability)
  | openAppendStream (keyspaceId fileId : Nat)
  | appendStream (keyspaceId fileId : Nat) (stream : AppendStream) (bytes : List UInt8)
      (integrity : PayloadIntegrity)
  | submitAppendPublish (keyspaceId fileId : Nat) (stream : AppendStream) (publishThrough : Nat)
  | waitAppendPublish (keyspaceId fileId : Nat) (ticket : AppendPublishTicket)
  | publishAppendStream (keyspaceId fileId : Nat) (stream : AppendStream) (publishThrough : Nat)
  | releaseAppendStream (keyspaceId fileId : Nat) (stream : AppendStream)
  | abortAppendStream (keyspaceId fileId : Nat) (stream : AppendStream)
  | flush (keyspaceId fileId : Nat)
  | checkpointKeyspace (keyspaceId : Nat)
  | snapshotKeyspace (source : Nat) (target : Option Nat) (name : Option String)
  | restoreKeyspace (source : Nat) (point : RestorePoint)
  deriving DecidableEq, Repr

structure KeyspaceInfo where
  keyspaceId : Nat
  generation : Nat
  latestCommit : Nat
  fileCount : Nat
  deriving DecidableEq, Repr

structure FileInfo where
  keyspaceId : Nat
  fileId : Nat
  size : Nat
  version : Nat
  deriving DecidableEq, Repr

inductive NativeResponse
  | keyspaceCreated (keyspaceId : Nat)
  | keyspaceInfo (info : KeyspaceInfo)
  | fileCreated (fileId : Nat)
  | fileInfo (info : FileInfo)
  | read (bytes : List UInt8)
  | fileBatchCommitted (commit : FileWriteCommit)
  | appendStreamOpened (stream : AppendStream)
  | appendTicket (ticket : AppendTicket)
  | appendPublishSubmitted (ticket : AppendPublishTicket)
  | appendPublished (commit : AppendPublishCommit)
  | appendReleased
  | appendAborted
  | flush (result : FlushResult)
  | keyspaceCheckpointed (checkpointId : Nat)
  | keyspaceSnapshotted (keyspaceId : Nat)
  | keyspaceRestored (keyspaceId : Nat)
  deriving DecidableEq, Repr

namespace NativeRequest

def targetKeyspaceId : NativeRequest → Option Nat
  | keyspaceInfo keyspaceId | createFile keyspaceId _ | fileInfo keyspaceId _ | read keyspaceId _ _ _
  | commitFileBatch keyspaceId _ _ _ _ | openAppendStream keyspaceId _
  | appendStream keyspaceId _ _ _ _ | submitAppendPublish keyspaceId _ _ _
  | waitAppendPublish keyspaceId _ _ | publishAppendStream keyspaceId _ _ _
  | releaseAppendStream keyspaceId _ _ | abortAppendStream keyspaceId _ _ | flush keyspaceId _
  | checkpointKeyspace keyspaceId => some keyspaceId
  | snapshotKeyspace source _ _ | restoreKeyspace source _ => some source
  | createKeyspace _ => none

def targetFileId : NativeRequest → Option Nat
  | fileInfo _ fileId | read _ fileId _ _ | commitFileBatch _ fileId _ _ _ | openAppendStream _ fileId
  | appendStream _ fileId _ _ _ | submitAppendPublish _ fileId _ _ | waitAppendPublish _ fileId _
  | publishAppendStream _ fileId _ _ | releaseAppendStream _ fileId _ | abortAppendStream _ fileId _
  | flush _ fileId => some fileId
  | createKeyspace _ | keyspaceInfo _ | createFile _ _ | checkpointKeyspace _
  | snapshotKeyspace _ _ _ | restoreKeyspace _ _ => none

end NativeRequest

def nativeRequestStripe (request : NativeRequest) : Nat :=
  match request.targetKeyspaceId, request.targetFileId with
  | some keyspaceId, some fileId =>
    stripeForRaw ((keyspaceId * 1099511628211 % u128Bound) ^^^ fileId)
  | some keyspaceId, none => stripeForRaw keyspaceId
  | none, _ => 0

/-- A stream has to be of the file that the request is for. -/
def streamTarget (keyspaceId fileId : Nat) (stream : AppendStream) : Result Unit :=
  failIf (keyspaceId ≠ stream.keyspaceId ∨ fileId ≠ stream.fileId)
    (invalidArgument "append stream target does not match request target")

def publishAppendStream (config : LocalStoreConfig) (stream : AppendStream) (publishThrough : Nat)
    (durability : WriteDurability) : Op AppendPublishCommit := do
  let ticket ← submitAppendPublish stream publishThrough
  waitAppendPublish config ticket durability

section

variable (crc : List UInt8 → Nat) (combine : Nat → Nat → Nat → Nat) (config : LocalStoreConfig)

def NativeRequest.execute : NativeRequest → Op NativeResponse
  | createKeyspace _ => do
    let head ← onMetadata (Local.createKeyspace config)
    return .keyspaceCreated head.keyspaceId
  | keyspaceInfo keyspaceId => do
    let s ← get
    let head ← s.metadata.getKeyspaceHead keyspaceId
    return .keyspaceInfo ⟨keyspaceId, head.generation, head.latestCommit, head.fileCount⟩
  | createFile keyspaceId name => do
    let head ← onMetadata (Local.createFile config keyspaceId name)
    return .fileCreated head.fileId
  | fileInfo keyspaceId fileId => do
    let s ← get
    let head ← s.metadata.getFileHead keyspaceId fileId
    return .fileInfo ⟨keyspaceId, fileId, head.size, head.version⟩
  | read keyspaceId fileId range verification => do
    let s ← get
    return .read (← s.readFileWithVerification crc config keyspaceId fileId range range.len verification)
  | commitFileBatch keyspaceId fileId writes integrity durability => do
    let (commit, _) ← commitFileBatchWithDelta crc config keyspaceId fileId writes durability integrity
    return .fileBatchCommitted commit
  | openAppendStream keyspaceId fileId =>
    return .appendStreamOpened (← Local.openAppendStream keyspaceId fileId)
  | appendStream keyspaceId fileId stream bytes integrity => do
    streamTarget keyspaceId fileId stream
    return .appendTicket (← appendStreamWithIntegrity crc combine stream bytes .acknowledged integrity)
  | submitAppendPublish keyspaceId fileId stream publishThrough => do
    streamTarget keyspaceId fileId stream
    return .appendPublishSubmitted (← Local.submitAppendPublish stream publishThrough)
  | waitAppendPublish keyspaceId fileId ticket => do
    failIf (keyspaceId ≠ ticket.keyspaceId ∨ fileId ≠ ticket.fileId)
      (invalidArgument "append publish target does not match ticket")
    return .appendPublished (← Local.waitAppendPublish config ticket .acknowledged)
  | publishAppendStream keyspaceId fileId stream publishThrough => do
    streamTarget keyspaceId fileId stream
    return .appendPublished (← Server.publishAppendStream config stream publishThrough .acknowledged)
  | releaseAppendStream keyspaceId fileId stream => do
    streamTarget keyspaceId fileId stream
    Local.releaseAppendStream stream
    return .appendReleased
  | abortAppendStream keyspaceId fileId stream => do
    streamTarget keyspaceId fileId stream
    Local.abortAppendStream stream
    return .appendAborted
  | flush keyspaceId fileId => do
    let s ← get
    let head ← s.metadata.getFileHead keyspaceId fileId
    return .flush ⟨fileId, head.latestCommit⟩
  | checkpointKeyspace keyspaceId =>
    return .keyspaceCheckpointed (← onMetadata (Local.checkpointKeyspace keyspaceId))
  | snapshotKeyspace source target _ => do
    let head ← onMetadata (Local.snapshotKeyspace source target)
    return .keyspaceSnapshotted head.keyspaceId
  | restoreKeyspace source point => do
    let head ← onMetadata (Local.restoreKeyspace source point)
    return .keyspaceRestored head.keyspaceId

def serveNative (request : NativeRequest) (s : Coordinator) : Result NativeResponse × Coordinator :=
  runOp (request.execute crc combine config) s

end

/-- `LocalNativeServer`. -/
def nativeService : Service NativeRequest NativeResponse NativeRequest fun _ => Result NativeResponse where
  kind := "native"
  stripe := nativeRequestStripe
  program request := do
    let result ← Script.request request
    liftM result

end CowStore.Server
