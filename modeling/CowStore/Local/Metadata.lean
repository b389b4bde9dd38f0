import CowStore.Lib.Timeline
import CowStore.Local.Stream
import CowStore.Tree.Empty
import Mathlib.Data.Prod.Lex

/-!
# The metadata plane

The state of the metadata plane, and the operations on block devices: a device is a list
of roots, one for each shard, and every change of the roots is a commit on its timeline.
Identifiers are counted up from one.  The counters of the identifiers are `u128` in the
source and are not checked there; they are naturals here.
-/

namespace CowStore.Local

open Lib Object Tree StorageError

inductive MappingOwner
  | blockDevice (deviceId : Nat)
  | nativeKeyspace (keyspaceId : Nat)
  deriving DecidableEq, Repr

structure DeviceHead where
  deviceId : Nat
  generation : Nat
  shardRoots : List Nat
  latestCommit : Nat
  deriving DecidableEq, Repr

structure KeyspaceHead where
  keyspaceId : Nat
  generation : Nat
  shardRoots : List Nat
  fileCount : Nat
  latestCommit : Nat
  deriving DecidableEq, Repr

structure FileHead where
  fileId : Nat
  version : Nat
  root : Nat
  size : Nat
  latestCommit : Nat
  deriving DecidableEq, Repr

structure KeyspaceFile where
  name : Option String
  head : FileHead
  deriving DecidableEq, Repr

structure KeyspaceCatalogShard where
  shardId : Nat
  files : Table Nat KeyspaceFile
  deriving DecidableEq

structure KeyspaceRoot where
  rootId : Nat
  shardRoots : List Nat
  fileCount : Nat
  deriving DecidableEq, Repr

inductive RootUpdate
  | blockShard (shardId oldRoot newRoot : Nat)
  | fileCreated (fileId newRoot newSize : Nat)
  | fileRoot (fileId oldRoot newRoot newSize : Nat)
  deriving DecidableEq, Repr

structure CommitGroup where
  commitGroup : Nat
  commitSeq : Nat
  owner : MappingOwner
  updates : List RootUpdate
  deriving DecidableEq, Repr

structure ShardCommit where
  commitSeq : Nat
  commitGroup : Nat
  time : Nat
  deviceId : Nat
  shardId : Nat
  oldRoot : Nat
  newRoot : Nat
  deriving DecidableEq, Repr

structure KeyspaceCommit where
  commitSeq : Nat
  commitGroup : Nat
  time : Nat
  keyspaceId : Nat
  shardIndex : Nat
  oldShard : Nat
  newShard : Nat
  oldFileCount : Nat
  newFileCount : Nat
  deriving DecidableEq, Repr

structure FileCommit where
  commitSeq : Nat
  commitGroup : Nat
  time : Nat
  keyspaceId : Nat
  fileId : Nat
  oldRoot : Option Nat
  newRoot : Nat
  oldVersion : Option Nat
  newVersion : Nat
  oldSize : Nat
  newSize : Nat
  deriving DecidableEq, Repr

structure ForkRecord where
  commitSeq : Nat
  source : Nat
  target : Nat
  shardRoots : List Nat
  deriving DecidableEq, Repr

structure DeleteRecord where
  commitSeq : Nat
  time : Nat
  deviceId : Nat
  shardRoots : List Nat
  deriving DecidableEq, Repr

inductive CheckpointRoots
  | blockShard (roots : List Nat)
  | nativeKeyspace (root : Nat)
  deriving DecidableEq, Repr

structure Checkpoint where
  checkpointId : Nat
  commitSeq : Nat
  time : Nat
  owner : MappingOwner
  roots : CheckpointRoots
  deriving DecidableEq, Repr

inductive RestorePoint
  | commit (commitSeq : Nat)
  | checkpoint (checkpointId : Nat)
  | time (time : Nat)
  deriving DecidableEq, Repr

structure DeviceInfo where
  deviceId : Nat
  generation : Nat
  spec : DeviceSpec
  latestCommit : Nat
  deriving DecidableEq, Repr

structure MetadataInner where
  nextDeviceId : Nat
  nextKeyspaceId : Nat
  nextFileId : Nat
  nextKeyspaceRootId : Nat
  nextKeyspaceCatalogShardId : Nat
  nextCommitGroupId : Nat
  nextCommitSeq : Nat
  nextCheckpointId : Nat
  nextGcEpoch : Nat
  deviceHeads : Table Nat DeviceHead
  deletedDeviceHeads : Table Nat DeviceHead
  deviceSpecs : Table Nat DeviceSpec
  keyspaceHeads : Table Nat KeyspaceHead
  keyspaceRoots : Table Nat KeyspaceRoot
  keyspaceCatalogShards : Table Nat KeyspaceCatalogShard
  fileWriterEpochs : Table (Nat × Nat) Nat
  appendStreams : Table Nat AppendStreamState
  appendPublishInFlight : Table Nat AppendPublishInFlight
  nodes : NodeStore
  commitGroups : Table Nat CommitGroup
  shardCommits : List ShardCommit
  keyspaceCommits : List KeyspaceCommit
  fileCommits : List FileCommit
  forkRecords : Table Nat ForkRecord
  deleteRecords : Table Nat DeleteRecord
  checkpoints : Table Nat Checkpoint
  metadataLastMarkEpoch : Table Nat Nat
  segmentLastMarkEpoch : Table Nat Nat

namespace MetadataInner

def new : MetadataInner where
  nextDeviceId := 1
  nextKeyspaceId := 1
  nextFileId := 1
  nextKeyspaceRootId := 1
  nextKeyspaceCatalogShardId := 1
  nextCommitGroupId := 1
  nextCommitSeq := 1
  nextCheckpointId := 1
  nextGcEpoch := 1
  deviceHeads := ∅
  deletedDeviceHeads := ∅
  deviceSpecs := ∅
  keyspaceHeads := ∅
  keyspaceRoots := ∅
  keyspaceCatalogShards := ∅
  fileWriterEpochs := ∅
  appendStreams := ∅
  appendPublishInFlight := ∅
  nodes := ⟨1, ∅⟩
  commitGroups := ∅
  shardCommits := []
  keyspaceCommits := []
  fileCommits := []
  forkRecords := ∅
  deleteRecords := ∅
  checkpoints := ∅
  metadataLastMarkEpoch := ∅
  segmentLastMarkEpoch := ∅

end MetadataInner

abbrev MetadataOp (α : Type) := EStateM StorageError MetadataInner α

def onNodes {α : Type} (x : NodeOp α) : MetadataOp α :=
  zoom MetadataInner.nodes (fun s nodes => { s with nodes }) x

/-! ## Identifiers and records -/

def allocDeviceId : MetadataOp Nat := do
  let s ← get
  set { s with nextDeviceId := s.nextDeviceId + 1 }
  return s.nextDeviceId

def reserveDeviceIdAtLeastAfter (deviceId : Nat) : MetadataOp Unit := do
  let s ← get
  if deviceId ≥ s.nextDeviceId then
    failIf (deviceId + 1 ≥ u128Bound) (conflict "device id overflow")
    set { s with nextDeviceId := deviceId + 1 }
  else
    return ()

def allocCommitSeq : MetadataOp Nat := do
  let s ← get
  failIf (s.nextCommitSeq + 1 ≥ u64Bound) (conflict "commit sequence overflow")
  set { s with nextCommitSeq := s.nextCommitSeq + 1 }
  return s.nextCommitSeq

def allocCommitGroupId : MetadataOp Nat := do
  let s ← get
  set { s with nextCommitGroupId := s.nextCommitGroupId + 1 }
  return s.nextCommitGroupId

def insertCheckpoint (owner : MappingOwner) (commitSeq : Nat) (roots : CheckpointRoots) :
    MetadataOp Nat := do
  let s ← get
  let checkpointId := s.nextCheckpointId
  set { s with
    nextCheckpointId := checkpointId + 1
    checkpoints := s.checkpoints.insert checkpointId
      ⟨checkpointId, commitSeq, commitSeq, owner, roots⟩ }
  return checkpointId

def deviceNotFound (deviceId : Nat) : StorageError := notFound "device" (toString deviceId)

def DeviceHead.validate (head : DeviceHead) (expectedShardCount : Nat) : Result Unit := do
  failIf (expectedShardCount = 0)
    (invalidArgument "expected shard count must be greater than zero")
  failIf (head.shardRoots.length ≠ expectedShardCount)
    (invalidArgument ("device head has " ++ toString head.shardRoots.length ++
      " shard roots, expected " ++ toString expectedShardCount))

def insertDevice (spec : DeviceSpec) (head : DeviceHead) : MetadataOp Unit := do
  modify fun s => { s with
    deviceSpecs := s.deviceSpecs.insert head.deviceId spec
    deviceHeads := s.deviceHeads.insert head.deviceId head }
  let _ ← insertCheckpoint (.blockDevice head.deviceId) head.latestCommit
    (.blockShard head.shardRoots)

namespace MetadataInner

def getHead (s : MetadataInner) (deviceId : Nat) : Result DeviceHead :=
  orFail (s.deviceHeads.lookup deviceId) (deviceNotFound deviceId)

def deviceInfo (s : MetadataInner) (deviceId : Nat) : Result DeviceInfo := do
  let head ← s.getHead deviceId
  let spec ← orFail (s.deviceSpecs.lookup deviceId) (corrupt "device head exists without spec")
  return ⟨deviceId, head.generation, spec, head.latestCommit⟩

end MetadataInner

/-! ## New devices -/

def createShard (config : LocalStoreConfig) (logicalBlocks shard : Nat) : MetadataOp Nat := do
  let startBlocks ← checkedMul logicalBlocks shard (invalidArgument "shard start overflows")
  let endBlocks ← checkedMul logicalBlocks (shard + 1) (invalidArgument "shard end overflows")
  let start := startBlocks / config.shardCount
  let stop := endBlocks / config.shardCount
  onNodes (createEmptyTree config.metadataFanout config.metadataLeafBlocks ⟨start, stop - start⟩)

def createDevice (config : LocalStoreConfig) (spec : DeviceSpec) : MetadataOp DeviceHead := do
  config.validate
  spec.validate
  failIf (spec.logicalBlocks < config.shardCount)
    (invalidArgument "logical_blocks must be at least shard_count")
  let deviceId ← allocDeviceId
  let shardRoots ← (List.range config.shardCount).mapM (createShard config spec.logicalBlocks)
  let head : DeviceHead := ⟨deviceId, 0, shardRoots, 0⟩
  head.validate config.shardCount
  insertDevice spec head
  return head

def forkTarget (target : Option Nat) : MetadataOp Nat := do
  match target with
  | some target => do
    let s ← get
    failIf (target ∈ s.deviceHeads ∨ target ∈ s.deletedDeviceHeads)
      (conflict "target device already exists")
    reserveDeviceIdAtLeastAfter target
    return target
  | none => allocDeviceId

def forkDevice (config : LocalStoreConfig) (source : Nat) (target : Option Nat) :
    MetadataOp DeviceHead := do
  let s ← get
  let sourceHead ← s.getHead source
  let sourceSpec ← orFail (s.deviceSpecs.lookup source)
    (corrupt "source device head exists without spec")
  let target ← forkTarget target
  let latestCommit ← allocCommitSeq
  let head : DeviceHead := ⟨target, 0, sourceHead.shardRoots, latestCommit⟩
  head.validate config.shardCount
  modify fun s => { s with
    forkRecords := s.forkRecords.insert latestCommit
      ⟨latestCommit, source, target, sourceHead.shardRoots⟩ }
  insertDevice sourceSpec head
  return head

def deleteDevice (deviceId : Nat) : MetadataOp Nat := do
  let s ← get
  let head ← s.getHead deviceId
  let commitSeq ← allocCommitSeq
  modify fun s => { s with
    deviceHeads := s.deviceHeads.erase deviceId
    deletedDeviceHeads := s.deletedDeviceHeads.insert deviceId
      { head with latestCommit := commitSeq }
    deleteRecords := s.deleteRecords.insert commitSeq
      ⟨commitSeq, commitSeq, deviceId, head.shardRoots⟩ }
  return commitSeq

def checkpoint (deviceId : Nat) : MetadataOp Nat := do
  let s ← get
  let head ← s.getHead deviceId
  insertCheckpoint (.blockDevice deviceId) head.latestCommit (.blockShard head.shardRoots)

/-! ## Restoring -/

def Checkpoint.blockRoots (checkpoint : Checkpoint) : Result (List Nat) :=
  match checkpoint.roots with
  | .blockShard roots => .ok roots
  | .nativeKeyspace _ =>
    .error (invalidArgument "checkpoint does not contain block shard roots")

def replayShardCommit (roots : List Nat) (commit : ShardCommit) : Result (List Nat) := do
  failIf (commit.shardId ≥ roots.length)
    (corrupt "shard commit references shard outside root set")
  failIf (roots[commit.shardId]? ≠ some commit.oldRoot)
    (corrupt "shard commit old_root does not match replay state")
  return roots.set commit.shardId commit.newRoot

namespace MetadataInner

variable (s : MetadataInner)

def shardCommitsForDevice (deviceId : Nat) : List ShardCommit :=
  (s.shardCommits.filter (·.deviceId = deviceId)).insertionSort
    fun a b => toLex (a.commitSeq, a.shardId) ≤ toLex (b.commitSeq, b.shardId)

def latestCheckpointAtOrBefore (owner : MappingOwner) (commitSeq : Nat) : Option Checkpoint :=
  maxByKey (·.commitSeq) (s.checkpoints.values.filter
    fun checkpoint => checkpoint.owner = owner ∧ checkpoint.commitSeq ≤ commitSeq)

def replayDeviceRoots (deviceId commitSeq : Nat) : Result (List Nat) := do
  let checkpoint ← orFail (s.latestCheckpointAtOrBefore (.blockDevice deviceId) commitSeq)
    (notFound "checkpoint" (toString deviceId))
  let roots ← checkpoint.blockRoots
  ((s.shardCommitsForDevice deviceId).filter
    fun commit => checkpoint.commitSeq < commit.commitSeq ∧ commit.commitSeq ≤ commitSeq).foldlM
    replayShardCommit roots

def deviceTimelineContainsCommit (deviceId commitSeq : Nat) : Bool :=
  s.checkpoints.values.any (fun checkpoint =>
      checkpoint.owner = .blockDevice deviceId ∧ checkpoint.commitSeq = commitSeq) ||
    s.shardCommits.any fun commit => commit.deviceId = deviceId ∧ commit.commitSeq = commitSeq

def restoreCandidates (deviceId time : Nat) : List (Nat × Bool) :=
  (s.checkpoints.values.filter (fun checkpoint =>
    checkpoint.owner = .blockDevice deviceId ∧ checkpoint.time ≤ time)).map (·.commitSeq, false) ++
  (s.shardCommits.filter (fun commit =>
    commit.deviceId = deviceId ∧ commit.time ≤ time)).map (·.commitSeq, false) ++
  (s.deleteRecords.values.filter (fun record =>
    record.deviceId = deviceId ∧ record.time ≤ time)).map (·.commitSeq, true)

def targetCommitForRestore (deviceId : Nat) : RestorePoint → Result Nat
  | .commit commitSeq =>
    if s.deviceTimelineContainsCommit deviceId commitSeq then
      .ok commitSeq
    else
      .error (notFound "commit" (toString commitSeq))
  | .checkpoint checkpointId => do
    let checkpoint ← orFail (s.checkpoints.lookup checkpointId)
      (notFound "checkpoint" (toString checkpointId))
    failIf (checkpoint.owner ≠ .blockDevice deviceId)
      (invalidArgument "checkpoint does not belong to source device")
    return checkpoint.commitSeq
  | .time time => do
    let (commitSeq, isDelete) ← orFail
      (maxByKey (fun candidate => toLex candidate) (s.restoreCandidates deviceId time))
      (notFound "restore_time" (toString time))
    failIf isDelete (notFound "restore_time" (toString time ++ " is after device deletion"))
    return commitSeq

end MetadataInner

def restoreDevice (config : LocalStoreConfig) (source : Nat) (point : RestorePoint) :
    MetadataOp DeviceHead := do
  let s ← get
  let sourceSpec ← orFail (s.deviceSpecs.lookup source) (deviceNotFound source)
  let targetCommit ← s.targetCommitForRestore source point
  let shardRoots ← s.replayDeviceRoots source targetCommit
  checkEach (fun root => failIf (root ∉ s.nodes.metadataNodes)
    (notFound "metadata_node" (toString root))) shardRoots
  let target ← allocDeviceId
  let latestCommit ← allocCommitSeq
  let head : DeviceHead := ⟨target, 0, shardRoots, latestCommit⟩
  head.validate config.shardCount
  insertDevice sourceSpec head
  return head

/-! ## Commits -/

/-- One update of the shard roots: it must name the root that it replaces, and a node. -/
def applyShardUpdate (nodes : NodeStore) (roots : List Nat) (update : RootUpdate) :
    Result (List Nat) :=
  match update with
  | .blockShard shardId oldRoot newRoot => do
    failIf (shardId ≥ roots.length) (invalidArgument "shard update is outside device root set")
    failIf (roots[shardId]? ≠ some oldRoot) (conflict "stale shard root")
    failIf (newRoot ∉ nodes.metadataNodes) (notFound "metadata_node" (toString newRoot))
    return roots.set shardId newRoot
  | _ => .error (invalidArgument "block device commit cannot include file-root updates")

def shardCommitOf (deviceId commitSeq commitGroup : Nat) : RootUpdate → Option ShardCommit
  | .blockShard shardId oldRoot newRoot =>
    some ⟨commitSeq, commitGroup, commitSeq, deviceId, shardId, oldRoot, newRoot⟩
  | _ => none

/-- The updates of a device's shard roots become visible together. -/
def publishShardRoots (deviceId : Nat) (updates : List RootUpdate) : MetadataOp CommitGroup := do
  let s ← get
  let current ← s.getHead deviceId
  failIf (updates = []) (invalidArgument "commit group must include at least one root update")
  let nextRoots ← (updates.foldlM (applyShardUpdate s.nodes) current.shardRoots :
    Result (List Nat))
  let commitSeq ← allocCommitSeq
  let commitGroup ← allocCommitGroupId
  let group : CommitGroup := ⟨commitGroup, commitSeq, .blockDevice deviceId, updates⟩
  modify fun s => { s with
    shardCommits := s.shardCommits ++ updates.filterMap (shardCommitOf deviceId commitSeq commitGroup) }
  failIf (current.generation + 1 ≥ u64Bound) (conflict "device generation overflow")
  modify fun s => { s with
    deviceHeads := s.deviceHeads.insert deviceId
      { current with
        generation := current.generation + 1
        latestCommit := commitSeq
        shardRoots := nextRoots }
    commitGroups := s.commitGroups.insert commitGroup group }
  return group

end CowStore.Local
