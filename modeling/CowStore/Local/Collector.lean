import CowStore.Local.AppendPublish
import CowStore.Tree.Graph

/-!
# The metadata custodian

A run of the custodian marks the nodes that the heads and the retained history reach, and
sweeps the others: their segments are released, and the timelines are cut at the retention
floor.  For every owner the floor is made a checkpoint first, so that the commits after it
can still be replayed.
-/

namespace CowStore.Local

open Lib Object Tree StorageError

structure RetentionPolicy where
  retainDeletedDevices : Bool
  deletedDeviceGraceCommits : Nat
  pitrGraceCommits : Nat
  deriving DecidableEq, Repr

/-! ## What is retained -/

namespace MetadataInner

section

variable (s : MetadataInner) (policy : RetentionPolicy)

def currentCommitSeq : Nat := s.nextCommitSeq - 1

def pitrRetentionFloor : Option Nat :=
  if policy.pitrGraceCommits > 0 then
    some (s.currentCommitSeq - (policy.pitrGraceCommits - 1))
  else none

def retainPitrCommit (commitSeq : Nat) : Bool :=
  policy.pitrGraceCommits > 0 ∧ s.currentCommitSeq - commitSeq < policy.pitrGraceCommits

def retainDeletedDevice (deviceId : Nat) : Bool :=
  match s.deletedDeviceHeads.lookup deviceId with
  | none => false
  | some head => policy.retainDeletedDevices ||
    s.currentCommitSeq - head.latestCommit < policy.deletedDeviceGraceCommits

def ownerHasRetainedPitr (owner : MappingOwner) : Bool :=
  decide (policy.pitrGraceCommits > 0) &&
    match owner with
    | .blockDevice deviceId =>
      decide (deviceId ∈ s.deviceHeads) || s.retainDeletedDevice policy deviceId
    | .nativeKeyspace keyspaceId => decide (keyspaceId ∈ s.keyspaceHeads)

/-- The commit at which each device that is retained needs a checkpoint. -/
def blockPitrAnchorTargets : Table Nat Nat :=
  match s.pitrRetentionFloor policy with
  | none => ∅
  | some floor =>
    (s.deletedDeviceHeads.retain fun deviceId _ => s.retainDeletedDevice policy deviceId).mapValues
        (fun _ head => min floor head.latestCommit) ∪
      s.deviceHeads.mapValues fun _ head => min floor head.latestCommit

def keyspacePitrAnchorTargets : Table Nat Nat :=
  match s.pitrRetentionFloor policy with
  | none => ∅
  | some floor => s.keyspaceHeads.mapValues fun _ head => min floor head.latestCommit

def checkpointExists (owner : MappingOwner) (commitSeq : Nat) : Bool :=
  s.checkpoints.values.any fun checkpoint =>
    checkpoint.owner = owner ∧ checkpoint.commitSeq = commitSeq

def retainedPitrAnchor (owner : MappingOwner) : Option Checkpoint := do
  let floor ← s.pitrRetentionFloor policy
  let checkpoint ← s.latestCheckpointAtOrBefore owner floor
  s.checkpoints.lookup checkpoint.checkpointId

def retainCheckpointForPitr (checkpoint : Checkpoint) : Bool :=
  s.retainPitrCommit policy checkpoint.commitSeq ||
    (s.retainedPitrAnchor policy checkpoint.owner).any fun anchor =>
      anchor.checkpointId = checkpoint.checkpointId

def retainCheckpoint (checkpoint : Checkpoint) : Bool :=
  s.ownerHasRetainedPitr policy checkpoint.owner && s.retainCheckpointForPitr policy checkpoint

/-- Whether a commit of an owner is inside the retained history. -/
def retainCommitForPitr (owner : MappingOwner) (commitSeq : Nat) : Bool :=
  s.ownerHasRetainedPitr policy owner &&
    ((s.retainedPitrAnchor policy owner).any (fun anchor => commitSeq > anchor.commitSeq) ||
      s.retainPitrCommit policy commitSeq)

def retainShardCommitForPitr (commit : ShardCommit) : Bool :=
  s.retainCommitForPitr policy (.blockDevice commit.deviceId) commit.commitSeq

def retainKeyspaceCommitForPitr (commit : KeyspaceCommit) : Bool :=
  s.retainCommitForPitr policy (.nativeKeyspace commit.keyspaceId) commit.commitSeq

/-! ## Roots -/

def keyspaceShardMetadataRoots (shardId : Nat) : Result (List Nat) := do
  let shard ← s.keyspaceCatalogShard shardId
  return shard.files.values.map (·.head.root)

def keyspaceShardsMetadataRoots (shardRoots : List Nat) : Result (List Nat) := do
  let roots ← shardRoots.mapM s.keyspaceShardMetadataRoots
  return roots.flatten

def keyspaceMetadataRoots (rootId : Nat) : Result (List Nat) := do
  let root ← s.keyspaceRoot rootId
  s.keyspaceShardsMetadataRoots root.shardRoots

def checkpointMetadataRoots (checkpoint : Checkpoint) : Result (List Nat) :=
  match checkpoint.owner with
  | .blockDevice _ => checkpoint.blockRoots
  | .nativeKeyspace _ => do
    let root ← checkpoint.keyspaceRoot
    s.keyspaceMetadataRoots root

def rootsForGc : Result (List Nat) := do
  let deviceRoots := s.deviceHeads.values.flatMap (·.shardRoots)
  let keyspaceRoots ← s.keyspaceHeads.values.mapM fun head =>
    s.keyspaceShardsMetadataRoots head.shardRoots
  let checkpointRoots ← (s.checkpoints.values.filter (s.retainCheckpoint policy)).mapM
    s.checkpointMetadataRoots
  let shardCommitRoots := (s.shardCommits.filter (s.retainShardCommitForPitr policy)).map (·.newRoot)
  let keyspaceCommitRoots ← (s.keyspaceCommits.filter (s.retainKeyspaceCommitForPitr policy)).mapM
    fun commit => s.keyspaceShardMetadataRoots commit.newShard
  let deletedRoots := (s.deletedDeviceHeads.rows.filter
    fun row => s.retainDeletedDevice policy row.1).flatMap (·.2.shardRoots)
  let deleteRecordRoots := (s.deleteRecords.values.filter
    fun record => s.retainDeletedDevice policy record.deviceId).flatMap (·.shardRoots)
  let roots := deviceRoots ++ keyspaceRoots.flatten ++ checkpointRoots.flatten ++ shardCommitRoots ++
    keyspaceCommitRoots.flatten ++ deletedRoots ++ deleteRecordRoots
  return (roots.insertionSort (· ≤ ·)).dedup

end

end MetadataInner

/-! ## Marking -/

def sortDedup (xs : List Nat) : List Nat := (xs.insertionSort (· ≤ ·)).dedup

def collectReachable (nodes : NodeStore) (roots : List Nat) : Result (List Nat × List Nat) := do
  let seen ← search nodes.next (fun nodeId => notFound "metadata_node" (toString nodeId))
    (corrupt "metadata graph is too large")
    (roots.length + weight nodes.next nodes.metadataNodes.keys []) roots []
  return (seen.insertionSort (· ≤ ·), sortDedup (nodes.segmentsOf seen))

def ensureDeviceAnchor (target : Nat × Nat) : MetadataOp Unit := do
  let s ← get
  if s.checkpointExists (.blockDevice target.1) target.2 then
    return ()
  else
    let roots ← s.replayDeviceRoots target.1 target.2
    let _ ← insertCheckpoint (.blockDevice target.1) target.2 (.blockShard roots)

def ensureKeyspaceAnchor (target : Nat × Nat) : MetadataOp Unit := do
  let s ← get
  if s.checkpointExists (.nativeKeyspace target.1) target.2 then
    return ()
  else
    let replayed ← s.replayKeyspaceRoot target.1 target.2
    let root ← insertKeyspaceRoot replayed.shardRoots replayed.fileCount
    let _ ← insertCheckpoint (.nativeKeyspace target.1) target.2 (.nativeKeyspace root.rootId)

def ensurePitrAnchorCheckpoints (policy : RetentionPolicy) : MetadataOp Unit := do
  let s ← get
  (s.blockPitrAnchorTargets policy).rows.forM ensureDeviceAnchor
  let s ← get
  (s.keyspacePitrAnchorTargets policy).rows.forM ensureKeyspaceAnchor

def allocGcEpoch : MetadataOp Nat := do
  let s ← get
  failIf (s.nextGcEpoch + 1 ≥ u64Bound) (conflict "GC epoch overflow")
  set { s with nextGcEpoch := s.nextGcEpoch + 1 }
  return s.nextGcEpoch

structure MetadataMarkReport where
  epoch : Nat
  roots : List Nat
  metadataNodes : List Nat
  segments : List Nat
  deriving DecidableEq, Repr

def markReachableForGc (policy : RetentionPolicy) : MetadataOp MetadataMarkReport := do
  ensurePitrAnchorCheckpoints policy
  let epoch ← allocGcEpoch
  let s ← get
  let roots ← s.rootsForGc policy
  let (nodes, segments) ← collectReachable s.nodes roots
  set { s with
    metadataLastMarkEpoch := s.metadataLastMarkEpoch.insertAll nodes epoch
    segmentLastMarkEpoch := s.segmentLastMarkEpoch.insertAll segments epoch }
  return ⟨epoch, roots, nodes, segments⟩

/-! ## Sweeping -/

namespace MetadataInner

variable (s : MetadataInner) (policy : RetentionPolicy)

def expiredDevice (deviceId : Nat) : Bool :=
  deviceId ∈ s.deletedDeviceHeads ∧ ¬ s.retainDeletedDevice policy deviceId

/-- The commit of the anchor of an owner that has a target. -/
def commitCutoff (targets : Table Nat Nat) (owner : MappingOwner) (ownerId : Nat) : Option Nat :=
  if ownerId ∈ targets then (s.retainedPitrAnchor policy owner).map (·.commitSeq) else none

def keepCommit (targets : Table Nat Nat) (owner : MappingOwner) (ownerId commitSeq : Nat) : Bool :=
  (s.commitCutoff policy targets owner ownerId).any fun cutoff => commitSeq > cutoff

def prune : MetadataInner :=
  let deviceTargets := s.blockPitrAnchorTargets policy
  let keyspaceTargets := s.keyspacePitrAnchorTargets policy
  { s with
    deletedDeviceHeads := s.deletedDeviceHeads.retain fun deviceId _ =>
      ¬ s.expiredDevice policy deviceId
    deviceSpecs := s.deviceSpecs.retain fun deviceId _ => ¬ s.expiredDevice policy deviceId
    deleteRecords := s.deleteRecords.retain fun _ record =>
      ¬ s.expiredDevice policy record.deviceId
    checkpoints := s.checkpoints.retain fun _ checkpoint =>
      match checkpoint.owner with
      | .blockDevice deviceId =>
        ¬ s.expiredDevice policy deviceId ∧ s.retainCheckpoint policy checkpoint
      | .nativeKeyspace _ => s.retainCheckpoint policy checkpoint
    shardCommits := s.shardCommits.filter fun commit =>
      ¬ s.expiredDevice policy commit.deviceId ∧
        s.keepCommit policy deviceTargets (.blockDevice commit.deviceId) commit.deviceId
          commit.commitSeq
    keyspaceCommits := s.keyspaceCommits.filter fun commit =>
      s.keepCommit policy keyspaceTargets (.nativeKeyspace commit.keyspaceId) commit.keyspaceId
        commit.commitSeq
    fileCommits := s.fileCommits.filter fun commit =>
      s.keepCommit policy keyspaceTargets (.nativeKeyspace commit.keyspaceId) commit.keyspaceId
        commit.commitSeq
    forkRecords := s.forkRecords.retain fun _ record =>
      ¬ s.expiredDevice policy record.source ∧ ¬ s.expiredDevice policy record.target
    appendStreams := s.appendStreams.retain fun _ stream => stream.status = .active }

def keepNode (epoch : Nat) (reachable : List Nat) (nodeId : Nat) : Bool :=
  s.metadataLastMarkEpoch.lookup nodeId = some epoch ∨ nodeId ∈ reachable

def keepSegment (epoch : Nat) (reachable : List Nat) (segmentId : Nat) : Bool :=
  s.segmentLastMarkEpoch.lookup segmentId = some epoch ∨ segmentId ∈ reachable

def sweepNodes (epoch : Nat) (reachable : List Nat) : MetadataInner :=
  { s with
    nodes := { s.nodes with
      metadataNodes := s.nodes.metadataNodes.retain fun nodeId _ => s.keepNode epoch reachable nodeId }
    metadataLastMarkEpoch := s.metadataLastMarkEpoch.retain fun nodeId _ =>
      nodeId ∉ s.nodes.metadataNodes ∨ s.keepNode epoch reachable nodeId }

end MetadataInner

structure MetadataSweepReport where
  epoch : Nat
  deletedMetadataNodes : List Nat
  releasedSegments : List Nat
  deriving DecidableEq, Repr

def sweepUnmarkedAfterMark (policy : RetentionPolicy) (epoch : Nat) :
    MetadataOp MetadataSweepReport := do
  failIf (epoch = 0) (invalidArgument "GC epoch must be greater than zero")
  let s ← get
  failIf (epoch ≥ s.nextGcEpoch) (invalidArgument "unknown GC epoch")
  ensurePitrAnchorCheckpoints policy
  let s ← get
  let roots ← s.rootsForGc policy
  let (nodes, segments) ← collectReachable s.nodes roots
  let nodeIds := s.nodes.metadataNodes.keys
  set ((s.sweepNodes epoch nodes).prune policy)
  return ⟨epoch, (nodeIds.filter fun id => ¬ s.keepNode epoch nodes id).insertionSort (· ≤ ·),
    sortDedup ((s.nodes.segmentsOf nodeIds).filter fun id => ¬ s.keepSegment epoch segments id)⟩

/-! ## The custodian of the coordinator -/

namespace Coordinator

/-- The append logs that a node or an active stream refers to. -/
def referencedAppendRunLogs (s : Coordinator) : List (Nat × Nat) :=
  s.metadata.nodes.metadataNodes.values.flatMap MetadataNode.appendRunLogs ++
    (s.metadata.appendStreams.values.filter (·.status = .active)).flatMap fun stream =>
      stream.records.map fun record => (record.run.storageNode, record.run.logId)

def retainReachableAppendRunLogs (s : Coordinator) : Coordinator :=
  { s with
    appendRunLogs := s.appendRunLogs.retain fun key _ => s.referencedAppendRunLogs.contains key }

end Coordinator

def releaseReferencedSegment (segmentId : Nat) : SegmentOp Unit := do
  let s ← get
  let entry ← orFail (s.catalog.lookup segmentId) (segmentNotFound segmentId)
  if entry.state = .referenced then
    set { s with catalog := s.catalog.insert segmentId { entry with state := .released } }
  else
    return ()

def sweepMetadataAfterMark (policy : RetentionPolicy) (epoch : Nat) : Op MetadataSweepReport := do
  let sweep ← onMetadata (sweepUnmarkedAfterMark policy epoch)
  modify Coordinator.retainReachableAppendRunLogs
  sweep.releasedSegments.forM fun segmentId => onSegments (releaseReferencedSegment segmentId)
  return sweep

structure MetadataCustodianReport where
  mark : MetadataMarkReport
  sweep : MetadataSweepReport
  catalogReleasedSegments : List Nat
  deriving DecidableEq, Repr

def StorageNodes.releasedAmong (s : StorageNodes) (segmentIds : List Nat) : Result (List Nat) :=
  filterEach (fun segmentId => do
    let entry ← orFail (s.catalog.lookup segmentId) (segmentNotFound segmentId)
    return entry.state = .released) segmentIds

def runMetadataCustodian (policy : RetentionPolicy) : Op MetadataCustodianReport := do
  let mark ← onMetadata (markReachableForGc policy)
  let sweep ← sweepMetadataAfterMark policy mark.epoch
  let s ← get
  let released ← s.storageNodes.releasedAmong sweep.releasedSegments
  return ⟨mark, sweep, released⟩

end CowStore.Local
