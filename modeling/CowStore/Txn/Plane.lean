import CowStore.Lib.Script
import CowStore.Txn.Store

/-!
# The transactional block plane

The operations of the plane as scripts over the shared store and the counters.  Every
counter is an atomic of its own and wraps; a read takes one mutex at a time; a commit
takes all its mutexes, and so is one operation that draws its version, compares and
writes.  Between any two operations of a script other scripts run.
-/

namespace CowStore.Txn

open Lib Object Tree Local StorageError TwoPhase

inductive MetadataTxnProfilePhase
  | createDevice
  | persistNode
  | publishBlockCommit
  | checkpoint
  | fork
  | restore
  | delete
  deriving DecidableEq, Repr

structure TxnState where
  map : Table MetadataTxnKey (Entry MetadataTxnValue)
  nextEntryVersion : Nat
  nextDeviceId : Nat
  nextMetadataNodeId : Nat
  nextCommitGroupId : Nat
  nextPublicCommitSeq : Nat
  nextCheckpointId : Nat
  storageNodes : StorageNodes

/-! ## Operations -/

inductive TxnReq
  | allocDeviceId
  | allocMetadataNodeId
  | allocCommitGroupId
  | allocCheckpointId
  | allocPublicCommitSeq
  | readOne (key : MetadataTxnKey)
  /-- The part of `values` that is under one mutex. -/
  | shardValues (shard : Nat)
  | commit (phase : MetadataTxnProfilePhase) (txn : MetadataTxn)
  | writeSegment (bytes : List UInt8) (integrity : PayloadIntegrity)
  | receiptForSegment (segmentId : Nat)
  | markSegmentReferenced (segmentId : Nat)
  | readSegment (segmentId : Nat) (range : ByteRange)
  | verifySegmentPayloadForRead (segmentId : Nat) (verification : ReadVerification)

@[reducible] def TxnAns : TxnReq → Type
  | .allocDeviceId => Nat
  | .allocMetadataNodeId => Nat
  | .allocCommitGroupId => Nat
  | .allocCheckpointId => Nat
  | .allocPublicCommitSeq => Nat
  | .readOne _ => VersionedMetadataTxnValue
  | .shardValues _ => List MetadataTxnValue
  | .commit _ _ => Result Unit
  | .writeSegment _ _ => Result SegmentWriteReceipt
  | .receiptForSegment _ => Result SegmentWriteReceipt
  | .markSegmentReferenced _ => Result Unit
  | .readSegment _ _ => Result (List UInt8)
  | .verifySegmentPayloadForRead _ _ => Result Unit

namespace TxnState

def new (storageNodes : StorageNodes) : TxnState where
  map := ∅
  nextEntryVersion := 1
  nextDeviceId := 1
  nextMetadataNodeId := 1
  nextCommitGroupId := 1
  nextPublicCommitSeq := 1
  nextCheckpointId := 1
  storageNodes := storageNodes

variable (s : TxnState)

def entries : Map MetadataTxnKey MetadataTxnValue := s.map.lookup

def value (key : MetadataTxnKey) : Option MetadataTxnValue := (s.map.lookup key).map Entry.value

def readOne (key : MetadataTxnKey) : VersionedMetadataTxnValue := versioned s.entries key

def shardValues (mode : MetadataTxnMode) (shard : Nat) : List MetadataTxnValue :=
  (s.map.rows.filter fun row => mode.keyShard row.1 = shard).map (·.2.value)

/-- A commit: the new version is drawn whether or not the read set is still current. -/
def commit (txn : MetadataTxn) : Result Unit × TxnState :=
  if Current s.entries txn then
    (.ok (),
      { s with
        nextEntryVersion := s.nextEntryVersion + 1
        map := txn.writes.foldl
          (fun map write => map.insert write.1 ⟨s.nextEntryVersion % u64Bound, write.2⟩) s.map })
  else
    (.error (conflict "metadata transaction read version changed"),
      { s with nextEntryVersion := s.nextEntryVersion + 1 })

def onStorageNodes {α : Type} (op : SegmentOp α) : Result α × TxnState :=
  match op s.storageNodes with
  | .ok a storageNodes => (.ok a, { s with storageNodes })
  | .error err storageNodes => (.error err, { s with storageNodes })

end TxnState

section

-- the checksum of the `crc32c` crate, the block size of the configuration and the mode of the store
variable (crc : List UInt8 → Nat) (blockSize : Nat) (mode : MetadataTxnMode)

/-- What an operation does; `fetch_add` on an `AtomicU64` wraps. -/
def serve : (r : TxnReq) → TxnState → TxnAns r × TxnState
  | .allocDeviceId, s =>
    (s.nextDeviceId % u64Bound, { s with nextDeviceId := s.nextDeviceId + 1 })
  | .allocMetadataNodeId, s =>
    (s.nextMetadataNodeId % u64Bound, { s with nextMetadataNodeId := s.nextMetadataNodeId + 1 })
  | .allocCommitGroupId, s =>
    (s.nextCommitGroupId % u64Bound, { s with nextCommitGroupId := s.nextCommitGroupId + 1 })
  | .allocCheckpointId, s =>
    (s.nextCheckpointId % u64Bound, { s with nextCheckpointId := s.nextCheckpointId + 1 })
  | .allocPublicCommitSeq, s =>
    (s.nextPublicCommitSeq % u64Bound, { s with nextPublicCommitSeq := s.nextPublicCommitSeq + 1 })
  | .readOne key, s => (s.readOne key, s)
  | .shardValues shard, s => (s.shardValues mode shard, s)
  | .commit _ txn, s => s.commit txn
  | .writeSegment bytes integrity, s => s.onStorageNodes (writeSegment crc blockSize bytes integrity)
  | .receiptForSegment segmentId, s => (s.storageNodes.receiptForSegment segmentId, s)
  | .markSegmentReferenced segmentId, s => s.onStorageNodes (markSegmentReferenced segmentId)
  | .readSegment segmentId range, s => (s.storageNodes.readSegment segmentId range, s)
  | .verifySegmentPayloadForRead segmentId verification, s =>
    (s.storageNodes.verifySegmentPayloadForRead crc segmentId verification, s)

end

/-- A commit of the store is the commit of a transaction alone. -/
theorem entries_foldl_insert (writes : List (MetadataTxnKey × MetadataTxnValue)) (version : Nat)
    (map : Table MetadataTxnKey (Entry MetadataTxnValue)) (key : MetadataTxnKey) :
    (writes.foldl (fun map write => map.insert write.1 ⟨version, write.2⟩) map).lookup key =
      writeAll version (map.lookup) writes key := by
  induction writes generalizing map with
  | nil => rfl
  | cons write writes ih =>
    rw [List.foldl_cons, ih, writeAll, writeAll, List.foldl_cons]
    refine congrFun (congrArg (fun m => writes.foldl (TwoPhase.write version) m) (funext fun key' => ?_)) key
    rw [Table.lookup_insert_eq, TwoPhase.write, Function.update_apply]

/-! ## Scripts -/

abbrev Plane (α : Type) := Script TxnReq TxnAns StorageError α

def perform (r : TxnReq) : Plane (TxnAns r) := Script.request r

/-- The text of a key, as its `Debug` instance prints it. -/
def MetadataTxnKey.debug : MetadataTxnKey → String
  | deviceManifest deviceId => "DeviceManifest(DeviceId(" ++ toString deviceId ++ "))"
  | deviceShardHead deviceId shardId =>
    "DeviceShardHead(DeviceId(" ++ toString deviceId ++ "), ShardId(" ++ toString shardId ++ "))"
  | metadataNode nodeId => "MetadataNode(MetadataNodeId(" ++ toString nodeId ++ "))"
  | commitGroup groupId => "CommitGroup(CommitGroupId(" ++ toString groupId ++ "))"
  | shardCommit deviceId commitSeq shardId =>
    "ShardCommit(DeviceId(" ++ toString deviceId ++ "), CommitSeq(" ++ toString commitSeq ++
      "), ShardId(" ++ toString shardId ++ "))"
  | forkRecord commitSeq => "ForkRecord(CommitSeq(" ++ toString commitSeq ++ "))"
  | deleteRecord commitSeq => "DeleteRecord(CommitSeq(" ++ toString commitSeq ++ "))"
  | checkpoint checkpointId => "Checkpoint(CheckpointId(" ++ toString checkpointId ++ "))"

namespace MetadataTxnValue

def manifest? : MetadataTxnValue → Option TxnDeviceManifest
  | deviceManifest manifest => some manifest
  | _ => none

def shardHead? : MetadataTxnValue → Option TxnShardHead
  | deviceShardHead head => some head
  | _ => none

def node? : MetadataTxnValue → Option MetadataNode
  | metadataNode node => some node
  | _ => none

def shardCommit? : MetadataTxnValue → Option ShardCommit
  | shardCommit record => some record
  | _ => none

def checkpoint? : MetadataTxnValue → Option Checkpoint
  | checkpoint record => some record
  | _ => none

end MetadataTxnValue

def allocDeviceId : Plane Nat := perform .allocDeviceId

def allocMetadataNodeId : Plane Nat := perform .allocMetadataNodeId

def allocCommitGroupId : Plane Nat := perform .allocCommitGroupId

def allocCheckpointId : Plane Nat := perform .allocCheckpointId

def allocPublicCommitSeq : Plane Nat := perform .allocPublicCommitSeq

def readOne (key : MetadataTxnKey) : Plane VersionedMetadataTxnValue := perform (.readOne key)

/-- `MetadataTxnStore::values`, mutex by mutex. -/
def storeValues (mode : MetadataTxnMode) : Plane (List MetadataTxnValue) := do
  let parts ← (List.range mode.shards).mapM fun shard => perform (.shardValues shard)
  return parts.flatten

def storeCommit (phase : MetadataTxnProfilePhase) (readSet : List (MetadataTxnKey × Nat))
    (writes : List (MetadataTxnKey × MetadataTxnValue)) : Plane Unit := do
  let result ← perform (.commit phase ⟨readSet, writes⟩)
  result

/-- A key that must be there, as it goes into a read set, and its value. -/
def readRequired (key : MetadataTxnKey) : Plane ((MetadataTxnKey × Nat) × MetadataTxnValue) := do
  let read ← readOne key
  let value ← orFail read.value (notFound "metadata_key" key.debug)
  return ((key, read.version), value)

def readManifest (deviceId : Nat) : Plane ((MetadataTxnKey × Nat) × TxnDeviceManifest) := do
  let (read, value) ← readRequired (.deviceManifest deviceId)
  let manifest ← orFail value.manifest? (corrupt "device manifest key has wrong value kind")
  failIf (¬ manifest.live) (deviceNotFound deviceId)
  return (read, manifest)

def readShardHead (deviceId shardId : Nat) : Plane ((MetadataTxnKey × Nat) × TxnShardHead) := do
  let (read, value) ← readRequired (.deviceShardHead deviceId shardId)
  let head ← orFail value.shardHead? (corrupt "device shard-head key has wrong value kind")
  return (read, head)

def getMetadataNode (nodeId : Nat) : Plane MetadataNode := do
  let (_, value) ← readRequired (.metadataNode nodeId)
  orFail value.node? (corrupt "metadata node key has wrong value kind")

/-- The head of the shard at an index, which must fit a `ShardId`. -/
def readShardIndex (deviceId shard : Nat) : Plane TxnShardHead := do
  failIf (shard ≥ u32Bound) (invalidArgument "shard index overflows u32")
  let (_, head) ← readShardHead deviceId shard
  return head

def headOf (deviceId : Nat) (heads : List TxnShardHead) : DeviceHead :=
  ⟨deviceId, (heads.map TxnShardHead.generation).foldl max 0, heads.map TxnShardHead.root,
    (heads.map TxnShardHead.latestCommit).foldl max 0⟩

def getHead (deviceId : Nat) : Plane DeviceHead := do
  let (_, manifest) ← readManifest deviceId
  let heads ← (List.range manifest.shardCount).mapM (readShardIndex deviceId)
  (headOf deviceId heads).validate manifest.shardCount
  return headOf deviceId heads

def deviceSpec (deviceId : Nat) : Plane DeviceSpec := do
  let (_, manifest) ← readManifest deviceId
  return manifest.spec

def deviceInfo (deviceId : Nat) : Plane DeviceInfo := do
  let (_, manifest) ← readManifest deviceId
  let head ← getHead deviceId
  return ⟨deviceId, head.generation, manifest.spec, head.latestCommit⟩

/-! ## Nodes -/

def allocateMetadataNode (coveredRange : BlockRange) (kind : MetadataNodeKind) :
    Plane MetadataNode := do
  let nodeId ← allocMetadataNodeId
  return ⟨nodeId, coveredRange, kind⟩

def persistMetadataNode (node : MetadataNode) (segments : List SegmentDescriptor) : Plane Unit := do
  node.validate segments
  let existing ← readOne (.metadataNode node.nodeId)
  match existing.value with
  | some (.metadataNode existingNode) =>
    failIf (existingNode ≠ node) (conflict "metadata node ID already exists with different content")
  | some _ => Script.fail (corrupt "metadata node key has wrong value kind")
  | none =>
    storeCommit .persistNode [(.metadataNode node.nodeId, existing.version)]
      [(.metadataNode node.nodeId, .metadataNode node)]

/-- A new empty tree: its root, and its nodes with the root last; `fuel` bounds the depth. -/
def createEmptyTreeNodes (metadataFanout metadataLeafBlocks : Nat) :
    Nat → BlockRange → Plane (Nat × List MetadataNode)
  | 0, _ => Script.fail (corrupt "metadata tree is too deep")
  | fuel + 1, range => do
    range.validateNonEmpty
    if range.blocks ≤ metadataLeafBlocks then
      let nodeId ← allocMetadataNodeId
      let node : MetadataNode := ⟨nodeId, range, .leaf [] []⟩
      node.validate []
      return (nodeId, [node])
    else
      let childCount := min metadataFanout range.blocks
      let children ← (List.range childCount).mapM fun childIndex => do
        let childRange ← childRange range childCount childIndex
        let (child, nodes) ← createEmptyTreeNodes metadataFanout metadataLeafBlocks fuel childRange
        return ((⟨childRange, child⟩ : MetadataChild), nodes)
      let nodeId ← allocMetadataNodeId
      let node : MetadataNode := ⟨nodeId, range, .internal (children.map (·.1))⟩
      node.validate []
      return (nodeId, (children.map (·.2)).flatten ++ [node])

/-! ## Devices -/

def nodeWrite (node : MetadataNode) : MetadataTxnKey × MetadataTxnValue :=
  (.metadataNode node.nodeId, .metadataNode node)

def headWrite (deviceId shard root generation latestCommit : Nat) :
    MetadataTxnKey × MetadataTxnValue :=
  (.deviceShardHead deviceId shard, .deviceShardHead ⟨root, generation, latestCommit⟩)

def manifestWrite (deviceId : Nat) (manifest : TxnDeviceManifest) :
    MetadataTxnKey × MetadataTxnValue :=
  (.deviceManifest deviceId, .deviceManifest manifest)

def checkpointWrite (checkpointId commitSeq deviceId : Nat) (roots : List Nat) :
    MetadataTxnKey × MetadataTxnValue :=
  (.checkpoint checkpointId,
    .checkpoint ⟨checkpointId, commitSeq, commitSeq, .blockDevice deviceId, .blockShard roots⟩)

def createShardNodes (config : LocalStoreConfig) (logicalBlocks shard : Nat) :
    Plane (Nat × List MetadataNode) := do
  let startBlocks ← checkedMul logicalBlocks shard (invalidArgument "shard start overflows")
  let endBlocks ← checkedMul logicalBlocks (shard + 1) (invalidArgument "shard end overflows")
  let start := startBlocks / config.shardCount
  let stop := endBlocks / config.shardCount
  let tree ← createEmptyTreeNodes config.metadataFanout config.metadataLeafBlocks
    (stop - start + 1) ⟨start, stop - start⟩
  failIf (shard ≥ u32Bound) (invalidArgument "shard index overflows u32")
  return tree

def shardWrites (deviceId : Nat) (shards : List (Nat × List MetadataNode)) :
    List (MetadataTxnKey × MetadataTxnValue) :=
  shards.zipIdx.flatMap fun shard =>
    shard.1.2.map nodeWrite ++ [headWrite deviceId shard.2 shard.1.1 0 0]

def createDevice (config : LocalStoreConfig) (spec : DeviceSpec) : Plane DeviceHead := do
  spec.validate
  failIf (spec.logicalBlocks < config.shardCount)
    (invalidArgument "device logical blocks must cover every shard")
  let deviceId ← allocDeviceId
  let shards ← (List.range config.shardCount).mapM (createShardNodes config spec.logicalBlocks)
  let head : DeviceHead := ⟨deviceId, 0, shards.map (·.1), 0⟩
  head.validate config.shardCount
  let checkpointId ← allocCheckpointId
  storeCommit .createDevice []
    (shardWrites deviceId shards ++
      [manifestWrite deviceId ⟨spec, config.shardCount, true⟩,
        checkpointWrite checkpointId 0 deviceId (shards.map (·.1))])
  return head

def checkpoint (deviceId : Nat) : Plane Nat := do
  let head ← getHead deviceId
  let checkpointId ← allocCheckpointId
  storeCommit .checkpoint []
    [checkpointWrite checkpointId head.latestCommit deviceId head.shardRoots]
  return checkpointId

/-- The manifest and the heads of a device that starts from the roots of another. -/
def targetWrites (target : Nat) (source : TxnDeviceManifest) (roots : List Nat) (commitSeq : Nat) :
    List (MetadataTxnKey × MetadataTxnValue) :=
  manifestWrite target ⟨source.spec, source.shardCount, true⟩ ::
    roots.zipIdx.map fun root => headWrite target root.2 root.1 0 commitSeq

def forkTarget : Option Nat → Plane Nat
  | some target => return target
  | none => allocDeviceId

def forkDevice (source : Nat) (target : Option Nat) : Plane DeviceHead := do
  let (_, sourceManifest) ← readManifest source
  let sourceHead ← getHead source
  let target ← forkTarget target
  let commitSeq ← allocPublicCommitSeq
  failIf (sourceHead.shardRoots.length > u32Bound) (invalidArgument "shard index overflows u32")
  let checkpointId ← allocCheckpointId
  storeCommit .fork []
    (targetWrites target sourceManifest sourceHead.shardRoots commitSeq ++
      [(.forkRecord commitSeq, .forkRecord ⟨commitSeq, source, target, sourceHead.shardRoots⟩),
        checkpointWrite checkpointId commitSeq target sourceHead.shardRoots])
  return ⟨target, 0, sourceHead.shardRoots, commitSeq⟩

def deleteDevice (deviceId : Nat) : Plane Nat := do
  let (manifestRead, manifest) ← readManifest deviceId
  let head ← getHead deviceId
  let commitSeq ← allocPublicCommitSeq
  storeCommit .delete [manifestRead]
    [manifestWrite deviceId { manifest with live := false },
      (.deleteRecord commitSeq, .deleteRecord ⟨commitSeq, commitSeq, deviceId, head.shardRoots⟩)]
  return commitSeq

/-! ## Restoring -/

def targetCommitForRestore (source : Nat) : RestorePoint → Plane Nat
  | .commit commitSeq => return commitSeq
  | .time time => return time
  | .checkpoint checkpointId => do
    let (_, value) ← readRequired (.checkpoint checkpointId)
    let checkpoint ← orFail value.checkpoint? (corrupt "checkpoint key has wrong value kind")
    failIf (checkpoint.owner ≠ .blockDevice source)
      (invalidArgument "checkpoint does not belong to source device")
    return checkpoint.commitSeq

def replayCommit (roots : List Nat) (commit : ShardCommit) : Result (List Nat) := do
  failIf (commit.shardId ≥ roots.length) (corrupt "shard commit is outside checkpoint roots")
  return roots.set commit.shardId commit.newRoot

/-- The roots at a commit: from the last checkpoint before it, the commits after that. -/
def replayRoots (values : List MetadataTxnValue) (source targetCommit : Nat) :
    Result (List Nat) := do
  let checkpoints := (values.filterMap MetadataTxnValue.checkpoint?).filter fun checkpoint =>
    checkpoint.owner = .blockDevice source ∧ checkpoint.commitSeq ≤ targetCommit
  let commits := (values.filterMap MetadataTxnValue.shardCommit?).filter fun commit =>
    commit.deviceId = source ∧ commit.commitSeq ≤ targetCommit
  let checkpoint ← orFail (maxByKey (·.commitSeq) checkpoints)
    (notFound "checkpoint" (toString source))
  let roots ← match checkpoint.roots with
    | .blockShard roots => (.ok roots : Result (List Nat))
    | .nativeKeyspace _ => .error (corrupt "block checkpoint has native roots")
  ((commits.insertionSort fun a b =>
      toLex (a.commitSeq, a.shardId) ≤ toLex (b.commitSeq, b.shardId)).filter
    fun commit => commit.commitSeq > checkpoint.commitSeq).foldlM replayCommit roots

def replayDeviceRoots (mode : MetadataTxnMode) (source targetCommit : Nat) : Plane (List Nat) := do
  let values ← storeValues mode
  replayRoots values source targetCommit

def restoreDevice (mode : MetadataTxnMode) (source : Nat) (point : RestorePoint) :
    Plane DeviceHead := do
  let (_, sourceManifest) ← readManifest source
  let targetCommit ← targetCommitForRestore source point
  let shardRoots ← replayDeviceRoots mode source targetCommit
  let target ← allocDeviceId
  let commitSeq ← allocPublicCommitSeq
  failIf (shardRoots.length > u32Bound) (invalidArgument "shard index overflows u32")
  let checkpointId ← allocCheckpointId
  storeCommit .restore []
    (targetWrites target sourceManifest shardRoots commitSeq ++
      [checkpointWrite checkpointId commitSeq target shardRoots])
  return ⟨target, 0, shardRoots, commitSeq⟩

/-! ## Commits -/

inductive MetadataFence
  | deviceGeneration (generation : Nat)
  | fileVersion (version : Nat)
  | appendStream (streamId writerEpoch : Nat)
  deriving DecidableEq, Repr

/-- A root update that has been checked against the head of its shard. -/
structure ShardUpdate where
  read : MetadataTxnKey × Nat
  shardId : Nat
  oldRoot : Nat
  newRoot : Nat
  generation : Nat

def checkUpdate (deviceId : Nat) (manifest : TxnDeviceManifest) : RootUpdate → Plane ShardUpdate
  | .blockShard shardId oldRoot newRoot => do
    failIf (shardId ≥ manifest.shardCount)
      (invalidArgument "shard update is outside device root set")
    let (read, head) ← readShardHead deviceId shardId
    failIf (head.root ≠ oldRoot) (conflict "stale shard root")
    let _ ← getMetadataNode newRoot
    let generation ← checkedAdd head.generation 1 (conflict "device generation overflow")
    return ⟨read, shardId, oldRoot, newRoot, generation⟩
  | _ => Script.fail (invalidArgument "block device commit cannot include file-root updates")

/-- The heads that a group writes, then its shard commits, then the group itself. -/
def groupWrites (deviceId : Nat) (group : CommitGroup) (updates : List ShardUpdate) :
    List (MetadataTxnKey × MetadataTxnValue) :=
  updates.map (fun update =>
      headWrite deviceId update.shardId update.newRoot update.generation group.commitSeq) ++
    updates.map (fun update =>
      (.shardCommit deviceId group.commitSeq update.shardId,
        .shardCommit ⟨group.commitSeq, group.commitGroup, group.commitSeq, deviceId, update.shardId,
          update.oldRoot, update.newRoot⟩)) ++
    [(.commitGroup group.commitGroup, .commitGroup group)]

/-- The part of `publish_commit_group` after the checks of the intent. -/
def publishUpdates (deviceId : Nat) (updates : List RootUpdate) : Plane CommitGroup := do
  let (_, manifest) ← readManifest deviceId
  let checked ← updates.mapM (checkUpdate deviceId manifest)
  let commitSeq ← allocPublicCommitSeq
  let commitGroup ← allocCommitGroupId
  let group : CommitGroup := ⟨commitGroup, commitSeq, .blockDevice deviceId, updates⟩
  storeCommit .publishBlockCommit (checked.map ShardUpdate.read) (groupWrites deviceId group checked)
  return group

def publishCommitGroup (owner : MappingOwner) (fence : MetadataFence) (updates : List RootUpdate) :
    Plane CommitGroup :=
  match owner with
  | .nativeKeyspace _ =>
    Script.fail (unsupported "transaction metadata backend only supports block commit groups")
  | .blockDevice deviceId =>
    match fence with
    | .deviceGeneration _ =>
      if updates = [] then
        Script.fail (invalidArgument "commit group must include at least one root update")
      else
        publishUpdates deviceId updates
    | _ => Script.fail (invalidArgument "block device commit requires device-generation fence")

end CowStore.Txn
