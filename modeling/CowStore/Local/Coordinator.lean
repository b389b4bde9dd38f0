import CowStore.Local.Append
import CowStore.Local.Collapse
import CowStore.Local.Resolve

/-!
# Block operations of the coordinator

A batch is collapsed, cut at the bounds of the shards and packed into segments; then the
trees of the shards are edited, and the new roots are published together.  The whole of a
commit is also recorded as a delta, from which it can be made again.
-/

namespace CowStore.Local

open Lib Object Tree StorageError

structure Coordinator where
  metadata : MetadataInner
  storageNodes : StorageNodes
  appendRunLogs : AppendRunLogs
  appendStreamAllocator : AppendStreamAllocator
  appendPublishTickets : AppendPublishTickets
  appendStreamStorageLanes : Table Nat Nat

abbrev Op (α : Type) := EStateM StorageError Coordinator α

section

variable {α : Type}

def onMetadata (x : MetadataOp α) : Op α :=
  zoom Coordinator.metadata (fun s metadata => { s with metadata }) x

def onSegments (x : SegmentOp α) : Op α :=
  zoom Coordinator.storageNodes (fun s storageNodes => { s with storageNodes }) x

end

namespace Coordinator

def withStorageNodes (config : LocalStoreConfig) (storageNodes : List Nat) : Result Coordinator := do
  config.validate
  return {
    metadata := MetadataInner.new
    storageNodes := ⟨normalizeStorageNodes config.storageNode storageNodes, 0, 1, ∅, ∅⟩
    appendRunLogs := ∅
    appendStreamAllocator := ⟨0, 1⟩
    appendPublishTickets := ∅
    appendStreamStorageLanes := ∅ }

def segmentDescriptor (s : Coordinator) (segmentId : Nat) : Result SegmentDescriptor := do
  let receipt ← s.storageNodes.receiptForSegment segmentId
  return receipt.descriptor

end Coordinator

/-! ## Deltas -/

inductive BlockDeltaReplacement
  | segment (segmentId segmentOffset : Nat)
  | sparse
  deriving DecidableEq, Repr

structure BlockDeltaEntry where
  shardId : Nat
  range : BlockRange
  replacement : BlockDeltaReplacement
  deriving DecidableEq, Repr

structure BlockDeltaCommit where
  deviceId : Nat
  commitSeq : Nat
  writeCount : Nat
  collapsedRangeCount : Nat
  committedBytes : Nat
  entries : List BlockDeltaEntry
  deriving DecidableEq, Repr

structure BlockBatchCommit where
  deviceId : Nat
  commitSeq : Nat
  writeCount : Nat
  collapsedRangeCount : Nat
  committedBytes : Nat
  durability : WriteDurability
  deriving DecidableEq, Repr

structure WriteCommit where
  deviceId : Nat
  commitSeq : Nat
  range : ByteRange
  durability : WriteDurability
  deriving DecidableEq, Repr

/-! ## Cutting a write at the bounds of the shards -/

structure DeviceWriteChunk where
  shardId : Nat
  oldRoot : Nat
  range : BlockRange
  deriving DecidableEq, Repr

def shardChunk (nodes : NodeStore) (requested : BlockRange) (root shard : Nat) :
    Result (Option DeviceWriteChunk) := do
  let node ← nodes.getMetadataNode root
  match ← node.coveredRange.intersection requested with
  | none => return none
  | some range =>
    failIf (shard ≥ u32Bound) (invalidArgument "shard index overflows u32")
    return some ⟨shard, root, range⟩

def splitDeviceRange (s : MetadataInner) (info : DeviceInfo) (range : ByteRange) :
    Result (List DeviceWriteChunk) := do
  let requested : BlockRange := ⟨range.offset / info.spec.blockSize, range.len / info.spec.blockSize⟩
  let head ← s.getHead info.deviceId
  let parts ← head.shardRoots.zipIdx.mapM fun root => shardChunk s.nodes requested root.1 root.2
  failIf (parts.reduceOption = [] ∧ range.len ≠ 0)
    (corrupt "device range did not overlap any shard roots")
  return parts.reduceOption

structure BlockBatchShardChunk where
  range : BlockRange
  bytes : List UInt8
  payloadIntegrity : PayloadIntegrity
  deriving DecidableEq, Repr

structure BlockBatchShardPending where
  oldRoot : Nat
  chunks : List BlockBatchShardChunk
  deriving DecidableEq, Repr

abbrev ShardPending := Table Nat BlockBatchShardPending

def chunkBytes (blockSize : Nat) (write : CollapsedBlockWrite) (range : BlockRange) :
    Result BlockBatchShardChunk := do
  let chunkRange ← blockRangeToByteRange range blockSize
  let chunkOffset ← checkedSub chunkRange.offset write.offset
    (invalidArgument "write chunk underflows")
  let byteEnd ← checkedAdd chunkOffset chunkRange.len (invalidArgument "write chunk end overflows")
  failIf (byteEnd > write.bytes.length) (corrupt "write chunk is outside collapsed batch bytes")
  return ⟨range, slice write.bytes chunkOffset chunkRange.len, write.tag⟩

def pushChunk (pending : ShardPending) (chunk : DeviceWriteChunk) (piece : BlockBatchShardChunk) :
    Result ShardPending :=
  match pending.lookup chunk.shardId with
  | none => .ok (pending.insert chunk.shardId ⟨chunk.oldRoot, [piece]⟩)
  | some shard => do
    failIf (shard.oldRoot ≠ chunk.oldRoot)
      (conflict "block batch observed inconsistent shard roots")
    return pending.insert chunk.shardId { shard with chunks := shard.chunks ++ [piece] }

def collectWrite (s : MetadataInner) (info : DeviceInfo) (pending : ShardPending)
    (write : CollapsedBlockWrite) : Result ShardPending := do
  failIf (write.bytes.length ≥ u64Bound) (invalidArgument "block batch write length overflows u64")
  let chunks ← splitDeviceRange s info ⟨write.offset, write.bytes.length⟩
  chunks.foldlM (fun pending chunk => do
    let piece ← chunkBytes info.spec.blockSize write chunk.range
    pushChunk pending chunk piece) pending

/-! ## Packing the chunks of a shard into segments -/

structure BlockBatchShardEdit where
  range : BlockRange
  receipt : SegmentWriteReceipt
  segmentOffset : Nat
  deriving DecidableEq, Repr

/-- The maximal runs of chunks with one payload integrity. -/
def integrityRuns :
    List BlockBatchShardChunk → List (PayloadIntegrity × List BlockBatchShardChunk)
  | [] => []
  | chunk :: chunks =>
    match integrityRuns chunks with
    | [] => [(chunk.payloadIntegrity, [chunk])]
    | (mode, run) :: runs =>
      if chunk.payloadIntegrity = mode then (mode, chunk :: run) :: runs
      else (chunk.payloadIntegrity, [chunk]) :: (mode, run) :: runs

def placeChunks (receipt : SegmentWriteReceipt) :
    Nat → List BlockBatchShardChunk → Result (List BlockBatchShardEdit)
  | _, [] => .ok []
  | segmentOffset, chunk :: chunks => do
    let next ← checkedAdd segmentOffset chunk.range.blocks
      (invalidArgument "block batch segment offset overflows")
    let rest ← placeChunks receipt next chunks
    return ⟨chunk.range, receipt, segmentOffset⟩ :: rest

/-- The segments written for a shard, and the edits that put them in place. -/
structure PackedShard where
  shardId : Nat
  oldRoot : Nat
  receipts : List SegmentWriteReceipt
  edits : List BlockBatchShardEdit
  deriving DecidableEq, Repr

section

variable (crc : List UInt8 → Nat) (config : LocalStoreConfig)

def packRun (blockSize : Nat) (run : PayloadIntegrity × List BlockBatchShardChunk) :
    SegmentOp (SegmentWriteReceipt × List BlockBatchShardEdit) := do
  let packedBlocks ← (run.2.foldlM (fun total chunk => checkedAdd total chunk.range.blocks
    (invalidArgument "block batch packed segment overflows")) 0 : Result Nat)
  let _ ← checkedMul packedBlocks blockSize
    (invalidArgument "block batch packed segment bytes overflow")
  let receipt ← writeSegment crc config.blockSize (run.2.flatMap (·.bytes)) run.1
  let edits ← placeChunks receipt 0 run.2
  return (receipt, edits)

def packShard (blockSize : Nat) (row : Nat × BlockBatchShardPending) : SegmentOp PackedShard := do
  let chunks := row.2.chunks.insertionSort fun a b => a.range.start ≤ b.range.start
  let packed ← (integrityRuns chunks).mapM (packRun crc config blockSize)
  return ⟨row.1, row.2.oldRoot, packed.map (·.1), packed.flatMap (·.2)⟩

/-! ## Editing the trees -/

def BlockBatchShardEdit.treeEdit (edit : BlockBatchShardEdit) : Result TreeRangeEdit := do
  let segmentBase ← checkedSub edit.range.start edit.segmentOffset
    (invalidArgument "block batch segment offset exceeds logical start")
  return ⟨edit.range, some ⟨edit.receipt.descriptor.segmentId, segmentBase⟩⟩

def BlockBatchShardEdit.deltaEntry (shardId : Nat) (edit : BlockBatchShardEdit) :
    BlockDeltaEntry :=
  ⟨shardId, edit.range, .segment edit.receipt.descriptor.segmentId edit.segmentOffset⟩

structure EditedShard where
  shardId : Nat
  oldRoot : Nat
  root : Nat
  entries : List BlockDeltaEntry
  deriving DecidableEq, Repr

namespace EditedShard

def update (shard : EditedShard) : Option RootUpdate :=
  if shard.root = shard.oldRoot then none
  else some (.blockShard shard.shardId shard.oldRoot shard.root)

end EditedShard

def editShard (receipts : List SegmentWriteReceipt) (shard : PackedShard) : Op EditedShard := do
  let edits := shard.edits.insertionSort fun a b => a.range.start ≤ b.range.start
  let treeEdits ← (edits.mapM BlockBatchShardEdit.treeEdit : Result (List TreeRangeEdit))
  let s ← get
  let result ← onMetadata (onNodes (replaceTreeRangesWithReceipts config.blockSize
    s.segmentDescriptor (receipts.map (·.descriptor)) shard.oldRoot treeEdits))
  return ⟨shard.shardId, shard.oldRoot, result.root,
    edits.map (BlockBatchShardEdit.deltaEntry shard.shardId)⟩

def defaultBlockBatchMaxBytes : Nat := 128 * 1024 * 1024

/-- A sum of byte counts, saturating. -/
def committedBytes (collapsed : List CollapsedBlockWrite) : Nat :=
  min (collapsed.map (·.bytes.length)).sum (u64Bound - 1)

def commitBlockBatchWithDelta (deviceId : Nat) (writes : List BlockBatchWrite)
    (durability : WriteDurability) : Op (BlockBatchCommit × Option BlockDeltaCommit) := do
  let s ← get
  let info ← s.metadata.deviceInfo deviceId
  let collapsed ← collapseBlockBatchWrites writes info.spec defaultBlockBatchMaxBytes
  let pending ← (collapsed.foldlM (collectWrite s.metadata info) ∅ : Result ShardPending)
  let packed ← onSegments (pending.rows.mapM (packShard crc config info.spec.blockSize))
  let receipts := packed.flatMap (·.receipts)
  let edited ← packed.mapM (editShard config receipts)
  let updates := edited.filterMap EditedShard.update
  let entries := edited.flatMap (·.entries)
  if updates = [] ∨ entries = [] then
    return (⟨deviceId, info.latestCommit, writes.length, collapsed.length, 0, durability⟩, none)
  else
    let group ← onMetadata (publishShardRoots deviceId updates)
    let _ ← receipts.mapM fun receipt =>
      onSegments (markSegmentReferenced receipt.descriptor.segmentId)
    let bytes := committedBytes collapsed
    return (⟨deviceId, group.commitSeq, writes.length, collapsed.length, bytes, durability⟩,
      some ⟨deviceId, group.commitSeq, writes.length, collapsed.length, bytes, entries⟩)

/-! ## Discarding -/

def discardChunk (chunk : DeviceWriteChunk) : Op (Option (RootUpdate × BlockDeltaEntry)) := do
  let s ← get
  let result ← onMetadata (onNodes (replaceTreeRangeWithReceipts config.blockSize
    s.segmentDescriptor [] chunk.oldRoot ⟨chunk.range, none⟩))
  return if result.changed then
    some (.blockShard chunk.shardId chunk.oldRoot result.root, ⟨chunk.shardId, chunk.range, .sparse⟩)
  else none

def discardDeviceWithDelta (deviceId offset len : Nat) :
    Op (WriteCommit × Option BlockDeltaCommit) := do
  let s ← get
  let info ← s.metadata.deviceInfo deviceId
  let range : ByteRange := ⟨offset, len⟩
  range.validateForDevice info.spec
  if len = 0 then
    return (⟨deviceId, info.latestCommit, range, .acknowledged⟩, none)
  else
    let chunks ← splitDeviceRange s.metadata info range
    let parts ← chunks.mapM (discardChunk config)
    let changed := parts.reduceOption
    if changed = [] then
      return (⟨deviceId, info.latestCommit, range, .acknowledged⟩, none)
    else
      let group ← onMetadata (publishShardRoots deviceId (changed.map (·.1)))
      return (⟨deviceId, group.commitSeq, range, .acknowledged⟩,
        some ⟨deviceId, group.commitSeq, 1, changed.length, len, changed.map (·.2)⟩)

def writeZeroesWithDelta (deviceId offset len : Nat) :
    Op (WriteCommit × Option BlockDeltaCommit) :=
  discardDeviceWithDelta config deviceId offset len

end

/-! ## Reading -/

namespace Coordinator

variable (crc : List UInt8 → Nat) (s : Coordinator)

def resolveBlockReadPlan (deviceId : Nat) (range : ByteRange) : Result ReadPlan := do
  let info ← s.metadata.deviceInfo deviceId
  range.validateForDevice info.spec
  if range.len = 0 then
    ReadPlan.fromNonZeroExtents 0 []
  else
    let requested : BlockRange :=
      ⟨range.offset / info.spec.blockSize, range.len / info.spec.blockSize⟩
    let head ← s.metadata.getHead deviceId
    let extents ← blockReadExtents s.metadata.nodes s.storageNodes requested range
      info.spec.blockSize head.shardRoots
    ReadPlan.fromNonZeroExtents range.len extents

def readDeviceWithVerification (deviceId : Nat) (range : ByteRange) (bufLen : Nat)
    (verification : ReadVerification) : Result (List UInt8) := do
  let plan ← s.resolveBlockReadPlan deviceId range
  assembleReadPlan (readSource crc s.storageNodes s.appendRunLogs verification) plan bufLen

end Coordinator

end CowStore.Local
