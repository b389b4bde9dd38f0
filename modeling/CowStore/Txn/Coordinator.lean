import CowStore.Local.Coordinator
import CowStore.Txn.Plane

/-!
# The transactional coordinator

Block writes and reads over the transactional plane.  A write puts every piece of it into
a segment, edits the tree of the shard under a new root, and publishes all new roots as
one group.  A read walks the trees twice: once for the segments that it will verify, and
once for the bytes.
-/

namespace CowStore.Txn

open Lib Object Tree Local StorageError

/-! ## Ranges -/

/-- The part of the requested blocks in one shard, with the root of the shard. -/
def shardChunk (config : LocalStoreConfig) (deviceId : Nat) (spec : DeviceSpec)
    (requested : BlockRange) (shard : Nat) : Plane (Option DeviceWriteChunk) := do
  let startBlocks ← checkedMul spec.logicalBlocks shard (invalidArgument "shard start overflows")
  let endBlocks ← checkedMul spec.logicalBlocks (shard + 1) (invalidArgument "shard end overflows")
  let start := startBlocks / config.shardCount
  let stop := endBlocks / config.shardCount
  match ← (BlockRange.mk start (stop - start)).intersection requested with
  | none => return none
  | some overlap =>
    failIf (shard ≥ u32Bound) (invalidArgument "shard index overflows u32")
    let (_, head) ← readShardHead deviceId shard
    return some ⟨shard, head.root, overlap⟩

def requestedBlocks (spec : DeviceSpec) (range : ByteRange) : BlockRange :=
  ⟨range.offset / spec.blockSize, range.len / spec.blockSize⟩

def splitDeviceRange (config : LocalStoreConfig) (deviceId : Nat) (spec : DeviceSpec)
    (range : ByteRange) : Plane (List DeviceWriteChunk) := do
  let parts ← (List.range config.shardCount).mapM
    (shardChunk config deviceId spec (requestedBlocks spec range))
  failIf (parts.reduceOption = [] ∧ range.len ≠ 0)
    (corrupt "device range did not overlap any shard roots")
  return parts.reduceOption

/-! ## Editing trees -/

/-- The descriptor of a segment: of one that the caller has just written, or of an older one. -/
def descriptorFor (additional : List SegmentWriteReceipt) (segmentId : Nat) :
    Plane SegmentDescriptor :=
  match additional.find? (·.descriptor.segmentId = segmentId) with
  | some receipt => return receipt.descriptor
  | none => do
    let found ← perform (.receiptForSegment segmentId)
    let receipt ← found
    return receipt.descriptor

/-- The descriptors of the segments of a leaf, each once and in the order of their numbers. -/
def descriptorsForEntries (entries : List LeafEntry) (additional : List SegmentWriteReceipt) :
    Plane (List SegmentDescriptor) := do
  let descriptors ← (entries.map LeafEntry.segmentId).eraseDups.mapM (descriptorFor additional)
  return descriptors.insertionSort fun a b => a.segmentId ≤ b.segmentId

/-- A new node, checked before it is handed over and again where it is stored. -/
def addMetadataNode (coveredRange : BlockRange) (kind : MetadataNodeKind)
    (segments : List SegmentDescriptor) : Plane TreeEditResult := do
  let node ← allocateMetadataNode coveredRange kind
  node.validate segments
  persistMetadataNode node segments
  return ⟨node.nodeId, true⟩

/-- The edit of one child: the child to put in its place, and whether it changed. -/
def replaceChild (replaceAt : MetadataNode → Plane TreeEditResult) (edit : TreeRangeEdit)
    (child : MetadataChild) : Plane (MetadataChild × Bool) := do
  let overlaps ← child.range.overlaps edit.range
  if overlaps then
    let childNode ← getMetadataNode child.nodeId
    let result ← replaceAt childNode
    return (⟨child.range, result.root⟩, result.changed)
  else
    return (child, false)

/-- The edit of the tree under `node`; `fuel` bounds the depth. -/
def replaceTreeRangeAt (blockSize : Nat) (edit : TreeRangeEdit)
    (additional : List SegmentWriteReceipt) : Nat → MetadataNode → Plane TreeEditResult
  | 0, _ => Script.fail (corrupt "metadata tree is too deep")
  | fuel + 1, node => do
    let overlaps ← node.coveredRange.overlaps edit.range
    if overlaps then
      match node.kind with
      | .leaf entries runExtents =>
        let contents ← applyEdit blockSize node.coveredRange (entries, runExtents) edit
        if contents = (entries, runExtents) then
          return ⟨node.nodeId, false⟩
        else
          let segments ← descriptorsForEntries contents.1 additional
          addMetadataNode node.coveredRange (.leaf contents.1 contents.2) segments
      | .internal children =>
        let edited ← children.mapM
          (replaceChild (replaceTreeRangeAt blockSize edit additional fuel) edit)
        if edited.any (·.2) then
          addMetadataNode node.coveredRange (.internal (edited.map (·.1))) []
        else
          return ⟨node.nodeId, false⟩
    else
      return ⟨node.nodeId, false⟩

def replaceTreeRangeWithReceipts (blockSize rootId : Nat) (edit : TreeRangeEdit)
    (additional : List SegmentWriteReceipt) : Plane TreeEditResult := do
  edit.range.validateNonEmpty
  let root ← getMetadataNode rootId
  let inside ← root.coveredRange.containsRange edit.range
  failIf (¬ inside) (invalidArgument "edit range is outside metadata tree coverage")
  replaceTreeRangeAt blockSize edit additional (root.nodeId + 1) root

/-! ## Writing -/

def writeChunk (config : LocalStoreConfig) (blockSize offset : Nat) (data : List UInt8)
    (integrity : PayloadIntegrity) (chunk : DeviceWriteChunk) :
    Plane (SegmentWriteReceipt × RootUpdate) := do
  let start ← checkedMul chunk.range.start blockSize (invalidArgument "write chunk offset overflows")
  let chunkOffset ← checkedSub start offset (invalidArgument "write chunk offset overflows")
  let chunkLen ← checkedMul chunk.range.blocks blockSize
    (invalidArgument "write chunk length overflows")
  let byteEnd ← checkedAdd chunkOffset chunkLen (invalidArgument "write chunk end overflows")
  failIf (byteEnd > data.length) (corrupt "write chunk is outside request bytes")
  let written ← perform (.writeSegment (slice data chunkOffset chunkLen) integrity)
  let receipt ← written
  let edit : TreeRangeEdit :=
    ⟨chunk.range, some ⟨receipt.descriptor.segmentId, chunk.range.start⟩⟩
  let result ← replaceTreeRangeWithReceipts config.blockSize chunk.oldRoot edit [receipt]
  return (receipt, .blockShard chunk.shardId chunk.oldRoot result.root)

def markReferenced (receipt : SegmentWriteReceipt) : Plane Unit := do
  let marked ← perform (.markSegmentReferenced receipt.descriptor.segmentId)
  marked

def writeRange (config : LocalStoreConfig) (deviceId : Nat) (spec : DeviceSpec) (range : ByteRange)
    (data : List UInt8) (durability : WriteDurability) (integrity : PayloadIntegrity) :
    Plane WriteCommit := do
  let chunks ← splitDeviceRange config deviceId spec range
  let written ← chunks.mapM (writeChunk config spec.blockSize range.offset data integrity)
  let group ← publishCommitGroup (.blockDevice deviceId) (.deviceGeneration 0) (written.map (·.2))
  let _ ← (written.map (·.1)).mapM markReferenced
  return ⟨deviceId, group.commitSeq, range, durability⟩

def writeDeviceWithIntegrity (config : LocalStoreConfig) (deviceId offset : Nat)
    (data : List UInt8) (durability : WriteDurability) (integrity : PayloadIntegrity) :
    Plane WriteCommit := do
  let spec ← deviceSpec deviceId
  failIf (data.length ≥ u64Bound) (invalidArgument "write byte length overflows u64")
  (ByteRange.mk offset data.length).validateForDevice spec
  if data.length = 0 then
    let info ← deviceInfo deviceId
    return ⟨deviceId, info.latestCommit, ⟨offset, data.length⟩, durability⟩
  else
    writeRange config deviceId spec ⟨offset, data.length⟩ data durability integrity

/-! ## Reading -/

section

variable {β : Type}

/-- A walk of the leaves that `requested` meets; `fuel` bounds the depth. -/
def walkNode (requested : BlockRange) (visit : LeafEntry → Plane (List β)) :
    Nat → MetadataNode → Plane (List β)
  | 0, _ => Script.fail (corrupt "metadata tree is too deep")
  | fuel + 1, node =>
    match node.kind with
    | .internal children => do
      let parts ← children.mapM fun child => do
        let overlaps ← child.range.overlaps requested
        if overlaps then
          let childNode ← getMetadataNode child.nodeId
          walkNode requested visit fuel childNode
        else
          return []
      return parts.flatten
    | .leaf entries _ => do
      let parts ← entries.mapM visit
      return parts.flatten

def walkChunk (requested : BlockRange) (visit : LeafEntry → Plane (List β))
    (chunk : DeviceWriteChunk) : Plane (List β) := do
  let node ← getMetadataNode chunk.oldRoot
  let overlaps ← node.coveredRange.overlaps requested
  if overlaps then
    walkNode requested visit (node.nodeId + 1) node
  else
    return []

end

def entrySegment (requested : BlockRange) (entry : LeafEntry) : Plane (List Nat) := do
  let overlaps ← entry.logicalRange.overlaps requested
  return if overlaps then [entry.segmentId] else []

def segmentIdsForDeviceRead (config : LocalStoreConfig) (deviceId : Nat) (range : ByteRange) :
    Plane (List Nat) := do
  let spec ← deviceSpec deviceId
  range.validateForDevice spec
  if range.len = 0 then
    return []
  else
    let chunks ← splitDeviceRange config deviceId spec range
    let parts ← chunks.mapM
      (walkChunk (requestedBlocks spec range) (entrySegment (requestedBlocks spec range)))
    return (parts.flatten.insertionSort (· ≤ ·)).dedup

def readEntry (requested : BlockRange) (blockSize bufLen : Nat) (entry : LeafEntry) :
    Plane (List (Nat × List UInt8)) := do
  match ← entry.logicalRange.intersection requested with
  | none => return []
  | some overlap =>
    let segmentOffset ← checkedAdd entry.segmentOffset (overlap.start - entry.logicalStart)
      (invalidArgument "segment read offset overflows")
    let offset ← checkedMul segmentOffset blockSize (invalidArgument "segment byte offset overflows")
    let len ← checkedMul overlap.blocks blockSize (invalidArgument "segment byte length overflows")
    let outputOffset ← checkedMul (overlap.start - requested.start) blockSize
      (invalidArgument "read output offset overflows")
    let outputEnd ← checkedAdd outputOffset len (invalidArgument "read output end overflows")
    failIf (outputEnd > bufLen) (corrupt "metadata read output range exceeds buffer")
    let result ← perform (.readSegment entry.segmentId ⟨offset, len⟩)
    let bytes ← result
    failIf (bytes.length ≠ len) (corrupt "storage node read response length disagrees with buffer")
    return [(outputOffset, bytes)]

def readDeviceUnverified (config : LocalStoreConfig) (deviceId : Nat) (range : ByteRange)
    (bufLen : Nat) : Plane (List UInt8) := do
  let spec ← deviceSpec deviceId
  range.validateForDevice spec
  failIf (bufLen ≠ range.len) (invalidArgument "read buffer length must match range length")
  if range.len = 0 then
    return []
  else
    let chunks ← splitDeviceRange config deviceId spec range
    let parts ← chunks.mapM (walkChunk (requestedBlocks spec range)
      (readEntry (requestedBlocks spec range) spec.blockSize bufLen))
    return spliceAll (List.replicate bufLen 0) parts.flatten

def verifySegment (verification : ReadVerification) (segmentId : Nat) : Plane Unit := do
  let verified ← perform (.verifySegmentPayloadForRead segmentId verification)
  verified

def readDeviceWithVerification (config : LocalStoreConfig) (deviceId : Nat) (range : ByteRange)
    (bufLen : Nat) (verification : ReadVerification) : Plane (List UInt8) := do
  let segmentIds ← segmentIdsForDeviceRead config deviceId range
  let bytes ← readDeviceUnverified config deviceId range bufLen
  let _ ← segmentIds.mapM (verifySegment verification)
  return bytes

/-! ## Calls -/

inductive TxnCall
  | createDevice (spec : DeviceSpec)
  | deviceInfo (deviceId : Nat)
  | persistMetadataNode (node : MetadataNode) (segments : List SegmentDescriptor)
  | publishCommitGroup (owner : MappingOwner) (fence : MetadataFence) (updates : List RootUpdate)
  | checkpoint (deviceId : Nat)
  | forkDevice (source : Nat) (target : Option Nat)
  | restoreDevice (source : Nat) (point : RestorePoint)
  | deleteDevice (deviceId : Nat)
  | writeDevice (deviceId offset : Nat) (data : List UInt8) (durability : WriteDurability)
      (integrity : PayloadIntegrity)
  | readDevice (deviceId : Nat) (range : ByteRange) (bufLen : Nat) (verification : ReadVerification)
  deriving DecidableEq

inductive TxnReply
  | head (head : DeviceHead)
  | info (info : DeviceInfo)
  | persisted
  | group (group : CommitGroup)
  | checkpoint (checkpointId : Nat)
  | deleted (commitSeq : Nat)
  | written (commit : WriteCommit)
  | bytes (bytes : List UInt8)
  deriving DecidableEq

def TxnCall.script (config : LocalStoreConfig) (mode : MetadataTxnMode) : TxnCall → Plane TxnReply
  | createDevice spec => return .head (← Txn.createDevice config spec)
  | deviceInfo deviceId => return .info (← Txn.deviceInfo deviceId)
  | persistMetadataNode node segments => do
    Txn.persistMetadataNode node segments
    return .persisted
  | publishCommitGroup owner fence updates =>
    return .group (← Txn.publishCommitGroup owner fence updates)
  | checkpoint deviceId => return .checkpoint (← Txn.checkpoint deviceId)
  | forkDevice source target => return .head (← Txn.forkDevice source target)
  | restoreDevice source point => return .head (← Txn.restoreDevice mode source point)
  | deleteDevice deviceId => return .deleted (← Txn.deleteDevice deviceId)
  | writeDevice deviceId offset data durability integrity =>
    return .written (← writeDeviceWithIntegrity config deviceId offset data durability integrity)
  | readDevice deviceId range bufLen verification =>
    return .bytes (← readDeviceWithVerification config deviceId range bufLen verification)

end CowStore.Txn
