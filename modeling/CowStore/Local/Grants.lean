import CowStore.Local.AppendPublish

/-!
# Writes under grants, and the custodian of the storage nodes

A client may write a segment itself: it gets a grant, writes the segment under it, and
hands the receipt in for the commit.  The proofs of grants and receipts are left out here,
and so are the identifiers of write intents: what a storage node knows of an intent is
which segments were written for it.  The custodian of the storage nodes frees the segments
of intents that have expired, as far as they are not referenced, and those that were
released.
-/

namespace CowStore.Local

open Lib Object Tree StorageError

/-! ## Grants -/

inductive WriteGrantIntent
  | blockWrite (deviceId : Nat) (range : BlockRange) (fence shardId oldRoot : Nat)
  | nativeWrite (keyspaceId fileId : Nat) (range : ByteRange) (baseVersion : Nat)
  deriving DecidableEq, Repr

structure WriteGrant where
  intent : WriteGrantIntent
  segmentId : Nat
  storageNode : Nat
  maxBytes : Nat
  payloadIntegrity : PayloadIntegrity
  durability : WriteDurability
  deriving DecidableEq, Repr

def singleShardForBlockRange (nodes : NodeStore) (range : BlockRange) :
    List (Nat × Nat) → Result (Nat × Nat)
  | [] => .error (invalidArgument "block range is not contained by one shard")
  | (root, shard) :: shards => do
    let node ← nodes.getMetadataNode root
    let inside ← node.coveredRange.containsRange range
    if inside then
      failIf (shard ≥ u32Bound) (invalidArgument "shard index overflows u32")
      return (shard, root)
    else
      singleShardForBlockRange nodes range shards

section

variable (crc : List UInt8 → Nat) (config : LocalStoreConfig)

/-- A grant for a new segment on the storage node whose turn it is. -/
def issueWriteGrant (intent : WriteGrantIntent) (maxBytes : Nat) (durability : WriteDurability) :
    Op WriteGrant := do
  let storageNode ← onSegments chooseStorageNode
  let segmentId ← onSegments allocateSegmentId
  failIf (maxBytes = 0) (invalidArgument "write grant must authorize at least one byte")
  return ⟨intent, segmentId, storageNode, maxBytes, .verified, durability⟩

def issueBlockWriteGrant (deviceId : Nat) (range : BlockRange) (durability : WriteDurability) :
    Op WriteGrant := do
  range.validateNonEmpty
  let s ← get
  let head ← s.metadata.getHead deviceId
  let (shardId, oldRoot) ← singleShardForBlockRange s.metadata.nodes range head.shardRoots.zipIdx
  let maxBytes ← checkedMul range.blocks config.blockSize
    (invalidArgument "grant byte length overflows")
  issueWriteGrant (.blockWrite deviceId range head.generation shardId oldRoot) maxBytes durability

def issueNativeWriteGrant (keyspaceId fileId : Nat) (range : ByteRange) (segmentBytes : Nat)
    (durability : WriteDurability) : Op WriteGrant := do
  failIf (range.len = 0 ∨ segmentBytes = 0) (invalidArgument "native write grant must contain bytes")
  let s ← get
  let head ← s.metadata.getFileHead keyspaceId fileId
  issueWriteGrant (.nativeWrite keyspaceId fileId range head.version) segmentBytes durability

/-- The segment of a grant, which may have been written already. -/
def writeGrantedSegment (grant : WriteGrant) (data : List UInt8) : SegmentOp SegmentWriteReceipt := do
  failIf (data.length ≥ u64Bound) (invalidArgument "segment write length overflows u64")
  failIf (data.length ≠ grant.maxBytes)
    (invalidArgument "write grant byte count does not match granted segment length")
  let s ← get
  if grant.segmentId ∈ s.catalog then
    let receipt ← s.receiptForSegment grant.segmentId
    let conflicts := conflict "duplicate segment write conflicts with existing receipt"
    failIf (receipt.storageNode ≠ grant.storageNode ∨ receipt.descriptor.bytes ≠ data.length ∨
      receipt.descriptor.integrity ≠ segmentPayloadIntegrity crc grant.payloadIntegrity data) conflicts
    let existing ← s.readSegment grant.segmentId ⟨0, data.length⟩
    failIf (existing ≠ data) conflicts
    return receipt
  else
    reserveSegmentWithId grant.storageNode grant.segmentId data.length
    beginWrite grant.segmentId
    let descriptor ← writeSegmentOwned crc config.blockSize grant.segmentId data grant.payloadIntegrity
    syncSegment grant.segmentId
    let receipt : SegmentWriteReceipt := ⟨grant.storageNode, descriptor⟩
    commitSegment receipt
    return receipt

def verifyReceiptMatchesGrant (grant : WriteGrant) (receipt : SegmentWriteReceipt) : Result Unit :=
  failIf (receipt.descriptor.segmentId ≠ grant.segmentId ∨ receipt.storageNode ≠ grant.storageNode ∨
    receipt.descriptor.bytes ≠ grant.maxBytes) (conflict "segment receipt does not match write grant")

def submitBlockWriteReceipt (grant : WriteGrant) (receipt : SegmentWriteReceipt) : Op WriteCommit := do
  verifyReceiptMatchesGrant grant receipt
  match grant.intent with
  | .nativeWrite _ _ _ _ =>
    throw (invalidArgument "trusted block publish requires a block write receipt")
  | .blockWrite deviceId range _ shardId oldRoot =>
    let s ← get
    let current ← s.metadata.getHead deviceId
    let currentRoot ← orFail current.shardRoots[shardId]?
      (invalidArgument "receipt shard is outside device")
    failIf (currentRoot ≠ oldRoot) (conflict "stale shard root")
    let result ← onMetadata (onNodes (replaceTreeRangeWithReceipts config.blockSize
      s.segmentDescriptor [receipt.descriptor] oldRoot
      ⟨range, some ⟨receipt.descriptor.segmentId, range.start⟩⟩))
    let group ← onMetadata (publishShardRoots deviceId [.blockShard shardId oldRoot result.root])
    onSegments (markSegmentReferenced receipt.descriptor.segmentId)
    let offset ← checkedMul range.start config.blockSize
      (invalidArgument "receipt byte offset overflows")
    let len ← checkedMul range.blocks config.blockSize
      (invalidArgument "receipt byte length overflows")
    return ⟨deviceId, group.commitSeq, ⟨offset, len⟩, grant.durability⟩

def submitNativeWriteReceipt (grant : WriteGrant) (receipt : SegmentWriteReceipt) :
    Op FileWriteCommit := do
  verifyReceiptMatchesGrant grant receipt
  match grant.intent with
  | .blockWrite _ _ _ _ _ =>
    throw (invalidArgument "trusted native write publish requires a native write receipt")
  | .nativeWrite keyspaceId fileId range baseVersion =>
    let stop ← range.endExclusive
    let firstBlock := range.offset / config.blockSize
    let requestedStart ← checkedMul firstBlock config.blockSize
      (invalidArgument "native write range overflows")
    let segmentBlocks ← blocksForBytes (stop - requestedStart) config.blockSize
    let s ← get
    let head ← s.metadata.getFileHead keyspaceId fileId
    let (commit, _) ← publishNativeFileReceiptEditsWithDelta config
      ⟨keyspaceId, fileId, baseVersion, range, max head.size stop,
        [⟨⟨firstBlock, segmentBlocks⟩, receipt⟩], grant.durability⟩ 1 1 range.len
    return commit

end

/-! ## The custodian of the storage nodes -/

def freeSegmentFrom (state : SegmentLifecycleState) (refused : StorageError) (segmentId : Nat) :
    SegmentOp Unit := do
  let s ← get
  let entry ← orFail (s.catalog.lookup segmentId) (segmentNotFound segmentId)
  failIf (entry.state ≠ state ∧ entry.state ≠ .freed) refused
  set { s with catalog := s.catalog.insert segmentId { entry with state := .freed } }

def expireReservation : Nat → SegmentOp Unit :=
  freeSegmentFrom .reserved (conflict "only Reserved segments can expire as reservations")

def failWrite : Nat → SegmentOp Unit :=
  freeSegmentFrom .writing (conflict "only Writing segments can fail as writes")

def freeOrphanSegment : Nat → SegmentOp Unit :=
  freeSegmentFrom .durablePendingMetadata
    (conflict "only DurablePendingMetadata orphan segments can be freed")

def deleteSegment : Nat → SegmentOp Unit :=
  freeSegmentFrom .released (conflict "only Released segments are safe to delete")

def deleteStoredSegment (segmentId : Nat) : SegmentOp Unit :=
  modify fun s => { s with store := s.store.erase segmentId }

structure StorageNodeCustodianReport where
  expiredReservations : List Nat
  failedWrites : List Nat
  orphanSegments : List Nat
  deletedReleasedSegments : List Nat
  deriving DecidableEq, Repr

/-- One entry that the custodian has read; `expired` are the segments of expired intents. -/
def custodianEntry (expired : List Nat) (report : StorageNodeCustodianReport)
    (row : Nat × CatalogEntry) : SegmentOp StorageNodeCustodianReport := do
  match row.2.state with
  | .reserved =>
    if row.1 ∈ expired then
      expireReservation row.1
      deleteStoredSegment row.1
      return { report with expiredReservations := report.expiredReservations ++ [row.1] }
    else return report
  | .writing =>
    if row.1 ∈ expired then
      failWrite row.1
      deleteStoredSegment row.1
      return { report with failedWrites := report.failedWrites ++ [row.1] }
    else return report
  | .durablePendingMetadata =>
    if row.1 ∈ expired then
      freeOrphanSegment row.1
      deleteStoredSegment row.1
      return { report with orphanSegments := report.orphanSegments ++ [row.1] }
    else return report
  | .released =>
    deleteSegment row.1
    deleteStoredSegment row.1
    return { report with deletedReleasedSegments := report.deletedReleasedSegments ++ [row.1] }
  | .referenced | .freed => return report

def runCustodian (expired : List Nat) (report : StorageNodeCustodianReport) (storageNode : Nat) :
    SegmentOp StorageNodeCustodianReport := do
  let s ← get
  (s.catalog.rows.filter (·.2.storageNode = storageNode)).foldlM (custodianEntry expired) report

def runStorageNodeCustodian (expired : List Nat) : SegmentOp StorageNodeCustodianReport := do
  let s ← get
  s.nodeOrder.foldlM (runCustodian expired) ⟨[], [], [], []⟩

end CowStore.Local
