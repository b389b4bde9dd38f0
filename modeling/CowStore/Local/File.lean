import CowStore.Local.Coordinator
import CowStore.Tree.RunEdit

/-!
# Reading and writing files

A file batch is collapsed, padded to whole blocks with the bytes of the file around it,
written into one segment for each stretch of blocks, and published as a new root of the
file.  A read takes the bytes of appended runs before those of segments.
-/

namespace CowStore.Local

open Lib Object Tree StorageError

def blocksForBytes (bytes blockSize : Nat) : Result Nat := do
  failIf (blockSize = 0) (invalidArgument "block_size must be greater than zero")
  if bytes = 0 then
    return 0
  else
    let adjusted ← checkedAdd bytes (blockSize - 1)
      (invalidArgument "byte count overflows block count")
    return adjusted / blockSize

/-! ## Reading -/

def ReadSource.advance (source : ReadSource) (delta : Nat) : Result ReadSource :=
  match source with
  | .zero => .ok .zero
  | .segment storageNode segmentId segmentOffset integrity => do
    let segmentOffset ← checkedAdd segmentOffset delta
      (corrupt "segment read extent slice offset overflows")
    return .segment storageNode segmentId segmentOffset integrity
  | .appendRun storageNode logId payloadOffset integrity => do
    let payloadOffset ← checkedAdd payloadOffset delta
      (corrupt "append-run read extent slice offset overflows")
    return .appendRun storageNode logId payloadOffset integrity

def sliceReadExtent (extent : ReadExtent) (outputOffset len : Nat) : Result ReadExtent := do
  failIf (len = 0) (invalidArgument "read extent slice must not be empty")
  let delta ← checkedSub outputOffset extent.outputOffset
    (corrupt "read extent slice precedes source extent")
  let source ← extent.source.advance delta
  return ⟨outputOffset, len, source⟩

/-- What a run leaves of an extent. -/
def trimReadExtent (run piece : ReadExtent) : Result (List ReadExtent) := do
  let runEnd ← checkedAdd run.outputOffset run.len (corrupt "append-run read extent overflows")
  let pieceEnd ← checkedAdd piece.outputOffset piece.len (corrupt "segment read extent overflows")
  let overlapStart := max piece.outputOffset run.outputOffset
  let overlapEnd := min pieceEnd runEnd
  if overlapStart ≥ overlapEnd then
    return [piece]
  else
    let left ← (if piece.outputOffset < overlapStart then do
        let left ← sliceReadExtent piece piece.outputOffset (overlapStart - piece.outputOffset)
        return [left]
      else .ok [] : Result (List ReadExtent))
    let right ← (if overlapEnd < pieceEnd then do
        let right ← sliceReadExtent piece overlapEnd (pieceEnd - overlapEnd)
        return [right]
      else .ok [] : Result (List ReadExtent))
    return left ++ right

/-- What is left of the pieces of one extent; nothing is asked of the runs after the one
that took the last piece. -/
def trimPieces : List ReadExtent → List ReadExtent → Result (List ReadExtent)
  | pieces, [] => .ok pieces
  | pieces, run :: runs => do
    let _ ← checkedAdd run.outputOffset run.len (corrupt "append-run read extent overflows")
    let next ← pieces.mapM (trimReadExtent run)
    if next.flatten = [] then
      return []
    else
      trimPieces next.flatten runs

def trimSegmentReadExtentsForAppendRuns (segmentExtents runExtents : List ReadExtent) :
    Result (List ReadExtent) := do
  let parts ← segmentExtents.mapM fun segment => trimPieces [segment] runExtents
  return parts.flatten

def appendRunReadExtent (requestedBytes : ByteRange) (extent : RunBackedFileExtent) :
    Result (Option ReadExtent) := do
  match ← sliceWithin requestedBytes extent with
  | none => return none
  | some piece =>
    return some ⟨piece.fileOffsetStart - requestedBytes.offset, piece.payloadLen,
      .appendRun piece.run.storageNode piece.run.logId piece.run.logPayloadOffset
        piece.run.integrity⟩

def collectAppendRunReadExtents (nodes : NodeStore) (requestedBlocks : BlockRange)
    (requestedBytes : ByteRange) (root : MetadataNode) : Result (List ReadExtent) :=
  collectReadExtents nodes requestedBlocks (·.2) (appendRunReadExtent requestedBytes)
    (root.nodeId + 1) root

/-- The blocks that hold the bytes of a range which is not empty. -/
def requestedBlocksOf (range : ByteRange) (stop blockSize : Nat) : Result BlockRange := do
  let firstBlock := range.offset / blockSize
  let requestedStart ← checkedMul firstBlock blockSize
    (invalidArgument "native read range overflows")
  let blocks ← blocksForBytes (stop - requestedStart) blockSize
  return ⟨firstBlock, blocks⟩

def fileReadExtents (nodes : NodeStore) (segments : StorageNodes) (blockSize : Nat)
    (requested : BlockRange) (range : ByteRange) (root : MetadataNode) :
    Result (List ReadExtent) := do
  let segmentExtents ← collectSegmentReadExtents nodes segments requested range blockSize root
  let runExtents ← collectAppendRunReadExtents nodes requested range root
  let trimmed ← trimSegmentReadExtentsForAppendRuns segmentExtents runExtents
  return trimmed ++ runExtents

namespace Coordinator

variable (crc : List UInt8 → Nat) (config : LocalStoreConfig) (s : Coordinator)

def resolveFileReadPlan (keyspaceId fileId : Nat) (range : ByteRange) : Result ReadPlan := do
  let head ← s.metadata.getFileHead keyspaceId fileId
  let stop ← range.endExclusive
  failIf (stop > head.size) (invalidArgument "native file read extends past end of file")
  if range.len = 0 then
    let _ ← s.metadata.nodes.getMetadataNode head.root
    ReadPlan.fromNonZeroExtents 0 []
  else
    let requested ← requestedBlocksOf range stop config.blockSize
    let root ← s.metadata.nodes.getMetadataNode head.root
    let extents ← fileReadExtents s.metadata.nodes s.storageNodes config.blockSize requested range
      root
    ReadPlan.fromNonZeroExtents range.len extents

def readFileWithVerification (keyspaceId fileId : Nat) (range : ByteRange) (bufLen : Nat)
    (verification : ReadVerification) : Result (List UInt8) := do
  let plan ← s.resolveFileReadPlan config keyspaceId fileId range
  assembleReadPlan (readSource crc s.storageNodes s.appendRunLogs verification) plan bufLen

end Coordinator

/-! ## Collapsing a file batch -/

structure FileBatchWrite where
  offset : Nat
  bytes : List UInt8
  deriving DecidableEq, Repr

def FileBatchWrite.byteRange (write : FileBatchWrite) : Result ByteRange := do
  failIf (write.bytes.length ≥ u64Bound) (invalidArgument "write byte length overflows u64")
  let range : ByteRange := ⟨write.offset, write.bytes.length⟩
  let _ ← range.endExclusive
  return range

abbrev CollapsedFileWrite := CollapsedWrite Unit

def fileWriteOverflow : StorageError := invalidArgument "native batch write range overflows"

def insertCollapsedFileWrite (collapsed : List CollapsedFileWrite) (offset : Nat)
    (bytes : List UInt8) : Result (List CollapsedFileWrite) := do
  let stop ← checkedAdd offset bytes.length (invalidArgument "native file batch range overflows")
  overwrite fileWriteOverflow collapsed offset stop bytes ()

/-- The collapsed writes so far, the size of the file after them, and their bytes. -/
structure FileBatchProgress where
  collapsed : List CollapsedFileWrite
  runningSize : Nat
  totalBytes : Nat
  deriving DecidableEq, Repr

def collapseNativeFileWrite (maxBatchBytes : Nat) (acc : FileBatchProgress)
    (write : FileBatchWrite) : Result FileBatchProgress := do
  let range ← write.byteRange
  let stop ← range.endExclusive
  failIf (range.offset > acc.runningSize)
    (invalidArgument "native file batch cannot create a sparse gap")
  let runningSize := max acc.runningSize stop
  if write.bytes = [] then
    return { acc with runningSize }
  else
    let totalBytes ← checkedAdd acc.totalBytes write.bytes.length
      (invalidArgument "native file batch byte length overflows")
    failIf (totalBytes > maxBatchBytes)
      (invalidArgument "native file batch exceeds maximum payload bytes")
    let collapsed ← insertCollapsedFileWrite acc.collapsed write.offset write.bytes
    return ⟨collapsed, runningSize, totalBytes⟩

def defaultNativeFileBatchMaxBytes : Nat := 32 * 1024 * 1024

/-- The collapsed writes, the bytes from the first to the last, and the new size. -/
def collapseNativeFileBatchWrites (writes : List FileBatchWrite) (baseSize maxBatchBytes : Nat) :
    Result (List CollapsedFileWrite × ByteRange × Nat) := do
  let first ← orFail writes.head? (invalidArgument "native file batch must not be empty")
  let acc ← writes.foldlM (collapseNativeFileWrite maxBatchBytes) ⟨[], baseSize, 0⟩
  match acc.collapsed.head?, acc.collapsed.getLast? with
  | some start, some last =>
    let stop ← last.endExclusive fileWriteOverflow
    return (acc.collapsed, ⟨start.offset, stop - start.offset⟩, acc.runningSize)
  | _, _ => return ([], ⟨first.offset, 0⟩, baseSize)

/-! ## Stretches of blocks -/

/-- A stretch of blocks, in bytes, and the writes in it. -/
structure NativeBatchSegmentGroup where
  start : Nat
  stop : Nat
  writes : List CollapsedFileWrite
  deriving DecidableEq, Repr

def pushSegmentGroup (blockSize : Nat) (groups : List NativeBatchSegmentGroup)
    (write : CollapsedFileWrite) : Result (List NativeBatchSegmentGroup) := do
  let writeEnd ← write.endExclusive fileWriteOverflow
  let start ← checkedMul (write.offset / blockSize) blockSize
    (invalidArgument "native batch group overflows")
  let blocks ← blocksForBytes (writeEnd - start) blockSize
  let len ← checkedMul blocks blockSize (invalidArgument "native batch group length overflows")
  let stop ← checkedAdd start len (invalidArgument "native batch group end overflows")
  match groups.getLast? with
  | none => return [⟨start, stop, [write]⟩]
  | some last =>
    return if start ≤ last.stop then
        groups.dropLast ++ [⟨last.start, max last.stop stop, last.writes ++ [write]⟩]
      else groups ++ [⟨start, stop, [write]⟩]

def nativeBatchSegmentGroups (writes : List CollapsedFileWrite) (blockSize : Nat) :
    Result (List NativeBatchSegmentGroup) :=
  writes.foldlM (pushSegmentGroup blockSize) []

/-- Whether the writes cover the bytes from `coveredThrough` to `target`. -/
def coverFrom (target : Nat) : Nat → List CollapsedFileWrite → Result Bool
  | _, [] => .ok false
  | coveredThrough, write :: writes => do
    let writeEnd ← write.endExclusive fileWriteOverflow
    if writeEnd ≤ coveredThrough then
      coverFrom target coveredThrough writes
    else if write.offset > coveredThrough then
      return false
    else if writeEnd ≥ target then
      return true
    else
      coverFrom target writeEnd writes

def nativeBatchWritesCoverRange (writes : List CollapsedFileWrite) (range : ByteRange) :
    Result Bool := do
  if range.len = 0 then
    return true
  else
    let target ← range.endExclusive
    coverFrom target range.offset writes

def overlayNativeBatchWrite (groupStart : Nat) (bytes : List UInt8) (write : CollapsedFileWrite) :
    Result (List UInt8) := do
  let start := write.offset - groupStart
  failIf (start + write.bytes.length > bytes.length)
    (corrupt "native batch segment range does not cover payload")
  return splice bytes start write.bytes

def overlayNativeBatchWrites (groupStart : Nat) (writes : List CollapsedFileWrite)
    (bytes : List UInt8) : Result (List UInt8) :=
  writes.foldlM (overlayNativeBatchWrite groupStart) bytes

/-! ## Committing a file batch -/

structure NativeFileReceiptEdit where
  range : BlockRange
  receipt : SegmentWriteReceipt
  deriving DecidableEq, Repr

structure NativeFileDeltaEntry where
  range : BlockRange
  segmentId : Nat
  segmentOffset : Nat
  deriving DecidableEq, Repr

structure NativeFileDeltaCommit where
  keyspaceId : Nat
  fileId : Nat
  commitSeq : Nat
  baseFileVersion : Nat
  newFileVersion : Nat
  oldSize : Nat
  newSize : Nat
  writeCount : Nat
  collapsedRangeCount : Nat
  committedBytes : Nat
  entries : List NativeFileDeltaEntry
  deriving DecidableEq, Repr

structure FileWriteCommit where
  keyspaceId : Nat
  fileId : Nat
  range : ByteRange
  version : Nat
  commitSeq : Nat
  durability : WriteDurability
  deriving DecidableEq, Repr

section

variable (crc : List UInt8 → Nat) (config : LocalStoreConfig)

/-- The bytes of the file in a stretch of blocks, as far as the writes leave any. -/
def preservedBytes (s : Coordinator) (keyspaceId fileId size : Nat)
    (group : NativeBatchSegmentGroup) : Result (List UInt8) := do
  let segmentLen := group.stop - group.start
  let empty := List.replicate segmentLen (0 : UInt8)
  if group.start < size then
    let preservedLen := min (size - group.start) segmentLen
    let preserved : ByteRange := ⟨group.start, preservedLen⟩
    if ← nativeBatchWritesCoverRange group.writes preserved then
      return empty
    else
      let bytes ← s.readFileWithVerification crc config keyspaceId fileId preserved preservedLen
        .default
      return splice empty 0 bytes
  else
    return empty

def writeSegmentGroup (keyspaceId fileId : Nat) (head : FileHead) (root : MetadataNode)
    (integrity : PayloadIntegrity) (group : NativeBatchSegmentGroup) : Op NativeFileReceiptEdit := do
  let segmentLen ← checkedSub group.stop group.start
    (invalidArgument "native batch segment range underflows")
  let segmentBlocks ← blocksForBytes segmentLen config.blockSize
  let range : BlockRange := ⟨group.start / config.blockSize, segmentBlocks⟩
  let inside ← root.coveredRange.containsRange range
  failIf (¬ inside) (invalidArgument "native file batch exceeds file root coverage")
  let s ← get
  let preserved ← preservedBytes crc config s keyspaceId fileId head.size group
  let bytes ← overlayNativeBatchWrites group.start group.writes preserved
  let receipt ← onSegments (writeSegment crc config.blockSize bytes integrity)
  return ⟨range, receipt⟩

def editFile (root : MetadataNode) (newRoot : Nat) (edit : NativeFileReceiptEdit) : Op Nat := do
  let inside ← root.coveredRange.containsRange edit.range
  failIf (¬ inside) (invalidArgument "native file batch exceeds file root coverage")
  let expected ← checkedMul edit.range.blocks config.blockSize
    (invalidArgument "native write segment length overflows")
  failIf (edit.receipt.descriptor.bytes ≠ expected)
    (conflict "native write receipt byte count does not match metadata intent")
  let s ← get
  let result ← onMetadata (onNodes (replaceTreeRangeWithReceipts config.blockSize
    s.segmentDescriptor [edit.receipt.descriptor] newRoot
    ⟨edit.range, some ⟨edit.receipt.descriptor.segmentId, edit.range.start⟩⟩))
  return result.root

structure NativeFileReceiptPublish where
  keyspaceId : Nat
  fileId : Nat
  baseVersion : Nat
  committedRange : ByteRange
  newSize : Nat
  edits : List NativeFileReceiptEdit
  durability : WriteDurability
  deriving DecidableEq, Repr

def publishNativeFileReceiptEditsWithDelta (publish : NativeFileReceiptPublish)
    (writeCount collapsedRangeCount committedBytes : Nat) :
    Op (FileWriteCommit × Option NativeFileDeltaCommit) := do
  let s ← get
  let head ← s.metadata.getFileHead publish.keyspaceId publish.fileId
  failIf (head.version ≠ publish.baseVersion) (conflict "stale native file version")
  if publish.edits = [] then
    return (⟨publish.keyspaceId, publish.fileId, publish.committedRange, head.version,
      head.latestCommit, publish.durability⟩, none)
  else
    let root ← s.metadata.nodes.getMetadataNode head.root
    let newRoot ← publish.edits.foldlM (editFile config root) head.root
    let _ ← onMetadata (publishFileRoot config publish.keyspaceId (.fileVersion publish.baseVersion)
      publish.fileId head.root newRoot publish.newSize)
    let _ ← publish.edits.mapM fun edit =>
      onSegments (markSegmentReferenced edit.receipt.descriptor.segmentId)
    onMetadata (invalidateAppendStreamsForFile publish.keyspaceId publish.fileId)
    let t ← get
    let committed ← t.metadata.getFileHead publish.keyspaceId publish.fileId
    return (⟨publish.keyspaceId, publish.fileId, publish.committedRange, committed.version,
        committed.latestCommit, publish.durability⟩,
      some ⟨publish.keyspaceId, publish.fileId, committed.latestCommit, publish.baseVersion,
        committed.version, head.size, publish.newSize, writeCount, collapsedRangeCount,
        committedBytes, publish.edits.map fun edit =>
          ⟨edit.range, edit.receipt.descriptor.segmentId, 0⟩⟩)

def commitFileBatchWithDelta (keyspaceId fileId : Nat) (writes : List FileBatchWrite)
    (durability : WriteDurability) (integrity : PayloadIntegrity) :
    Op (FileWriteCommit × Option NativeFileDeltaCommit) := do
  let s ← get
  let head ← s.metadata.getFileHead keyspaceId fileId
  let (collapsed, range, newSize) ← collapseNativeFileBatchWrites writes head.size
    defaultNativeFileBatchMaxBytes
  if collapsed = [] then
    return (⟨keyspaceId, fileId, range, head.version, head.latestCommit, durability⟩, none)
  else
    let root ← s.metadata.nodes.getMetadataNode head.root
    let groups ← nativeBatchSegmentGroups collapsed config.blockSize
    let edits ← groups.mapM (writeSegmentGroup crc config keyspaceId fileId head root integrity)
    let bytes := min (collapsed.map (·.bytes.length)).sum (u64Bound - 1)
    publishNativeFileReceiptEditsWithDelta config
      ⟨keyspaceId, fileId, head.version, range, newSize, edits, durability⟩ writes.length
      collapsed.length bytes

end

end CowStore.Local
