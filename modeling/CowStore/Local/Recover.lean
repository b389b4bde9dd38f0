import CowStore.Local.AppendPublish

/-!
# Replaying the records of files

A store that is opened again applies the records that were kept since its last export: the
deltas of file batches and the records of visible publishes.  Either one makes a new root of
a file and enters the commit under the sequence number that the record has.
-/

namespace CowStore.Local

open Lib Object Tree StorageError

/-! ## Deltas of file batches -/

namespace NativeFileDeltaCommit

def segmentIds (commit : NativeFileDeltaCommit) : List Nat :=
  ((commit.entries.map (·.segmentId)).insertionSort (· ≤ ·)).dedup

end NativeFileDeltaCommit

def setNextCommitSeqForReplay (nextCommitSeq : Nat) : MetadataOp Unit :=
  modify fun s => { s with nextCommitSeq }

section

variable (config : LocalStoreConfig)

def replayNativeFileDeltaEntry (receipts : List SegmentWriteReceipt) (root : MetadataNode)
    (newRoot : Nat) (entry : NativeFileDeltaEntry) : Op Nat := do
  let inside ← root.coveredRange.containsRange entry.range
  failIf (¬ inside) (corrupt "native file delta range exceeds file root coverage")
  let segmentBase ← checkedSub entry.range.start entry.segmentOffset
    (corrupt "native file delta segment offset exceeds logical start")
  let s ← get
  let result ← onMetadata (onNodes (replaceTreeRangeWithReceipts config.blockSize
    s.segmentDescriptor (receipts.map (·.descriptor)) newRoot
    ⟨entry.range, some ⟨entry.segmentId, segmentBase⟩⟩))
  return result.root

def replayNativeFileDeltaCommit (commit : NativeFileDeltaCommit) : Op Unit := do
  failIf (commit.entries = []) (corrupt "native file delta commit has no entries")
  let s ← get
  let current ← s.metadata.getFileHead commit.keyspaceId commit.fileId
  failIf (current.version ≠ commit.baseFileVersion ∨ current.size ≠ commit.oldSize)
    (corrupt "native file delta base head disagrees with replay state")
  onMetadata (setNextCommitSeqForReplay commit.commitSeq)
  let receipts ← (commit.segmentIds.mapM s.storageNodes.receiptForSegment :
    Result (List SegmentWriteReceipt))
  let root ← s.metadata.nodes.getMetadataNode current.root
  let entries := commit.entries.insertionSort fun a b => a.range.start ≤ b.range.start
  let newRoot ← entries.foldlM (replayNativeFileDeltaEntry config receipts root) current.root
  let group ← onMetadata (publishFileRoot config commit.keyspaceId
    (.fileVersion commit.baseFileVersion) commit.fileId current.root newRoot commit.newSize)
  failIf (group.commitSeq ≠ commit.commitSeq)
    (corrupt "native file delta replay produced unexpected commit sequence")
  let t ← get
  let replayed ← t.metadata.getFileHead commit.keyspaceId commit.fileId
  failIf (replayed.version ≠ commit.newFileVersion ∨ replayed.size ≠ commit.newSize)
    (corrupt "native file delta replay produced unexpected file head")
  let _ ← receipts.mapM fun receipt =>
    onSegments (markSegmentReferenced receipt.descriptor.segmentId)
  onMetadata (invalidateAppendStreamsForFile commit.keyspaceId commit.fileId)

/-! ## Records of visible publishes -/

def appendVisiblePublishAlreadyMaterialized (head : FileHead) (record : AppendVisiblePublish) :
    Bool :=
  head.version ≥ record.newFileVersion ∧ head.size ≥ record.newSize ∧
    head.latestCommit ≥ record.commitSeq

def enterVisiblePublish (record : AppendVisiblePublish) (oldEntry : KeyspaceFile)
    (fileWriterEpoch newRoot : Nat) : MetadataOp Unit := do
  let s ← get
  let newRootNode ← s.nodes.getMetadataNode newRoot
  let currentKeyspace ← s.getKeyspaceHead record.keyspaceId
  let currentEntry ← s.keyspaceFileInShards currentKeyspace.shardRoots record.fileId
  let current := currentEntry.head
  if appendVisiblePublishAlreadyMaterialized current record then
    return ()
  else
    failIf (current ≠ oldEntry.head)
      (conflict "append visible publish file head changed before materialization")
    failIf (s.fileWriterEpoch record.keyspaceId record.fileId ≠ fileWriterEpoch)
      (conflict "append visible publish writer epoch changed before materialization")
    record.validateForReconstructedHead record.keyspaceId record.fileId current.version current.size
      current.latestCommit
    failIf (s.commitGroups.values.any (·.commitSeq = record.commitSeq))
      (corrupt "append visible publish commit sequence already exists")
    let commitGroup ← allocCommitGroupId
    let newHead := { current with
      version := record.newFileVersion
      latestCommit := record.commitSeq
      root := newRoot
      size := record.newSize }
    newHead.validateTransitionFrom current newRootNode.coveredRange config.blockSize
    let update ← updateKeyspaceFile currentKeyspace.shardRoots currentKeyspace.fileCount record.fileId
      { oldEntry with head := newHead }
    failIf (currentKeyspace.generation + 1 ≥ u64Bound) (conflict "keyspace generation overflow")
    let newKeyspaceHead := { currentKeyspace with
      generation := currentKeyspace.generation + 1
      latestCommit := max currentKeyspace.latestCommit record.commitSeq
      shardRoots := currentKeyspace.shardRoots.set update.shardIndex update.newShard.shardId
      fileCount := update.fileCount }
    let keyspaceCommit := { currentKeyspace.commit record.commitSeq commitGroup update with
      keyspaceId := record.keyspaceId }
    let fileCommit : FileCommit := ⟨record.commitSeq, commitGroup, record.commitSeq,
      record.keyspaceId, record.fileId, some oldEntry.head.root, newRoot,
      some oldEntry.head.version, record.newFileVersion, oldEntry.head.size, record.newSize⟩
    let nextCommitSeq ← checkedAdd record.commitSeq 1 (conflict "commit sequence overflow")
    modify fun s => { s with
      nextCommitSeq := max s.nextCommitSeq nextCommitSeq
      keyspaceHeads := s.keyspaceHeads.insert record.keyspaceId newKeyspaceHead
      keyspaceCatalogShards := s.keyspaceCatalogShards.insert update.newShard.shardId update.newShard
      commitGroups := s.commitGroups.insert commitGroup
        ⟨commitGroup, record.commitSeq, .nativeKeyspace record.keyspaceId,
          [.fileRoot record.fileId oldEntry.head.root newRoot record.newSize]⟩
      keyspaceCommits := (s.keyspaceCommits ++ [keyspaceCommit]).insertionSort
        fun a b => keyspaceCommitKey a ≤ keyspaceCommitKey b
      fileCommits := (s.fileCommits ++ [fileCommit]).insertionSort
        fun a b => fileCommitKey a ≤ fileCommitKey b
      fileWriterEpochs := s.fileWriterEpochs.insert (record.keyspaceId, record.fileId)
        (max fileWriterEpoch record.writerEpoch) }

def materializeAppendVisiblePublishRecord (record : AppendVisiblePublish) : Op Unit := do
  record.validate
  let s ← get
  let keyspaceHead ← s.metadata.getKeyspaceHead record.keyspaceId
  let entry ← s.metadata.keyspaceFileInShards keyspaceHead.shardRoots record.fileId
  let oldHead := entry.head
  if appendVisiblePublishAlreadyMaterialized oldHead record then
    return ()
  else
    let fileWriterEpoch := s.metadata.fileWriterEpoch record.keyspaceId record.fileId
    record.validateForReconstructedHead record.keyspaceId record.fileId oldHead.version oldHead.size
      oldHead.latestCommit
    let publishLen ← checkedSub record.newSize oldHead.size
      (corrupt "append visible publish range underflows")
    let result ← onMetadata (onNodes (replaceTreeByteRangeWithRunExtents config.blockSize
      s.segmentDescriptor oldHead.root ⟨oldHead.size, publishLen⟩ record.runExtents))
    onMetadata (enterVisiblePublish config record entry fileWriterEpoch result.root)

end

end CowStore.Local
