import CowStore.Local.Metadata

/-!
# Keyspaces

A keyspace is a catalog of files in a fixed number of shards.  Every change of a file
replaces the catalog shard of the file and is a commit on the timeline of the keyspace.
-/

namespace CowStore.Local

open Lib Object Tree StorageError

@[irreducible] def keyspaceCatalogShardCount : Nat := 256

def keyspaceNotFound (keyspaceId : Nat) : StorageError :=
  notFound "keyspace" (toString keyspaceId)

/-! ## Heads and catalogs -/

namespace FileHead

def byteCapacity (range : BlockRange) (blockSize : Nat) : Result Nat := do
  range.validateNonEmpty
  failIf (blockSize = 0) (invalidArgument "block_size must be greater than zero")
  failIf (¬ blockSize.isPowerOfTwo) (invalidArgument "block_size must be a power of two")
  checkedMul range.blocks blockSize (invalidArgument "range byte capacity overflows u64")

def validateCurrent (head : FileHead) (rootCoverage : BlockRange) (blockSize : Nat) :
    Result Unit := do
  let capacity ← byteCapacity rootCoverage blockSize
  failIf (head.size > capacity) (invalidArgument "file size exceeds current root coverage")

def validateTransitionFrom (head previous : FileHead) (rootCoverage : BlockRange)
    (blockSize : Nat) : Result Unit := do
  head.validateCurrent rootCoverage blockSize
  failIf (head.fileId ≠ previous.fileId) (invalidArgument "file-head transition changed file_id")
  failIf (head.version < previous.version) (invalidArgument "file version must not regress")
  failIf (head.latestCommit < previous.latestCommit)
    (invalidArgument "file latest_commit must not regress")
  failIf ((head.root ≠ previous.root ∨ head.size ≠ previous.size) ∧
      head.version = previous.version)
    (invalidArgument "file root or size changes must advance file version")

end FileHead

def KeyspaceCatalogShard.validate (shard : KeyspaceCatalogShard) : Result Unit :=
  checkEach (fun row => failIf (row.1 ≠ row.2.head.fileId)
    (invalidArgument "keyspace catalog key does not match file head")) shard.files.rows

def KeyspaceRoot.validate (root : KeyspaceRoot) : Result Unit :=
  failIf (root.shardRoots = [])
    (invalidArgument "keyspace catalog root must include at least one shard")

def keyspaceCatalogShardIndexForLen (fileId shardCount : Nat) : Result Nat := do
  failIf (shardCount = 0) (corrupt "keyspace root has no catalog shards")
  return fileId % shardCount

namespace MetadataInner

variable (s : MetadataInner)

def getKeyspaceHead (keyspaceId : Nat) : Result KeyspaceHead :=
  orFail (s.keyspaceHeads.lookup keyspaceId) (keyspaceNotFound keyspaceId)

def keyspaceRoot (rootId : Nat) : Result KeyspaceRoot :=
  orFail (s.keyspaceRoots.lookup rootId) (notFound "keyspace_root" (toString rootId))

def keyspaceCatalogShard (shardId : Nat) : Result KeyspaceCatalogShard :=
  orFail (s.keyspaceCatalogShards.lookup shardId)
    (notFound "keyspace_catalog_shard" (toString shardId))

def keyspaceFileInShards (shardRoots : List Nat) (fileId : Nat) : Result KeyspaceFile := do
  let shardIndex ← keyspaceCatalogShardIndexForLen fileId shardRoots.length
  let shard ← s.keyspaceCatalogShard (shardRoots.getD shardIndex 0)
  orFail (shard.files.lookup fileId) (notFound "file" (toString fileId))

def getFileHead (keyspaceId fileId : Nat) : Result FileHead := do
  let head ← s.getKeyspaceHead keyspaceId
  let entry ← s.keyspaceFileInShards head.shardRoots fileId
  return entry.head

def appendPublishInFlightForFile (keyspaceId fileId : Nat) : Bool :=
  s.appendPublishInFlight.values.any fun publish =>
    publish.keyspaceId = keyspaceId ∧ publish.fileId = fileId

def appendPublishInFlightForStream (stream : AppendStream) : Bool :=
  s.appendPublishInFlight.values.any fun publish =>
    publish.keyspaceId = stream.keyspaceId ∧ publish.fileId = stream.fileId ∧
      publish.streamId = stream.streamId ∧ publish.writerEpoch = stream.writerEpoch

def fileWriterEpoch (keyspaceId fileId : Nat) : Nat :=
  (s.fileWriterEpochs.lookup (keyspaceId, fileId)).getD 0

end MetadataInner

/-! ## New rows -/

def allocKeyspaceId : MetadataOp Nat := do
  let s ← get
  set { s with nextKeyspaceId := s.nextKeyspaceId + 1 }
  return s.nextKeyspaceId

def reserveKeyspaceIdAtLeastAfter (keyspaceId : Nat) : MetadataOp Unit := do
  let s ← get
  if keyspaceId ≥ s.nextKeyspaceId then
    failIf (keyspaceId + 1 ≥ u128Bound) (conflict "keyspace id overflow")
    set { s with nextKeyspaceId := keyspaceId + 1 }
  else
    return ()

def allocFileId : MetadataOp Nat := do
  let s ← get
  set { s with nextFileId := s.nextFileId + 1 }
  return s.nextFileId

def allocKeyspaceCatalogShardId : MetadataOp Nat := do
  let s ← get
  set { s with nextKeyspaceCatalogShardId := s.nextKeyspaceCatalogShardId + 1 }
  return s.nextKeyspaceCatalogShardId

def allocKeyspaceRootId : MetadataOp Nat := do
  let s ← get
  set { s with nextKeyspaceRootId := s.nextKeyspaceRootId + 1 }
  return s.nextKeyspaceRootId

def insertKeyspaceCatalogShard (files : Table Nat KeyspaceFile) :
    MetadataOp KeyspaceCatalogShard := do
  let shardId ← allocKeyspaceCatalogShardId
  let shard : KeyspaceCatalogShard := ⟨shardId, files⟩
  shard.validate
  modify fun s => { s with
    keyspaceCatalogShards := s.keyspaceCatalogShards.insert shardId shard }
  return shard

def insertKeyspaceRoot (shardRoots : List Nat) (fileCount : Nat) : MetadataOp KeyspaceRoot := do
  let rootId ← allocKeyspaceRootId
  let root : KeyspaceRoot := ⟨rootId, shardRoots, fileCount⟩
  root.validate
  modify fun s => { s with keyspaceRoots := s.keyspaceRoots.insert rootId root }
  return root

/-- The shard that a change of a file replaces, by which, and the files after it. -/
structure CatalogUpdate where
  shardIndex : Nat
  oldShard : Nat
  newShard : KeyspaceCatalogShard
  fileCount : Nat
  deriving DecidableEq

def updateKeyspaceFile (shardRoots : List Nat) (fileCount fileId : Nat) (entry : KeyspaceFile) :
    MetadataOp CatalogUpdate := do
  let shardIndex ← keyspaceCatalogShardIndexForLen fileId shardRoots.length
  let shardId := shardRoots.getD shardIndex 0
  let s ← get
  let shard ← s.keyspaceCatalogShard shardId
  let newShard ← insertKeyspaceCatalogShard (shard.files.insert fileId entry)
  failIf (fileId ∉ shard.files ∧ fileCount + 1 ≥ u64Bound)
    (conflict "keyspace file count overflow")
  return ⟨shardIndex, shardId, newShard,
    if fileId ∈ shard.files then fileCount else fileCount + 1⟩

def KeyspaceHead.withShard (head : KeyspaceHead) (commitSeq : Nat) (update : CatalogUpdate) :
    Result KeyspaceHead := do
  failIf (head.generation + 1 ≥ u64Bound) (conflict "keyspace generation overflow")
  return { head with
    generation := head.generation + 1
    latestCommit := commitSeq
    shardRoots := head.shardRoots.set update.shardIndex update.newShard.shardId
    fileCount := update.fileCount }

def KeyspaceHead.commit (head : KeyspaceHead) (commitSeq commitGroup : Nat)
    (update : CatalogUpdate) : KeyspaceCommit :=
  ⟨commitSeq, commitGroup, commitSeq, head.keyspaceId, update.shardIndex, update.oldShard,
    update.newShard.shardId, head.fileCount, update.fileCount⟩

def nextFileVersion (version : Nat) : Result Nat :=
  checkedAdd version 1 (conflict "file version overflow")

/-! ## Creating keyspaces and files -/

def insertEmptyKeyspaceRoot : MetadataOp KeyspaceRoot := do
  let shards ← (List.range keyspaceCatalogShardCount).mapM fun _ => insertKeyspaceCatalogShard ∅
  insertKeyspaceRoot (shards.map (·.shardId)) 0

def createKeyspace (config : LocalStoreConfig) : MetadataOp KeyspaceHead := do
  config.validate
  let keyspaceId ← allocKeyspaceId
  let root ← insertEmptyKeyspaceRoot
  let head : KeyspaceHead := ⟨keyspaceId, 0, root.shardRoots, root.fileCount, 0⟩
  modify fun s => { s with keyspaceHeads := s.keyspaceHeads.insert keyspaceId head }
  let _ ← insertCheckpoint (.nativeKeyspace keyspaceId) head.latestCommit
    (.nativeKeyspace root.rootId)
  return head

def createFile (config : LocalStoreConfig) (keyspaceId : Nat) (name : Option String) :
    MetadataOp FileHead := do
  config.validate
  let s ← get
  let keyspaceHead ← s.getKeyspaceHead keyspaceId
  let fileId ← allocFileId
  let root ← onNodes (createEmptyTree config.metadataFanout config.metadataLeafBlocks
    ⟨0, config.fileRootBlocks⟩)
  let commitSeq ← allocCommitSeq
  let commitGroup ← allocCommitGroupId
  let fileHead : FileHead := ⟨fileId, 0, root, 0, commitSeq⟩
  fileHead.validateCurrent ⟨0, config.fileRootBlocks⟩ config.blockSize
  let update ← updateKeyspaceFile keyspaceHead.shardRoots keyspaceHead.fileCount fileId
    ⟨name, fileHead⟩
  let nextHead ← keyspaceHead.withShard commitSeq update
  modify fun s => { s with
    fileWriterEpochs := s.fileWriterEpochs.insert (keyspaceId, fileId) 0
    keyspaceHeads := s.keyspaceHeads.insert keyspaceId nextHead
    keyspaceCommits := s.keyspaceCommits ++ [keyspaceHead.commit commitSeq commitGroup update]
    fileCommits := s.fileCommits ++ [⟨commitSeq, commitGroup, commitSeq, keyspaceId, fileId, none,
      root, none, 0, 0, 0⟩]
    commitGroups := s.commitGroups.insert commitGroup
      ⟨commitGroup, commitSeq, .nativeKeyspace keyspaceId, [.fileCreated fileId root 0]⟩ }
  return fileHead

/-! ## Commits of files -/

inductive FileFence
  | fileVersion (version : Nat)
  | appendStream (streamId writerEpoch : Nat)
  deriving DecidableEq, Repr

/-- The fence of a commit of the file with head `current`. -/
def FileFence.check (fence : FileFence) (s : MetadataInner) (keyspaceId : Nat)
    (current : FileHead) : Result Unit :=
  match fence with
  | .fileVersion version =>
    failIf (version ≠ current.version) (conflict "stale file version fence")
  | .appendStream streamId writerEpoch => do
    let stream ← orFail (s.appendStreams.lookup streamId) staleAppendStream
    failIf (stream.keyspaceId ≠ keyspaceId ∨ stream.fileId ≠ current.fileId ∨
      stream.writerEpoch ≠ writerEpoch ∨ stream.publishedThrough ≠ current.size ∨
      stream.status ≠ .active) staleAppendStream

/-- What a commit under the fence does to the streams of the file. -/
def FileFence.settle (fence : FileFence) (keyspaceId fileId newSize : Nat) (s : MetadataInner) :
    MetadataInner :=
  match fence with
  | .fileVersion _ => s
  | .appendStream streamId writerEpoch =>
    { s with
      fileWriterEpochs := s.fileWriterEpochs.insert (keyspaceId, fileId) writerEpoch
      appendStreams := match s.appendStreams.lookup streamId with
        | some stream =>
          if stream.writerEpoch = writerEpoch then
            s.appendStreams.insert streamId { stream with publishedThrough := newSize }
          else s.appendStreams
        | none => s.appendStreams }

def publishFileRoot (config : LocalStoreConfig) (keyspaceId : Nat) (fence : FileFence)
    (fileId oldRoot newRoot newSize : Nat) : MetadataOp CommitGroup := do
  let s ← get
  let currentKeyspace ← s.getKeyspaceHead keyspaceId
  let currentEntry ← s.keyspaceFileInShards currentKeyspace.shardRoots fileId
  let current := currentEntry.head
  failIf (s.appendPublishInFlightForFile keyspaceId fileId) publishInFlightForFile
  fence.check s keyspaceId current
  failIf (current.root ≠ oldRoot) (conflict "stale file root")
  let newRootNode ← s.nodes.getMetadataNode newRoot
  let commitSeq ← allocCommitSeq
  let commitGroup ← allocCommitGroupId
  let group : CommitGroup := ⟨commitGroup, commitSeq, .nativeKeyspace keyspaceId,
    [.fileRoot fileId oldRoot newRoot newSize]⟩
  let version ← nextFileVersion current.version
  let nextHead : FileHead := ⟨current.fileId, version, newRoot, newSize, commitSeq⟩
  nextHead.validateTransitionFrom current newRootNode.coveredRange config.blockSize
  let update ← updateKeyspaceFile currentKeyspace.shardRoots currentKeyspace.fileCount fileId
    { currentEntry with head := nextHead }
  let nextKeyspace ← currentKeyspace.withShard commitSeq update
  modify fun s => { s with
    keyspaceHeads := s.keyspaceHeads.insert keyspaceId nextKeyspace
    keyspaceCommits := s.keyspaceCommits ++ [currentKeyspace.commit commitSeq commitGroup update]
    fileCommits := s.fileCommits ++ [⟨commitSeq, commitGroup, commitSeq, keyspaceId, fileId,
      some current.root, newRoot, some current.version, version, current.size, newSize⟩]
    commitGroups := s.commitGroups.insert commitGroup group }
  modify (fence.settle keyspaceId fileId newSize)
  return group

/-! ## Snapshots, checkpoints and restoring -/

def insertKeyspace (head : KeyspaceHead) : MetadataOp Unit := do
  let root ← insertKeyspaceRoot head.shardRoots head.fileCount
  modify fun s => { s with keyspaceHeads := s.keyspaceHeads.insert head.keyspaceId head }
  let _ ← insertCheckpoint (.nativeKeyspace head.keyspaceId) head.latestCommit
    (.nativeKeyspace root.rootId)

def snapshotTarget (target : Option Nat) : MetadataOp Nat := do
  match target with
  | some target => do
    let s ← get
    failIf (target ∈ s.keyspaceHeads) (conflict "target keyspace already exists")
    reserveKeyspaceIdAtLeastAfter target
    return target
  | none => allocKeyspaceId

def snapshotKeyspace (source : Nat) (target : Option Nat) : MetadataOp KeyspaceHead := do
  let s ← get
  let sourceHead ← s.getKeyspaceHead source
  let target ← snapshotTarget target
  let latestCommit ← allocCommitSeq
  let head : KeyspaceHead := ⟨target, 0, sourceHead.shardRoots, sourceHead.fileCount, latestCommit⟩
  insertKeyspace head
  return head

def checkpointKeyspace (keyspaceId : Nat) : MetadataOp Nat := do
  let s ← get
  let head ← s.getKeyspaceHead keyspaceId
  let root ← insertKeyspaceRoot head.shardRoots head.fileCount
  insertCheckpoint (.nativeKeyspace keyspaceId) head.latestCommit (.nativeKeyspace root.rootId)

def Checkpoint.keyspaceRoot (checkpoint : Checkpoint) : Result Nat :=
  match checkpoint.roots with
  | .nativeKeyspace root => .ok root
  | .blockShard _ =>
    .error (invalidArgument "checkpoint does not contain native keyspace root")

/-- One commit of the timeline of a keyspace, on the shards and the file count before it. -/
def replayKeyspaceCommit (state : List Nat × Nat) (commit : KeyspaceCommit) :
    Result (List Nat × Nat) := do
  failIf (commit.shardIndex ≥ state.1.length)
    (corrupt "keyspace commit references shard outside root set")
  failIf (state.1[commit.shardIndex]? ≠ some commit.oldShard ∨ state.2 ≠ commit.oldFileCount)
    (corrupt "keyspace commit old state does not match replay state")
  return (state.1.set commit.shardIndex commit.newShard, commit.newFileCount)

namespace MetadataInner

variable (s : MetadataInner)

def keyspaceCommitsForKeyspace (keyspaceId : Nat) : List KeyspaceCommit :=
  (s.keyspaceCommits.filter (·.keyspaceId = keyspaceId)).insertionSort
    fun a b => a.commitSeq ≤ b.commitSeq

def replayKeyspaceRoot (keyspaceId commitSeq : Nat) : Result KeyspaceRoot := do
  let checkpoint ← orFail (s.latestCheckpointAtOrBefore (.nativeKeyspace keyspaceId) commitSeq)
    (notFound "checkpoint" (toString keyspaceId))
  let rootId ← checkpoint.keyspaceRoot
  let root ← s.keyspaceRoot rootId
  let state ← ((s.keyspaceCommitsForKeyspace keyspaceId).filter fun commit =>
    checkpoint.commitSeq < commit.commitSeq ∧ commit.commitSeq ≤ commitSeq).foldlM
    replayKeyspaceCommit (root.shardRoots, root.fileCount)
  return ⟨rootId, state.1, state.2⟩

def keyspaceTimelineContainsCommit (keyspaceId commitSeq : Nat) : Bool :=
  s.checkpoints.values.any (fun checkpoint =>
      checkpoint.owner = .nativeKeyspace keyspaceId ∧ checkpoint.commitSeq = commitSeq) ||
    s.keyspaceCommits.any fun commit =>
      commit.keyspaceId = keyspaceId ∧ commit.commitSeq = commitSeq

def keyspaceRestoreCandidates (keyspaceId time : Nat) : List Nat :=
  (s.checkpoints.values.filter (fun checkpoint =>
    checkpoint.owner = .nativeKeyspace keyspaceId ∧ checkpoint.time ≤ time)).map (·.commitSeq) ++
  (s.keyspaceCommits.filter (fun commit =>
    commit.keyspaceId = keyspaceId ∧ commit.time ≤ time)).map (·.commitSeq)

def keyspaceRootForRestore (keyspaceId : Nat) : RestorePoint → Result KeyspaceRoot
  | .checkpoint checkpointId => do
    let checkpoint ← orFail (s.checkpoints.lookup checkpointId)
      (notFound "checkpoint" (toString checkpointId))
    failIf (checkpoint.owner ≠ .nativeKeyspace keyspaceId)
      (invalidArgument "checkpoint does not belong to source keyspace")
    let rootId ← checkpoint.keyspaceRoot
    s.keyspaceRoot rootId
  | .commit commitSeq => do
    failIf (¬ s.keyspaceTimelineContainsCommit keyspaceId commitSeq)
      (notFound "commit" (toString commitSeq))
    s.replayKeyspaceRoot keyspaceId commitSeq
  | .time time => do
    let commitSeq ← orFail (maxByKey id (s.keyspaceRestoreCandidates keyspaceId time))
      (notFound "restore_time" (toString time))
    s.replayKeyspaceRoot keyspaceId commitSeq

end MetadataInner

def restoreKeyspace (source : Nat) (point : RestorePoint) : MetadataOp KeyspaceHead := do
  let s ← get
  failIf (source ∉ s.keyspaceHeads) (keyspaceNotFound source)
  let root ← s.keyspaceRootForRestore source point
  let target ← allocKeyspaceId
  let latestCommit ← allocCommitSeq
  let head : KeyspaceHead := ⟨target, 0, root.shardRoots, root.fileCount, latestCommit⟩
  insertKeyspace head
  return head

end CowStore.Local
