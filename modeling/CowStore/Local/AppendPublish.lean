import CowStore.Local.File

/-!
# Appending to files

A stream appends bytes to its log and records the run.  A publish edits the runs of the
file's tree and commits the new root.  Where the publish has to be durable before it is
visible, the commit is planned first: the plan reserves the commit sequence and the new
catalog shard and marks the file, and is applied once its record is durable.
-/

namespace CowStore.Local

open Lib Object Tree StorageError

/-! ## Streams -/

def nextAppendRaw : Op Nat := do
  let s ← get
  let (raw, appendStreamAllocator) ← s.appendStreamAllocator.nextRaw
  set { s with appendStreamAllocator }
  return raw

def openAppendStream (keyspaceId fileId : Nat) : Op AppendStream := do
  let streamId ← nextAppendRaw
  onMetadata (insertAppendStream streamId keyspaceId fileId)

def closeAppendStream (status : AppendStreamStatus) (stream : AppendStream) : Op Unit := do
  onMetadata (endAppendStream status stream)
  modify fun s => { s with
    appendStreamStorageLanes := s.appendStreamStorageLanes.erase stream.streamId }

def abortAppendStream (stream : AppendStream) : Op Unit :=
  closeAppendStream .aborted stream

def releaseAppendStream (stream : AppendStream) : Op Unit :=
  closeAppendStream .released stream

/-- The storage node of a stream; the first append chooses it. -/
def appendStreamStorageNode (streamId : Nat) : Op Nat := do
  let s ← get
  match s.appendStreamStorageLanes.lookup streamId with
  | some storageNode => do
    failIf (storageNode ∉ s.storageNodes.nodeOrder)
      (notFound "storage_node" (toString storageNode))
    return storageNode
  | none => do
    let storageNode ← onSegments chooseStorageNode
    modify fun s => { s with
      appendStreamStorageLanes := s.appendStreamStorageLanes.insert streamId storageNode }
    return storageNode

structure PreparedAppendStreamRun where
  stream : AppendStream
  ticketId : Nat
  range : ByteRange
  storageNode : Nat
  deriving DecidableEq, Repr

def prepareAppendStreamRun (stream : AppendStream) (dataLen : Nat) : Op PreparedAppendStreamRun := do
  failIf (dataLen = 0) (invalidArgument "append payload must not be empty")
  failIf (dataLen ≥ u64Bound) (invalidArgument "append byte length overflows u64")
  let ticketId ← nextAppendRaw
  let s ← get
  let range ← s.metadata.prepareAppendStreamRange stream dataLen
  let storageNode ← appendStreamStorageNode stream.streamId
  return ⟨stream, ticketId, range, storageNode⟩

def appendRunLogId (streamId : Nat) : Nat := streamId % u64Bound

section

variable (crc : List UInt8 → Nat) (combine : Nat → Nat → Nat → Nat) (config : LocalStoreConfig)

def PreparedAppendStreamRun.run (prepared : PreparedAppendStreamRun) (logLen : Nat)
    (data : List UInt8) (integrity : PayloadIntegrity) : AppendLogRun where
  runId := prepared.ticketId
  storageNode := prepared.storageNode
  streamId := prepared.stream.streamId
  writerEpoch := prepared.stream.writerEpoch
  keyspaceId := prepared.stream.keyspaceId
  fileId := prepared.stream.fileId
  fileOffsetStart := prepared.range.offset
  payloadLen := data.length
  logId := appendRunLogId prepared.stream.streamId
  logPayloadOffset := logLen
  logRecordBytes := data.length
  integrity := segmentPayloadIntegrity crc integrity data

def writeAppendRunPayloadToMemory (prepared : PreparedAppendStreamRun) (data : List UInt8)
    (integrity : PayloadIntegrity) : Op AppendLogRun := do
  failIf (data.length ≠ prepared.range.len)
    (invalidArgument "append payload length disagrees with prepared stream range")
  let s ← get
  let key := (prepared.storageNode, appendRunLogId prepared.stream.streamId)
  let log := (s.appendRunLogs.lookup key).getD []
  set { s with appendRunLogs := s.appendRunLogs.insert key (log ++ data) }
  let run := prepared.run crc log.length data integrity
  run.validate
  return run

def recordPreparedAppendStreamRun (prepared : PreparedAppendStreamRun) (run : AppendLogRun) :
    Op AppendTicket := do
  failIf (run.runId ≠ prepared.ticketId ∨ run.storageNode ≠ prepared.storageNode ∨
      run.streamId ≠ prepared.stream.streamId ∨ run.writerEpoch ≠ prepared.stream.writerEpoch ∨
      run.keyspaceId ≠ prepared.stream.keyspaceId ∨ run.fileId ≠ prepared.stream.fileId ∨
      run.fileOffsetStart ≠ prepared.range.offset ∨ run.payloadLen ≠ prepared.range.len)
    (corrupt "append run manifest disagrees with prepared stream range")
  onMetadata (recordAppendStreamRun combine prepared.stream prepared.ticketId prepared.range run)

def appendStreamWithIntegrity (stream : AppendStream) (data : List UInt8)
    (durability : WriteDurability) (integrity : PayloadIntegrity) : Op AppendTicket := do
  failIf (data = []) (invalidArgument "append payload must not be empty")
  let prepared ← prepareAppendStreamRun stream data.length
  let run ← writeAppendRunPayloadToMemory crc prepared data integrity
  let ticket ← recordPreparedAppendStreamRun combine prepared run
  if durability = .flushed then
    let _ ← onMetadata (markAppendStreamDurable stream)
    return ticket
  else
    return ticket

/-! ## Publishing -/

def submitAppendPublish (stream : AppendStream) (publishThrough : Nat) : Op AppendPublishTicket := do
  let ticketId ← nextAppendRaw
  let s ← get
  let ticket ← s.metadata.checkAppendPublish stream ticketId publishThrough
  set { s with
    appendPublishTickets := s.appendPublishTickets.insert ticketId ⟨ticket, none⟩ }
  failIf (ticketId ∈ s.appendPublishTickets) (conflict "append publish ticket id reused")
  return ticket

def onTickets (f : AppendPublishTickets → Result AppendPublishTickets) : Op Unit := do
  let s ← get
  let appendPublishTickets ← f s.appendPublishTickets
  set { s with appendPublishTickets }

/-- The head of a keyspace, which an earlier plan of the same batch may have moved on. -/
def MetadataInner.draftKeyspaceHead (s : MetadataInner) (drafts : Table Nat KeyspaceHead)
    (keyspaceId : Nat) : Result KeyspaceHead :=
  orFail ((drafts.lookup keyspaceId).or (s.keyspaceHeads.lookup keyspaceId))
    (keyspaceNotFound keyspaceId)

/-- The new tree of a publish, before the publish is committed. -/
structure AppendPublishDraft where
  stream : AppendStream
  oldHead : FileHead
  publishRange : ByteRange
  runExtents : List RunBackedFileExtent
  newRoot : Nat
  deriving DecidableEq, Repr

def draftAppendPublish (drafts : Table Nat KeyspaceHead) (ticket : AppendPublishTicket)
    (stream : AppendStream) : Op AppendPublishDraft := do
  let s ← get
  let keyspaceHead ← s.metadata.draftKeyspaceHead drafts ticket.keyspaceId
  let entry ← s.metadata.keyspaceFileInShards keyspaceHead.shardRoots ticket.fileId
  let oldHead := entry.head
  let unpublished ← s.metadata.appendStreamPublishRecords stream oldHead.size ticket.publishThrough
  let runExtents ← (unpublished.mapM AppendStreamRunRecord.extent :
    Result (List RunBackedFileExtent))
  let len ← checkedSub ticket.publishThrough oldHead.size
    (conflict "append publish range underflows")
  let publishRange : ByteRange := ⟨oldHead.size, len⟩
  let result ← onMetadata (onNodes (replaceTreeByteRangeWithRunExtents config.blockSize
    s.segmentDescriptor oldHead.root publishRange runExtents))
  return ⟨stream, oldHead, publishRange, runExtents, result.root⟩

def waitAppendPublish (ticket : AppendPublishTicket) (durability : WriteDurability) :
    Op AppendPublishCommit := do
  let s ← get
  match ← s.metadata.appendPublishTicketStatus s.appendPublishTickets ticket with
  | .completed commit => return commit
  | .pending stream =>
    let draft ← draftAppendPublish config ∅ ticket stream
    let _ ← onMetadata (publishFileRoot config ticket.keyspaceId
      (.appendStream ticket.streamId ticket.writerEpoch) ticket.fileId draft.oldHead.root
      draft.newRoot ticket.publishThrough)
    onMetadata (markAppendStreamPublished stream ticket.publishThrough)
    let t ← get
    let committed ← t.metadata.getFileHead ticket.keyspaceId ticket.fileId
    let commit : AppendPublishCommit := ⟨ticket.keyspaceId, ticket.fileId, draft.publishRange,
      committed.version, committed.latestCommit, durability⟩
    onTickets fun tickets => completeAppendPublishTicket tickets ticket commit
    return commit

/-! ## Planned publishes -/

/-- The commits from `expected` on, in order, are `seqs`. -/
def inFlightFrom : Nat → List Nat → Result (Option Nat)
  | expected, [] => .ok (some expected)
  | expected, seq :: seqs =>
    if seq < expected then
      inFlightFrom expected seqs
    else if seq ≠ expected then
      .ok none
    else do
      let next ← checkedAdd expected 1 (conflict "append publish commit sequence overflows")
      inFlightFrom next seqs

/-- Every commit since the last durable one is of a publish under way. -/
def MetadataInner.appendPublishCommitGapIsInFlight (s : MetadataInner)
    (durableNextCommitSeq : Nat) : Result Bool :=
  if durableNextCommitSeq > s.nextCommitSeq then
    .ok false
  else if durableNextCommitSeq = s.nextCommitSeq then
    .ok true
  else do
    let inFlight := (s.appendPublishInFlight.values.map (·.commitSeq)).filter fun seq =>
      durableNextCommitSeq ≤ seq ∧ seq < s.nextCommitSeq
    let reached ← inFlightFrom durableNextCommitSeq (inFlight.insertionSort (· ≤ ·))
    return reached = some s.nextCommitSeq

structure AppendPublishPlan where
  ticket : AppendPublishTicket
  stream : AppendStream
  oldHead : FileHead
  newHead : FileHead
  newKeyspaceShard : KeyspaceCatalogShard
  commitGroup : CommitGroup
  keyspaceCommit : KeyspaceCommit
  fileCommit : FileCommit
  commit : AppendPublishCommit
  publishRange : ByteRange
  payloadPersistStart : Nat
  runExtents : List RunBackedFileExtent
  visiblePublish : AppendVisiblePublish
  inFlight : AppendPublishInFlight
  deriving DecidableEq

def requiresPriorMetadataDurable : StorageError :=
  conflict "prepared append publish requires prior metadata durable"

/-- The plan of a drafted publish, and the head of the keyspace after it. -/
def planAppendPublish (ticket : AppendPublishTicket) (durability : WriteDurability)
    (durableNextCommitSeq : Nat) (drafts : Table Nat KeyspaceHead) (draft : AppendPublishDraft) :
    MetadataOp (AppendPublishPlan × KeyspaceHead) := do
  let s ← get
  let gapInFlight ← s.appendPublishCommitGapIsInFlight durableNextCommitSeq
  failIf (¬ gapInFlight) requiresPriorMetadataDurable
  failIf (s.appendPublishInFlightForFile ticket.keyspaceId ticket.fileId) publishInFlightForFile
  let currentKeyspace ← s.draftKeyspaceHead drafts ticket.keyspaceId
  let currentEntry ← s.keyspaceFileInShards currentKeyspace.shardRoots ticket.fileId
  let current := currentEntry.head
  let oldHead := draft.oldHead
  failIf (current.root ≠ oldHead.root ∨ current.size ≠ oldHead.size ∨
      current.version ≠ oldHead.version ∨ current.latestCommit ≠ oldHead.latestCommit)
    (conflict "append publish file head changed before plan")
  let state ← orFail (s.appendStreams.lookup ticket.streamId) stalePublishTicket
  state.validateToken draft.stream
  let changed := conflict "append publish stream state changed before plan"
  failIf (state.publishedThrough ≠ oldHead.size ∨ ticket.publishThrough ≤ state.publishedThrough ∨
    ticket.publishThrough > state.acceptedTail) changed
  let tail ← state.contiguousRecordTailFrom state.publishedThrough
  failIf (ticket.publishThrough > tail) changed
  let newRootNode ← s.nodes.getMetadataNode draft.newRoot
  let commitSeq ← allocCommitSeq
  let commitGroup ← allocCommitGroupId
  let version ← nextFileVersion current.version
  let newHead : FileHead := ⟨current.fileId, version, draft.newRoot, ticket.publishThrough, commitSeq⟩
  newHead.validateTransitionFrom current newRootNode.coveredRange config.blockSize
  let update ← updateKeyspaceFile currentKeyspace.shardRoots currentKeyspace.fileCount ticket.fileId
    { currentEntry with head := newHead }
  let newKeyspaceHead ← currentKeyspace.withShard commitSeq update
  let inFlight : AppendPublishInFlight := ⟨ticket.ticketId, ticket.streamId, commitSeq,
    ticket.writerEpoch, ticket.keyspaceId, ticket.fileId, ticket.publishThrough, oldHead.root,
    oldHead.size⟩
  modify fun s => { s with
    appendPublishInFlight := s.appendPublishInFlight.insert ticket.ticketId inFlight }
  failIf (ticket.ticketId ∈ s.appendPublishInFlight)
    (conflict "append publish ticket already has in-flight plan")
  let visiblePublish : AppendVisiblePublish :=
    { recordId := ticket.ticketId
      commitSeq := commitSeq
      keyspaceId := ticket.keyspaceId
      fileId := ticket.fileId
      -- the epoch before the stream, unless bytes of the stream are durable already
      baseWriterEpoch := if state.durableThrough > state.visibleBaseSize then state.writerEpoch
        else state.baseWriterEpoch
      writerEpoch := ticket.writerEpoch
      baseFileVersion := oldHead.version
      newFileVersion := version
      oldSize := oldHead.size
      newSize := ticket.publishThrough
      publishThrough := ticket.publishThrough
      runExtents := draft.runExtents }
  visiblePublish.validate
  return (
    { ticket := ticket
      stream := draft.stream
      oldHead := oldHead
      newHead := newHead
      newKeyspaceShard := update.newShard
      commitGroup := ⟨commitGroup, commitSeq, .nativeKeyspace ticket.keyspaceId,
        [.fileRoot ticket.fileId oldHead.root draft.newRoot ticket.publishThrough]⟩
      keyspaceCommit := { currentKeyspace.commit commitSeq commitGroup update with
        keyspaceId := ticket.keyspaceId }
      fileCommit := ⟨commitSeq, commitGroup, commitSeq, ticket.keyspaceId, ticket.fileId,
        some oldHead.root, draft.newRoot, some oldHead.version, version, oldHead.size,
        ticket.publishThrough⟩
      commit := ⟨ticket.keyspaceId, ticket.fileId, draft.publishRange, version, commitSeq,
        durability⟩
      publishRange := draft.publishRange
      payloadPersistStart := min state.durableThrough ticket.publishThrough
      runExtents := draft.runExtents
      visiblePublish := visiblePublish
      inFlight := inFlight },
    newKeyspaceHead)

/-- The plan of a publish, and the heads of keyspaces for the next plan of the batch. -/
def prepareAppendPublishPlanWithDrafts (ticket : AppendPublishTicket)
    (durability : WriteDurability) (durableNextCommitSeq : Nat)
    (drafts : Table Nat KeyspaceHead) : Op (AppendPublishPlan × Table Nat KeyspaceHead) := do
  let s ← get
  match ← s.metadata.appendPublishTicketStatus s.appendPublishTickets ticket with
  | .completed _ => throw (conflict "append publish ticket is already completed")
  | .pending stream =>
    let draft ← draftAppendPublish config drafts ticket stream
    let (plan, keyspaceHead) ← onMetadata (planAppendPublish config ticket durability
      durableNextCommitSeq drafts draft)
    return (plan, drafts.insert ticket.keyspaceId keyspaceHead)

end

def cancelAppendPublishPlan (plan : AppendPublishPlan) : MetadataOp Unit :=
  modify fun s =>
    if s.appendPublishInFlight.lookup plan.ticket.ticketId = some plan.inFlight then
      { s with appendPublishInFlight := s.appendPublishInFlight.erase plan.ticket.ticketId }
    else s

def AppendPublishPlan.validate (plan : AppendPublishPlan) : Result Unit := do
  checkEach RunBackedFileExtent.validate plan.runExtents
  let expectedLen ← checkedSub plan.inFlight.publishThrough plan.oldHead.size
    (corrupt "append publish plan range underflows")
  failIf (plan.publishRange.offset ≠ plan.oldHead.size ∨ plan.publishRange.len ≠ expectedLen ∨
      plan.newHead.root ≠ plan.fileCommit.newRoot ∨ plan.newHead.size ≠ plan.fileCommit.newSize ∨
      plan.newHead.version ≠ plan.fileCommit.newVersion ∨
      plan.newHead.latestCommit ≠ plan.commit.commitSeq ∨
      plan.inFlight.oldRoot ≠ plan.oldHead.root ∨ plan.inFlight.oldSize ≠ plan.oldHead.size)
    (corrupt "append publish plan range is invalid")

def keyspaceCommitKey (commit : KeyspaceCommit) : Nat ×ₗ Nat :=
  toLex (commit.commitSeq, commit.shardIndex)

def fileCommitKey (commit : FileCommit) : Nat ×ₗ Nat ×ₗ Nat :=
  toLex (commit.commitSeq, toLex (commit.keyspaceId, commit.fileId))

/-- The planned commit, in the state under the lock. -/
def applyPlannedCommit (plan : AppendPublishPlan) : MetadataOp Unit := do
  let s ← get
  let inFlight ← orFail (s.appendPublishInFlight.lookup plan.ticket.ticketId)
    (corrupt "prepared append publish is not in flight")
  failIf (inFlight ≠ plan.inFlight) (corrupt "prepared append publish in-flight marker changed")
  let currentKeyspace ← s.getKeyspaceHead plan.ticket.keyspaceId
  let currentEntry ← s.keyspaceFileInShards currentKeyspace.shardRoots plan.ticket.fileId
  let current := currentEntry.head
  failIf (current.root ≠ plan.oldHead.root ∨ current.size ≠ plan.oldHead.size ∨
      current.version ≠ plan.oldHead.version ∨ current.latestCommit ≠ plan.oldHead.latestCommit)
    (corrupt "prepared append publish file head changed before apply")
  let stream ← orFail (s.appendStreams.lookup plan.ticket.streamId) staleAppendStream
  stream.validateToken plan.stream
  failIf (stream.publishedThrough ≠ plan.oldHead.size)
    (corrupt "prepared append publish stream state changed before apply")
  -- the stream is changed in place, before the records and the shard are looked at
  let advanced := { stream with
    durableThrough := max stream.durableThrough plan.ticket.publishThrough
    publishedThrough := plan.ticket.publishThrough }
  modify fun s => { s with
    appendStreams := s.appendStreams.insert plan.ticket.streamId advanced }
  let records ← retainRecords plan.ticket.publishThrough stream.records
  modify fun s => { s with
    appendStreams := s.appendStreams.insert plan.ticket.streamId { advanced with records } }
  let shardIndex := plan.keyspaceCommit.shardIndex
  failIf (currentKeyspace.shardRoots[shardIndex]? ≠ some plan.keyspaceCommit.oldShard)
    (corrupt "prepared append publish catalog shard changed before apply")
  failIf (currentKeyspace.generation + 1 ≥ u64Bound) (conflict "keyspace generation overflow")
  let newKeyspaceHead := { currentKeyspace with
    generation := currentKeyspace.generation + 1
    latestCommit := max currentKeyspace.latestCommit plan.commit.commitSeq
    shardRoots := currentKeyspace.shardRoots.set shardIndex plan.newKeyspaceShard.shardId }
  let keyspaceCommit := { plan.keyspaceCommit with
    oldFileCount := currentKeyspace.fileCount
    newFileCount := currentKeyspace.fileCount }
  modify fun s => { s with
    keyspaceHeads := s.keyspaceHeads.insert plan.ticket.keyspaceId newKeyspaceHead
    keyspaceCatalogShards := s.keyspaceCatalogShards.insert plan.newKeyspaceShard.shardId
      plan.newKeyspaceShard
    keyspaceCommits := (s.keyspaceCommits ++ [keyspaceCommit]).insertionSort
      fun a b => keyspaceCommitKey a ≤ keyspaceCommitKey b
    fileCommits := (s.fileCommits ++ [plan.fileCommit]).insertionSort
      fun a b => fileCommitKey a ≤ fileCommitKey b
    commitGroups := s.commitGroups.insert plan.commitGroup.commitGroup plan.commitGroup
    fileWriterEpochs := s.fileWriterEpochs.insert (plan.ticket.keyspaceId, plan.ticket.fileId)
      plan.ticket.writerEpoch
    appendPublishInFlight := s.appendPublishInFlight.erase plan.ticket.ticketId }

def applyAppendPublishPlan (plan : AppendPublishPlan) : Op AppendPublishCommit := do
  plan.validate
  let s ← get
  let record ← orFail (s.appendPublishTickets.lookup plan.ticket.ticketId) stalePublishTicket
  failIf (record.ticket ≠ plan.ticket ∨ record.completed ≠ none) stalePublishTicket
  onMetadata (applyPlannedCommit plan)
  onTickets fun tickets => completeAppendPublishTicket tickets plan.ticket plan.commit
  return plan.commit

/-! ## Publishes in one step -/

section

variable (config : LocalStoreConfig)

def publishAppendStream (stream : AppendStream) (publishThrough : Nat) (durability : WriteDurability) :
    Op AppendPublishCommit := do
  let ticket ← submitAppendPublish stream publishThrough
  waitAppendPublish config ticket durability

/-- The plans of a batch so far, the heads of keyspaces and the commit that they lead to, and
the files they are for. -/
structure AppendPublishBatch where
  plans : List AppendPublishPlan
  drafts : Table Nat KeyspaceHead
  nextCommitSeq : Nat
  files : List (Nat × Nat)

def planTicket (batch : AppendPublishBatch) (ticket : AppendPublishTicket) : Op AppendPublishBatch := do
  if (ticket.keyspaceId, ticket.fileId) ∈ batch.files then
    return batch
  else
    let s ← get
    match ← s.metadata.appendPublishTicketStatus s.appendPublishTickets ticket with
    | .completed _ => return batch
    | .pending _ =>
      let (plan, drafts) ← prepareAppendPublishPlanWithDrafts config ticket .flushed
        batch.nextCommitSeq batch.drafts
      let next ← checkedAdd plan.commit.commitSeq 1 (conflict "durable cursor commit overflow")
      return ⟨batch.plans ++ [plan], drafts, max next batch.nextCommitSeq,
        (ticket.keyspaceId, ticket.fileId) :: batch.files⟩

/-- One attempt at a batch of publishes; `persisted` is what came of writing the records of
the plans. -/
def persistAppendPublishTicketBatch (tickets : List AppendPublishTicket) (durableNextCommitSeq : Nat)
    (persisted : Result Unit) : Op Unit := do
  let batch ← tickets.foldlM (planTicket config) ⟨[], ∅, durableNextCommitSeq, []⟩
  match persisted with
  | .error error => do
    batch.plans.forM fun plan => onMetadata (cancelAppendPublishPlan plan)
    throw error
  | .ok _ => batch.plans.forM fun plan => do
    let _ ← applyAppendPublishPlan plan

end

end CowStore.Local
