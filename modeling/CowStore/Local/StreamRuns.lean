import CowStore.Local.StreamPlans

/-!
# Runs of a coordinator and its streams

A coordinator serves the requests of a store, the steps of a durable append, batches of
publishes, and writes under grants, and the custodian of the storage nodes runs between
them.  After each request the streams are as they should be, provided that a receipt which
is handed in for a file with an active stream is of a segment that the custodian has not
freed in the meantime.
-/

namespace CowStore.Local

open Lib Object

inductive CoordinatorRequest
  | store (request : StoreRequest)
  | prepareAppendStreamRun (stream : AppendStream) (dataLen : Nat)
  | recordPreparedAppendStreamRun (prepared : PreparedAppendStreamRun) (run : AppendLogRun)
  | markAppendStreamDurableThrough (stream : AppendStream) (durableThrough : Nat)
  | publishAppendStream (stream : AppendStream) (publishThrough : Nat) (durability : WriteDurability)
  | persistAppendPublishTicketBatch (tickets : List AppendPublishTicket) (durableNextCommitSeq : Nat)
      (persisted : Result Unit)
  | issueBlockWriteGrant (deviceId : Nat) (range : BlockRange) (durability : WriteDurability)
  | issueNativeWriteGrant (keyspaceId fileId : Nat) (range : ByteRange) (segmentBytes : Nat)
      (durability : WriteDurability)
  | writeGrantedSegment (grant : WriteGrant) (data : List UInt8)
  | submitBlockWriteReceipt (grant : WriteGrant) (receipt : SegmentWriteReceipt)
  | submitNativeWriteReceipt (grant : WriteGrant) (receipt : SegmentWriteReceipt)
  | runStorageNodeCustodian (expired : List Nat)

section

variable (crc : List UInt8 → Nat) (combine : Nat → Nat → Nat → Nat) (config : LocalStoreConfig)

def CoordinatorRequest.run : CoordinatorRequest → Op Unit
  | .store request => request.run crc combine config
  | .prepareAppendStreamRun stream dataLen => void (Local.prepareAppendStreamRun stream dataLen)
  | .recordPreparedAppendStreamRun prepared run =>
    void (Local.recordPreparedAppendStreamRun combine prepared run)
  | .markAppendStreamDurableThrough stream durableThrough =>
    void (onMetadata (Local.markAppendStreamDurableThrough stream durableThrough))
  | .publishAppendStream stream publishThrough durability =>
    void (Local.publishAppendStream config stream publishThrough durability)
  | .persistAppendPublishTicketBatch tickets durableNextCommitSeq persisted =>
    Local.persistAppendPublishTicketBatch config tickets durableNextCommitSeq persisted
  | .issueBlockWriteGrant deviceId range durability =>
    void (Local.issueBlockWriteGrant config deviceId range durability)
  | .issueNativeWriteGrant keyspaceId fileId range segmentBytes durability =>
    void (Local.issueNativeWriteGrant keyspaceId fileId range segmentBytes durability)
  | .writeGrantedSegment grant data => void (onSegments (Local.writeGrantedSegment crc config grant data))
  | .submitBlockWriteReceipt grant receipt => void (Local.submitBlockWriteReceipt config grant receipt)
  | .submitNativeWriteReceipt grant receipt => void (Local.submitNativeWriteReceipt config grant receipt)
  | .runStorageNodeCustodian expired => void (onSegments (Local.runStorageNodeCustodian expired))

def CoordinatorRequest.handle (s : Coordinator) (request : CoordinatorRequest) : Coordinator :=
  lastState (request.run crc combine config) s

/-- A receipt that is handed in for a file with an active stream is of a segment which is
pending or referenced. -/
def CoordinatorRequest.Backed (s : Coordinator) : CoordinatorRequest → Prop
  | .submitNativeWriteReceipt grant receipt => ∀ keyspaceId fileId range baseVersion,
    grant.intent = .nativeWrite keyspaceId fileId range baseVersion →
    s.metadata.Appended keyspaceId fileId → s.storageNodes.Ready receipt.descriptor.segmentId
  | _ => True

def BackedFrom (s : Coordinator) : List CoordinatorRequest → Prop
  | [] => True
  | request :: requests =>
    request.Backed s ∧ BackedFrom (request.handle crc combine config s) requests

end

variable {crc : List UInt8 → Nat} {combine : Nat → Nat → Nat → Nat} {config : LocalStoreConfig}
  {s : Coordinator}

/-! ## One request -/

theorem holdsStreams_void {α : Type} {x : Op α} (h : HoldsStreams x s) : HoldsStreams (void x) s :=
  wp_bind.2 h

theorem holdsStreams_metadata {α : Type} {x : MetadataOp α} {Q : α → MetadataInner → Prop}
    (h : s.metadata.Streams) (hx : Along Leaves x s.metadata Q) : HoldsStreams (onMetadata x) s :=
  holdsStreams_of_keeps h (along_onMetadata (along_keeps hx))

theorem runMetadataCustodian_streams (h : s.metadata.Streams) (policy : RetentionPolicy) :
    HoldsStreams (runMetadataCustodian policy) s := by
  refine holdsStreams_of_keeps (Q := fun _ _ => True) h ?_
  refine (along_onMetadata (along_keeps (markReachableForGc_leaves policy))).bind fun mark s1 _ _ => ?_
  refine (sweepMetadataAfterMark_via (along_keeps (sweepUnmarkedAfterMark_leaves policy _))).bind
    fun sweep s2 _ _ => ?_
  exact Along.get (Along.check fun _ _ => Along.pure trivial)

theorem StoreRequest.run_streams (h : s.metadata.Streams) (request : StoreRequest) :
    HoldsStreams (request.run crc combine config) s := by
  cases request with
  | device request => exact holdsStreams_void (holdsStreams_of_same h (perform_sameFiles request))
  | createKeyspace => exact holdsStreams_void (holdsStreams_metadata h createKeyspace_leaves)
  | createFile keyspaceId name =>
    exact holdsStreams_void (holdsStreams_metadata h (createFile_leaves h.grounded _ _))
  | snapshotKeyspace source target =>
    exact holdsStreams_void (holdsStreams_metadata h snapshotKeyspace_leaves)
  | restoreKeyspace source point =>
    exact holdsStreams_void (holdsStreams_metadata h restoreKeyspace_leaves)
  | checkpointKeyspace keyspaceId =>
    exact holdsStreams_void (holdsStreams_metadata h checkpointKeyspace_leaves)
  | commitFileBatch keyspaceId fileId writes durability integrity =>
    exact holdsStreams_void (commitFileBatch_streams h _ _ _ _ _)
  | openAppendStream keyspaceId fileId =>
    exact holdsStreams_void (holdsStreams_of_keeps h
      (openAppendStream_via fun streamId _ => insertAppendStream_keeps streamId _ _))
  | appendStream stream data durability integrity =>
    exact holdsStreams_void (holdsStreams_of_keeps h (appendStream_via
      (fun stream ticketId range run _ => recordAppendStreamRun_keeps stream ticketId range run)
      (fun stream _ => markAppendStreamDurable_keeps stream) _ _ _ _))
  | releaseAppendStream stream =>
    exact holdsStreams_of_keeps h (closeAppendStream_via (endAppendStream_keeps (by decide) _))
  | abortAppendStream stream =>
    exact holdsStreams_of_keeps h (closeAppendStream_via (endAppendStream_keeps (by decide) _))
  | submitAppendPublish stream publishThrough =>
    exact holdsStreams_void (holdsStreams_of_keeps h submitAppendPublish_via)
  | waitAppendPublish ticket durability => exact holdsStreams_void (waitAppendPublish_streams h _ _)
  | publishPlanned ticket durability durableNextCommitSeq =>
    exact holdsStreams_void (publishPlanned_streams h _ _ _)
  | markReachableForGc policy =>
    exact holdsStreams_void (holdsStreams_metadata h (markReachableForGc_leaves _))
  | sweepMetadataAfterMark policy epoch =>
    exact holdsStreams_void (holdsStreams_of_keeps h
      (sweepMetadataAfterMark_via (along_keeps (sweepUnmarkedAfterMark_leaves _ _))))
  | runMetadataCustodian policy => exact holdsStreams_void (runMetadataCustodian_streams h _)

theorem publishAppendStream_streams (h : s.metadata.Streams) (stream : AppendStream)
    (publishThrough : Nat) (durability : WriteDurability) :
    HoldsStreams (publishAppendStream config stream publishThrough durability) s := by
  have hsubmit : HoldsStreams (submitAppendPublish stream publishThrough) s :=
    holdsStreams_of_keeps h submitAppendPublish_via
  exact wp_bind.2 (wp_mono hsubmit (fun ticket _ h1 => waitAppendPublish_streams h1 ticket durability)
    fun _ h1 => h1)

variable {durability : WriteDurability}

theorem issueWriteGrant_sameFiles {intent : WriteGrantIntent} {maxBytes : Nat} :
    Moves (Coordinator.Via SameFiles) (issueWriteGrant intent maxBytes durability) s := by
  refine (along_segments _).bind fun _ _ _ _ => (along_segments _).bind fun _ _ _ _ => ?_
  exact Along.check fun _ _ => Along.pure trivial

theorem issueBlockWriteGrant_sameFiles {deviceId : Nat} {range : BlockRange} :
    Moves (Coordinator.Via SameFiles) (issueBlockWriteGrant config deviceId range durability) s := by
  refine Along.check fun _ _ => Along.get (Along.check fun _ _ => ?_)
  exact Along.check2 fun _ _ => issueWriteGrant_sameFiles

theorem issueNativeWriteGrant_sameFiles {keyspaceId fileId : Nat} {range : ByteRange}
    {segmentBytes : Nat} : Moves (Coordinator.Via SameFiles)
      (issueNativeWriteGrant keyspaceId fileId range segmentBytes durability) s := by
  refine Along.check fun _ _ => Along.get (Along.check fun _ _ => ?_)
  exact issueWriteGrant_sameFiles

theorem submitBlockWriteReceipt_sameFiles {grant : WriteGrant} {receipt : SegmentWriteReceipt} :
    Moves (Coordinator.Via SameFiles) (submitBlockWriteReceipt config grant receipt) s := by
  refine Along.check fun _ _ => ?_
  split
  · exact refl (r := Coordinator.Via SameFiles) s
  · refine Along.get (Along.check3 fun _ _ _ => along_edit.bind fun result s1 _ _ => ?_)
    refine (along_onMetadata publishShardRoots_sameFiles).bind fun group s2 _ _ => ?_
    refine (along_segments _).bind fun _ s3 _ _ => Along.check2 fun _ _ => ?_
    exact Along.pure trivial

theorem submitNativeWriteReceipt_streams (h : s.metadata.Streams) (grant : WriteGrant)
    (receipt : SegmentWriteReceipt)
    (hbacked : (CoordinatorRequest.submitNativeWriteReceipt grant receipt).Backed s) :
    HoldsStreams (submitNativeWriteReceipt config grant receipt) s := by
  refine wp_check h fun _ _ => ?_
  split
  · exact h
  · next keyspaceId fileId range baseVersion hintent =>
    refine wp_check h fun _ _ => wp_check h fun _ _ => wp_check h fun _ _ => ?_
    refine wp_step run_get (wp_check h fun head _ => wp_bind.2 ?_)
    refine wp_mono (publishNativeFileReceiptEdits_streams h _ ?_ _ _ _) (fun _ _ h1 => h1) fun _ h1 => h1
    intro hactive edit hmem
    rw [List.mem_singleton.1 hmem]
    exact hbacked keyspaceId fileId range baseVersion hintent hactive

theorem CoordinatorRequest.run_streams (h : s.metadata.Streams) (request : CoordinatorRequest)
    (hbacked : request.Backed s) : HoldsStreams (request.run crc combine config) s := by
  have hsegments : ∀ {α : Type} (x : SegmentOp α), HoldsStreams (void (onSegments x)) s :=
    fun x => holdsStreams_void (holdsStreams_of_same h (along_segments x))
  cases request with
  | store request => exact request.run_streams h
  | prepareAppendStreamRun stream dataLen =>
    exact holdsStreams_void (holdsStreams_of_keeps h (prepareAppendStreamRun_via _ _))
  | recordPreparedAppendStreamRun prepared run =>
    refine holdsStreams_void (holdsStreams_of_keeps (Q := fun _ _ => True) h (Along.check fun _ _ => ?_))
    exact along_onMetadata (recordAppendStreamRun_keeps _ _ _ _)
  | markAppendStreamDurableThrough stream durableThrough =>
    exact holdsStreams_void (holdsStreams_of_keeps h
      (along_onMetadata markAppendStreamDurableThrough_keeps))
  | publishAppendStream stream publishThrough durability =>
    exact holdsStreams_void (publishAppendStream_streams h _ _ _)
  | persistAppendPublishTicketBatch tickets durableNextCommitSeq persisted =>
    exact persistAppendPublishTicketBatch_streams h _ _ _
  | issueBlockWriteGrant deviceId range durability =>
    exact holdsStreams_void (holdsStreams_of_same h issueBlockWriteGrant_sameFiles)
  | issueNativeWriteGrant keyspaceId fileId range segmentBytes durability =>
    exact holdsStreams_void (holdsStreams_of_same h issueNativeWriteGrant_sameFiles)
  | writeGrantedSegment grant data => exact hsegments _
  | submitBlockWriteReceipt grant receipt =>
    exact holdsStreams_void (holdsStreams_of_same h submitBlockWriteReceipt_sameFiles)
  | submitNativeWriteReceipt grant receipt =>
    exact holdsStreams_void (submitNativeWriteReceipt_streams h _ _ hbacked)
  | runStorageNodeCustodian expired => exact hsegments _

/-! ## Streams that have ended -/

/-- Nothing is appended to the stream, submitted for it or published from it: a wait for a
publish of it returns only what was completed before, and changes nothing. -/
structure Refuses (crc : List UInt8 → Nat) (combine : Nat → Nat → Nat → Nat) (config : LocalStoreConfig)
    (s : Coordinator) (streamId : Nat) : Prop where
  append : ∀ stream data durability integrity ticket s', stream.streamId = streamId →
    appendStreamWithIntegrity crc combine stream data durability integrity s ≠ .ok ticket s'
  record : ∀ prepared run ticket s', prepared.stream.streamId = streamId →
    recordPreparedAppendStreamRun combine prepared run s ≠ .ok ticket s'
  submit : ∀ stream publishThrough ticket s', stream.streamId = streamId →
    submitAppendPublish stream publishThrough s ≠ .ok ticket s'
  publish : ∀ stream publishThrough durability commit s', stream.streamId = streamId →
    publishAppendStream config stream publishThrough durability s ≠ .ok commit s'
  plan : ∀ ticket durability durableNextCommitSeq drafts result s', ticket.streamId = streamId →
    prepareAppendPublishPlanWithDrafts config ticket durability durableNextCommitSeq drafts s ≠
      .ok result s'
  wait : ∀ ticket durability commit s', ticket.streamId = streamId →
    waitAppendPublish config ticket durability s = .ok commit s' → s' = s ∧
      ∃ record, s.appendPublishTickets.lookup ticket.ticketId = some record ∧
        record.completed = some commit

section

variable {streamId : Nat} {state : AppendStreamState}

variable {stream : AppendStream} {m : MetadataInner}

theorem activeStream_ne_ok (hstate : m.appendStreams.lookup streamId = some state)
    (hstatus : state.status ≠ .active) (hid : stream.streamId = streamId)
    (other : AppendStreamState) : m.activeStream stream ≠ .ok other := by
  intro hok
  obtain ⟨hother, -, hactive⟩ := activeStream_eq_ok hok
  rw [hid] at hother
  cases hstate.symm.trans hother
  exact hstatus hactive

theorem ticketStatus_completed {tickets : AppendPublishTickets} {ticket : AppendPublishTicket}
    {commit : AppendPublishCommit}
    (h : m.appendPublishTicketStatus tickets ticket = .ok (.completed commit)) :
    ∃ record, tickets.lookup ticket.ticketId = some record ∧ record.completed = some commit := by
  obtain ⟨record, hrecord, ⟨⟩, -, h⟩ := bind2_eq_ok.1 h
  refine ⟨record, orFail_eq_ok.1 hrecord, ?_⟩
  split at h
  · next heq =>
    cases h
    exact heq
  · obtain ⟨state, -, ⟨⟩, -, tail, -, h⟩ := bind3_eq_ok.1 h
    obtain ⟨⟨⟩, -, ⟨⟩, -, h⟩ := bind2_eq_ok.1 h
    cases h

theorem ticketStatus_ne_pending (hstate : m.appendStreams.lookup streamId = some state)
    (hstatus : state.status ≠ .active) {tickets : AppendPublishTickets}
    {ticket : AppendPublishTicket} (hid : ticket.streamId = streamId) (stream : AppendStream) :
    m.appendPublishTicketStatus tickets ticket ≠ .ok (.pending stream) := by
  intro hok
  obtain ⟨other, hother, -, hactive, -⟩ := ticketStatus_pending hok
  rw [hid] at hother
  cases hstate.symm.trans hother
  exact hstatus hactive

theorem submitAppendPublish_refused (hstate : s.metadata.appendStreams.lookup streamId = some state)
    (hstatus : state.status ≠ .active) (hid : stream.streamId = streamId) (publishThrough : Nat) :
    wp (submitAppendPublish stream publishThrough) (fun _ _ => False) (fun _ => True) s := by
  have hraw : Moves (Coordinator.Via Eq) nextAppendRaw s := nextAppendRaw_via
  refine hraw.thenWp (fun ticketId s1 hsame _ => ?_) fun _ _ => trivial
  refine wp_step run_get (wp_check trivial fun ticket hticket => ?_)
  obtain ⟨other, hother, -⟩ := bind_eq_ok.1 hticket
  rw [← show s.metadata = s1.metadata from hsame] at hother
  exact (activeStream_ne_ok hstate hstatus hid other hother).elim

theorem prepareAppendStreamRun_refused (hstate : s.metadata.appendStreams.lookup streamId = some state)
    (hstatus : state.status ≠ .active) (hid : stream.streamId = streamId) (dataLen : Nat) :
    wp (prepareAppendStreamRun stream dataLen) (fun _ _ => False) (fun _ => True) s := by
  refine wp_check trivial fun _ _ => wp_check trivial fun _ _ => ?_
  have hraw : Moves (Coordinator.Via Eq) nextAppendRaw s := nextAppendRaw_via
  refine hraw.thenWp (fun ticketId s1 hsame _ => ?_) fun _ _ => trivial
  refine wp_step run_get (wp_check trivial fun range hrange => ?_)
  obtain ⟨-, -, -, -, hrange⟩ := bind2_eq_ok.1 hrange
  obtain ⟨other, hother, -⟩ := bind_eq_ok.1 hrange
  rw [← show s.metadata = s1.metadata from hsame] at hother
  exact (activeStream_ne_ok hstate hstatus hid other hother).elim

theorem refuses (hstate : s.metadata.appendStreams.lookup streamId = some state)
    (hstatus : state.status ≠ .active) : Refuses crc combine config s streamId := by
  refine ⟨?_, ?_, ?_, ?_, ?_, ?_⟩
  · intro stream data durability integrity ticket s' hid hrun
    have hrefused : wp (appendStreamWithIntegrity crc combine stream data durability integrity)
        (fun _ _ => False) (fun _ => True) s := by
      refine wp_check trivial fun _ _ => wp_bind.2 ?_
      exact wp_mono (prepareAppendStreamRun_refused hstate hstatus hid _) (fun _ _ h => h.elim)
        fun _ _ => trivial
    exact wp_of_ok hrefused hrun
  · intro prepared run ticket s' hid hrun
    have hrefused : wp (recordPreparedAppendStreamRun combine prepared run) (fun _ _ => False)
        (fun _ => True) s := by
      refine wp_check trivial fun _ _ => wp_zoom.2 ?_
      refine wp_check trivial fun _ _ => wp_check trivial fun _ _ => wp_check trivial fun _ _ => ?_
      refine wp_step run_get (wp_check trivial fun _ _ => wp_check trivial fun other hother => ?_)
      exact (activeStream_ne_ok hstate hstatus hid other hother).elim
    exact wp_of_ok hrefused hrun
  · intro stream publishThrough ticket s' hid hrun
    exact wp_of_ok (submitAppendPublish_refused hstate hstatus hid publishThrough) hrun
  · intro stream publishThrough durability commit s' hid hrun
    have hrefused : wp (publishAppendStream config stream publishThrough durability) (fun _ _ => False)
        (fun _ => True) s :=
      wp_bind.2 (wp_mono (submitAppendPublish_refused hstate hstatus hid publishThrough)
        (fun _ _ h => h.elim) fun _ _ => trivial)
    exact wp_of_ok hrefused hrun
  · intro ticket durability durableNextCommitSeq drafts result s' hid hrun
    have hrefused : wp (prepareAppendPublishPlanWithDrafts config ticket durability durableNextCommitSeq
        drafts) (fun _ _ => False) (fun _ => True) s := by
      refine wp_step run_get (wp_check trivial fun status hpending => ?_)
      cases status with
      | completed commit => trivial
      | pending stream => exact (ticketStatus_ne_pending hstate hstatus hid stream hpending).elim
    exact wp_of_ok hrefused hrun
  · intro ticket durability commit s' hid hrun
    have hwait : wp (waitAppendPublish config ticket durability) (fun commit s' => s' = s ∧
        ∃ record, s.appendPublishTickets.lookup ticket.ticketId = some record ∧
          record.completed = some commit) (fun _ => True) s := by
      refine wp_step run_get (wp_check trivial fun status hstatus' => ?_)
      cases status with
      | completed commit => exact ⟨rfl, ticketStatus_completed hstatus'⟩
      | pending stream => exact (ticketStatus_ne_pending hstate hstatus hid stream hstatus').elim
    have hresult := wp_of_ok hwait hrun
    exact hresult

end

/-! ## Runs -/

structure StreamStates (crc : List UInt8 → Nat) (combine : Nat → Nat → Nat → Nat)
    (config : LocalStoreConfig) (s : Coordinator) : Prop where
  /-- at most one stream of a file is active -/
  single : ∀ first second stream other, s.metadata.appendStreams.lookup first = some stream →
    s.metadata.appendStreams.lookup second = some other → stream.status = .active →
    other.status = .active → stream.keyspaceId = other.keyspaceId → stream.fileId = other.fileId →
    first = second
  /-- and it has the newest epoch of the file -/
  newest : ∀ streamId stream, s.metadata.appendStreams.lookup streamId = some stream →
    stream.status = .active →
    stream.writerEpoch = s.metadata.fileWriterEpoch stream.keyspaceId stream.fileId ∧
      ∀ id other, s.metadata.appendStreams.lookup id = some other →
        other.keyspaceId = stream.keyspaceId → other.fileId = stream.fileId →
        other.writerEpoch ≤ stream.writerEpoch
  /-- its offsets are in order, and its records cover what is not published yet -/
  inOrder : ∀ streamId stream, s.metadata.appendStreams.lookup streamId = some stream →
    stream.status = .active → stream.InOrder
  /-- it has published what the file holds -/
  sizes : ∀ streamId stream, s.metadata.appendStreams.lookup streamId = some stream →
    stream.status = .active →
    s.metadata.HasSize stream.keyspaceId stream.fileId stream.publishedThrough
  /-- no stream that has ended is of any use -/
  ended : ∀ streamId stream, s.metadata.appendStreams.lookup streamId = some stream →
    stream.status ≠ .active → Refuses crc combine config s streamId

theorem streamStates_of_streams (h : s.metadata.Streams) : StreamStates crc combine config s where
  single := h.single
  newest streamId stream hs hactive := by
    refine ⟨h.newest streamId stream hs hactive, fun id other hother hk hf => ?_⟩
    rw [h.newest streamId stream hs hactive, ← hk, ← hf]
    exact h.epochs id other hother
  inOrder := h.inOrder
  sizes streamId stream hs hactive := h.sizes streamId stream hs hactive nofun
  ended _ _ := refuses

theorem streams_new {storageNodes : List Nat}
    (h : Coordinator.withStorageNodes config storageNodes = .ok s) : s.metadata.Streams := by
  have hc := (PublishBoard.Fits.new h).catalogs
  obtain ⟨⟨⟩, -, hs⟩ := bind_eq_ok.1 h
  cases hs
  -- there is no keyspace, no shard and no stream
  refine ⟨⟨hc, ?_, ?_⟩, ?_, ?_, ?_, ?_, ?_, ?_⟩
  · exact nofun
  · exact nofun
  · exact nofun
  · exact nofun
  · exact nofun
  · exact nofun
  · exact nofun
  · exact nofun

theorem handleAll_streams (h : s.metadata.Streams) (requests : List CoordinatorRequest)
    (hbacked : BackedFrom crc combine config s requests) :
    (requests.foldl (CoordinatorRequest.handle crc combine config) s).metadata.Streams := by
  induction requests generalizing s with
  | nil => exact h
  | cons request requests ih =>
    exact ih (wp_lastState (request.run_streams h hbacked.1)) hbacked.2

/-- After any requests that are backed, the streams are as they should be. -/
theorem coordinator_streamStates {storageNodes : List Nat}
    (h : Coordinator.withStorageNodes config storageNodes = .ok s) (requests : List CoordinatorRequest)
    (hbacked : BackedFrom crc combine config s requests) :
    StreamStates crc combine config
      (requests.foldl (CoordinatorRequest.handle crc combine config) s) :=
  streamStates_of_streams (handleAll_streams (streams_new h) requests hbacked)

def grantedWrite : WriteGrant := ⟨.nativeWrite 1 1 ⟨0, 4⟩ 0, 1, 1, 4, .verified, .flushed⟩

def grantedReceipt : SegmentWriteReceipt := ⟨1, ⟨1, 1, 4, .crc32c 0⟩⟩

/-- A stream of an empty file, and a write under a grant whose receipt is handed in after the
custodian has run. -/
def grantedRequests (expired : List Nat) : List CoordinatorRequest :=
  [.store .createKeyspace, .store (.createFile 1 none), .store (.openAppendStream 1 1),
    .issueNativeWriteGrant 1 1 ⟨0, 4⟩ 4 .flushed, .writeGrantedSegment grantedWrite [1, 2, 3, 4],
    .runStorageNodeCustodian expired, .submitNativeWriteReceipt grantedWrite grantedReceipt]

def grantedStore (expired : List Nat) : Coordinator :=
  (grantedRequests expired).foldl
    (CoordinatorRequest.handle (fun _ => 0) (fun _ _ _ => 0) smallConfig) smallStore

theorem grantedRequests_backed :
    BackedFrom (fun _ => 0) (fun _ _ _ => 0) smallConfig smallStore (grantedRequests []) := by
  refine ⟨trivial, trivial, trivial, trivial, trivial, trivial, fun _ _ _ _ _ _ => ?_, trivial⟩
  refine ⟨⟨1, 4, .durablePendingMetadata, some grantedReceipt⟩, ?_, .inl rfl⟩
  decide +kernel

theorem coordinator_streamStates_granted :
    Coordinator.withStorageNodes smallConfig [] = .ok smallStore ∧
      BackedFrom (fun _ => 0) (fun _ _ _ => 0) smallConfig smallStore (grantedRequests []) ∧
      StreamStates (fun _ => 0) (fun _ _ _ => 0) smallConfig (grantedStore []) :=
  ⟨withStorageNodes_small, grantedRequests_backed,
    coordinator_streamStates withStorageNodes_small (grantedRequests []) grantedRequests_backed⟩

/-- The segment expires before its receipt is handed in: the write becomes visible and fails,
and the stream stays active, behind its file. -/
theorem grantedStore_expired :
    Coordinator.withStorageNodes smallConfig [] = .ok smallStore ∧
      ((grantedStore [1]).metadata.appendStreams.lookup 1).map (fun stream =>
        (stream.status, stream.publishedThrough)) = some (.active, 0) ∧
      ((grantedStore [1]).metadata.getFileHead 1 1).toOption.map (·.size) = some 4 ∧
      ¬ StreamStates (fun _ => 0) (fun _ _ _ => 0) smallConfig (grantedStore [1]) := by
  refine ⟨withStorageNodes_small, by decide +kernel, by decide +kernel, fun h => ?_⟩
  have hstream : ((grantedStore [1]).metadata.appendStreams.lookup 1).map (fun stream =>
      (stream.status, stream.keyspaceId, stream.fileId, stream.publishedThrough)) =
        some (.active, 1, 1, 0) := by decide +kernel
  obtain ⟨stream, hlookup, hfields⟩ := Option.map_eq_some_iff.1 hstream
  obtain ⟨hactive, hk, hf, hpublished⟩ : stream.status = .active ∧ stream.keyspaceId = 1 ∧
      stream.fileId = 1 ∧ stream.publishedThrough = 0 := by simpa using hfields
  obtain ⟨head, hhead, hsize⟩ := h.sizes 1 stream hlookup hactive
  rw [hk, hf] at hhead
  have hfile : ((grantedStore [1]).metadata.getFileHead 1 1).toOption.map (·.size) = some 4 := by
    decide +kernel
  rw [hhead] at hfile
  have hfour : head.size = 4 := Option.some.inj hfile
  omega

end CowStore.Local
