import CowStore.Local.Catalogs
import CowStore.Local.Store

/-!
# Keyspaces that share catalogs

Requests on files and streams, planned publishes that are applied or given up at any later
time, records that are replayed, and the custodian all lead from right catalogs to right
catalogs.  A keyspace changes only by a request that is addressed to it, whichever keyspaces
it shares shards with.
-/

namespace CowStore.Local

open Lib Object MetadataInner

variable {k : Option Nat} {crc : List UInt8 → Nat} {combine : Nat → Nat → Nat → Nat}
  {config : LocalStoreConfig} {m m' : MetadataInner} {s : Coordinator}

theorem via_evolves {α : Type} {x : Op α} {Q : α → Coordinator → Prop}
    (h : Along (Coordinator.Via SameFiles) x s Q) : Along (Coordinator.Via (Evolves k)) x s Q :=
  h.weaken fun _ => evolves_of_same

/-! ## Streams -/

theorem insertAppendStream_evolves (streamId keyspaceId fileId : Nat) :
    Moves (Evolves k) (insertAppendStream streamId keyspaceId fileId) m := by
  refine Along.get (Along.check2 fun _ head => ?_)
  exact Along.check fun _ _ => Along.step run_set evolves_beside (Along.pure trivial)

theorem recordAppendStreamRun_evolves (stream : AppendStream) (ticketId : Nat) (range : ByteRange)
    (run : AppendLogRun) : Moves (Evolves k) (recordAppendStreamRun combine stream ticketId range run) m := by
  refine Along.check3 fun _ _ _ => ?_
  refine Along.get (Along.check3 fun _ _ _ => Along.check3 fun _ _ _ => ?_)
  exact Along.check fun _ _ => Along.step run_set evolves_beside (Along.pure trivial)

theorem markAppendStreamDurable_evolves (stream : AppendStream) :
    Moves (Evolves k) (markAppendStreamDurable stream) m := by
  refine Along.get (Along.check2 fun _ _ => ?_)
  exact Along.step run_set evolves_beside (Along.pure trivial)

variable {stream : AppendStream} {root : MetadataNode} {keyspaceId : Nat}

theorem markAppendStreamPublished_evolves {publishedThrough : Nat} :
    Moves (Evolves k) (markAppendStreamPublished stream publishedThrough) m := by
  refine Along.get (Along.check fun state _ => ?_)
  refine Along.step run_set evolves_beside (Along.check fun records _ => ?_)
  exact ⟨evolves_beside, trivial⟩

theorem endAppendStream_evolves {status : AppendStreamStatus} :
    Moves (Evolves k) (endAppendStream status stream) m := by
  refine Along.get (Along.check2 fun _ _ => ?_)
  exact ⟨evolves_beside, trivial⟩

theorem invalidateAppendStreamsForFile_evolves {fileId : Nat} :
    Moves (Evolves k) (invalidateAppendStreamsForFile keyspaceId fileId) m := by
  refine Along.get (Along.check fun _ _ => ?_)
  exact ⟨evolves_beside, trivial⟩

/-! ## The custodian -/

theorem ensureDeviceAnchor_sameFiles {target : Nat × Nat} :
    Moves SameFiles (ensureDeviceAnchor target) m := by
  refine Along.get ?_
  split
  · exact Along.pure trivial
  · exact Along.check fun _ _ => insertCheckpoint_sameFiles.thenPure

theorem ensureKeyspaceAnchor_evolves (h : m.Catalogs) (target : Nat × Nat) :
    Moves (Evolves k) (ensureKeyspaceAnchor target) m := by
  refine Along.get ?_
  split
  · exact Along.pure trivial
  · refine Along.check fun replayed hreplay => ?_
    refine (insertKeyspaceRoot_evolves (h.replay hreplay)).bind fun _ _ _ _ => ?_
    exact (along_evolves insertCheckpoint_sameFiles).thenPure

theorem ensurePitrAnchorCheckpoints_evolves (h : m.Catalogs) (policy : RetentionPolicy) :
    Moves (Evolves k) (ensurePitrAnchorCheckpoints policy) m := by
  refine Along.get ?_
  refine (along_evolves (Along.forM fun _ _ _ _ => ensureDeviceAnchor_sameFiles)).bind fun _ m1 hev1 _ => ?_
  refine Along.get (Along.forM fun target _ m2 hev2 => ?_)
  exact ensureKeyspaceAnchor_evolves (hev2 (hev1 h).1).1 target

theorem markReachableForGc_evolves (h : m.Catalogs) (policy : RetentionPolicy) :
    Moves (Evolves k) (markReachableForGc policy) m := by
  refine (ensurePitrAnchorCheckpoints_evolves h policy).bind fun _ m1 _ _ => ?_
  refine Moves.seq ?_ fun epoch m2 _ => ?_
  · refine Along.get (Along.check fun _ _ => ?_)
    exact Along.step run_set (evolves_of_same rfl) (Along.pure trivial)
  · refine Along.get (Along.check2 fun _ _ => ?_)
    exact Along.step run_set (evolves_of_same rfl) (Along.pure trivial)

theorem sweepUnmarkedAfterMark_evolves (h : m.Catalogs) (policy : RetentionPolicy) (epoch : Nat) :
    Moves (Evolves k) (sweepUnmarkedAfterMark policy epoch) m := by
  refine Along.check fun _ _ => Along.get (Along.check fun _ _ => ?_)
  refine (ensurePitrAnchorCheckpoints_evolves h policy).bind fun _ m1 _ _ => ?_
  refine Along.get (Along.check2 fun _ _ => ?_)
  refine Along.step run_set (evolves_of_heads rfl rfl rfl rfl fun _ hmem => ?_) (Along.pure trivial)
  exact List.mem_of_mem_filter hmem

/-! ## Planned publishes -/

/-- The shard of a plan is stored, and has as many files as the one that it replaces. -/
structure PlanFits (shards : CatalogShards) (plan : AppendPublishPlan) : Prop where
  oldShard : plan.keyspaceCommit.oldShard ∈ shards
  newShard : shards.lookup plan.newKeyspaceShard.shardId = some plan.newKeyspaceShard
  commit : plan.keyspaceCommit.newShard = plan.newKeyspaceShard.shardId
  placed : ∀ fileId ∈ plan.newKeyspaceShard.files, fileId % 256 = plan.keyspaceCommit.shardIndex
  size : shardSize shards plan.keyspaceCommit.oldShard = plan.newKeyspaceShard.files.keys.length

def DraftsFit (shards : CatalogShards) (drafts : Table Nat KeyspaceHead) : Prop :=
  ∀ keyspaceId head, drafts.lookup keyspaceId = some head → Catalog shards head.shardRoots head.fileCount

variable {plan : AppendPublishPlan} {shards : CatalogShards} {b : PublishBoard}
  {drafts : Table Nat KeyspaceHead}

theorem draftsFit_empty : DraftsFit shards ∅ := by
  exact nofun

theorem PlanFits.extends {shards' : CatalogShards} (h : PlanFits shards plan)
    (hext : shards.Extends shards') : PlanFits shards' plan where
  oldShard := mem_extends hext h.oldShard
  newShard := hext _ _ h.newShard
  commit := h.commit
  placed := h.placed
  size := (shardSize_extends hext h.oldShard).trans h.size

theorem DraftsFit.extends {shards' : CatalogShards} (h : DraftsFit shards drafts)
    (hext : shards.Extends shards') : DraftsFit shards' drafts :=
  fun keyspaceId head hhead => (h keyspaceId head hhead).extends hext

theorem DraftsFit.head (h : m.Catalogs) (hdrafts : DraftsFit m.keyspaceCatalogShards drafts)
    {head : KeyspaceHead} (hhead : m.draftKeyspaceHead drafts keyspaceId = .ok head) :
    Catalog m.keyspaceCatalogShards head.shardRoots head.fileCount := by
  rw [draftKeyspaceHead, orFail_eq_ok, Option.or_eq_some_iff] at hhead
  obtain hdraft | ⟨-, hlive⟩ := hhead
  · exact hdrafts keyspaceId head hdraft
  · exact h.heads keyspaceId head hlive

theorem draftAppendPublish_sameFiles (drafts : Table Nat KeyspaceHead) (ticket : AppendPublishTicket)
    (stream : AppendStream) :
    Along (Coordinator.Via SameFiles) (draftAppendPublish config drafts ticket stream) s
      fun draft _ => draft.stream = stream := by
  refine Along.get (Along.check3 fun _ _ _ => Along.check2 fun _ _ => ?_)
  exact along_edit.bind fun _ _ _ _ => Along.pure rfl

theorem planAppendPublish_evolves (h : m.Catalogs) (ticket : AppendPublishTicket)
    (durability : WriteDurability) (durableNextCommitSeq : Nat)
    (hdrafts : DraftsFit m.keyspaceCatalogShards drafts) (draft : AppendPublishDraft) :
    Along (Evolves k) (planAppendPublish config ticket durability durableNextCommitSeq drafts draft) m
      fun result m' => result.1.ticket = ticket ∧ PlanFits m'.keyspaceCatalogShards result.1 ∧
        Catalog m'.keyspaceCatalogShards result.2.shardRoots result.2.fileCount := by
  refine Along.get (Along.check2 fun _ _ => ?_)
  refine Along.check fun _ _ => Along.check fun head hhead => Along.check fun entry hentry => ?_
  refine Along.check3 fun _ _ _ => Along.check2 fun _ _ => Along.check2 fun _ node => ?_
  have hc := hdrafts.head h hhead
  obtain ⟨-, hfile⟩ := keyspaceFileInShards_eq_ok.1 hentry
  refine alloc_evolves h hc fun commitSeq commitGroup m2 hev h2 hc2 => ?_
  refine Along.check2 fun version _ => ?_
  refine (updateKeyspaceFile_evolves h2 hc2 _ _).bind fun update m3 hev3 hupdate => ?_
  obtain ⟨hreplaces, hcount⟩ := hupdate
  have hc3 := hev3.catalog h2 hc2
  refine Along.check fun head' hhead' => ?_
  refine Along.step run_modify evolves_beside (Along.check2 fun _ _ => ?_)
  refine Along.pure ⟨rfl, ⟨?_, hreplaces.newShard, rfl, hreplaces.placed, ?_⟩, ?_⟩
  · exact hc3.stored _ (List.mem_of_getElem? hreplaces.oldShard)
  · have hmem : ticket.fileId ∈ shardFiles m2.keyspaceCatalogShards
        (head.shardRoots.getD (ticket.fileId % head.shardRoots.length) 0) := by
      rw [shardFiles_extends (hev h).2.1 (hc.stored _ (List.mem_of_getElem? (hc.index _)))]
      exact Table.mem_iff_lookup.2 ⟨entry, hfile⟩
    have hcounted := hreplaces.counted
    rw [hcount hmem] at hcounted
    exact Nat.add_left_cancel hcounted
  · exact KeyspaceHead.withShard_catalog hc3 hreplaces hhead'

theorem prepareAppendPublishPlan_evolves (h : s.metadata.Catalogs) (ticket : AppendPublishTicket)
    (durability : WriteDurability) (durableNextCommitSeq : Nat)
    (hdrafts : DraftsFit s.metadata.keyspaceCatalogShards drafts) :
    Along (Coordinator.Via (Evolves k)) (prepareAppendPublishPlanWithDrafts config ticket durability
      durableNextCommitSeq drafts) s fun result s' => result.1.ticket = ticket ∧
        PlanFits s'.metadata.keyspaceCatalogShards result.1 ∧
        DraftsFit s'.metadata.keyspaceCatalogShards result.2 := by
  refine Along.get (Along.check fun status _ => ?_)
  cases status with
  | completed commit => exact refl (r := Coordinator.Via (Evolves k)) s
  | pending stream =>
    refine (via_evolves (draftAppendPublish_sameFiles _ _ _)).bind fun draft s1 hev1 _ => ?_
    obtain ⟨h1, hext1, -⟩ := hev1 h
    have hdrafts1 := hdrafts.extends hext1
    refine (along_onMetadata (planAppendPublish_evolves h1 ticket durability durableNextCommitSeq
      hdrafts1 draft)).bind ?_
    rintro ⟨plan, head⟩ s2 hev2 ⟨hticket, hplan, hc⟩
    refine Along.pure ⟨hticket, hplan, fun keyspaceId head' hhead' => ?_⟩
    rw [Table.lookup_insert_eq] at hhead'
    split at hhead'
    · cases hhead'
      exact hc
    · exact hdrafts1.extends (hev2 h1).2.1 keyspaceId head' hhead'

theorem evolves_apply {head : KeyspaceHead} {shard : KeyspaceCatalogShard} {commit : KeyspaceCommit}
    (hshard : m.keyspaceCatalogShards.lookup shard.shardId = some shard)
    (hcatalog : Catalog m.keyspaceCatalogShards head.shardRoots head.fileCount)
    (hfits : CommitFits m.keyspaceCatalogShards commit)
    (hheads : m'.keyspaceHeads = m.keyspaceHeads.insert keyspaceId head)
    (hroots : m'.keyspaceRoots = m.keyspaceRoots)
    (hshards : m'.keyspaceCatalogShards = m.keyspaceCatalogShards.insert shard.shardId shard)
    (hnext : m'.nextKeyspaceCatalogShardId = m.nextKeyspaceCatalogShardId)
    (hcommits : m'.keyspaceCommits.Perm (m.keyspaceCommits ++ [commit])) :
    Evolves (some keyspaceId) m m' := by
  have hsame : ∀ id, m'.keyspaceCatalogShards.lookup id = m.keyspaceCatalogShards.lookup id := by
    rw [hshards]
    exact Table.lookup_reinsert hshard
  have hext : m.keyspaceCatalogShards.Extends m'.keyspaceCatalogShards :=
    fun id shard hid => (hsame id).trans hid
  refine evolves_enter hheads hroots hext ?_ ?_ (hcatalog.extends hext)
  · intro h id hid
    rw [hsame]
    exact h.shardIds id (hnext ▸ hid)
  · intro c hmem
    exact mem_append_commit (hfits.extends hext) (hcommits.mem_iff.1 hmem)

theorem applyPlannedCommit_evolves (h : m.Catalogs) (hplan : PlanFits m.keyspaceCatalogShards plan) :
    Moves (Evolves (some plan.ticket.keyspaceId)) (applyPlannedCommit plan) m := by
  refine Along.get (Along.check2 fun _ _ => ?_)
  refine Along.check fun head hhead => Along.check3 fun _ _ stream => Along.check2 fun _ _ => ?_
  refine Along.step run_modify evolves_beside (Along.check fun records _ => ?_)
  refine Along.step run_modify evolves_beside ?_
  refine Along.check fun _ hindex => Along.check fun _ _ => ?_
  have hc := h.heads _ head (orFail_eq_ok.1 hhead)
  have hold := not_not.1 (failIf_eq_ok.1 hindex)
  have hnew := Table.mem_iff_lookup.2 ⟨_, hplan.newShard⟩
  have hfiles := shardFiles_of_lookup hplan.newShard
  have hsize : shardSize m.keyspaceCatalogShards plan.newKeyspaceShard.shardId =
      shardSize m.keyspaceCatalogShards plan.keyspaceCommit.oldShard := by
    rw [hplan.size, shardSize, hfiles]
  have hcatalog : Catalog m.keyspaceCatalogShards
      (head.shardRoots.set plan.keyspaceCommit.shardIndex plan.newKeyspaceShard.shardId)
      head.fileCount := by
    refine hc.set hold hnew ?_ ?_
    · rw [hfiles]
      exact hplan.placed
    · rw [hsize]
  have hfits : CommitFits m.keyspaceCatalogShards { plan.keyspaceCommit with
      oldFileCount := head.fileCount
      newFileCount := head.fileCount } := by
    refine ⟨hplan.oldShard, ?_, ?_, ?_⟩
    · change plan.keyspaceCommit.newShard ∈ _
      rw [hplan.commit]
      exact hnew
    · change ∀ fileId ∈ shardFiles m.keyspaceCatalogShards plan.keyspaceCommit.newShard, _
      rw [hplan.commit, hfiles]
      exact hplan.placed
    · change _ = head.fileCount + shardSize m.keyspaceCatalogShards plan.keyspaceCommit.newShard
      rw [hplan.commit, hsize]
  refine ⟨evolves_apply hplan.newShard hcatalog hfits rfl rfl rfl rfl ?_, trivial⟩
  exact List.perm_insertionSort _ _

theorem onTickets_via {R : MetadataInner → MetadataInner → Prop} [Std.Refl R] [IsTrans MetadataInner R]
    {f : AppendPublishTickets → Result AppendPublishTickets} : Moves (Coordinator.Via R) (onTickets f) s := by
  refine Along.get (Along.check fun _ _ => ?_)
  exact ⟨refl (r := R) s.metadata, trivial⟩

theorem applyAppendPublishPlan_evolves (h : s.metadata.Catalogs)
    (hplan : PlanFits s.metadata.keyspaceCatalogShards plan) :
    Moves (Coordinator.Via (Evolves (some plan.ticket.keyspaceId))) (applyAppendPublishPlan plan) s := by
  refine Along.check fun _ _ => Along.get ?_
  refine Along.check2 fun _ _ => ?_
  refine (along_onMetadata (applyPlannedCommit_evolves h hplan)).bind fun _ _ _ _ => ?_
  exact onTickets_via.thenPure

theorem cancelAppendPublishPlan_evolves (plan : AppendPublishPlan) :
    Moves (Evolves k) (cancelAppendPublishPlan plan) m := by
  refine ⟨?_, trivial⟩
  dsimp only
  split
  · exact evolves_beside
  · exact refl m

theorem publishPlanned_evolves (h : s.metadata.Catalogs) (ticket : AppendPublishTicket)
    (durability : WriteDurability) (durableNextCommitSeq : Nat) :
    Moves (Coordinator.Via (Evolves (some ticket.keyspaceId)))
      (publishPlanned config ticket durability durableNextCommitSeq) s := by
  refine (prepareAppendPublishPlan_evolves h ticket durability durableNextCommitSeq
    draftsFit_empty).bind ?_
  rintro ⟨plan, drafts⟩ s1 hev1 ⟨hticket, hplan, -⟩
  change plan.ticket = ticket at hticket
  subst hticket
  exact applyAppendPublishPlan_evolves (hev1 h).1 hplan

/-! ## Records that are replayed -/

theorem enterVisiblePublish_evolves (h : m.Catalogs) (record : AppendVisiblePublish)
    (oldEntry : KeyspaceFile) (fileWriterEpoch newRoot : Nat) : Moves (Evolves (some record.keyspaceId))
      (enterVisiblePublish config record oldEntry fileWriterEpoch newRoot) m := by
  refine Along.get (Along.check fun node _ => ?_)
  refine Along.check fun head hhead => Along.check fun entry _ => ?_
  have hc := h.heads _ head (orFail_eq_ok.1 hhead)
  dsimp only
  split
  · exact Along.pure trivial
  · refine Along.check2 fun _ _ => Along.check2 fun _ _ => ?_
    refine (along_evolves allocCommitGroupId_sameFiles).bind fun commitGroup m1 hev1 _ => ?_
    have h1 := (hev1 h).1
    have hc1 := hev1.catalog h hc
    refine Along.check fun _ _ => ?_
    refine (updateKeyspaceFile_evolves h1 hc1 _ _).bind fun update m2 hev2 hupdate => ?_
    have hc2 := hev2.catalog h1 hc1
    refine Along.check2 fun _ nextCommitSeq => ?_
    have hfits : CommitFits m2.keyspaceCatalogShards { head.commit record.commitSeq commitGroup update with
        keyspaceId := record.keyspaceId } := hupdate.1.commitFits hc2 rfl rfl rfl rfl rfl
    refine ⟨evolves_apply hupdate.1.newShard (hupdate.1.catalog hc2) hfits rfl rfl rfl rfl ?_, trivial⟩
    exact List.perm_insertionSort _ _

theorem materialize_evolves (h : s.metadata.Catalogs) (record : AppendVisiblePublish) :
    Moves (Coordinator.Via (Evolves (some record.keyspaceId)))
      (materializeAppendVisiblePublishRecord config record) s := by
  refine Along.check fun _ _ => Along.get ?_
  refine Along.check2 fun head entry => ?_
  dsimp only
  split
  · exact Along.pure trivial
  · refine Along.check2 fun _ _ => ?_
    refine (via_evolves along_edit).bind fun result s1 hev1 _ => ?_
    exact along_onMetadata (enterVisiblePublish_evolves (hev1 h).1 _ _ _ _)

theorem replayNativeFileDeltaEntry_sameFiles {receipts : List SegmentWriteReceipt} {newRoot : Nat}
    {entry : NativeFileDeltaEntry} :
    Moves (Coordinator.Via SameFiles) (replayNativeFileDeltaEntry config receipts root newRoot entry) s := by
  refine Along.check3 fun _ _ _ => ?_
  exact Along.get (along_edit.thenPure)

theorem replayNativeFileDeltaCommit_evolves (h : s.metadata.Catalogs) (commit : NativeFileDeltaCommit) :
    Moves (Coordinator.Via (Evolves (some commit.keyspaceId))) (replayNativeFileDeltaCommit config commit) s := by
  refine Along.check fun _ _ => Along.get (Along.check2 fun current _ => ?_)
  refine Along.step rfl (evolves_of_same rfl) (Along.check2 fun receipts root => ?_)
  have h1 : MetadataInner.Catalogs { s.metadata with nextCommitSeq := commit.commitSeq } :=
    ⟨h.heads, h.roots, h.commits, h.shardIds⟩
  refine (via_evolves (along_foldlM fun _ _ _ => replayNativeFileDeltaEntry_sameFiles)).bind
    fun newRoot s2 hev2 _ => ?_
  have h2 := (hev2 h1).1
  refine (along_onMetadata (publishFileRoot_evolves h2 _ _ _ _ _ _)).bind fun group s3 _ _ => ?_
  refine Along.check fun _ _ => Along.get (Along.check fun _ _ => ?_)
  refine Along.check fun _ _ => along_segments_mapM.bind fun _ s4 _ _ => ?_
  exact along_onMetadata invalidateAppendStreamsForFile_evolves

/-! ## Requests of a store -/

theorem writeSegmentGroup_sameFiles {fileId : Nat} {head : FileHead} {integrity : PayloadIntegrity}
    {group : NativeBatchSegmentGroup} : Moves (Coordinator.Via SameFiles)
      (writeSegmentGroup crc config keyspaceId fileId head root integrity group) s := by
  refine Along.check2 fun _ _ => Along.check2 fun _ _ => ?_
  refine Along.get (Along.check2 fun _ _ => ?_)
  exact (along_segments _).thenPure

theorem editFile_sameFiles {newRoot : Nat} {edit : NativeFileReceiptEdit} :
    Moves (Coordinator.Via SameFiles) (editFile config root newRoot edit) s := by
  refine Along.check2 fun _ _ => Along.check2 fun _ _ => ?_
  exact Along.get (along_edit.thenPure)

theorem publishNativeFileReceiptEdits_evolves (h : s.metadata.Catalogs)
    (publish : NativeFileReceiptPublish) (writeCount collapsedRangeCount committedBytes : Nat) :
    Moves (Coordinator.Via (Evolves (some publish.keyspaceId)))
      (publishNativeFileReceiptEditsWithDelta config publish writeCount collapsedRangeCount
        committedBytes) s := by
  refine Along.get (Along.check2 fun head _ => ?_)
  split
  · exact Along.pure trivial
  · refine Along.check fun root _ => ?_
    refine (via_evolves (along_foldlM fun _ _ _ => editFile_sameFiles)).bind
      fun newRoot s1 hev1 _ => ?_
    have h1 := (hev1 h).1
    refine (along_onMetadata (publishFileRoot_evolves h1 _ _ _ _ _ _)).bind fun group s2 _ _ => ?_
    refine along_segments_mapM.bind fun _ s3 _ _ => ?_
    refine (along_onMetadata invalidateAppendStreamsForFile_evolves).bind fun _ s4 _ _ => ?_
    exact Along.get (Along.check fun _ _ => Along.pure trivial)

theorem commitFileBatch_evolves (h : s.metadata.Catalogs) (keyspaceId fileId : Nat)
    (writes : List FileBatchWrite) (durability : WriteDurability) (integrity : PayloadIntegrity) :
    Moves (Coordinator.Via (Evolves (some keyspaceId)))
      (commitFileBatchWithDelta crc config keyspaceId fileId writes durability integrity) s := by
  refine Along.get (Along.check2 fun head batch => ?_)
  obtain ⟨collapsed, range, newSize⟩ := batch
  dsimp only
  split
  · exact Along.pure trivial
  · refine Along.check2 fun root groups => ?_
    refine (via_evolves (Moves.mapM fun _ _ => writeSegmentGroup_sameFiles)).bind
      fun edits s1 hev1 _ => ?_
    exact publishNativeFileReceiptEdits_evolves (hev1 h).1 _ _ _ _

section

-- what the requests on streams do to the metadata, in any preorder
variable {R : MetadataInner → MetadataInner → Prop} [Std.Refl R] [IsTrans MetadataInner R]

theorem nextAppendRaw_via : Moves (Coordinator.Via R) nextAppendRaw s := by
  refine Along.get (Along.check fun raw _ => ?_)
  exact Along.step run_set (refl (r := R) s.metadata) (Along.pure trivial)

theorem openAppendStream_via {keyspaceId fileId : Nat} (hinsert : ∀ streamId m,
      Moves R (insertAppendStream streamId keyspaceId fileId) m) :
    Moves (Coordinator.Via R) (openAppendStream keyspaceId fileId) s :=
  nextAppendRaw_via.bind fun _ _ _ _ => along_onMetadata (hinsert _ _)

theorem closeAppendStream_via {status : AppendStreamStatus} {stream : AppendStream}
    (hend : Moves R (endAppendStream status stream) s.metadata) :
    Moves (Coordinator.Via R) (closeAppendStream status stream) s :=
  (along_onMetadata hend).bind fun _ s1 _ _ => ⟨refl (r := R) s1.metadata, trivial⟩

theorem appendStreamStorageNode_via {streamId : Nat} :
    Moves (Coordinator.Via R) (appendStreamStorageNode streamId) s := by
  refine Along.get ?_
  split
  · exact Along.check fun _ _ => Along.pure trivial
  · refine (along_segments _).bind fun _ s1 _ _ => ?_
    exact Along.step run_modify (refl (r := R) s1.metadata) (Along.pure trivial)

theorem prepareAppendStreamRun_via (stream : AppendStream) (dataLen : Nat) :
    Along (Coordinator.Via R) (prepareAppendStreamRun stream dataLen) s
      fun prepared _ => prepared.stream = stream := by
  refine Along.check2 fun _ _ => nextAppendRaw_via.bind fun _ s1 _ _ => ?_
  refine Along.get (Along.check fun _ _ => ?_)
  exact appendStreamStorageNode_via.bind fun _ _ _ _ => Along.pure rfl

theorem appendStream_via (hrecord : ∀ stream ticketId range run m,
      Moves R (recordAppendStreamRun combine stream ticketId range run) m)
    (hdurable : ∀ stream m, Moves R (markAppendStreamDurable stream) m)
    (stream : AppendStream) (data : List UInt8) (durability : WriteDurability)
    (integrity : PayloadIntegrity) :
    Moves (Coordinator.Via R) (appendStreamWithIntegrity crc combine stream data durability integrity) s := by
  refine Along.check fun _ _ => (prepareAppendStreamRun_via _ _).bind fun prepared s1 _ _ => ?_
  refine Moves.seq ?_ fun run s2 _ => ?_
  · refine Along.check fun _ _ => Along.get ?_
    refine Along.step run_set (refl (r := R) s1.metadata) ?_
    exact Along.check fun _ _ => Along.pure trivial
  refine Moves.seq ?_ fun ticket s3 _ => ?_
  · exact Along.check fun _ _ => along_onMetadata (hrecord _ _ _ _ _)
  split
  · exact (along_onMetadata (hdurable _ _)).thenPure
  · exact Along.pure trivial

theorem submitAppendPublish_via {stream : AppendStream} {publishThrough : Nat} :
    Moves (Coordinator.Via R) (submitAppendPublish stream publishThrough) s := by
  refine nextAppendRaw_via.bind fun ticketId s1 _ _ => ?_
  refine Along.get (Along.check fun ticket _ => ?_)
  refine Along.step run_set (refl (r := R) s1.metadata) ?_
  exact Along.check fun _ _ => Along.pure trivial

theorem sweepMetadataAfterMark_via {policy : RetentionPolicy} {epoch : Nat}
    (hsweep : Moves R (sweepUnmarkedAfterMark policy epoch) s.metadata) :
    Moves (Coordinator.Via R) (sweepMetadataAfterMark policy epoch) s := by
  refine (along_onMetadata hsweep).bind fun sweep s1 _ _ => ?_
  refine Along.step run_modify (refl (r := R) s1.metadata) ?_
  refine (Along.forM fun segmentId _ s2 _ => ?_).thenPure
  exact (along_segments _).mono fun _ _ _ _ => trivial

end

theorem waitAppendPublish_evolves (h : s.metadata.Catalogs) (ticket : AppendPublishTicket)
    (durability : WriteDurability) :
    Moves (Coordinator.Via (Evolves (some ticket.keyspaceId))) (waitAppendPublish config ticket durability) s := by
  refine Along.get (Along.check fun status _ => ?_)
  cases status with
  | completed commit => exact Along.pure trivial
  | pending stream =>
    refine (via_evolves (draftAppendPublish_sameFiles _ _ _)).bind fun draft s1 hev1 _ => ?_
    refine (along_onMetadata (publishFileRoot_evolves (hev1 h).1 _ _ _ _ _ _)).bind fun _ s2 _ _ => ?_
    refine (along_onMetadata markAppendStreamPublished_evolves).bind fun _ s3 _ _ => ?_
    refine Along.get (Along.check fun _ _ => ?_)
    exact onTickets_via.thenPure

theorem runMetadataCustodian_evolves (h : s.metadata.Catalogs) (policy : RetentionPolicy) :
    Moves (Coordinator.Via (Evolves k)) (runMetadataCustodian policy) s := by
  refine (along_onMetadata (markReachableForGc_evolves h policy)).bind fun mark s1 hev1 _ => ?_
  refine (sweepMetadataAfterMark_via (sweepUnmarkedAfterMark_evolves (hev1 h).1 policy _)).bind
    fun sweep s2 _ _ => ?_
  exact Along.get (Along.check fun _ _ => Along.pure trivial)

def StoreRequest.keyspace (m : MetadataInner) : StoreRequest → Option Nat
  | .createKeyspace => some m.nextKeyspaceId
  | .createFile keyspaceId _ => some keyspaceId
  | .snapshotKeyspace _ target => some (target.getD m.nextKeyspaceId)
  | .restoreKeyspace _ _ => some m.nextKeyspaceId
  | .commitFileBatch keyspaceId _ _ _ _ => some keyspaceId
  | .waitAppendPublish ticket _ => some ticket.keyspaceId
  | .publishPlanned ticket _ _ => some ticket.keyspaceId
  | _ => none

theorem along_void {α : Type} {R : Coordinator → Coordinator → Prop} [Std.Refl R] [IsTrans Coordinator R]
    {x : Op α} {Q : α → Coordinator → Prop} (h : Along R x s Q) : Moves R (void x) s :=
  h.thenPure

theorem StoreRequest.run_evolves (h : s.metadata.Catalogs) (request : StoreRequest) :
    Moves (Coordinator.Via (Evolves (request.keyspace s.metadata))) (request.run crc combine config) s := by
  cases request with
  | device request => exact along_void (via_evolves (perform_sameFiles request))
  | createKeyspace => exact along_void (along_onMetadata (createKeyspace_evolves h))
  | createFile keyspaceId name => exact along_void (along_onMetadata (createFile_evolves h _ _))
  | snapshotKeyspace source target => exact along_void (along_onMetadata (snapshotKeyspace_evolves h _ _))
  | restoreKeyspace source point => exact along_void (along_onMetadata (restoreKeyspace_evolves h _ _))
  | checkpointKeyspace keyspaceId => exact along_void (along_onMetadata (checkpointKeyspace_evolves h _))
  | commitFileBatch keyspaceId fileId writes durability integrity =>
    exact along_void (commitFileBatch_evolves h _ _ _ _ _)
  | openAppendStream keyspaceId fileId =>
    exact along_void (openAppendStream_via fun streamId _ => insertAppendStream_evolves streamId _ _)
  | appendStream stream data durability integrity =>
    exact along_void (appendStream_via (fun stream ticketId range run _ =>
      recordAppendStreamRun_evolves stream ticketId range run)
      (fun stream _ => markAppendStreamDurable_evolves stream) _ _ _ _)
  | releaseAppendStream stream => exact closeAppendStream_via endAppendStream_evolves
  | abortAppendStream stream => exact closeAppendStream_via endAppendStream_evolves
  | submitAppendPublish stream publishThrough => exact along_void submitAppendPublish_via
  | waitAppendPublish ticket durability => exact along_void (waitAppendPublish_evolves h _ _)
  | publishPlanned ticket durability durableNextCommitSeq =>
    exact along_void (publishPlanned_evolves h _ _ _)
  | markReachableForGc policy => exact along_void (along_onMetadata (markReachableForGc_evolves h _))
  | sweepMetadataAfterMark policy epoch =>
    exact along_void (sweepMetadataAfterMark_via (sweepUnmarkedAfterMark_evolves h _ _))
  | runMetadataCustodian policy => exact along_void (runMetadataCustodian_evolves h _)

/-! ## Runs -/

/-- A store beside the batches of publishes that are being planned and the plans that were
made, each of which waits for its record to become durable. -/
structure PublishBoard where
  store : Coordinator
  drafts : List (Table Nat KeyspaceHead)
  plans : List AppendPublishPlan

/-- Requests, the locked steps of requests that run at the same time, and the records that
are replayed when a store is opened again. -/
inductive BoardRequest
  | store (request : StoreRequest)
  | publishFileRoot (keyspaceId : Nat) (fence : FileFence) (fileId oldRoot newRoot newSize : Nat)
  | markDurableThrough (stream : AppendStream) (durableThrough : Nat)
  | startBatch
  | planPublish (batch : Nat) (ticket : AppendPublishTicket) (durability : WriteDurability)
      (durableNextCommitSeq : Nat) (draft : AppendPublishDraft)
  | applyPlan (plan : Nat)
  | cancelPlan (plan : Nat)
  | replayFileDelta (commit : NativeFileDeltaCommit)
  | materialize (record : AppendVisiblePublish)
  deriving DecidableEq, Repr

namespace BoardRequest

section

variable (crc : List UInt8 → Nat) (combine : Nat → Nat → Nat → Nat) (config : LocalStoreConfig)

def handle (b : PublishBoard) : BoardRequest → PublishBoard
  | store request => { b with store := request.handle crc combine config b.store }
  | publishFileRoot keyspaceId fence fileId oldRoot newRoot newSize =>
    { b with store := lastState (onMetadata (Local.publishFileRoot config keyspaceId fence fileId
        oldRoot newRoot newSize)) b.store }
  | markDurableThrough stream durableThrough =>
    { b with store := lastState (onMetadata (markAppendStreamDurableThrough stream durableThrough)) b.store }
  | startBatch => { b with drafts := b.drafts ++ [∅] }
  | planPublish batch ticket durability durableNextCommitSeq draft =>
    let drafts := b.drafts.getD batch ∅
    match onMetadata (planAppendPublish config ticket durability durableNextCommitSeq drafts draft) b.store with
    | .ok (plan, head) s => ⟨s, b.drafts.set batch (drafts.insert ticket.keyspaceId head), b.plans ++ [plan]⟩
    | .error _ s => { b with store := s }
  | applyPlan plan =>
    match b.plans[plan]? with
    | some plan => { b with store := lastState (applyAppendPublishPlan plan) b.store }
    | none => b
  | cancelPlan plan =>
    match b.plans[plan]? with
    | some plan => { b with store := lastState (onMetadata (cancelAppendPublishPlan plan)) b.store }
    | none => b
  | replayFileDelta commit =>
    { b with store := lastState (replayNativeFileDeltaCommit config commit) b.store }
  | materialize record =>
    { b with store := lastState (materializeAppendVisiblePublishRecord config record) b.store }

end

def keyspace (b : PublishBoard) : BoardRequest → Option Nat
  | store request => request.keyspace b.store.metadata
  | publishFileRoot keyspaceId _ _ _ _ _ => some keyspaceId
  | applyPlan plan => b.plans[plan]?.map (·.ticket.keyspaceId)
  | replayFileDelta commit => some commit.keyspaceId
  | materialize record => some record.keyspaceId
  | _ => none

end BoardRequest

def boardAfter (crc : List UInt8 → Nat) (combine : Nat → Nat → Nat → Nat) (config : LocalStoreConfig)
    (s : Coordinator) (requests : List BoardRequest) : PublishBoard :=
  requests.foldl (BoardRequest.handle crc combine config) ⟨s, [], []⟩

structure PublishBoard.Fits (b : PublishBoard) : Prop where
  catalogs : b.store.metadata.Catalogs
  drafts : ∀ drafts ∈ b.drafts, DraftsFit b.store.metadata.keyspaceCatalogShards drafts
  plans : ∀ plan ∈ b.plans, PlanFits b.store.metadata.keyspaceCatalogShards plan

theorem PublishBoard.Fits.moves (h : b.Fits) (hev : Evolves k b.store.metadata s.metadata) :
    PublishBoard.Fits { b with store := s } where
  catalogs := (hev h.catalogs).1
  drafts drafts hmem := (h.drafts drafts hmem).extends (hev h.catalogs).2.1
  plans plan hmem := (h.plans plan hmem).extends (hev h.catalogs).2.1

theorem PublishBoard.Fits.draft (h : b.Fits) (batch : Nat) :
    DraftsFit b.store.metadata.keyspaceCatalogShards (b.drafts.getD batch ∅) := by
  rw [List.getD_eq_getElem?_getD]
  cases hdrafts : b.drafts[batch]? with
  | none => exact draftsFit_empty
  | some drafts => exact h.drafts drafts (List.mem_of_getElem? hdrafts)

theorem markAppendStreamDurableThrough_evolves {durableThrough : Nat} :
    Moves (Evolves k) (markAppendStreamDurableThrough stream durableThrough) m := by
  refine Along.get (Along.check fun state _ => ?_)
  split
  · exact Along.pure trivial
  · refine Along.check2 fun _ _ => ?_
    exact Along.step run_set evolves_beside (Along.pure trivial)

theorem StoreRequest.handle_eq (request : StoreRequest) :
    request.handle crc combine config s = lastState (request.run crc combine config) s := by
  unfold StoreRequest.handle lastState
  cases request.run crc combine config s <;> rfl

/-- What a request does to the catalogs, and that the plans stay right. -/
theorem BoardRequest.handle_fits (h : b.Fits) (request : BoardRequest) :
    (request.handle crc combine config b).Fits ∧ Evolves (request.keyspace b) b.store.metadata
      (request.handle crc combine config b).store.metadata := by
  have hstep : ∀ {k : Option Nat} {s' : Coordinator}, Evolves k b.store.metadata s'.metadata →
      PublishBoard.Fits { b with store := s' } ∧ Evolves k b.store.metadata s'.metadata :=
    fun hev => ⟨h.moves hev, hev⟩
  cases request with
  | store request =>
    have hrun : Along (Coordinator.Via (Evolves (request.keyspace b.store.metadata)))
        (request.run crc combine config) b.store _ := StoreRequest.run_evolves h.catalogs request
    have hhandle := hrun.lastState
    rw [← StoreRequest.handle_eq] at hhandle
    exact hstep hhandle
  | publishFileRoot keyspaceId fence fileId oldRoot newRoot newSize =>
    exact hstep (along_onMetadata (publishFileRoot_evolves h.catalogs _ _ _ _ _ _)).lastState
  | markDurableThrough stream durableThrough =>
    exact hstep (along_onMetadata markAppendStreamDurableThrough_evolves).lastState
  | startBatch =>
    refine ⟨⟨h.catalogs, fun drafts hmem => ?_, h.plans⟩, refl _⟩
    obtain hmem | hmem := List.mem_append.1 hmem
    · exact h.drafts drafts hmem
    · cases List.mem_singleton.1 hmem
      exact draftsFit_empty
  | planPublish batch ticket durability durableNextCommitSeq draft =>
    have hplan : Along (Coordinator.Via (Evolves none)) (onMetadata (planAppendPublish config ticket
        durability durableNextCommitSeq (b.drafts.getD batch ∅) draft)) b.store _ :=
      along_onMetadata (planAppendPublish_evolves h.catalogs ticket durability durableNextCommitSeq
        (h.draft batch) draft)
    rw [handle]
    unfold Along wp at hplan
    split at hplan
    · next result s' heq =>
      obtain ⟨plan, head⟩ := result
      obtain ⟨hev, -, hfits, hc⟩ := hplan
      simp only [heq]
      refine ⟨⟨(hev h.catalogs).1, fun drafts hmem => ?_, fun plan' hmem => ?_⟩, hev⟩
      · obtain hmem | rfl := List.mem_or_eq_of_mem_set hmem
        · exact (h.moves hev).drafts drafts hmem
        · intro keyspaceId head' hhead'
          rw [Table.lookup_insert_eq] at hhead'
          split at hhead'
          · cases hhead'
            exact hc
          · exact ((h.draft batch).extends (hev h.catalogs).2.1) keyspaceId head' hhead'
      · obtain hmem | hmem := List.mem_append.1 hmem
        · exact (h.moves hev).plans plan' hmem
        · cases List.mem_singleton.1 hmem
          exact hfits
    · next heq =>
      simp only [heq]
      exact hstep hplan
  | applyPlan plan =>
    rw [handle, keyspace]
    cases hplan : b.plans[plan]? with
    | none => exact ⟨h, refl _⟩
    | some plan =>
      exact hstep (applyAppendPublishPlan_evolves h.catalogs
        (h.plans plan (List.mem_of_getElem? hplan))).lastState
  | cancelPlan plan =>
    rw [handle, keyspace]
    · cases b.plans[plan]? with
      | none => exact ⟨h, refl _⟩
      | some plan => exact hstep (along_onMetadata (cancelAppendPublishPlan_evolves plan)).lastState
    all_goals exact nofun
  | replayFileDelta commit => exact hstep (replayNativeFileDeltaCommit_evolves h.catalogs commit).lastState
  | materialize record => exact hstep (materialize_evolves h.catalogs record).lastState

theorem PublishBoard.Fits.new {storageNodes : List Nat}
    (h : Coordinator.withStorageNodes config storageNodes = .ok s) : PublishBoard.Fits ⟨s, [], []⟩ := by
  obtain ⟨⟨⟩, -, hs⟩ := bind_eq_ok.1 h
  cases hs
  refine ⟨⟨?_, ?_, ?_, fun _ _ => rfl⟩, ?_, ?_⟩
  · exact nofun
  · exact nofun
  · exact nofun
  · exact nofun
  · exact nofun

theorem boardAfter_fits {storageNodes : List Nat}
    (h : Coordinator.withStorageNodes config storageNodes = .ok s) (requests : List BoardRequest) :
    (boardAfter crc combine config s requests).Fits := by
  have hrun : ∀ (requests : List BoardRequest) (b : PublishBoard), b.Fits →
      (requests.foldl (BoardRequest.handle crc combine config) b).Fits := by
    intro requests
    induction requests with
    | nil => exact fun b hb => hb
    | cons request requests ih => exact fun b hb => ih _ (BoardRequest.handle_fits hb request).1
  exact hrun requests _ (PublishBoard.Fits.new h)

/-- All catalogs are right, a snapshot or a restored keyspace has the catalog of its source,
and no request changes a keyspace that it is not addressed to. -/
structure KeyspaceCatalogs (crc : List UInt8 → Nat) (combine : Nat → Nat → Nat → Nat)
    (config : LocalStoreConfig) (b : PublishBoard) : Prop where
  heads : ∀ keyspaceId head, b.store.metadata.keyspaceHeads.lookup keyspaceId = some head →
    Catalog b.store.metadata.keyspaceCatalogShards head.shardRoots head.fileCount
  roots : ∀ rootId root, b.store.metadata.keyspaceRoots.lookup rootId = some root →
    Catalog b.store.metadata.keyspaceCatalogShards root.shardRoots root.fileCount
  snapshots : ∀ source target head m',
    snapshotKeyspace source target b.store.metadata = .ok head m' →
    ∃ sourceHead, b.store.metadata.keyspaceHeads.lookup source = some sourceHead ∧
      CopyOf m' head sourceHead.shardRoots sourceHead.fileCount
  restores : ∀ source point head m', restoreKeyspace source point b.store.metadata = .ok head m' →
    ∃ root, b.store.metadata.keyspaceRootForRestore source point = .ok root ∧
      CopyOf m' head root.shardRoots root.fileCount
  apart : ∀ (request : BoardRequest) keyspaceId head,
    b.store.metadata.keyspaceHeads.lookup keyspaceId = some head →
    request.keyspace b ≠ some keyspaceId →
    (request.handle crc combine config b).store.metadata.keyspaceHeads.lookup keyspaceId = some head ∧
      ∀ fileId, (request.handle crc combine config b).store.metadata.keyspaceFileInShards
          head.shardRoots fileId =
        b.store.metadata.keyspaceFileInShards head.shardRoots fileId

theorem PublishBoard.Fits.keyspaceCatalogs (h : b.Fits) :
    KeyspaceCatalogs crc combine config b where
  heads := h.catalogs.heads
  roots := h.catalogs.roots
  snapshots source target head m' hrun :=
    (wp_of_ok (snapshotKeyspace_evolves h.catalogs source target) hrun).2
  restores source point head m' hrun :=
    (wp_of_ok (restoreKeyspace_evolves h.catalogs source point) hrun).2
  apart request keyspaceId head hhead hother := by
    have hstep : _ ∧ Evolves (request.keyspace b) _
      (request.handle crc combine config b).store.metadata := BoardRequest.handle_fits h request
    obtain ⟨-, hext, hheads⟩ := hstep.2 h.catalogs
    exact ⟨(hheads keyspaceId hother).trans hhead,
      (h.catalogs.heads keyspaceId head hhead).keyspaceFileInShards hext⟩

/-- The catalogs after any requests. -/
theorem boardAfter_keyspaceCatalogs {storageNodes : List Nat}
    (h : Coordinator.withStorageNodes config storageNodes = .ok s) (requests : List BoardRequest) :
    KeyspaceCatalogs crc combine config (boardAfter crc combine config s requests) :=
  (boardAfter_fits h requests).keyspaceCatalogs

def snapshotRequests : List BoardRequest :=
  [.store .createKeyspace, .store (.createFile 1 none), .store (.snapshotKeyspace 1 none),
    .store (.createFile 2 none)]

theorem boardAfter_keyspaceCatalogs_snapshot :
    (boardAfter (fun _ => 0) (fun _ _ _ => 0) smallConfig smallStore
        snapshotRequests).store.metadata.keyspaceHeads.values.map (·.fileCount) = [1, 2] ∧
      KeyspaceCatalogs (fun _ => 0) (fun _ _ _ => 0) smallConfig
        (boardAfter (fun _ => 0) (fun _ _ _ => 0) smallConfig smallStore snapshotRequests) :=
  ⟨by decide +kernel, boardAfter_keyspaceCatalogs withStorageNodes_small snapshotRequests⟩

end CowStore.Local
