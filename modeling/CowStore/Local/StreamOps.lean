import CowStore.Local.Grants
import CowStore.Local.StreamFiles

/-!
# Commits of files and the streams

A publish of a stream moves the stream along with its file.  Any other commit of a file
fences the stream of the file, and gets that far once the segments that it refers to may be
marked.
-/

namespace CowStore.Local

open Lib Object MetadataInner

variable {config : LocalStoreConfig} {m m' : MetadataInner} {s s' : Coordinator}

/-! ## Publishes -/

theorem ticketStatus_pending {tickets : AppendPublishTickets} {ticket : AppendPublishTicket}
    {stream : AppendStream} (h : m.appendPublishTicketStatus tickets ticket = .ok (.pending stream)) :
    ∃ state, m.appendStreams.lookup ticket.streamId = some state ∧ state.publicStream = stream ∧
      state.status = .active ∧ state.keyspaceId = ticket.keyspaceId ∧ state.fileId = ticket.fileId ∧
      state.streamId = ticket.streamId ∧ state.writerEpoch = ticket.writerEpoch ∧
      state.publishedThrough < ticket.publishThrough ∧ ticket.publishThrough ≤ state.acceptedTail := by
  obtain ⟨record, -, ⟨⟩, -, h⟩ := bind2_eq_ok.1 h
  split at h
  · cases h
  · obtain ⟨state, hstate, ⟨⟩, hmatches, tail, -, h⟩ := bind3_eq_ok.1 h
    obtain ⟨⟨⟩, -, ⟨⟩, -, h⟩ := bind2_eq_ok.1 h
    cases h
    have hall := failIf_eq_ok.1 hmatches
    simp only [not_or, not_not, Nat.not_le] at hall
    obtain ⟨hk, hf, hid, hepoch, hactive, hlt, htail⟩ := hall
    exact ⟨state, orFail_eq_ok.1 hstate, rfl, hactive, hk, hf, hid, hepoch, hlt, Nat.not_lt.1 htail⟩

variable {state : AppendStreamState} {fileId keyspaceId : Nat}

theorem StreamsBut.published (h : m.Streams) {streamId : Nat}
    (hstate : m.appendStreams.lookup streamId = some state) (hactive : state.status = .active)
    (state' : AppendStreamState) (hpublic : state'.publicStream = state.publicStream)
    {entry : KeyspaceFile} (hwrites : Writes m m' state.keyspaceId state.fileId entry)
    (hev : Evolves (some state.keyspaceId) m m') (hstreams : ∀ id, m'.appendStreams.lookup id =
      if id = streamId then some state' else m.appendStreams.lookup id) (hepochs : m'.fileWriterEpochs =
      m.fileWriterEpochs.insert (state.keyspaceId, state.fileId) state.writerEpoch)
    (hinOrder : state'.InOrder) (hsize : entry.head.size = state'.publishedThrough) : m'.Streams := by
  obtain ⟨hgrounded, hown, hothers⟩ := hwrites.sized h.grounded hev
  refine h.replace hstate hactive hpublic hgrounded hwrites.fileIds hstreams ?_ hothers fun _ => ?_
  · intro k f
    refine (fileWriterEpoch_insert hepochs).trans ?_
    split
    · next heq =>
      obtain ⟨rfl, rfl⟩ := Prod.mk.inj heq
      exact h.newest streamId state hstate hactive
    · rfl
  · exact ⟨hinOrder, hsize ▸ hown⟩

theorem AppendStreamState.InOrder.publish (h : state.InOrder) {through : Nat}
    (hlt : state.publishedThrough ≤ through) (hle : through ≤ state.acceptedTail) :
    ∃ records, retainRecords through state.records = .ok records ∧ ∀ durableThrough,
      durableThrough ≤ state.acceptedTail → AppendStreamState.InOrder { state with
        publishedThrough := through, records, durableThrough } := by
  obtain ⟨records, hrecords, hcovers⟩ := h.records.retainRecords hlt hle
  exact ⟨records, hrecords, fun _ hdurable => ⟨h.base.trans hlt, hle, hdurable, hcovers⟩⟩

/-- A publish under the fence of a stream; the stream can then be told of it. -/
theorem publishFileRoot_streams (h : m.Streams) {streamId : Nat}
    (hstate : m.appendStreams.lookup streamId = some state) (hactive : state.status = .active)
    {through : Nat} (hlt : state.publishedThrough ≤ through) (hle : through ≤ state.acceptedTail)
    (oldRoot newRoot : Nat) :
    wp (publishFileRoot config state.keyspaceId (.appendStream streamId state.writerEpoch) state.fileId
        oldRoot newRoot through) (fun _ => wp (markAppendStreamPublished state.publicStream through)
        (fun _ m' => m'.Streams) fun _ => False) MetadataInner.Streams m := by
  have hid : state.publicStream.streamId = streamId := (h.keyed streamId state hstate).1
  refine wp_mono (wp_and (publishFileRoot_evolves h.grounded.catalogs state.keyspaceId
    (.appendStream streamId state.writerEpoch) state.fileId oldRoot newRoot through)
    (publishFileRoot_writes h.grounded state.keyspaceId (.appendStream streamId state.writerEpoch)
      state.fileId oldRoot newRoot through)) ?_ ?_
  · rintro group m' ⟨⟨hev, -⟩, current, entry, -, -, -, hsize, hwrites, -, hstreams, hepochs, -⟩
    obtain ⟨records, hrecords, hinOrder⟩ := (h.inOrder streamId state hstate hactive).publish hlt hle
    simp only [FileFence.settle, hstate, if_true] at hstreams hepochs
    have hcurrent : m'.activeStream state.publicStream =
        .ok { state with publishedThrough := through } := by
      refine bind_eq_ok.2 ⟨_, orFail_eq_ok.2 ?_, bind_eq_ok.2 ⟨(), failIf_eq_ok.2 ?_, rfl⟩⟩
      · rw [hid, hstreams]
        exact AList.lookup_insert _
      · rw [not_or, not_not, not_not]
        exact ⟨rfl, hactive⟩
    refine wp_step run_get (wp_ok hcurrent (wp_step run_set (wp_ok hrecords ?_)))
    have hdurable := (h.inOrder streamId state hstate hactive).durable
    refine h.published hstate hactive { state with publishedThrough := through, records := records } rfl
      ⟨hwrites.keyspaceIds, hwrites.fileIds, hwrites.shards, hwrites.head⟩ (IsTrans.trans _ _ _ hev evolves_beside)
      ?_ hepochs (hinOrder _ hdurable) hsize
    intro id
    change (m'.appendStreams.insert state.publicStream.streamId _).lookup id = _
    rw [hid, hstreams, Table.lookup_insert_eq, Table.lookup_insert_eq]
    split <;> rfl
  · exact fun m' hboth => h.kept (hboth.2.kept h.grounded hboth.1)

theorem keepsStreams_of_same (h : SameFiles m m') : KeepsStreams m m' :=
  keepsStreams_of_leaves (leaves_of_same h)

/-- What holds of the streams holds after the program, whether it fails or not. -/
def HoldsStreams {α : Type} (x : Op α) (s : Coordinator) : Prop :=
  wp x (fun _ s' => s'.metadata.Streams) (fun s' => s'.metadata.Streams) s

theorem holdsStreams_of_keeps {α : Type} {x : Op α} {Q : α → Coordinator → Prop}
    (h : s.metadata.Streams) (hx : Along (Coordinator.Via KeepsStreams) x s Q) : HoldsStreams x s :=
  wp_mono hx (fun _ _ hs => hs.1 h) fun _ hs => hs h

theorem holdsStreams_of_same {α : Type} {x : Op α} {Q : α → Coordinator → Prop}
    (h : s.metadata.Streams) (hx : Along (Coordinator.Via SameFiles) x s Q) : HoldsStreams x s :=
  wp_mono hx (fun _ _ hs => keepsStreams_of_same hs.1 h) fun _ hs => keepsStreams_of_same hs h

theorem waitAppendPublish_streams (h : s.metadata.Streams) (ticket : AppendPublishTicket)
    (durability : WriteDurability) : HoldsStreams (waitAppendPublish config ticket durability) s := by
  refine wp_step run_get (wp_check h fun status hstatus => ?_)
  cases status with
  | completed commit => exact h
  | pending stream =>
    obtain ⟨state, hstate, rfl, hactive, hk, hf, -, hepoch, hlt, hle⟩ := ticketStatus_pending hstatus
    refine (draftAppendPublish_sameFiles ∅ ticket state.publicStream).thenWp ?_
      fun _ hsame => keepsStreams_of_same hsame h
    intro draft s1 hsame _
    have hstate1 : s1.metadata.appendStreams.lookup ticket.streamId = some state := by
      rw [show s1.metadata.appendStreams = s.metadata.appendStreams from
        congrArg FileRows.appendStreams hsame]
      exact hstate
    rw [← hk, ← hf, ← hepoch]
    refine wp_bind.2 (wp_zoom.2 (wp_mono (publishFileRoot_streams (keepsStreams_of_same hsame h) hstate1
      hactive hlt.le hle draft.oldHead.root draft.newRoot) (fun _ m2 hmark => ?_) fun _ h2 => h2))
    refine wp_bind.2 (wp_zoom.2 (wp_mono hmark (fun _ m3 h3 => ?_) fun _ h3 => h3.elim))
    refine wp_step run_get (wp_check h3 fun committed _ => wp_bind.2 ?_)
    exact wp_mono (holdsStreams_of_keeps (s := { s1 with metadata := m3 }) h3 onTickets_via)
      (fun _ _ h4 => h4) fun _ h4 => h4

/-! ## Segments that may be marked -/

namespace StorageNodes

variable {t : StorageNodes} {segmentId : Nat}

theorem markSegmentReferenced_ready (h : t.Ready segmentId) :
    wp (markSegmentReferenced segmentId) (fun _ => t.KeepsReady) (fun _ => False) t := by
  obtain ⟨entry, hentry, hready⟩ := h
  have hstate : ¬ (entry.state ≠ .durablePendingMetadata ∧ entry.state ≠ .referenced) := by
    rintro ⟨hpending, hreferenced⟩
    exact hready.elim hpending hreferenced
  refine wp_step run_get (wp_ok (orFail_eq_ok.2 hentry) (wp_ok (a := ()) (failIf_eq_ok.2 hstate) ?_))
  exact keepsReady_insert fun _ _ _ => .inr rfl

end StorageNodes

theorem markReferenced_ready {edits : List NativeFileReceiptEdit}
    (hready : ∀ edit ∈ edits, s.storageNodes.Ready edit.receipt.descriptor.segmentId) :
    wp (edits.mapM fun edit => onSegments (markSegmentReferenced edit.receipt.descriptor.segmentId))
      (fun _ s' => s'.metadata = s.metadata) (fun _ => False) s := by
  induction edits generalizing s with
  | nil => rfl
  | cons edit edits ih =>
    obtain ⟨hedit, hedits⟩ := List.forall_mem_cons.1 hready
    rw [List.mapM_cons]
    refine wp_bind.2 (wp_zoom.2 (wp_mono (StorageNodes.markSegmentReferenced_ready hedit) ?_ fun _ h => h))
    intro _ t hkeeps
    refine wp_bind.2 (wp_mono (ih (s := { s with storageNodes := t }) fun edit hmem => ?_) ?_ fun _ h => h)
    · exact hkeeps _ (hedits edit hmem)
    · exact fun _ _ hsame => hsame

/-! ## Batches of a file -/

/-- Files stay as they are, and segments that may be referenced stay so. -/
def Stages (s s' : Coordinator) : Prop :=
  SameFiles s.metadata s'.metadata ∧ s.storageNodes.KeepsReady s'.storageNodes

instance : Std.Refl Stages := ⟨fun s => ⟨refl s.metadata, refl s.storageNodes⟩⟩

instance : IsTrans Coordinator Stages :=
  ⟨fun _ _ _ h h' => ⟨h'.1.trans h.1, IsTrans.trans _ _ _ h.2 h'.2⟩⟩

theorem editFile_stages (root : MetadataNode) (newRoot : Nat) (edit : NativeFileReceiptEdit) :
    Moves Stages (editFile config root newRoot edit) s := by
  refine Along.check2 fun _ _ => Along.check2 fun _ _ => ?_
  refine Along.get (Moves.seq ?_ fun _ _ _ =>
    Along.pure trivial)
  refine (Along.zoom (R := Stages) (onNodes_sameFiles _) ?_).mono fun _ _ _ _ => trivial
  exact fun m hsame => ⟨hsame, refl s.storageNodes⟩

theorem writeSegmentGroup_stages {crc : List UInt8 → Nat} (keyspaceId fileId : Nat) (head : FileHead)
    (root : MetadataNode) (integrity : PayloadIntegrity) (group : NativeBatchSegmentGroup) :
    Along Stages (writeSegmentGroup crc config keyspaceId fileId head root integrity group) s
      fun edit s' => s'.storageNodes.Ready edit.receipt.descriptor.segmentId := by
  refine Along.check2 fun _ _ => Along.check2 fun _ _ => ?_
  refine Along.get (Along.check2 fun _ bytes => ?_)
  refine Along.bind (Along.zoom (R := Stages) (writeSegment_leaves _ bytes integrity) ?_) ?_
  · exact fun t hkeeps => ⟨refl s.metadata, hkeeps.1⟩
  · rintro receipt _ - ⟨t, rfl, -, hready⟩
    exact Along.pure hready

theorem StreamsBut.rewritten (h : m.Streams) {entry : KeyspaceFile}
    (hwrites : Writes m m' keyspaceId fileId entry) (hev : Evolves (some keyspaceId) m m')
    (hstreams : m'.appendStreams = m.appendStreams) (hepochs : m'.fileWriterEpochs = m.fileWriterEpochs) :
    StreamsBut (some (keyspaceId, fileId)) m' := by
  obtain ⟨hgrounded, -, hothers⟩ := hwrites.sized h.grounded hev
  refine h.carry hgrounded hwrites.fileIds (fun k f _ => ?_)
    (fun id stream hs => ⟨stream, hstreams ▸ hs, rfl, fun hactive => hactive⟩) ?_
  · rw [fileWriterEpoch, hepochs, fileWriterEpoch]
  · intro id stream hs hactive
    rw [hstreams] at hs
    refine ⟨h.inOrder id stream hs hactive, fun hne => ?_⟩
    refine hothers _ _ _ (fun hk hf => hne ?_) (h.sizes id stream hs hactive (by simp))
    rw [hk, hf]

def MetadataInner.Appended (m : MetadataInner) (keyspaceId fileId : Nat) : Prop :=
  ∃ streamId stream, m.appendStreams.lookup streamId = some stream ∧ stream.status = .active ∧
    stream.keyspaceId = keyspaceId ∧ stream.fileId = fileId

theorem StreamsBut.whole (h : StreamsBut (some (keyspaceId, fileId)) m)
    (hnone : ¬ m.Appended keyspaceId fileId) : m.Streams := by
  refine ⟨h.grounded, h.keyed, h.epochs, h.newest, h.inOrder, ?_, h.single⟩
  intro id stream hs hactive _
  refine h.sizes id stream hs hactive fun heq => hnone ⟨id, stream, hs, hactive, ?_⟩
  obtain ⟨hk, hf⟩ := Prod.mk.inj (Option.some.inj heq)
  exact ⟨hk.symm, hf.symm⟩

/-- The segments of a batch are marked, unless no stream depends on it. -/
theorem markReferenced_streams {edits : List NativeFileReceiptEdit}
    (h : StreamsBut (some (keyspaceId, fileId)) s.metadata) (hready : s.metadata.Appended keyspaceId fileId →
      ∀ edit ∈ edits, s.storageNodes.Ready edit.receipt.descriptor.segmentId) :
    wp (edits.mapM fun edit => onSegments (markSegmentReferenced edit.receipt.descriptor.segmentId))
      (fun _ s' => s'.metadata = s.metadata) (fun s' => s'.metadata.Streams) s := by
  by_cases hactive : s.metadata.Appended keyspaceId fileId
  · exact wp_mono (markReferenced_ready (hready hactive)) (fun _ _ hsame => hsame) fun _ hfalse => hfalse.elim
  · have hany : Moves (Coordinator.Via Eq) (edits.mapM fun edit =>
        onSegments (markSegmentReferenced edit.receipt.descriptor.segmentId)) s :=
      along_segments_mapM
    refine wp_mono hany (fun _ _ hsame => hsame.1.symm) fun s' hsame => ?_
    rw [← show s.metadata = s'.metadata from hsame]
    exact h.whole hactive

theorem publishNativeFileReceiptEdits_streams (h : s.metadata.Streams) (publish : NativeFileReceiptPublish)
    (hready : s.metadata.Appended publish.keyspaceId publish.fileId →
      ∀ edit ∈ publish.edits, s.storageNodes.Ready edit.receipt.descriptor.segmentId)
    (writeCount collapsedRangeCount committedBytes : Nat) :
    HoldsStreams (publishNativeFileReceiptEditsWithDelta config publish writeCount collapsedRangeCount
      committedBytes) s := by
  refine wp_step run_get (wp_check h fun head _ => wp_check h fun _ _ => ?_)
  split
  · exact h
  refine wp_check h fun root _ => ?_
  have hedits : Moves Stages (publish.edits.foldlM (editFile config root) head.root) s :=
    Along.foldlM trivial fun _ edit _ _ _ _ => editFile_stages root _ edit
  refine hedits.thenWp (fun newRoot s1 hstages _ => ?_) fun _ hstages => keepsStreams_of_same hstages.1 h
  have h1 := keepsStreams_of_same hstages.1 h
  refine wp_bind.2 (wp_zoom.2 (wp_mono (wp_and
    (publishFileRoot_evolves h1.grounded.catalogs publish.keyspaceId (.fileVersion publish.baseVersion)
      publish.fileId head.root newRoot publish.newSize)
    (publishFileRoot_writes h1.grounded publish.keyspaceId (.fileVersion publish.baseVersion)
      publish.fileId head.root newRoot publish.newSize)) ?_ fun _ hboth =>
        h1.kept (hboth.2.kept h1.grounded hboth.1)))
  rintro group m2 ⟨⟨hev, -⟩, current, entry, -, hfree, -, -, hwrites, hflight, hstreams, hepochs, -⟩
  have hbut := h1.rewritten hwrites hev hstreams hepochs
  have hsame : m2.appendStreams = s.metadata.appendStreams :=
    hstreams.trans (congrArg FileRows.appendStreams hstages.1)
  have hready2 : m2.Appended publish.keyspaceId publish.fileId →
      ∀ edit ∈ publish.edits, s1.storageNodes.Ready edit.receipt.descriptor.segmentId := by
    rw [Appended, hsame]
    exact fun hactive edit hmem => hstages.2 _ (hready hactive edit hmem)
  refine wp_bind.2 (wp_mono (markReferenced_streams (s := { s1 with metadata := m2 }) hbut hready2) ?_
    fun _ h3 => h3)
  intro _ s3 hsame
  have hfree2 : m2.appendPublishInFlightForFile publish.keyspaceId publish.fileId = false := by
    rw [MetadataInner.appendPublishInFlightForFile, hflight]
    exact hfree
  obtain ⟨m4, hrun, h4⟩ := invalidateAppendStreamsForFile_streams hbut hfree2
  have hrun : invalidateAppendStreamsForFile publish.keyspaceId publish.fileId s3.metadata = .ok () m4 :=
    (congrArg _ hsame).trans hrun
  refine wp_bind.2 (wp_zoom.2 ?_)
  rw [wp, hrun]
  exact wp_step run_get (wp_check h4 fun _ _ => h4)

theorem commitFileBatch_streams {crc : List UInt8 → Nat} (h : s.metadata.Streams) (keyspaceId fileId : Nat)
    (writes : List FileBatchWrite) (durability : WriteDurability) (integrity : PayloadIntegrity) :
    HoldsStreams (commitFileBatchWithDelta crc config keyspaceId fileId writes durability integrity) s := by
  refine wp_step run_get (wp_check h fun head _ => wp_check h fun batch _ => ?_)
  obtain ⟨collapsed, range, newSize⟩ := batch
  dsimp only
  split
  · exact h
  refine wp_check h fun root _ => wp_check h fun groups _ => ?_
  have hgroups : Along Stages (groups.mapM
      (writeSegmentGroup crc config keyspaceId fileId head root integrity)) s fun edits s' =>
        ∀ edit ∈ edits, s'.storageNodes.Ready edit.receipt.descriptor.segmentId := by
    refine (Along.mapM (Q := fun _ edit s' => s'.storageNodes.Ready edit.receipt.descriptor.segmentId)
      (fun _ _ _ _ hstages hready => hstages.2 _ hready)
      fun group _ _ _ => writeSegmentGroup_stages _ _ _ _ _ group).mono fun edits s' _ hall => ?_
    exact ((List.forall₂_and_left (R := fun _ _ => True) _ _).1
      (hall.flip.imp fun _ _ hready => ⟨hready, trivial⟩)).1
  refine hgroups.thenWp (fun edits s1 hstages hready => ?_) fun _ hstages =>
    keepsStreams_of_same hstages.1 h
  exact publishNativeFileReceiptEdits_streams (keepsStreams_of_same hstages.1 h) _ (fun _ => hready) _ _ _

end CowStore.Local
