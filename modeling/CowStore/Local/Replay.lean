import CowStore.Local.StreamFiles
import CowStore.Object.Replay

/-!
# Records that are materialized again

A record that was materialized is seen to be so by the head of its file, which only moves up
while other records are materialized.  Materializing it once more does nothing.
-/

namespace CowStore.Local

open Lib Object AppendVisiblePublish

def materializeAppendVisiblePublishRecords (config : LocalStoreConfig)
    (records : List AppendVisiblePublish) : Op Unit :=
  records.forM (materializeAppendVisiblePublishRecord config)

/-- The record is valid, and its file has got at least as far. -/
structure Materialized (m : MetadataInner) (record : AppendVisiblePublish) : Prop where
  valid : record.validate = .ok ()
  head : ∃ head, m.getFileHead record.keyspaceId record.fileId = .ok head ∧
    appendVisiblePublishAlreadyMaterialized head record = true

/-- Every file is there still, and its head has not moved back. -/
def HeadsAdvance (m m' : MetadataInner) : Prop :=
  ∀ keyspaceId fileId head, m.getFileHead keyspaceId fileId = .ok head →
    ∃ head', m'.getFileHead keyspaceId fileId = .ok head' ∧ head.version ≤ head'.version ∧
      head.size ≤ head'.size ∧ head.latestCommit ≤ head'.latestCommit

variable {config : LocalStoreConfig} {m m' m'' : MetadataInner} {s s' : Coordinator}
  {record : AppendVisiblePublish} {records : List AppendVisiblePublish}

theorem HeadsAdvance.refl (m : MetadataInner) : HeadsAdvance m m :=
  fun _ _ head h => ⟨head, h, le_rfl, le_rfl, le_rfl⟩

theorem headsAdvance_of_same (h : SameFiles m m') : HeadsAdvance m m' := by
  have hheads : m'.keyspaceHeads = m.keyspaceHeads := congrArg FileRows.keyspaceHeads h
  have hshards : m'.keyspaceCatalogShards = m.keyspaceCatalogShards :=
    congrArg FileRows.keyspaceCatalogShards h
  intro keyspaceId fileId head hhead
  refine ⟨head, ?_, le_rfl, le_rfl, le_rfl⟩
  obtain ⟨keyspace, entry, hkeyspace, hentry, rfl⟩ := getFileHead_eq_ok.1 hhead
  refine getFileHead_eq_ok.2 ⟨keyspace, entry, hheads ▸ hkeyspace, ?_, rfl⟩
  rw [keyspaceFileInShards_eq_ok, hshards]
  exact keyspaceFileInShards_eq_ok.1 hentry

theorem HeadsAdvance.trans (h : HeadsAdvance m m') (h' : HeadsAdvance m' m'') : HeadsAdvance m m'' := by
  intro keyspaceId fileId head hhead
  obtain ⟨head1, hhead1, hversion, hsize, hcommit⟩ := h keyspaceId fileId head hhead
  obtain ⟨head2, hhead2, hversion', hsize', hcommit'⟩ := h' keyspaceId fileId head1 hhead1
  exact ⟨head2, hhead2, hversion.trans hversion', hsize.trans hsize', hcommit.trans hcommit'⟩

theorem Materialized.advance (h : Materialized m record) (hadvance : HeadsAdvance m m') :
    Materialized m' record := by
  obtain ⟨head, hhead, halready⟩ := h.head
  obtain ⟨head', hhead', hversion, hsize, hcommit⟩ := hadvance _ _ head hhead
  refine ⟨h.valid, head', hhead', ?_⟩
  simp only [appendVisiblePublishAlreadyMaterialized, decide_eq_true_eq] at halready ⊢
  omega

theorem materialize_of_materialized (h : Materialized s.metadata record) :
    materializeAppendVisiblePublishRecord config record s = .ok () s := by
  obtain ⟨head, hhead, halready⟩ := h.head
  obtain ⟨keyspace, entry, hkeyspace, hentry, rfl⟩ := getFileHead_eq_ok.1 hhead
  have hrun : wp (materializeAppendVisiblePublishRecord config record) (fun _ s' => s' = s)
      (fun _ => False) s := by
    refine wp_ok h.valid (wp_step run_get (wp_ok (orFail_eq_ok.2 hkeyspace) (wp_ok hentry ?_)))
    dsimp only
    rw [if_pos halready]
    exact wp_pure.2 rfl
  cases hresult : materializeAppendVisiblePublishRecord config record s with
  | ok u s' => rw [wp_of_ok hrun hresult]
  | error e s' => exact (wp_of_error hrun hresult).elim

/-- The commit of a record has given its file the entry, whose head is where the record ends. -/
structure Entered (m m' : MetadataInner) (record : AppendVisiblePublish) (entry : KeyspaceFile) : Prop where
  version : entry.head.version = record.newFileVersion
  size : entry.head.size = record.newSize
  commit : entry.head.latestCommit = record.commitSeq
  continues : ∃ head, m.getFileHead record.keyspaceId record.fileId = .ok head ∧
    Continues record.keyspaceId record.fileId ⟨0, head.version, head.size, head.latestCommit, []⟩ record
  shards : m.keyspaceCatalogShards.Extends m'.keyspaceCatalogShards
  head : ∃ keyspace keyspace' update,
    m.keyspaceHeads.lookup record.keyspaceId = some keyspace ∧
    m'.keyspaceHeads = m.keyspaceHeads.insert record.keyspaceId keyspace' ∧
    keyspace'.shardRoots = keyspace.shardRoots.set update.shardIndex update.newShard.shardId ∧
    Places m'.keyspaceCatalogShards keyspace.shardRoots record.fileId entry update

theorem enterVisiblePublish_enters (h : m.Catalogs) (oldEntry : KeyspaceFile) (fileWriterEpoch newRoot : Nat) :
    wp (enterVisiblePublish config record oldEntry fileWriterEpoch newRoot)
      (fun _ m' => (m' = m ∧ ∃ head, m.getFileHead record.keyspaceId record.fileId = .ok head ∧
        appendVisiblePublishAlreadyMaterialized head record = true) ∨ ∃ entry, Entered m m' record entry)
      (fun _ => True) m := by
  refine wp_step run_get (wp_check trivial fun node _ => wp_check trivial fun keyspace hkeyspace => ?_)
  refine wp_check trivial fun entry hentry => ?_
  have hcurrent : m.getFileHead record.keyspaceId record.fileId = .ok entry.head :=
    bind_eq_ok.2 ⟨keyspace, hkeyspace, bind_eq_ok.2 ⟨entry, hentry, rfl⟩⟩
  have hkeyspace := orFail_eq_ok.1 hkeyspace
  dsimp only
  split
  · next halready => exact wp_pure.2 (.inl ⟨rfl, entry.head, hcurrent, halready⟩)
  · refine wp_check trivial fun _ _ => wp_check trivial fun _ _ => wp_check trivial fun _ hcontinues => ?_
    refine wp_check trivial fun _ _ => ?_
    refine allocCommitGroupId_sameFiles.thenWp (fun commitGroup m1 hs _ => ?_) fun _ _ => trivial
    have h1 := (evolves_of_same (k := none) hs h).1
    have hheads : m1.keyspaceHeads = m.keyspaceHeads := congrArg FileRows.keyspaceHeads hs
    have hshards : m1.keyspaceCatalogShards = m.keyspaceCatalogShards :=
      congrArg FileRows.keyspaceCatalogShards hs
    have hc := h1.heads _ keyspace (hheads ▸ hkeyspace)
    refine wp_check trivial fun _ _ => wp_bind.2 ?_
    refine wp_mono (updateKeyspaceFile_stores h1 hc _ _) ?_ fun _ _ => trivial
    rintro update m2 ⟨hstored, hev, hplaces⟩
    refine wp_check trivial fun _ _ => wp_check trivial fun _ _ => ?_
    -- the new shard is stored already
    have hext : m2.keyspaceCatalogShards.Extends
        (m2.keyspaceCatalogShards.insert update.newShard.shardId update.newShard) :=
      fun id shard hid => (Table.lookup_reinsert hplaces.newShard id).trans hid
    have hold : update.oldShard ∈ m2.keyspaceCatalogShards :=
      mem_extends (hev h1).2.1 (hc.stored _ (List.mem_of_getElem? hplaces.oldShard))
    refine .inr ⟨_, ?_, ?_, ?_, ⟨entry.head, hcurrent, validateForReconstructedHead_eq_ok.1 hcontinues⟩,
      ?_, keyspace, _, update, hkeyspace, by rw [← hheads, ← hstored.keyspaceHeads], by rfl,
      hplaces.extends hold hext⟩
    · rfl
    · rfl
    · rfl
    · rw [← hshards]
      exact (hev h1).2.1.trans hext

theorem Entered.advances {entry : KeyspaceFile} (hentered : Entered m m' record entry) (h : m.Catalogs)
    (h' : m'.Catalogs) : HeadsAdvance m m' ∧ Materialized m' record := by
  obtain ⟨keyspace, keyspace', update, hkeyspace, hheads, hroots, hplaces⟩ := hentered.head
  obtain ⟨head, hhead, hcontinues⟩ := hentered.continues
  have hrecord := valid_of_validate hcontinues.valid
  have hversion : record.baseFileVersion = head.version := hcontinues.version
  have hsize : record.oldSize = head.size := hcontinues.size
  have hcommit : head.latestCommit < record.commitSeq := hcontinues.commit
  obtain ⟨hnew, hothers⟩ := getFileHead_commit h h' hkeyspace hheads hroots hentered.shards hplaces
  refine ⟨fun keyspaceId fileId old hold => ?_, hcontinues.valid, entry.head, hnew, ?_⟩
  · by_cases hsame : record.keyspaceId = keyspaceId ∧ record.fileId = fileId
    · obtain ⟨rfl, rfl⟩ := hsame
      cases hhead.symm.trans hold
      refine ⟨entry.head, hnew, ?_, ?_, ?_⟩
      · rw [hentered.version, hrecord.version, hversion]
        exact Nat.le_succ _
      · rw [hentered.size, ← hsize]
        exact hrecord.size.le
      · rw [hentered.commit]
        exact hcommit.le
    · refine ⟨old, hothers keyspaceId fileId old (fun heq hne => hsame ⟨heq, hne⟩) hold, ?_⟩
      exact ⟨le_rfl, le_rfl, le_rfl⟩
  · simp only [appendVisiblePublishAlreadyMaterialized, decide_eq_true_eq, hentered.version, hentered.size,
      hentered.commit]
    exact ⟨le_rfl, le_rfl, le_rfl⟩

/-- A record that is materialized stays so whatever else is materialized. -/
theorem materialize_advances (h : s.metadata.Catalogs) (record : AppendVisiblePublish) :
    wp (materializeAppendVisiblePublishRecord config record) (fun _ s' => s'.metadata.Catalogs ∧
      HeadsAdvance s.metadata s'.metadata ∧ Materialized s'.metadata record) (fun _ => True) s := by
  have hadvance : wp (materializeAppendVisiblePublishRecord config record) (fun _ s' =>
      HeadsAdvance s.metadata s'.metadata ∧ Materialized s'.metadata record) (fun _ => True) s := by
    refine wp_check trivial fun _ hvalid => wp_step run_get (wp_check trivial fun keyspace hkeyspace => ?_)
    refine wp_check trivial fun entry hentry => ?_
    dsimp only
    split
    · next halready =>
      exact wp_pure.2 ⟨HeadsAdvance.refl _, hvalid, entry.head,
        bind_eq_ok.2 ⟨keyspace, hkeyspace, bind_eq_ok.2 ⟨entry, hentry, rfl⟩⟩, halready⟩
    · refine wp_check trivial fun _ _ => wp_check trivial fun _ _ => ?_
      refine along_edit.thenWp (fun result s1 hs _ => ?_) fun _ _ => trivial
      have hs : SameFiles s.metadata s1.metadata := hs
      have h1 := (evolves_of_same (k := none) hs h).1
      have hsame := headsAdvance_of_same hs
      refine wp_zoom.2 (wp_mono (wp_and (enterVisiblePublish_evolves h1 record entry _ _)
        (enterVisiblePublish_enters h1 entry _ _)) ?_ fun _ _ => trivial)
      rintro _ m' ⟨⟨hev, -⟩, ⟨rfl, halready⟩ | ⟨entry', hentered⟩⟩
      · exact ⟨hsame, hvalid, halready⟩
      · obtain ⟨hadvance, hdone⟩ := hentered.advances h1 (hev h1).1
        exact ⟨hsame.trans hadvance, hdone⟩
  refine wp_mono (wp_and (materialize_evolves h record) hadvance) ?_ fun _ _ => trivial
  rintro _ s' ⟨⟨hev, -⟩, hadvance⟩
  exact ⟨(hev h).1, hadvance⟩

theorem materializeRecords_advances (h : s.metadata.Catalogs) (records : List AppendVisiblePublish) :
    wp (materializeAppendVisiblePublishRecords config records) (fun _ s' =>
      HeadsAdvance s.metadata s'.metadata ∧ ∀ record ∈ records, Materialized s'.metadata record)
      (fun _ => True) s := by
  induction records generalizing s with
  | nil => exact wp_pure.2 ⟨HeadsAdvance.refl _, by simp⟩
  | cons record records ih =>
    refine wp_bind.2 (wp_mono (materialize_advances h record) ?_ fun _ _ => trivial)
    rintro _ s1 ⟨h1, hadvance1, hdone1⟩
    refine wp_mono (ih h1) ?_ fun _ _ => trivial
    rintro _ s2 ⟨hadvance2, hdone2⟩
    refine ⟨hadvance1.trans hadvance2, fun r hr => ?_⟩
    rcases List.mem_cons.1 hr with rfl | hr
    · exact hdone1.advance hadvance2
    · exact hdone2 r hr

theorem materializeRecords_of_materialized (h : ∀ record ∈ records, Materialized s.metadata record) :
    materializeAppendVisiblePublishRecords config records s = .ok () s := by
  induction records with
  | nil => rfl
  | cons record records ih =>
    have hfirst : materializeAppendVisiblePublishRecord config record s = .ok () s :=
      materialize_of_materialized (h record List.mem_cons_self)
    exact (run_bind_ok hfirst).trans (ih fun r hr => h r (List.mem_cons_of_mem record hr))

/-- Records that were in the list are passed over when they come again. -/
theorem materializeRecords_again (h : s.metadata.Catalogs) {again : List AppendVisiblePublish}
    (hagain : ∀ record ∈ again, record ∈ records) :
    materializeAppendVisiblePublishRecords config (records ++ again) s =
      materializeAppendVisiblePublishRecords config records s := by
  have happend : materializeAppendVisiblePublishRecords config (records ++ again) = (do
      materializeAppendVisiblePublishRecords config records
      materializeAppendVisiblePublishRecords config again) := List.forM_append
  rw [happend]
  cases hfirst : materializeAppendVisiblePublishRecords config records s with
  | error e s' => exact run_bind_error hfirst
  | ok u s' =>
    obtain ⟨-, hdone⟩ := wp_of_ok (materializeRecords_advances h records) hfirst
    exact (run_bind_ok hfirst).trans
      (materializeRecords_of_materialized fun record hr => hdone record (hagain record hr))

/-! ## Replay -/

/-- Replay succeeds on the lists that can be ordered into a chain, with the same result for
every order; the extents cover what was appended; and on a store, records that come again are
passed over. -/
theorem visible_publishes_replay (keyspaceId fileId writerEpoch version size commitSeq : Nat)
    (records : List AppendVisiblePublish) :
    let replayed := replayAppendVisiblePublishesForFile keyspaceId fileId writerEpoch version size commitSeq
    ((∃ replay, replayed records = .ok replay) ↔ ∃ ordered, ordered.Perm records ∧
      Chain keyspaceId fileId ⟨writerEpoch, version, size, commitSeq, []⟩ ordered) ∧
    (∀ replay, replayed records = .ok replay →
      (∀ records', records'.Perm records → replayed records' = .ok replay) ∧
        ExtentsCover size replay.runExtents replay.latestSize) ∧
    ∀ (config : LocalStoreConfig) (s : Coordinator), s.metadata.Catalogs →
      ∀ again, (∀ record ∈ again, record ∈ records) →
        materializeAppendVisiblePublishRecords config (records ++ again) s =
          materializeAppendVisiblePublishRecords config records s := by
  intro replayed
  refine ⟨⟨?_, ?_⟩, ?_, fun config s h again => materializeRecords_again h⟩
  · rintro ⟨replay, hreplay⟩
    exact chain_of_replay hreplay
  · rintro ⟨ordered, hperm, hchain⟩
    exact ⟨_, replay_of_chain hperm hchain⟩
  · intro replay hreplay
    obtain ⟨ordered, hperm, hchain⟩ := chain_of_replay hreplay
    have hresult := replay_of_chain hperm hchain
    cases hreplay.symm.trans hresult
    exact ⟨fun records' hperm' => replay_of_chain (hperm.trans hperm'.symm) hchain, hchain.cover rfl⟩

def appendOfTen (version : Nat) : AppendVisiblePublish where
  recordId := version + 1
  commitSeq := version + 1
  keyspaceId := 1
  fileId := 1
  baseWriterEpoch := 0
  writerEpoch := 1
  baseFileVersion := version
  newFileVersion := version + 1
  oldSize := version * 10
  newSize := version * 10 + 10
  publishThrough := version * 10 + 10
  runExtents := [⟨version * 10, 10, ⟨version + 1, 1, 1, 1, 1, 1, version * 10, 10, 1, version * 10, .unchecked⟩⟩]

/-- The later one of two records comes first. -/
theorem visible_publishes_replay_reversed :
    ∃ replay, replayAppendVisiblePublishesForFile 1 1 0 0 0 0 [appendOfTen 1, appendOfTen 0] = .ok replay ∧
      ExtentsCover 0 replay.runExtents replay.latestSize := by
  obtain ⟨hiff, hresult, -⟩ := visible_publishes_replay 1 1 0 0 0 0 [appendOfTen 1, appendOfTen 0]
  obtain ⟨replay, hreplay⟩ := hiff.2 ⟨[appendOfTen 0, appendOfTen 1], List.Perm.swap _ _ _,
    ⟨by decide, rfl, rfl, rfl, rfl, by decide⟩, ⟨by decide, rfl, rfl, rfl, rfl, by decide⟩, trivial⟩
  exact ⟨replay, hreplay, (hresult replay hreplay).2⟩

end CowStore.Local
