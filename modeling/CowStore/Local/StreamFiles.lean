import CowStore.Local.Streams

/-!
# Files under streams

New keyspaces and new files, checkpoints and the custodian leave the streams and the sizes of
all files as they are.  A commit of a file changes the size of this file alone.
-/

namespace CowStore.Local

open Lib StorageError MetadataInner

variable {config : LocalStoreConfig} {m m' : MetadataInner} {keyspaceId fileId size : Nat}

/-! ## New keyspaces -/

theorem along_opens {α : Type} {x : MetadataOp α} {Q : α → MetadataInner → Prop}
    (h : Along SameFiles x m Q) : Along Opens x m Q :=
  h.weaken fun _ => opens_of_same

theorem along_leaves_of_opens {α : Type} {x : MetadataOp α} {k : Option Nat}
    {P : α → MetadataInner → Prop} (hev : m.Catalogs → Along (Evolves k) x m P) (hopens : Moves Opens x m)
    (hnew : m.Grounded → ∀ id, k = some id → m.keyspaceHeads.lookup id = none) : Moves Leaves x m := by
  by_cases h : m.Grounded
  · refine wp_mono (wp_and (hev h.catalogs) hopens) ?_ ?_
    · exact fun _ _ hboth => ⟨fun _ => kept_of_opens h hboth.1.1 (hnew h) hboth.2.1, trivial⟩
    · exact fun _ hboth _ => kept_of_opens h hboth.1 (hnew h) hboth.2
  · exact wp_of_forall (fun _ _ => ⟨fun hm => absurd hm h, trivial⟩) fun _ hm => absurd hm h

theorem MetadataInner.Grounded.next_keyspace (h : m.Grounded) :
    m.keyspaceHeads.lookup m.nextKeyspaceId = none := by
  cases hlookup : m.keyspaceHeads.lookup m.nextKeyspaceId with
  | none => rfl
  | some head => exact absurd (h.keyspaceIds _ head hlookup) (lt_irrefl _)

variable {shardRoots : List Nat} {fileCount : Nat}

theorem opens_beside {nextKeyspaceRootId nextKeyspaceCatalogShardId : Nat}
    {keyspaceRoots : Table Nat KeyspaceRoot} :
    Opens m { m with nextKeyspaceRootId, nextKeyspaceCatalogShardId, keyspaceRoots } :=
  ⟨le_rfl, le_rfl, rfl, fun _ _ hs => hs, fun hm => hm, fun _ _ hs => .inl hs⟩

theorem insertKeyspaceRoot_opens : Moves Opens (insertKeyspaceRoot shardRoots fileCount) m := by
  refine Along.step rfl opens_beside (Along.check fun _ _ => ?_)
  exact Along.step rfl opens_beside (Along.pure trivial)

theorem insertKeyspaceCatalogShard_opens {files : Table Nat KeyspaceFile}
    (h : ∀ fileId ∈ files, fileId < m.nextFileId) : Moves Opens (insertKeyspaceCatalogShard files) m := by
  refine Along.step rfl opens_beside (Along.check fun _ _ => Along.step rfl ?_ (Along.pure trivial))
  refine ⟨le_rfl, le_rfl, rfl, fun _ _ hs => hs, fun hm => hm, fun id shard hs => ?_⟩
  simp only [Table.lookup_insert_eq] at hs
  split at hs
  · cases hs
    exact .inr h
  · exact .inl hs

theorem opens_enter {head : KeyspaceHead} (h : keyspaceId < m.nextKeyspaceId) :
    Opens m { m with keyspaceHeads := m.keyspaceHeads.insert keyspaceId head } := by
  refine ⟨le_rfl, le_rfl, rfl, fun _ _ hs => hs, fun hm id head' hid => ?_, fun _ _ hs => .inl hs⟩
  simp only [Table.lookup_insert_eq] at hid
  split at hid
  · next heq =>
    rw [heq]
    exact h
  · exact hm id head' hid

theorem opens_keyspaceIds {nextKeyspaceId : Nat} (h : m.nextKeyspaceId ≤ nextKeyspaceId) :
    Opens m { m with nextKeyspaceId } :=
  ⟨h, le_rfl, rfl, fun _ _ hs => hs, fun hm id head hid => (hm id head hid).trans_le h,
    fun _ _ hs => .inl hs⟩

theorem createKeyspace_leaves : Moves Leaves (createKeyspace config) m := by
  refine along_leaves_of_opens createKeyspace_evolves ?_ ?_
  · refine Along.check fun _ _ => Along.step rfl (opens_keyspaceIds (Nat.le_succ _)) ?_
    refine Moves.seq ?_ fun root m1 hopens => ?_
    · refine Moves.seq ?_ fun _ _ _ => insertKeyspaceRoot_opens
      exact Moves.mapM fun _ _ => insertKeyspaceCatalogShard_opens nofun
    · refine Along.step run_modify (opens_enter (Nat.lt_of_succ_le hopens.keyspaceIds)) ?_
      exact (along_opens insertCheckpoint_sameFiles).thenPure
  · rintro h _ ⟨⟩
    exact h.next_keyspace

theorem enterCopy_opens {target : Nat} (h : target < m.nextKeyspaceId) (shardRoots : List Nat)
    (fileCount : Nat) :
    Moves Opens (do
      let latestCommit ← allocCommitSeq
      let head : KeyspaceHead := ⟨target, 0, shardRoots, fileCount, latestCommit⟩
      insertKeyspace head
      return head) m := by
  refine (along_opens allocCommitSeq_sameFiles).bind fun latestCommit m1 hopens1 _ => ?_
  refine Moves.seq ?_ fun _ _ _ => Along.pure trivial
  refine insertKeyspaceRoot_opens.bind fun root m2 hopens2 _ => ?_
  refine Along.step run_modify (opens_enter ?_) ?_
  · exact (h.trans_le hopens1.keyspaceIds).trans_le hopens2.keyspaceIds
  · exact (along_opens insertCheckpoint_sameFiles).thenPure

theorem snapshotTarget_opens (target : Option Nat) :
    Along Opens (snapshotTarget target) m fun id m' => id < m'.nextKeyspaceId := by
  cases target with
  | none => exact ⟨opens_keyspaceIds (Nat.le_succ _), Nat.lt_succ_self _⟩
  | some target =>
    refine Along.get (Along.check fun _ _ => ?_)
    refine Along.bind (P := fun _ m' => target < m'.nextKeyspaceId) ?_ fun _ _ _ h => Along.pure h
    refine Along.get ?_
    split
    · next hge =>
      refine Along.check fun _ _ => ⟨opens_keyspaceIds (hge.trans (Nat.le_succ _)), ?_⟩
      exact Nat.lt_succ_self _
    · next hlt => exact Along.pure (Nat.lt_of_not_le hlt)

theorem snapshotKeyspace_leaves {source : Nat} {target : Option Nat} :
    Moves Leaves (snapshotKeyspace source target) m := by
  by_cases hfree : ∀ id, target = some id → id ∉ m.keyspaceHeads
  · refine along_leaves_of_opens (snapshotKeyspace_evolves · source target) ?_ ?_
    · refine Along.get (Along.check fun sourceHead _ => ?_)
      exact (snapshotTarget_opens target).bind fun id m1 _ hid => enterCopy_opens hid _ _
    · rintro h _ ⟨⟩
      cases target with
      | none => exact h.next_keyspace
      | some id => exact AList.lookup_eq_none.2 (hfree id rfl)
  · obtain ⟨id, hid⟩ := not_forall.1 hfree
    obtain ⟨rfl, hmem⟩ := Classical.not_imp.1 hid
    refine Along.get (Along.check fun sourceHead _ => ?_)
    refine Along.bind (P := fun _ _ => False) ?_ fun _ _ _ h => h.elim
    refine Along.get (Along.check fun _ hnot => ?_)
    exact absurd (not_not.1 hmem) (failIf_eq_ok.1 hnot)

theorem restoreKeyspace_leaves {source : Nat} {point : RestorePoint} :
    Moves Leaves (restoreKeyspace source point) m := by
  refine along_leaves_of_opens (restoreKeyspace_evolves · source point) ?_ ?_
  · refine Along.get (Along.check2 fun _ root => ?_)
    refine Along.step rfl (opens_keyspaceIds (Nat.le_succ _)) ?_
    exact enterCopy_opens (Nat.lt_succ_self _) _ _
  · rintro h _ ⟨⟩
    exact h.next_keyspace

theorem checkpointKeyspace_leaves {keyspaceId : Nat} : Moves Leaves (checkpointKeyspace keyspaceId) m := by
  refine along_leaves_of_opens (checkpointKeyspace_evolves (k := none) · keyspaceId) ?_ nofun
  refine Along.get (Along.check fun head _ => ?_)
  refine insertKeyspaceRoot_opens.bind fun _ _ _ _ => ?_
  exact along_opens insertCheckpoint_sameFiles

/-! ## The custodian -/

theorem ensurePitrAnchorCheckpoints_opens (policy : RetentionPolicy) :
    Moves Opens (ensurePitrAnchorCheckpoints policy) m := by
  refine Along.get ?_
  refine (along_opens (Along.forM fun _ _ _ _ => ensureDeviceAnchor_sameFiles)).bind fun _ m1 _ _ => ?_
  refine Along.get (Along.forM fun target _ m2 _ => ?_)
  refine Along.get ?_
  split
  · exact Along.pure trivial
  · refine Along.check fun replayed _ => insertKeyspaceRoot_opens.bind fun _ _ _ _ => ?_
    exact (along_opens insertCheckpoint_sameFiles).thenPure

theorem markReachableForGc_leaves (policy : RetentionPolicy) :
    Moves Leaves (markReachableForGc policy) m := by
  refine along_leaves_of_opens (markReachableForGc_evolves (k := none) · policy) ?_ nofun
  refine (ensurePitrAnchorCheckpoints_opens policy).bind fun _ m1 _ _ => ?_
  refine Moves.seq ?_ fun epoch m2 _ => ?_
  · refine Along.get (Along.check fun _ _ => ?_)
    exact Along.step run_set (opens_of_same rfl) (Along.pure trivial)
  · refine Along.get (Along.check2 fun _ _ => ?_)
    exact Along.step run_set (opens_of_same rfl) (Along.pure trivial)

theorem sweepUnmarkedAfterMark_leaves (policy : RetentionPolicy) (epoch : Nat) :
    Moves Leaves (sweepUnmarkedAfterMark policy epoch) m := by
  refine along_leaves_of_opens (sweepUnmarkedAfterMark_evolves (k := none) · policy epoch) ?_ nofun
  refine Along.check fun _ _ => Along.get (Along.check fun _ _ => ?_)
  refine (ensurePitrAnchorCheckpoints_opens policy).bind fun _ m1 _ _ => ?_
  refine Along.get (Along.check2 fun _ _ => ?_)
  refine Along.step run_set ?_ (Along.pure trivial)
  exact ⟨le_rfl, le_rfl, rfl, fun _ _ hs => (Table.lookup_retain.1 hs).1, fun hm => hm, fun _ _ hs => .inl hs⟩

/-! ## Commits of files -/

structure Places (shards : CatalogShards) (shardRoots : List Nat) (fileId : Nat) (entry : KeyspaceFile)
    (update : CatalogUpdate) : Prop where
  index : update.shardIndex = fileId % 256
  oldShard : shardRoots[fileId % 256]? = some update.oldShard
  newShard : shards.lookup update.newShard.shardId = some update.newShard
  files : update.newShard.files = (shardFiles shards update.oldShard).insert fileId entry

section

variable {shards shards' : CatalogShards} {shardRoots : List Nat} {fileCount : Nat} {entry : KeyspaceFile}
  {update : CatalogUpdate}

theorem Places.extends (h : Places shards shardRoots fileId entry update)
    (hold : update.oldShard ∈ shards) (hext : shards.Extends shards') :
    Places shards' shardRoots fileId entry update where
  index := h.index
  oldShard := h.oldShard
  newShard := hext _ _ h.newShard
  files := by
    rw [shardFiles_extends hext hold]
    exact h.files

theorem Catalog.fileInShards (hc : Catalog m.keyspaceCatalogShards shardRoots fileCount) (file : Nat) :
    m.keyspaceFileInShards shardRoots file = orFail ((shardFiles m.keyspaceCatalogShards
      (shardRoots.getD (file % 256) 0)).lookup file) (notFound "file" (toString file)) := by
  have hindex := hc.index file
  obtain ⟨shard, hshard⟩ := Table.mem_iff_lookup.1 (hc.stored _ (List.mem_of_getElem? hindex))
  rw [hc.shardCount] at hshard
  rw [MetadataInner.keyspaceFileInShards, keyspaceCatalogShardIndexForLen, hc.shardCount]
  have hne : ¬ (256 = 0) := by decide
  simp only [failIf, hne, if_false, ok_bind, pure_eq_ok, keyspaceCatalogShard, hshard, orFail,
    shardFiles_of_lookup hshard]

theorem Places.file (h : Places m.keyspaceCatalogShards shardRoots fileId entry update)
    (hc : Catalog m.keyspaceCatalogShards shardRoots fileCount)
    {newCount : Nat} (hc' : Catalog m.keyspaceCatalogShards
      (shardRoots.set update.shardIndex update.newShard.shardId) newCount) (file : Nat) :
    m.keyspaceFileInShards (shardRoots.set update.shardIndex update.newShard.shardId) file =
      if file = fileId then .ok entry else m.keyspaceFileInShards shardRoots file := by
  have hlt : fileId % 256 < shardRoots.length := by
    rw [hc.shardCount]
    exact Nat.mod_lt _ (by decide)
  have hold : shardRoots.getD (fileId % 256) 0 = update.oldShard := by
    rw [List.getD_eq_getElem?_getD, h.oldShard]
    rfl
  rw [hc'.fileInShards, hc.fileInShards, h.index]
  by_cases hindex : file % 256 = fileId % 256
  · have hnew : (shardRoots.set (fileId % 256) update.newShard.shardId).getD (file % 256) 0 =
        update.newShard.shardId := by
      rw [hindex, List.getD_eq_getElem?_getD, List.getElem?_set_self hlt]
      rfl
    rw [hnew, shardFiles_of_lookup h.newShard, h.files, Table.lookup_insert_eq, hindex, hold]
    split <;> rfl
  · have hsame : (shardRoots.set (fileId % 256) update.newShard.shardId).getD (file % 256) 0 =
        shardRoots.getD (file % 256) 0 := by
      rw [List.getD_eq_getElem?_getD, List.getElem?_set_ne fun heq => hindex heq.symm,
        List.getD_eq_getElem?_getD]
    have hne : file ≠ fileId := fun heq => hindex (by rw [heq])
    rw [hsame, if_neg hne]

end

section

variable {head head' : KeyspaceHead} {entry : KeyspaceFile} {update : CatalogUpdate}
  (h : m.Catalogs) (h' : m'.Catalogs) (hhead : m.keyspaceHeads.lookup keyspaceId = some head)
  (hheads : m'.keyspaceHeads = m.keyspaceHeads.insert keyspaceId head')
  (hroots : head'.shardRoots = head.shardRoots.set update.shardIndex update.newShard.shardId)
  (hext : m.keyspaceCatalogShards.Extends m'.keyspaceCatalogShards)
  (hupdate : Places m'.keyspaceCatalogShards head.shardRoots fileId entry update)

include h h' hhead hheads hroots hext hupdate

theorem getFileHead_commit : m'.getFileHead keyspaceId fileId = .ok entry.head ∧
      ∀ keyspace file fileHead, (keyspaceId = keyspace → fileId ≠ file) →
        m.getFileHead keyspace file = .ok fileHead → m'.getFileHead keyspace file = .ok fileHead := by
  have hlookup : m'.keyspaceHeads.lookup keyspaceId = some head' := by
    rw [hheads]
    exact AList.lookup_insert _
  have hold := h.heads keyspaceId head hhead
  have hc := hold.extends hext
  have hc' := h'.heads keyspaceId head' hlookup
  have hfile : ∀ file, m'.keyspaceFileInShards head'.shardRoots file =
      if file = fileId then .ok entry else m'.keyspaceFileInShards head.shardRoots file := by
    intro file
    rw [hroots] at hc' ⊢
    exact hupdate.file hc hc' file
  constructor
  · exact getFileHead_eq_ok.2 ⟨head', entry, hlookup, (hfile fileId).trans (if_pos rfl), rfl⟩
  · intro keyspace file fileHead hne hn
    obtain ⟨other, otherEntry, hother, hentry, rfl⟩ := getFileHead_eq_ok.1 hn
    by_cases heq : keyspaceId = keyspace
    · subst heq
      cases hhead.symm.trans hother
      refine getFileHead_eq_ok.2 ⟨head', otherEntry, hlookup, ?_, rfl⟩
      rw [hfile, if_neg (hne rfl).symm, hold.keyspaceFileInShards hext]
      exact hentry
    · have hkept : m'.keyspaceHeads.lookup keyspace = some other := by
        rw [hheads, AList.lookup_insert_ne (Ne.symm heq)]
        exact hother
      refine getFileHead_eq_ok.2 ⟨other, otherEntry, hkept, ?_, rfl⟩
      rw [(h.heads keyspace other hother).keyspaceFileInShards hext]
      exact hentry

theorem hasSize_commit : m'.HasSize keyspaceId fileId entry.head.size ∧
      ∀ keyspace file n, (keyspaceId = keyspace → fileId ≠ file) → m.HasSize keyspace file n →
        m'.HasSize keyspace file n := by
  obtain ⟨hnew, hothers⟩ := getFileHead_commit h h' hhead hheads hroots hext hupdate
  refine ⟨⟨entry.head, hnew, rfl⟩, fun keyspace file n hne hn => ?_⟩
  obtain ⟨fileHead, hfile, hsize⟩ := hn
  exact ⟨fileHead, hothers keyspace file fileHead hne hfile, hsize⟩

end

def ShardsOnly (m m' : MetadataInner) : Prop :=
  m' = { m with
    nextKeyspaceCatalogShardId := m'.nextKeyspaceCatalogShardId
    keyspaceCatalogShards := m'.keyspaceCatalogShards }

instance : Std.Refl ShardsOnly := ⟨fun _ => rfl⟩

instance : IsTrans MetadataInner ShardsOnly := ⟨fun m₁ m₂ m₃ h h' => by
  rw [ShardsOnly] at h h' ⊢
  rw [h'] at *
  rw [h]⟩

theorem ShardsOnly.keyspaceHeads (h : ShardsOnly m m') : m'.keyspaceHeads = m.keyspaceHeads := by
  have heads := congrArg MetadataInner.keyspaceHeads (show m' = _ from h)
  exact heads

theorem updateKeyspaceFile_shardsOnly (shardRoots : List Nat) (fileCount fileId : Nat)
    (entry : KeyspaceFile) :
    Along ShardsOnly (updateKeyspaceFile shardRoots fileCount fileId entry) m fun update m' =>
      ∃ shard, update.shardIndex = fileId % shardRoots.length ∧
        update.oldShard = shardRoots.getD (fileId % shardRoots.length) 0 ∧
        m.keyspaceCatalogShards.lookup update.oldShard = some shard ∧
        update.newShard.files = shard.files.insert fileId entry ∧
        m'.keyspaceCatalogShards.lookup update.newShard.shardId = some update.newShard := by
  refine Along.check fun index hindex => Along.get ?_
  refine Along.check fun shard hshard => ?_
  obtain ⟨⟨⟩, -, hindex⟩ := bind_eq_ok.1 hindex
  cases hindex
  refine Along.bind (P := fun newShard m' => newShard.files = shard.files.insert fileId entry ∧
    m'.keyspaceCatalogShards.lookup newShard.shardId = some newShard) ?_ ?_
  · refine Along.step rfl rfl (Along.check fun _ _ => Along.step rfl rfl (Along.pure ⟨rfl, ?_⟩))
    exact AList.lookup_insert _
  · rintro newShard m1 - ⟨hfiles, hnew⟩
    exact Along.check fun _ _ => Along.pure ⟨shard, rfl, rfl, orFail_eq_ok.1 hshard, hfiles, hnew⟩

theorem updateKeyspaceFile_opens (h : m.Grounded) (shardRoots : List Nat) (fileCount : Nat)
    (hfile : fileId < m.nextFileId) (entry : KeyspaceFile) :
    Moves Opens (updateKeyspaceFile shardRoots fileCount fileId entry) m := by
  refine Along.check fun index _ => Along.get ?_
  refine Along.check fun shard hshard => ?_
  refine (insertKeyspaceCatalogShard_opens ?_).bind fun _ _ _ _ => Along.check fun _ _ => Along.pure trivial
  intro file hmem
  obtain rfl | hmem := (AList.mem_insert _).1 hmem
  · exact hfile
  · exact h.fileIds _ shard (orFail_eq_ok.1 hshard) file hmem

structure Writes (m m' : MetadataInner) (keyspaceId fileId : Nat) (entry : KeyspaceFile) : Prop where
  keyspaceIds : m.nextKeyspaceId ≤ m'.nextKeyspaceId
  fileIds : m.nextFileId ≤ m'.nextFileId
  shards : ∀ shardId shard, m'.keyspaceCatalogShards.lookup shardId = some shard →
    m.keyspaceCatalogShards.lookup shardId = some shard ∨ ∀ file ∈ shard.files, file < m'.nextFileId
  head : ∃ head head' update, m.keyspaceHeads.lookup keyspaceId = some head ∧
    m'.keyspaceHeads = m.keyspaceHeads.insert keyspaceId head' ∧
    head'.shardRoots = head.shardRoots.set update.shardIndex update.newShard.shardId ∧
    Places m'.keyspaceCatalogShards head.shardRoots fileId entry update

theorem Writes.sized {entry : KeyspaceFile} (hw : Writes m m' keyspaceId fileId entry) (h : m.Grounded)
    (hev : Evolves (some keyspaceId) m m') : m'.Grounded ∧ m'.HasSize keyspaceId fileId entry.head.size ∧
      ∀ keyspace file n, (keyspaceId = keyspace → fileId ≠ file) → m.HasSize keyspace file n →
        m'.HasSize keyspace file n := by
  obtain ⟨hc, hext, -⟩ := hev h.catalogs
  obtain ⟨head, head', update, hhead, hheads, hroots, hplaces⟩ := hw.head
  refine ⟨⟨hc, ?_, ?_⟩, hasSize_commit h.catalogs hc hhead hheads hroots hext hplaces⟩
  · intro id other hid
    refine lt_of_lt_of_le ?_ hw.keyspaceIds
    rw [hheads, Table.lookup_insert_eq] at hid
    split at hid
    · next heq =>
      rw [heq]
      exact h.keyspaceIds keyspaceId head hhead
    · exact h.keyspaceIds id other hid
  · intro id shard hshard file hfile
    obtain hold | hfiles := hw.shards id shard hshard
    · exact (h.fileIds id shard hold file hfile).trans_le hw.fileIds
    · exact hfiles file hfile

def Idles (m m' : MetadataInner) : Prop := Opens m m' ∧ m'.keyspaceHeads = m.keyspaceHeads

instance : Std.Refl Idles := ⟨fun m => ⟨refl m, rfl⟩⟩

instance : IsTrans MetadataInner Idles :=
  ⟨fun _ _ _ h h' => ⟨IsTrans.trans _ _ _ h.1 h'.1, h'.2.trans h.2⟩⟩

theorem idles_of_same (h : SameFiles m m') : Idles m m' :=
  ⟨opens_of_same h, congrArg FileRows.keyspaceHeads h⟩

theorem Idles.kept (hidles : Idles m m') (h : m.Grounded) {k : Option Nat} (hev : Evolves k m m') :
    Kept m m' := by
  have hev' : Evolves none m m' := fun hc =>
    ⟨(hev hc).1, (hev hc).2.1, fun id _ => by rw [hidles.2]⟩
  exact kept_of_opens h hev' nofun hidles.1

theorem updateKeyspaceFile_stores (h : m.Catalogs)
    (hc : Catalog m.keyspaceCatalogShards shardRoots fileCount) (fileId : Nat) (entry : KeyspaceFile) :
    wp (updateKeyspaceFile shardRoots fileCount fileId entry) (fun update m' =>
      ShardsOnly m m' ∧ Evolves none m m' ∧ Places m'.keyspaceCatalogShards shardRoots fileId entry update)
      (ShardsOnly m) m := by
  have hboth := wp_and (updateKeyspaceFile_evolves (k := none) h hc fileId entry)
    (updateKeyspaceFile_shardsOnly shardRoots fileCount fileId entry)
  refine wp_mono hboth ?_ fun _ hboth => hboth.2
  rintro update m' ⟨⟨hev, hreplaces, -⟩, hshards, shard, hindex, hold, hshard, hfiles, hnew⟩
  refine ⟨hshards, hev, ?_⟩
  rw [hc.shardCount] at hindex
  refine ⟨hindex, hindex ▸ hreplaces.oldShard, hnew, ?_⟩
  rw [shardFiles_of_lookup ((hev h).2.1 _ shard hshard)]
  exact hfiles

theorem updateKeyspaceFile_places (h : m.Grounded)
    (hc : Catalog m.keyspaceCatalogShards shardRoots fileCount) (hfile : fileId < m.nextFileId)
    (entry : KeyspaceFile) : wp (updateKeyspaceFile shardRoots fileCount fileId entry) (fun update m' =>
      ShardsOnly m m' ∧ Idles m m' ∧ Places m'.keyspaceCatalogShards shardRoots fileId entry update)
      (Idles m) m := by
  have hboth := wp_and (updateKeyspaceFile_stores h.catalogs hc fileId entry)
    (updateKeyspaceFile_opens h shardRoots fileCount hfile entry)
  refine wp_mono hboth ?_ fun _ hboth => ⟨hboth.2, hboth.1.keyspaceHeads⟩
  rintro update m' ⟨⟨hshards, -, hplaces⟩, hopens, -⟩
  exact ⟨hshards, ⟨hopens, hshards.keyspaceHeads⟩, hplaces⟩

theorem opens_fileIds {nextFileId : Nat} (h : m.nextFileId ≤ nextFileId) : Opens m { m with nextFileId } :=
  ⟨le_rfl, h, rfl, fun _ _ hs => hs, fun hm => hm, fun _ _ hs => .inl hs⟩

theorem MetadataInner.Grounded.same (h : m.Grounded) (hsame : SameFiles m m') : m'.Grounded :=
  (leaves_of_same hsame h).grounded

theorem writes_of_update {m₁ : MetadataInner} {head head' : KeyspaceHead} {entry : KeyspaceFile}
    {update : CatalogUpdate} {commitSeq : Nat} (hidles : Idles m m₁)
    (hhead : m.keyspaceHeads.lookup keyspaceId = some head)
    (hhead' : head.withShard commitSeq update = .ok head')
    (hplaces : Places m₁.keyspaceCatalogShards head.shardRoots fileId entry update)
    (hkeyspaceIds : m'.nextKeyspaceId = m₁.nextKeyspaceId) (hfileIds : m'.nextFileId = m₁.nextFileId)
    (hstored : m'.keyspaceCatalogShards = m₁.keyspaceCatalogShards)
    (hheads : m'.keyspaceHeads = m₁.keyspaceHeads.insert keyspaceId head') :
    Writes m m' keyspaceId fileId entry := by
  refine ⟨hkeyspaceIds ▸ hidles.1.keyspaceIds, hfileIds ▸ hidles.1.fileIds, ?_, head, head', update,
    hhead, hheads.trans (by rw [hidles.2]), ?_, ?_⟩
  · rw [hstored, hfileIds]
    exact hidles.1.shards
  · obtain ⟨⟨⟩, -, hhead'⟩ := bind_eq_ok.1 hhead'
    cases hhead'
    rfl
  · rw [hstored]
    exact hplaces

theorem createFile_writes (h : m.Grounded) (keyspaceId : Nat) (name : Option String) :
    wp (createFile config keyspaceId name) (fun head m' =>
      Writes m m' keyspaceId m.nextFileId ⟨name, head⟩ ∧ m'.appendStreams = m.appendStreams ∧
        m'.fileWriterEpochs = m.fileWriterEpochs.insert (keyspaceId, m.nextFileId) 0) (Idles m) m := by
  refine wp_check (refl m) fun _ _ => wp_step run_get ?_
  refine wp_check (refl m) fun head hhead => ?_
  have hhead := orFail_eq_ok.1 hhead
  have h1 : MetadataInner.Grounded { m with nextFileId := m.nextFileId + 1 } := by
    refine ⟨⟨h.catalogs.heads, h.catalogs.roots, h.catalogs.commits, h.catalogs.shardIds⟩,
      h.keyspaceIds, ?_⟩
    exact fun id shard hs file hmem => (h.fileIds id shard hs file hmem).trans (Nat.lt_succ_self _)
  refine wp_step rfl ?_
  have hpre : ∀ {m' : MetadataInner}, SameFiles { m with nextFileId := m.nextFileId + 1 } m' →
      Idles m m' := fun hsame =>
    IsTrans.trans _ _ _ ⟨opens_fileIds (Nat.le_succ _), rfl⟩ (idles_of_same hsame)
  refine (onNodes_sameFiles _).thenWp (fun root m2 hs2 _ => ?_) fun _ => hpre
  refine allocCommitSeq_sameFiles.thenWp (fun commitSeq m3 hs3 _ => ?_)
    fun _ hs3 => hpre (hs3.trans hs2)
  refine allocCommitGroupId_sameFiles.thenWp (fun commitGroup m4 hs4 _ => ?_)
    fun _ hs4 => hpre (hs4.trans (hs3.trans hs2))
  have hs : SameFiles { m with nextFileId := m.nextFileId + 1 } m4 := hs4.trans (hs3.trans hs2)
  have hheads : m4.keyspaceHeads = m.keyspaceHeads := congrArg FileRows.keyspaceHeads hs
  have hnext : m4.nextFileId = m.nextFileId + 1 := congrArg FileRows.nextFileId hs
  have h4 := h1.same hs
  have hc := h4.catalogs.heads keyspaceId head (hheads ▸ hhead)
  refine wp_check (hpre hs) fun _ _ => wp_bind.2 ?_
  refine wp_mono (updateKeyspaceFile_places h4 hc (by omega) _) ?_
    fun _ hidles => IsTrans.trans _ _ _ (hpre hs) hidles
  rintro update m5 ⟨hshards, hidles, hplaces⟩
  have hidles := IsTrans.trans _ _ _ (hpre hs) hidles
  refine wp_check hidles fun head' hhead' => wp_step run_modify ?_
  refine ⟨writes_of_update hidles hhead hhead' hplaces rfl rfl rfl rfl, ?_, ?_⟩
  · exact (congrArg MetadataInner.appendStreams hshards).trans (congrArg FileRows.appendStreams hs)
  · have hepochs : m5.fileWriterEpochs = m.fileWriterEpochs :=
      (congrArg MetadataInner.fileWriterEpochs hshards).trans (congrArg FileRows.fileWriterEpochs hs)
    change m5.fileWriterEpochs.insert _ _ = _
    rw [hepochs]

theorem createFile_leaves (h : m.Grounded) (keyspaceId : Nat) (name : Option String) :
    Moves Leaves (createFile config keyspaceId name) m := by
  have hwrites : wp (createFile config keyspaceId name) _ _ m := createFile_writes h keyspaceId name
  refine wp_mono (wp_and (createFile_evolves h.catalogs keyspaceId name) hwrites) ?_ ?_
  · rintro head m' ⟨⟨hev, -⟩, hwrites, hstreams, hepochs⟩
    obtain ⟨hgrounded, -, hothers⟩ := hwrites.sized h hev
    refine ⟨fun _ => ⟨hgrounded, hwrites.fileIds, fun _ _ hs => hstreams ▸ hs, ?_, ?_⟩, trivial⟩
    · intro k f hf
      have hne : (k, f) ≠ (keyspaceId, m.nextFileId) := fun heq => by
        cases heq
        exact lt_irrefl _ hf
      rw [fileWriterEpoch, hepochs, AList.lookup_insert_ne hne, fileWriterEpoch]
    · intro k f n hn
      exact hothers k f n (fun _ heq => (h.file_lt hn).ne heq.symm) hn
  · exact fun _ hboth _ => hboth.2.kept h hboth.1

/-- A commit of a file is recorded under the next sequence number, which its head shows. -/
structure Records (m m' : MetadataInner) (head : FileHead) (row : FileCommit) : Prop where
  rows : m'.fileCommits = m.fileCommits ++ [row]
  seq : row.commitSeq = m.nextCommitSeq
  next : m'.nextCommitSeq = m.nextCommitSeq + 1
  version : head.version = row.newVersion
  latest : head.latestCommit = row.commitSeq

theorem publishFileRoot_writes (h : m.Grounded) (keyspaceId : Nat) (fence : FileFence)
    (fileId oldRoot newRoot newSize : Nat) :
    wp (publishFileRoot config keyspaceId fence fileId oldRoot newRoot newSize) (fun _ m' =>
      ∃ current entry, m.getFileHead keyspaceId fileId = .ok current ∧
        m.appendPublishInFlightForFile keyspaceId fileId = false ∧
        fence.check m keyspaceId current = .ok () ∧ entry.head.size = newSize ∧
        Writes m m' keyspaceId fileId entry ∧ m'.appendPublishInFlight = m.appendPublishInFlight ∧
        m'.appendStreams = (fence.settle keyspaceId fileId newSize m).appendStreams ∧
        m'.fileWriterEpochs = (fence.settle keyspaceId fileId newSize m).fileWriterEpochs ∧
        ∃ row, Records m m' entry.head row) (Idles m) m := by
  have hrefl : Idles m m := refl m
  refine wp_step run_get (wp_check hrefl fun head hhead => wp_check hrefl fun entry hentry => ?_)
  refine wp_check hrefl fun _ hfree => wp_check hrefl fun _ hfence => wp_check hrefl fun _ _ => ?_
  refine wp_check hrefl fun node _ => ?_
  have hcurrent : m.getFileHead keyspaceId fileId = .ok entry.head :=
    bind_eq_ok.2 ⟨head, hhead, bind_eq_ok.2 ⟨entry, hentry, rfl⟩⟩
  have hhead := orFail_eq_ok.1 hhead
  have hfile : fileId < m.nextFileId := h.file_lt ⟨entry.head, hcurrent, rfl⟩
  refine wp_bind.2 (wp_mono (allocCommitSeq_wp m) ?_ fun _ herr => herr ▸ hrefl)
  rintro commitSeq m1 ⟨rfl, -, rfl⟩
  refine wp_step rfl ?_
  have hs : SameFiles m { m with
    nextCommitSeq := m.nextCommitSeq + 1, nextCommitGroupId := m.nextCommitGroupId + 1 } := rfl
  have hpre := idles_of_same hs
  have h2 := h.same hs
  have hc := h2.catalogs.heads keyspaceId head hhead
  refine wp_check hpre fun version _ => wp_check hpre fun _ _ => wp_bind.2 ?_
  refine wp_mono (updateKeyspaceFile_places h2 hc hfile _) ?_
    fun _ hidles => IsTrans.trans _ _ _ hpre hidles
  rintro update m3 ⟨hshards, hidles, hplaces⟩
  have hidles := IsTrans.trans _ _ _ hpre hidles
  refine wp_check hidles fun head' hhead' => wp_step run_modify (wp_step run_modify ?_)
  have hstreams : m3.appendStreams = m.appendStreams := (congrArg MetadataInner.appendStreams hshards).trans rfl
  have hepochs : m3.fileWriterEpochs = m.fileWriterEpochs :=
    (congrArg MetadataInner.fileWriterEpochs hshards).trans rfl
  have hflight : m3.appendPublishInFlight = m.appendPublishInFlight :=
    (congrArg MetadataInner.appendPublishInFlight hshards).trans rfl
  have hrows : m3.fileCommits = m.fileCommits := (congrArg MetadataInner.fileCommits hshards).trans rfl
  have hnext : m3.nextCommitSeq = m.nextCommitSeq + 1 := (congrArg MetadataInner.nextCommitSeq hshards).trans rfl
  have hfree := Bool.eq_false_iff.2 (failIf_eq_ok.1 hfree)
  -- the fence settles streams and epochs only
  cases fence with
  | fileVersion version =>
    refine ⟨entry.head, _, hcurrent, hfree, hfence, ?_,
      writes_of_update hidles hhead hhead' hplaces rfl rfl rfl rfl, hflight, hstreams, hepochs,
      _, congrArg (· ++ _) hrows, rfl, hnext, rfl, rfl⟩
    rfl
  | appendStream streamId writerEpoch =>
    refine ⟨entry.head, _, hcurrent, hfree, hfence, ?_,
      writes_of_update hidles hhead hhead' hplaces rfl rfl rfl rfl, hflight, ?_, ?_,
      _, congrArg (· ++ _) hrows, rfl, hnext, rfl, rfl⟩
    · rfl
    · simp only [FileFence.settle, hstreams]
    · simp only [FileFence.settle, hepochs]

end CowStore.Local
