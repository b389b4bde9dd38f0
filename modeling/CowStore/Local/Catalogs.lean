import CowStore.Local.FileFrame
import CowStore.Local.Recover

/-!
# Catalogs of keyspaces

A catalog has 256 shards, and a file stands in the shard of its identifier modulo 256.  The
shards are never changed: a change of a file stores a new one, so a catalog that was right
once stays right, whoever shares its shards.  Whatever is done to the metadata leads from
right catalogs to right catalogs and, of the keyspaces there are, changes one at most.
-/

namespace CowStore.Local

open Lib MetadataInner

abbrev CatalogShards := Table Nat KeyspaceCatalogShard

def shardFiles (shards : CatalogShards) (shardId : Nat) : Table Nat KeyspaceFile :=
  ((shards.lookup shardId).map (·.files)).getD ∅

def shardSize (shards : CatalogShards) (shardId : Nat) : Nat := (shardFiles shards shardId).keys.length

/-- The shards are the catalog of a keyspace with `fileCount` files. -/
structure Catalog (shards : CatalogShards) (shardRoots : List Nat) (fileCount : Nat) : Prop where
  shardCount : shardRoots.length = 256
  stored : ∀ shardId ∈ shardRoots, shardId ∈ shards
  placed : ∀ i shardId, shardRoots[i]? = some shardId →
    ∀ fileId ∈ shardFiles shards shardId, fileId % 256 = i
  counted : fileCount = (shardRoots.map (shardSize shards)).sum

/-- The commit replaces a shard by one for the same files and counts what it has more. -/
structure CommitFits (shards : CatalogShards) (commit : KeyspaceCommit) : Prop where
  oldShard : commit.oldShard ∈ shards
  newShard : commit.newShard ∈ shards
  placed : ∀ fileId ∈ shardFiles shards commit.newShard, fileId % 256 = commit.shardIndex
  counted : commit.newFileCount + shardSize shards commit.oldShard =
    commit.oldFileCount + shardSize shards commit.newShard

/-- All catalogs of the metadata are right, and stay so along the timelines. -/
structure MetadataInner.Catalogs (m : MetadataInner) : Prop where
  heads : ∀ keyspaceId head, m.keyspaceHeads.lookup keyspaceId = some head →
    Catalog m.keyspaceCatalogShards head.shardRoots head.fileCount
  roots : ∀ rootId root, m.keyspaceRoots.lookup rootId = some root →
    Catalog m.keyspaceCatalogShards root.shardRoots root.fileCount
  commits : ∀ commit ∈ m.keyspaceCommits, CommitFits m.keyspaceCatalogShards commit
  shardIds : ∀ shardId, m.nextKeyspaceCatalogShardId ≤ shardId →
    m.keyspaceCatalogShards.lookup shardId = none

/-! ## Shards that are kept -/

section

variable {shards shards' : CatalogShards} {shardRoots : List Nat} {fileCount : Nat}

variable {shardId : Nat}

theorem shardFiles_of_lookup {shard : KeyspaceCatalogShard}
    (h : shards.lookup shardId = some shard) : shardFiles shards shardId = shard.files := by
  rw [shardFiles, h]
  rfl

theorem shardFiles_extends (h : shards.Extends shards') (hmem : shardId ∈ shards) :
    shardFiles shards' shardId = shardFiles shards shardId := by
  obtain ⟨shard, hshard⟩ := Table.mem_iff_lookup.1 hmem
  rw [shardFiles_of_lookup hshard, shardFiles_of_lookup (h shardId shard hshard)]

theorem shardSize_extends (h : shards.Extends shards') (hmem : shardId ∈ shards) :
    shardSize shards' shardId = shardSize shards shardId := by
  rw [shardSize, shardSize, shardFiles_extends h hmem]

theorem mem_extends (h : shards.Extends shards') (hmem : shardId ∈ shards) : shardId ∈ shards' := by
  obtain ⟨shard, hshard⟩ := Table.mem_iff_lookup.1 hmem
  exact Table.mem_iff_lookup.2 ⟨shard, h shardId shard hshard⟩

theorem Catalog.extends (h : Catalog shards shardRoots fileCount) (hext : shards.Extends shards') :
    Catalog shards' shardRoots fileCount where
  shardCount := h.shardCount
  stored shardId hmem := mem_extends hext (h.stored shardId hmem)
  placed i shardId hi := by
    rw [shardFiles_extends hext (h.stored shardId (List.mem_of_getElem? hi))]
    exact h.placed i shardId hi
  counted := by
    have hsizes : shardRoots.map (shardSize shards') = shardRoots.map (shardSize shards) :=
      List.map_congr_left fun shardId hmem => shardSize_extends hext (h.stored shardId hmem)
    rw [hsizes]
    exact h.counted

theorem CommitFits.extends {commit : KeyspaceCommit} (h : CommitFits shards commit)
    (hext : shards.Extends shards') : CommitFits shards' commit where
  oldShard := mem_extends hext h.oldShard
  newShard := mem_extends hext h.newShard
  placed := by
    rw [shardFiles_extends hext h.newShard]
    exact h.placed
  counted := by
    rw [shardSize_extends hext h.oldShard, shardSize_extends hext h.newShard]
    exact h.counted

theorem sum_map_set {α : Type} (f : α → Nat) {l : List α} {i : Nat} {old : α} (new : α)
    (h : l[i]? = some old) : ((l.set i new).map f).sum + f old = (l.map f).sum + f new := by
  induction l generalizing i with
  | nil => cases h
  | cons x l ih =>
    cases i with
    | zero =>
      cases h
      simp only [List.set_cons_zero, List.map_cons, List.sum_cons]
      omega
    | succ i =>
      have hrest := ih (i := i) h
      simp only [List.set_cons_succ, List.map_cons, List.sum_cons]
      omega

theorem Catalog.set (h : Catalog shards shardRoots fileCount) {i old new newCount : Nat}
    (hold : shardRoots[i]? = some old) (hnew : new ∈ shards)
    (hplaced : ∀ fileId ∈ shardFiles shards new, fileId % 256 = i)
    (hcounted : newCount + shardSize shards old = fileCount + shardSize shards new) :
    Catalog shards (shardRoots.set i new) newCount where
  shardCount := by rw [List.length_set, h.shardCount]
  stored shardId hmem := by
    obtain hmem | rfl := List.mem_or_eq_of_mem_set hmem
    · exact h.stored shardId hmem
    · exact hnew
  placed j shardId hj := by
    rw [List.getElem?_set] at hj
    split at hj
    · next heq =>
      subst heq
      split at hj
      · cases hj
        exact hplaced
      · cases hj
    · exact h.placed j shardId hj
  counted := by
    have hsum := sum_map_set (shardSize shards) new hold
    have hcount := h.counted
    omega

theorem replayKeyspaceCommit_eq_ok {c : KeyspaceCommit} {catalog out : List Nat × Nat} :
    replayKeyspaceCommit catalog c = .ok out ↔
      (c.shardIndex < catalog.1.length ∧ catalog.1[c.shardIndex]? = some c.oldShard ∧
        catalog.2 = c.oldFileCount) ∧ out = (catalog.1.set c.shardIndex c.newShard, c.newFileCount) := by
  constructor
  · intro h
    obtain ⟨⟨⟩, hin, ⟨⟩, hold, h⟩ := bind2_eq_ok.1 h
    cases h
    have hold := not_or.1 (failIf_eq_ok.1 hold)
    exact ⟨⟨Nat.not_le.1 (failIf_eq_ok.1 hin), not_not.1 hold.1, not_not.1 hold.2⟩, rfl⟩
  · rintro ⟨⟨hin, hold, hcount⟩, rfl⟩
    refine bind_eq_ok.2 ⟨(), failIf_eq_ok.2 (Nat.not_le.2 hin), bind_eq_ok.2 ⟨(), ?_, rfl⟩⟩
    exact failIf_eq_ok.2 (not_or.2 ⟨not_not.2 hold, not_not.2 hcount⟩)

theorem Catalog.replay (h : Catalog shards shardRoots fileCount) {commit : KeyspaceCommit}
    (hcommit : CommitFits shards commit) {catalog : List Nat × Nat}
    (hreplay : replayKeyspaceCommit (shardRoots, fileCount) commit = .ok catalog) :
    Catalog shards catalog.1 catalog.2 := by
  obtain ⟨⟨-, hold, hcount⟩, rfl⟩ := replayKeyspaceCommit_eq_ok.1 hreplay
  refine h.set hold hcommit.newShard hcommit.placed ?_
  have hcounted := hcommit.counted
  change fileCount = _ at hcount
  omega

theorem Catalog.index (h : Catalog shards shardRoots fileCount) (fileId : Nat) :
    shardRoots[fileId % 256]? = some (shardRoots.getD (fileId % shardRoots.length) 0) := by
  have hlt : fileId % 256 < shardRoots.length := by
    rw [h.shardCount]
    exact Nat.mod_lt _ (by decide)
  rw [h.shardCount, List.getD_eq_getElem?_getD, List.getElem?_eq_getElem hlt]
  rfl

theorem keyspaceFileInShards_eq_ok {m : MetadataInner} {fileId : Nat} {entry : KeyspaceFile} :
    m.keyspaceFileInShards shardRoots fileId = .ok entry ↔ shardRoots.length ≠ 0 ∧
      (shardFiles m.keyspaceCatalogShards (shardRoots.getD (fileId % shardRoots.length) 0)).lookup
        fileId = some entry := by
  constructor
  · intro hfile
    obtain ⟨index, hindex, hrest⟩ := bind_eq_ok.1 hfile
    obtain ⟨shard, hshard, hentry⟩ := bind_eq_ok.1 hrest
    obtain ⟨⟨⟩, hne, hmod⟩ := bind_eq_ok.1 hindex
    cases hmod
    rw [shardFiles_of_lookup (orFail_eq_ok.1 hshard)]
    exact ⟨failIf_eq_ok.1 hne, orFail_eq_ok.1 hentry⟩
  · rintro ⟨hne, hlookup⟩
    refine bind_eq_ok.2 ⟨_, bind_eq_ok.2 ⟨(), failIf_eq_ok.2 hne, rfl⟩, ?_⟩
    cases hshard : m.keyspaceCatalogShards.lookup (shardRoots.getD (fileId % shardRoots.length) 0) with
    | none =>
      rw [shardFiles, hshard] at hlookup
      cases hlookup
    | some shard =>
      rw [shardFiles_of_lookup hshard] at hlookup
      exact bind_eq_ok.2 ⟨shard, orFail_eq_ok.2 hshard, orFail_eq_ok.2 hlookup⟩

/-- The files of a catalog are found again wherever no shard is lost. -/
theorem Catalog.keyspaceFileInShards {m m' : MetadataInner}
    (h : Catalog m.keyspaceCatalogShards shardRoots fileCount)
    (hext : m.keyspaceCatalogShards.Extends m'.keyspaceCatalogShards) (fileId : Nat) :
    m'.keyspaceFileInShards shardRoots fileId = m.keyspaceFileInShards shardRoots fileId := by
  obtain ⟨shard, hshard⟩ := Table.mem_iff_lookup.1
    (h.stored _ (List.mem_of_getElem? (h.index fileId)))
  have hshard' := hext _ shard hshard
  have hne : shardRoots.length ≠ 0 := by
    rw [h.shardCount]
    decide
  simp only [MetadataInner.keyspaceFileInShards, keyspaceCatalogShardIndexForLen, failIf, hne,
    if_false, ok_bind, pure_eq_ok, keyspaceCatalogShard, hshard, hshard']

end

/-! ## What may happen to the catalogs -/

/-- From right catalogs to right catalogs: no shard is lost, and only the keyspace `k` may
have another head. -/
def Evolves (k : Option Nat) (m m' : MetadataInner) : Prop :=
  m.Catalogs → m'.Catalogs ∧ m.keyspaceCatalogShards.Extends m'.keyspaceCatalogShards ∧
    ∀ keyspaceId, k ≠ some keyspaceId →
      m'.keyspaceHeads.lookup keyspaceId = m.keyspaceHeads.lookup keyspaceId

variable {k : Option Nat}

instance : Std.Refl (Evolves k) := ⟨fun _ h => ⟨h, Table.Extends.refl _, fun _ _ => rfl⟩⟩

instance : IsTrans MetadataInner (Evolves k) := by
  refine ⟨fun m₁ m₂ m₃ h h' h₁ => ?_⟩
  obtain ⟨h₂, hext, hheads⟩ := h h₁
  obtain ⟨h₃, hext', hheads'⟩ := h' h₂
  exact ⟨h₃, hext.trans hext', fun id hid => (hheads' id hid).trans (hheads id hid)⟩

variable {config : LocalStoreConfig} {m m' : MetadataInner} {shardRoots : List Nat}
  {fileCount : Nat}

theorem Evolves.catalog (h : Evolves k m m') (hm : m.Catalogs)
    (hc : Catalog m.keyspaceCatalogShards shardRoots fileCount) :
    Catalog m'.keyspaceCatalogShards shardRoots fileCount :=
  hc.extends (h hm).2.1

/-- The catalogs are where they were, and commits may have been dropped. -/
theorem evolves_of_heads (hheads : m'.keyspaceHeads = m.keyspaceHeads)
    (hroots : m'.keyspaceRoots = m.keyspaceRoots)
    (hshards : m'.keyspaceCatalogShards = m.keyspaceCatalogShards)
    (hnext : m'.nextKeyspaceCatalogShardId = m.nextKeyspaceCatalogShardId)
    (hcommits : ∀ commit ∈ m'.keyspaceCommits, commit ∈ m.keyspaceCommits) : Evolves k m m' := by
  intro h
  refine ⟨⟨?_, ?_, ?_, ?_⟩, ?_, ?_⟩
  · rw [hheads, hshards]
    exact h.heads
  · rw [hroots, hshards]
    exact h.roots
  · rw [hshards]
    exact fun commit hmem => h.commits commit (hcommits commit hmem)
  · rw [hnext, hshards]
    exact h.shardIds
  · rw [hshards]
    exact Table.Extends.refl _
  · rw [hheads]
    exact fun _ _ => rfl

/-- Streams, their epochs, the publishes under way and the counters are in no catalog. -/
theorem evolves_beside {nextKeyspaceId nextFileId nextKeyspaceRootId : Nat}
    {fileWriterEpochs : Table (Nat × Nat) Nat} {appendStreams : Table Nat AppendStreamState}
    {appendPublishInFlight : Table Nat AppendPublishInFlight} :
    Evolves k m { m with
      nextKeyspaceId, nextFileId, nextKeyspaceRootId
      fileWriterEpochs, appendStreams, appendPublishInFlight } :=
  evolves_of_heads rfl rfl rfl rfl fun _ hmem => hmem

theorem evolves_of_same (h : SameFiles m m') : Evolves k m m' := by
  have hcommits : m'.keyspaceCommits = m.keyspaceCommits := congrArg FileRows.keyspaceCommits h
  refine evolves_of_heads (congrArg FileRows.keyspaceHeads h) (congrArg FileRows.keyspaceRoots h)
    (congrArg FileRows.keyspaceCatalogShards h) (congrArg FileRows.nextKeyspaceCatalogShardId h) ?_
  rw [hcommits]
  exact fun _ hmem => hmem

theorem along_evolves {α : Type} {x : MetadataOp α} {Q : α → MetadataInner → Prop}
    (h : Along SameFiles x m Q) : Along (Evolves k) x m Q :=
  h.weaken fun _ => evolves_of_same

variable {head : KeyspaceHead} {keyspaceId : Nat}

/-- A keyspace gets a head with a right catalog, and commits may join the timelines. -/
theorem evolves_enter (hheads : m'.keyspaceHeads = m.keyspaceHeads.insert keyspaceId head)
    (hroots : m'.keyspaceRoots = m.keyspaceRoots)
    (hshards : m.keyspaceCatalogShards.Extends m'.keyspaceCatalogShards)
    (hids : m.Catalogs → ∀ shardId, m'.nextKeyspaceCatalogShardId ≤ shardId →
      m'.keyspaceCatalogShards.lookup shardId = none) (hcommits : ∀ commit ∈ m'.keyspaceCommits,
      commit ∈ m.keyspaceCommits ∨ CommitFits m'.keyspaceCatalogShards commit)
    (hc : Catalog m'.keyspaceCatalogShards head.shardRoots head.fileCount) :
    Evolves (some keyspaceId) m m' := by
  intro h
  refine ⟨⟨?_, ?_, ?_, hids h⟩, hshards, ?_⟩
  · intro id head' hid
    rw [hheads, Table.lookup_insert_eq] at hid
    split at hid
    · cases hid
      exact hc
    · exact (h.heads id head' hid).extends hshards
  · rw [hroots]
    exact fun rootId root hroot => (h.roots rootId root hroot).extends hshards
  · intro commit hmem
    obtain hmem | hfits := hcommits commit hmem
    · exact (h.commits commit hmem).extends hshards
    · exact hfits
  · intro id hid
    rw [hheads]
    exact AList.lookup_insert_ne fun heq => hid (congrArg some heq.symm)

/-- A commit gets its numbers. -/
theorem alloc_evolves {α : Type} {f : Nat → Nat → MetadataOp α} {Q : α → MetadataInner → Prop}
    (h : m.Catalogs) (hc : Catalog m.keyspaceCatalogShards shardRoots fileCount)
    (hf : ∀ commitSeq commitGroup m', Evolves k m m' → m'.Catalogs →
      Catalog m'.keyspaceCatalogShards shardRoots fileCount →
      Along (Evolves k) (f commitSeq commitGroup) m' Q) :
    Along (Evolves k) (allocCommitSeq >>= fun seq => allocCommitGroupId >>= f seq) m Q := by
  refine (along_evolves allocCommitSeq_sameFiles).bind fun commitSeq m1 hev1 _ => ?_
  refine (along_evolves allocCommitGroupId_sameFiles).bind fun commitGroup m2 hev2 _ => ?_
  have hev := IsTrans.trans _ _ _ hev1 hev2
  exact hf commitSeq commitGroup m2 hev (hev h).1 (hev.catalog h hc)

/-! ## New rows -/

theorem insertKeyspaceCatalogShard_evolves (h : m.Catalogs) (files : Table Nat KeyspaceFile) :
    Along (Evolves k) (insertKeyspaceCatalogShard files) m fun shard m' =>
      m'.keyspaceCatalogShards.lookup shard.shardId = some shard ∧ shard.files = files := by
  have hnew := h.shardIds m.nextKeyspaceCatalogShardId le_rfl
  have halloc : Evolves k m
      { m with nextKeyspaceCatalogShardId := m.nextKeyspaceCatalogShardId + 1 } := fun h =>
    ⟨⟨h.heads, h.roots, h.commits, fun id hid => h.shardIds id ((Nat.le_succ _).trans hid)⟩,
      Table.Extends.refl _, fun _ _ => rfl⟩
  refine Along.step rfl halloc (Along.check fun _ _ => ?_)
  refine Along.step rfl ?_ (Along.pure ⟨AList.lookup_insert _, rfl⟩)
  have hext : m.keyspaceCatalogShards.Extends (m.keyspaceCatalogShards.insert
      m.nextKeyspaceCatalogShardId ⟨m.nextKeyspaceCatalogShardId, files⟩) :=
    Table.extends_insert _ hnew
  refine fun h1 => ⟨⟨fun id head hid => (h.heads id head hid).extends hext,
    fun id root hid => (h.roots id root hid).extends hext,
    fun commit hmem => (h.commits commit hmem).extends hext, fun id hid => ?_⟩, hext, fun _ _ => rfl⟩
  have hne : id ≠ m.nextKeyspaceCatalogShardId := (Nat.lt_of_succ_le hid).ne'
  exact (AList.lookup_insert_ne hne).trans (h1.shardIds id hid)

theorem insertKeyspaceRoot_evolves (hc : Catalog m.keyspaceCatalogShards shardRoots fileCount) :
    Along (Evolves k) (insertKeyspaceRoot shardRoots fileCount) m fun root m' =>
      root.shardRoots = shardRoots ∧ root.fileCount = fileCount ∧ m'.keyspaceCatalogShards =
        m.keyspaceCatalogShards := by
  refine Along.step rfl evolves_beside ?_
  refine Along.check fun _ _ => Along.step rfl ?_ (Along.pure ⟨rfl, rfl, rfl⟩)
  refine fun h => ⟨⟨h.heads, fun id root hid => ?_, h.commits, h.shardIds⟩, Table.Extends.refl _,
    fun _ _ => rfl⟩
  simp only [Table.lookup_insert_eq] at hid
  split at hid
  · cases hid
    exact hc
  · exact h.roots id root hid

theorem keyspaceCatalogShardCount_eq : keyspaceCatalogShardCount = 256 := by
  rw [keyspaceCatalogShardCount]

def EmptyShard (m : MetadataInner) (shardId : Nat) : Prop :=
  shardId ∈ m.keyspaceCatalogShards ∧ shardFiles m.keyspaceCatalogShards shardId = ∅

theorem insertEmptyKeyspaceRoot_evolves (h : m.Catalogs) :
    Along (Evolves k) insertEmptyKeyspaceRoot m fun root m' =>
      Catalog m'.keyspaceCatalogShards root.shardRoots root.fileCount := by
  have hshards : Along (Evolves k) ((List.range keyspaceCatalogShardCount).mapM fun _ =>
      insertKeyspaceCatalogShard ∅) m fun shards m' =>
        List.Forall₂ (fun _ shard => m'.Catalogs ∧ EmptyShard m' (KeyspaceCatalogShard.shardId shard))
          (List.range keyspaceCatalogShardCount) shards := by
    refine Along.mapM (Q := fun _ shard m' => MetadataInner.Catalogs m' ∧
      EmptyShard m' (KeyspaceCatalogShard.shardId shard)) ?_ ?_
    · rintro _ shard m1 m2 hev ⟨h1, hmem, hfiles⟩
      obtain ⟨h2, hext, -⟩ := hev h1
      exact ⟨h2, mem_extends hext hmem, (shardFiles_extends hext hmem).trans hfiles⟩
    · intro _ _ m1 hev
      obtain ⟨h1, -⟩ := hev h
      refine (insertKeyspaceCatalogShard_evolves h1 ∅).mono ?_
      rintro shard m2 hev' ⟨hshard, hfiles⟩
      exact ⟨(hev' h1).1, Table.mem_iff_lookup.2 ⟨shard, hshard⟩,
        (shardFiles_of_lookup hshard).trans hfiles⟩
  refine hshards.bind fun shards m1 hev hall => ?_
  have hempty : ∀ shardId ∈ shards.map (·.shardId), EmptyShard m1 shardId := by
    intro shardId hmem
    obtain ⟨shard, hshard, rfl⟩ := List.mem_map.1 hmem
    obtain ⟨_, -, -, hs⟩ := forall₂_mem_right hall hshard
    exact hs
  have hcatalog : Catalog m1.keyspaceCatalogShards (shards.map (·.shardId)) 0 := by
    refine ⟨?_, fun shardId hmem => (hempty shardId hmem).1, ?_, ?_⟩
    · rw [List.length_map, ← hall.length_eq, List.length_range, keyspaceCatalogShardCount_eq]
    · intro i shardId hi fileId hfile
      rw [(hempty shardId (List.mem_of_getElem? hi)).2] at hfile
      cases hfile
    · refine (List.sum_eq_zero_iff_forall_eq_nat.2 fun n hn => ?_).symm
      obtain ⟨shardId, hmem, rfl⟩ := List.mem_map.1 hn
      rw [shardSize, (hempty shardId hmem).2]
      rfl
  refine (insertKeyspaceRoot_evolves hcatalog).mono ?_
  rintro root m2 - ⟨hroots, hcount, hsame⟩
  rw [hroots, hcount, hsame]
  exact hcatalog

/-! ## Changes of files -/

/-- What a change of a file makes of its catalog. -/
structure Replaces (shards : CatalogShards) (shardRoots : List Nat) (fileCount : Nat)
    (update : CatalogUpdate) : Prop where
  oldShard : shardRoots[update.shardIndex]? = some update.oldShard
  newShard : shards.lookup update.newShard.shardId = some update.newShard
  placed : ∀ fileId ∈ update.newShard.files, fileId % 256 = update.shardIndex
  counted : update.fileCount + shardSize shards update.oldShard =
    fileCount + update.newShard.files.keys.length

section

variable {shards : CatalogShards} {update : CatalogUpdate}

theorem Replaces.size (h : Replaces shards shardRoots fileCount update) :
    shardSize shards update.newShard.shardId = update.newShard.files.keys.length := by
  rw [shardSize, shardFiles_of_lookup h.newShard]

theorem Replaces.catalog (h : Replaces shards shardRoots fileCount update)
    (hc : Catalog shards shardRoots fileCount) :
    Catalog shards (shardRoots.set update.shardIndex update.newShard.shardId) update.fileCount := by
  refine hc.set h.oldShard (Table.mem_iff_lookup.2 ⟨_, h.newShard⟩) ?_ ?_
  · rw [shardFiles_of_lookup h.newShard]
    exact h.placed
  · rw [h.size]
    exact h.counted

theorem Replaces.commitFits (h : Replaces shards shardRoots fileCount update)
    (hc : Catalog shards shardRoots fileCount) {commit : KeyspaceCommit}
    (hindex : commit.shardIndex = update.shardIndex) (hold : commit.oldShard = update.oldShard)
    (hnew : commit.newShard = update.newShard.shardId) (holdCount : commit.oldFileCount = fileCount)
    (hnewCount : commit.newFileCount = update.fileCount) : CommitFits shards commit where
  oldShard := hold ▸ hc.stored _ (List.mem_of_getElem? h.oldShard)
  newShard := hnew ▸ Table.mem_iff_lookup.2 ⟨_, h.newShard⟩
  placed := by
    rw [hnew, hindex, shardFiles_of_lookup h.newShard]
    exact h.placed
  counted := by
    rw [hnewCount, hold, holdCount, hnew, h.size]
    exact h.counted

end

theorem length_keys_insert {files : Table Nat KeyspaceFile} {fileId : Nat} {entry : KeyspaceFile} :
    (files.insert fileId entry).keys.length =
      if fileId ∈ files then files.keys.length else files.keys.length + 1 := by
  rw [AList.keys_insert, List.length_cons]
  split
  · next hmem =>
    have hpos := List.length_pos_of_mem (AList.mem_keys.1 hmem)
    rw [List.length_erase_of_mem (AList.mem_keys.1 hmem)]
    omega
  · next hmem => rw [List.erase_of_not_mem fun hkey => hmem (AList.mem_keys.2 hkey)]

theorem updateKeyspaceFile_evolves (h : m.Catalogs)
    (hc : Catalog m.keyspaceCatalogShards shardRoots fileCount) (fileId : Nat) (entry : KeyspaceFile) :
    Along (Evolves k) (updateKeyspaceFile shardRoots fileCount fileId entry) m fun update m' =>
      Replaces m'.keyspaceCatalogShards shardRoots fileCount update ∧
        (fileId ∈ shardFiles m.keyspaceCatalogShards
          (shardRoots.getD (fileId % shardRoots.length) 0) → update.fileCount = fileCount) := by
  refine Along.check fun index hindex => Along.get ?_
  refine Along.check fun shard hshard => ?_
  refine (insertKeyspaceCatalogShard_evolves h _).bind fun newShard m1 hev hnew => ?_
  refine Along.check fun _ _ => Along.pure ?_
  obtain ⟨⟨⟩, -, hindex⟩ := bind_eq_ok.1 hindex
  cases hindex
  obtain ⟨hnew, hfiles⟩ := hnew
  have hstored := hc.index fileId
  have hmem := hc.stored _ (List.mem_of_getElem? hstored)
  have hold : shardFiles m.keyspaceCatalogShards _ = shard.files :=
    shardFiles_of_lookup (orFail_eq_ok.1 hshard)
  refine ⟨⟨?_, hnew, ?_, ?_⟩, ?_⟩
  · rw [hc.shardCount]
    rw [hc.shardCount] at hstored
    exact hstored
  · intro file hfile
    rw [hc.shardCount]
    change file ∈ newShard.files at hfile
    rw [hfiles, AList.mem_insert] at hfile
    obtain rfl | hfile := hfile
    · rfl
    · rw [← hold] at hfile
      exact hc.placed _ _ hstored file hfile
  · change (if fileId ∈ shard.files then fileCount else fileCount + 1) +
      shardSize m1.keyspaceCatalogShards _ = fileCount + newShard.files.keys.length
    rw [shardSize_extends (hev h).2.1 hmem, shardSize, hold, hfiles, length_keys_insert]
    split <;> omega
  · intro hfile
    rw [hold] at hfile
    exact if_pos hfile

theorem KeyspaceHead.withShard_catalog {shards : CatalogShards} {head' : KeyspaceHead}
    {commitSeq : Nat} {update : CatalogUpdate} (hc : Catalog shards head.shardRoots head.fileCount)
    (hupdate : Replaces shards head.shardRoots head.fileCount update)
    (h : head.withShard commitSeq update = .ok head') : Catalog shards head'.shardRoots head'.fileCount := by
  obtain ⟨⟨⟩, -, h⟩ := bind_eq_ok.1 h
  cases h
  exact hupdate.catalog hc

theorem mem_append_commit {commits : List KeyspaceCommit} {commit c : KeyspaceCommit}
    {shards : CatalogShards} (hfits : CommitFits shards c) (hmem : commit ∈ commits ++ [c]) :
    commit ∈ commits ∨ CommitFits shards commit := by
  obtain hmem | hmem := List.mem_append.1 hmem
  · exact .inl hmem
  · cases List.mem_singleton.1 hmem
    exact .inr hfits

/-! ## Requests on keyspaces -/

theorem createKeyspace_evolves (h : m.Catalogs) :
    Moves (Evolves (some m.nextKeyspaceId)) (createKeyspace config) m := by
  refine Along.check fun _ _ => ?_
  refine Along.step rfl evolves_beside ?_
  have h1 : MetadataInner.Catalogs { m with nextKeyspaceId := m.nextKeyspaceId + 1 } :=
    ⟨h.heads, h.roots, h.commits, h.shardIds⟩
  refine (insertEmptyKeyspaceRoot_evolves h1).bind fun root m1 _ hc => ?_
  refine Along.step run_modify (evolves_enter rfl rfl (Table.Extends.refl _) (fun h => h.shardIds)
    (fun _ hmem => .inl hmem) hc) ?_
  exact (along_evolves insertCheckpoint_sameFiles).thenPure

theorem createFile_evolves (h : m.Catalogs) (keyspaceId : Nat) (name : Option String) :
    Moves (Evolves (some keyspaceId)) (createFile config keyspaceId name) m := by
  refine Along.check fun _ _ => Along.get (Along.check fun head hhead => ?_)
  refine Along.step rfl evolves_beside ?_
  have h1 : MetadataInner.Catalogs { m with nextFileId := m.nextFileId + 1 } :=
    ⟨h.heads, h.roots, h.commits, h.shardIds⟩
  have hc1 := h1.heads keyspaceId head (orFail_eq_ok.1 hhead)
  refine (along_evolves (onNodes_sameFiles _)).bind fun root m2 hev2 _ => ?_
  refine alloc_evolves (hev2 h1).1 (hev2.catalog h1 hc1) fun commitSeq commitGroup m4 _ h4 hc4 => ?_
  refine Along.check fun _ _ => ?_
  refine (updateKeyspaceFile_evolves h4 hc4 _ _).bind fun update m5 hev5 hupdate => ?_
  have hc5 := hev5.catalog h4 hc4
  refine Along.check fun head' hhead' => ?_
  refine Along.step run_modify (evolves_enter rfl rfl (Table.Extends.refl _) (fun h => h.shardIds)
    (fun _ hmem => mem_append_commit ?_ hmem) ?_) (Along.pure trivial)
  · exact hupdate.1.commitFits hc5 rfl rfl rfl rfl rfl
  · exact KeyspaceHead.withShard_catalog hc5 hupdate.1 hhead'

theorem settle_evolves {fence : FileFence} {fileId newSize : Nat} :
    Evolves k m (fence.settle keyspaceId fileId newSize m) := by
  cases fence with
  | fileVersion version => exact refl m
  | appendStream streamId writerEpoch => exact evolves_beside

theorem publishFileRoot_evolves (h : m.Catalogs) (keyspaceId : Nat) (fence : FileFence)
    (fileId oldRoot newRoot newSize : Nat) : Moves (Evolves (some keyspaceId))
      (publishFileRoot config keyspaceId fence fileId oldRoot newRoot newSize) m := by
  refine Along.get (Along.check fun head hhead => Along.check fun entry _ => ?_)
  refine Along.check2 fun _ _ => Along.check2 fun _ node => ?_
  have hc := h.heads keyspaceId head (orFail_eq_ok.1 hhead)
  refine alloc_evolves h hc fun commitSeq commitGroup m2 _ h2 hc2 => ?_
  refine Along.check2 fun version _ => ?_
  refine (updateKeyspaceFile_evolves h2 hc2 _ _).bind fun update m3 hev3 hupdate => ?_
  have hc3 := hev3.catalog h2 hc2
  refine Along.check fun head' hhead' => ?_
  refine Along.step run_modify (evolves_enter rfl rfl (Table.Extends.refl _) (fun h => h.shardIds)
    (fun _ hmem => mem_append_commit ?_ hmem) ?_) ?_
  · exact hupdate.1.commitFits hc3 rfl rfl rfl rfl rfl
  · exact KeyspaceHead.withShard_catalog hc3 hupdate.1 hhead'
  · exact Along.step run_modify settle_evolves (Along.pure trivial)

theorem insertKeyspace_evolves (hc : Catalog m.keyspaceCatalogShards head.shardRoots head.fileCount) :
    Along (Evolves (some head.keyspaceId)) (insertKeyspace head) m fun _ m' =>
      m'.keyspaceHeads.lookup head.keyspaceId = some head := by
  refine (insertKeyspaceRoot_evolves hc).bind ?_
  rintro root m1 - ⟨-, -, hsame⟩
  refine Along.step run_modify (evolves_enter rfl rfl (Table.Extends.refl _) (fun h => h.shardIds)
    (fun _ hmem => .inl hmem) ?_) ?_
  · change Catalog m1.keyspaceCatalogShards _ _
    rw [hsame]
    exact hc
  · exact Along.step rfl (evolves_of_same rfl) (Along.pure (AList.lookup_insert _))

theorem snapshotTarget_evolves (target : Option Nat) :
    Along (Evolves k) (snapshotTarget target) m fun id m' => id = target.getD m.nextKeyspaceId ∧
      m'.keyspaceCatalogShards = m.keyspaceCatalogShards := by
  cases target with
  | none => exact ⟨evolves_beside, rfl, rfl⟩
  | some target =>
    refine Along.get (Along.check fun _ _ => ?_)
    refine Along.bind (P := fun _ m' => m'.keyspaceCatalogShards = m.keyspaceCatalogShards) ?_
      fun _ _ _ hsame => Along.pure ⟨rfl, hsame⟩
    refine Along.get ?_
    split
    · exact Along.check fun _ _ => ⟨evolves_beside, rfl⟩
    · exact Along.pure rfl

theorem enterCopy_evolves (hc : Catalog m.keyspaceCatalogShards shardRoots fileCount) (target : Nat) :
    Along (Evolves (some target)) (do
      let latestCommit ← allocCommitSeq
      let head : KeyspaceHead := ⟨target, 0, shardRoots, fileCount, latestCommit⟩
      insertKeyspace head
      return head) m fun head m' => head.keyspaceId = target ∧
        m'.keyspaceHeads.lookup target = some head ∧ head.shardRoots = shardRoots ∧
        head.fileCount = fileCount := by
  refine Along.bind (P := fun _ m' => m'.keyspaceCatalogShards = m.keyspaceCatalogShards) ?_ ?_
  · refine Along.get (Along.check fun _ _ => ?_)
    exact Along.step run_set (evolves_of_same rfl) (Along.pure rfl)
  · intro latestCommit m1 _ hsame
    have hc1 : Catalog m1.keyspaceCatalogShards shardRoots fileCount := by
      rw [hsame]
      exact hc
    let head : KeyspaceHead := ⟨target, 0, shardRoots, fileCount, latestCommit⟩
    have hhead : Catalog m1.keyspaceCatalogShards head.shardRoots head.fileCount := hc1
    exact (insertKeyspace_evolves hhead).bind fun _ m2 _ hlookup => Along.pure ⟨rfl, hlookup, rfl, rfl⟩

/-- The keyspace under `head` is a copy of the catalog. -/
def CopyOf (m' : MetadataInner) (head : KeyspaceHead) (shardRoots : List Nat) (fileCount : Nat) : Prop :=
  m'.keyspaceHeads.lookup head.keyspaceId = some head ∧ head.shardRoots = shardRoots ∧
    head.fileCount = fileCount

theorem snapshotKeyspace_evolves (h : m.Catalogs) (source : Nat) (target : Option Nat) :
    Along (Evolves (some (target.getD m.nextKeyspaceId))) (snapshotKeyspace source target) m
      fun head m' => ∃ sourceHead, m.keyspaceHeads.lookup source = some sourceHead ∧
        CopyOf m' head sourceHead.shardRoots sourceHead.fileCount := by
  refine Along.get (Along.check fun sourceHead hsource => ?_)
  have hhead := orFail_eq_ok.1 hsource
  refine (snapshotTarget_evolves target).bind ?_
  rintro id m1 - ⟨rfl, hsame⟩
  have hc : Catalog m1.keyspaceCatalogShards sourceHead.shardRoots sourceHead.fileCount := by
    rw [hsame]
    exact h.heads source sourceHead hhead
  refine (enterCopy_evolves hc _).mono ?_
  rintro head m2 - ⟨hid, hlookup, hroots, hcount⟩
  exact ⟨sourceHead, hhead, hid ▸ hlookup, hroots, hcount⟩

theorem MetadataInner.Catalogs.replay (h : m.Catalogs) {commitSeq : Nat} {root : KeyspaceRoot}
    (hreplay : m.replayKeyspaceRoot keyspaceId commitSeq = .ok root) :
    Catalog m.keyspaceCatalogShards root.shardRoots root.fileCount := by
  obtain ⟨checkpoint, -, rootId, -, first, hfirst, hreplay⟩ := bind3_eq_ok.1 hreplay
  obtain ⟨catalog, hcatalog, hroot⟩ := bind_eq_ok.1 hreplay
  cases hroot
  refine foldlM_invariant (fun catalog => Catalog m.keyspaceCatalogShards catalog.1 catalog.2) hcatalog
    (h.roots _ first (orFail_eq_ok.1 hfirst)) fun catalog commit catalog' hmem hc hstep => ?_
  refine hc.replay (h.commits commit ?_) hstep
  have hmem := List.mem_of_mem_filter hmem
  rw [keyspaceCommitsForKeyspace, List.mem_insertionSort] at hmem
  exact List.mem_of_mem_filter hmem

theorem MetadataInner.Catalogs.restored (h : m.Catalogs) {source : Nat} {point : RestorePoint}
    {root : KeyspaceRoot} (hroot : m.keyspaceRootForRestore source point = .ok root) :
    Catalog m.keyspaceCatalogShards root.shardRoots root.fileCount := by
  cases point with
  | commit commitSeq =>
    obtain ⟨⟨⟩, -, hreplay⟩ := bind_eq_ok.1 hroot
    exact h.replay hreplay
  | checkpoint checkpointId =>
    obtain ⟨checkpoint, -, hrest⟩ := bind_eq_ok.1 hroot
    obtain ⟨⟨⟩, -, hrest⟩ := bind_eq_ok.1 hrest
    obtain ⟨rootId, -, hrow⟩ := bind_eq_ok.1 hrest
    exact h.roots rootId root (orFail_eq_ok.1 hrow)
  | time time =>
    obtain ⟨commitSeq, -, hreplay⟩ := bind_eq_ok.1 hroot
    exact h.replay hreplay

theorem restoreKeyspace_evolves (h : m.Catalogs) (source : Nat) (point : RestorePoint) :
    Along (Evolves (some m.nextKeyspaceId)) (restoreKeyspace source point) m fun head m' =>
      ∃ root, m.keyspaceRootForRestore source point = .ok root ∧
        CopyOf m' head root.shardRoots root.fileCount := by
  refine Along.get (Along.check fun _ _ => Along.check fun root hroot => ?_)
  refine Along.step rfl evolves_beside ?_
  refine Along.mono (enterCopy_evolves ?_ _) ?_
  · exact h.restored hroot
  · rintro head m2 - ⟨hid, hlookup, hroots, hcount⟩
    exact ⟨root, hroot, hid ▸ hlookup, hroots, hcount⟩

theorem checkpointKeyspace_evolves (h : m.Catalogs) (keyspaceId : Nat) :
    Moves (Evolves k) (checkpointKeyspace keyspaceId) m := by
  refine Along.get (Along.check fun head hhead => ?_)
  refine (insertKeyspaceRoot_evolves (h.heads keyspaceId head (orFail_eq_ok.1 hhead))).bind ?_
  exact fun _ _ _ _ => (along_evolves insertCheckpoint_sameFiles)

end CowStore.Local
