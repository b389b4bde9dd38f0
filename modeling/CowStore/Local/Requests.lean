import CowStore.Local.Publish

/-!
# Requests on whole devices

Creating, forking, restoring and deleting a device, and keeping a checkpoint of it, each
against the flat devices.  A request that fails may leave nodes that nothing refers to,
and counters that have moved on, but no device has changed.
-/

namespace CowStore.Local

open Lib Object Tree StorageError

variable {crc : List UInt8 → Nat} {config : LocalStoreConfig} {w n : Nat} {s s' : Coordinator}
  {flat : Flat} {history : History}

/-! ## Creating -/

def MetadataInner.AddsNodes (m m' : MetadataInner) : Prop :=
  ∃ nodes, m' = { m with nodes } ∧ m.nodes.Grows nodes

instance : Std.Refl MetadataInner.AddsNodes := ⟨fun m => ⟨m.nodes, rfl, refl _⟩⟩

instance : IsTrans MetadataInner MetadataInner.AddsNodes := by
  refine ⟨?_⟩
  rintro m _ _ ⟨nodes, rfl, h⟩ ⟨nodes', rfl, h'⟩
  exact ⟨nodes', rfl, IsTrans.trans _ _ _ h h'⟩

/-- A new empty tree.  The recursion ends before its depth bound.  The leaves of what it returns
tile the range, each one with a block and at most `metadataLeafBlocks`; every other node has
from two to `metadataFanout` children that tile it; and there are at most as many levels as
halving the range takes. -/
theorem createEmptyTree_balanced (hconfig : config.validate = .ok ()) (range : BlockRange)
    {nodes : NodeStore} (hnodes : nodes.Fresh) :
    (∀ nodes', createEmptyTree config.metadataFanout config.metadataLeafBlocks range nodes ≠
      .error (corrupt "metadata tree is too deep") nodes') ∧
    ∀ root nodes',
      createEmptyTree config.metadataFanout config.metadataLeafBlocks range nodes = .ok root nodes' →
      ∃ t, Rep nodes'.metadataNodes t root ∧ t.range = range ∧
        Tiles range.stop range.start t.leafRanges ∧
        (∀ leaf ∈ t.leafRanges, 0 < leaf.blocks ∧ leaf.blocks ≤ config.metadataLeafBlocks) ∧
        t.Bounded config.metadataFanout config.metadataLeafBlocks ∧
        t.levels ≤ 1 + Nat.clog 2 range.blocks := by
  obtain ⟨-, -, -, hfanout, hleaf⟩ := LocalStoreConfig.validate_eq_ok hconfig
  refine ⟨createEmptyTreeWithin_spares hfanout hleaf (Nat.lt_succ_self _) nodes, ?_⟩
  intro root nodes' h
  obtain ⟨-, t, hrep, hempty, hbounded, hlevels⟩ := wp_of_ok
    (createEmptyTreeWithin_along config.blockSize hfanout hleaf (range.blocks + 1) hnodes range) h
  obtain ⟨htiles, hleaves⟩ := hbounded.leaves
  rw [hempty.range_eq] at htiles hlevels
  exact ⟨t, hrep, hempty.range_eq, htiles, hleaves, hbounded, hlevels⟩

/-- Three blocks with leaves of one block: a root above a leaf and a node with two leaves. -/
theorem createEmptyTree_balanced_three :
    let nodes : NodeStore := ⟨1, ∅⟩
    output (createEmptyTree 2 1 ⟨0, 3⟩) nodes = some 5 ∧
    ∀ root nodes', createEmptyTree 2 1 ⟨0, 3⟩ nodes = .ok root nodes' →
      ∃ t, Rep nodes'.metadataNodes t root ∧ t.range = ⟨0, 3⟩ ∧ Tiles 3 0 t.leafRanges ∧
        (∀ leaf ∈ t.leafRanges, 0 < leaf.blocks ∧ leaf.blocks ≤ 1) ∧
        t.Bounded 2 1 ∧ t.levels ≤ 1 + Nat.clog 2 3 := by
  have hconfig : LocalStoreConfig.validate ⟨1, 1, 1, 2, 1, 0, 1, none⟩ = .ok () := by decide
  exact ⟨by decide, (createEmptyTree_balanced hconfig ⟨0, 3⟩ fun _ _ => rfl).2⟩

def shardBound (config : LocalStoreConfig) (logicalBlocks shard : Nat) : Nat :=
  logicalBlocks * shard / config.shardCount

def NewShard (w : Nat) (config : LocalStoreConfig) (logicalBlocks : Nat) (nodes : NodeStore)
    (shard root : Nat) : Prop :=
  logicalBlocks * (shard + 1) < u64Bound ∧ ∃ t, Rep nodes.metadataNodes t root ∧
    t.Empty w ⟨shardBound config logicalBlocks shard, shardBound config logicalBlocks (shard + 1) -
      shardBound config logicalBlocks shard⟩

theorem createShard_along (hconfig : config.validate = .ok ()) {m : MetadataInner}
    (hm : m.nodes.Fresh) (w logicalBlocks shard : Nat) :
    Along MetadataInner.AddsNodes (createShard config logicalBlocks shard) m fun root m' =>
      NewShard w config logicalBlocks m'.nodes shard root := by
  obtain ⟨-, -, -, hfanout, hleaf⟩ := LocalStoreConfig.validate_eq_ok hconfig
  rw [createShard]
  refine Along.check fun start hstart => Along.check fun stop hstop => ?_
  obtain ⟨rfl, -⟩ := checkedMul_eq_ok hstart
  obtain ⟨rfl, hlt⟩ := checkedMul_eq_ok hstop
  refine (Along.zoom (createEmptyTreeWithin_along w hfanout hleaf _ hm _) fun nodes h =>
    ⟨nodes, rfl, h⟩).mono ?_
  rintro root _ - ⟨nodes, rfl, -, t, hrep, ht, -⟩
  exact ⟨hlt, t, hrep, ht⟩

theorem createShards_along (hconfig : config.validate = .ok ()) {m : MetadataInner}
    (hm : m.nodes.Fresh) (w logicalBlocks : Nat) (shards : List Nat) :
    Along MetadataInner.AddsNodes (shards.mapM (createShard config logicalBlocks)) m fun roots m' =>
      List.Forall₂ (NewShard w config logicalBlocks m'.nodes) shards roots := by
  refine Along.mapM (Q := fun shard root (m' : MetadataInner) =>
    NewShard w config logicalBlocks m'.nodes shard root) ?_ ?_
  · rintro shard root m1 _ ⟨nodes, rfl, hgrow⟩ ⟨hlt, t, hrep, ht⟩
    exact ⟨hlt, t, hrep.mono hgrow.nodes, ht⟩
  · rintro shard - _ ⟨nodes, rfl, hgrow⟩
    exact createShard_along hconfig (hgrow.fresh hm) w logicalBlocks shard

theorem holdsTree_of_empty {nodes : NodeStore} {segments : StorageNodes} {spec : DeviceSpec}
    (hcount : 0 < config.shardCount) (hle : config.shardCount ≤ spec.logicalBlocks) {roots : List Nat}
    (h : List.Forall₂ (NewShard w config spec.logicalBlocks nodes) (List.range config.shardCount) roots) :
    ∃ shards, HoldsTree crc w config.shardCount nodes segments spec roots shards
      (List.replicate (spec.logicalBlocks * spec.blockSize) 0) := by
  obtain ⟨_, -, hlt, -⟩ := forall₂_mem_left h
    (List.mem_range.2 (Nat.sub_lt hcount Nat.one_pos) : config.shardCount - 1 ∈ _)
  rw [Nat.sub_add_cancel hcount] at hlt
  obtain ⟨shards, hempty, hrep⟩ := exists_forall₂_between (h.imp fun _ _ h =>
    h.2.imp fun _ => And.symm)
  have hranges : shards.map MappingTree.range = shareRanges ⟨0, spec.logicalBlocks⟩ config.shardCount := by
    rw [shareRanges, ← List.forall₂_eq_eq_eq, List.forall₂_map_left_iff, List.forall₂_map_right_iff]
    refine hempty.imp fun _ _ h => h.range_eq.trans ?_
    rw [Nat.zero_add]
    rfl
  have htiles := tiles_shareRanges ⟨0, spec.logicalBlocks⟩ hcount hle
  have hall : ∀ t ∈ shards, ∃ r, t.Empty w r := fun t ht => by
    obtain ⟨k, -, h⟩ := forall₂_mem_left hempty ht
    exact ⟨_, h⟩
  refine ⟨shards, hrep, ⟨⟨?_, hcount.trans_le hle⟩, hranges ▸ htiles,
    MappingTree.shapedAll_iff.2 fun t ht => ?_⟩, ?_, List.length_replicate,
    ⟨hcount, hle, hlt, hranges⟩⟩
  · show 0 + spec.logicalBlocks < u64Bound
    have hmul := Nat.le_mul_of_pos_right spec.logicalBlocks hcount
    omega
  · exact (hall t ht).elim fun _ h => h.shaped
  · intro i hi
    have hcell : (deviceTree spec.logicalBlocks shards).cell i = none := by
      have hnil : (deviceTree spec.logicalBlocks shards).entries = [] :=
        (MappingTree.entriesAll_eq shards).trans (List.flatMap_eq_nil_iff.2 fun t ht =>
          (hall t ht).elim fun _ h => h.entries)
      rw [MappingTree.cell, hnil]
      rfl
    rw [hcell]
    intro j hj
    show (List.replicate _ 0).getD _ 0 = 0
    rw [List.getD_eq_getElem?_getD, List.getElem?_replicate]
    split <;> rfl

theorem Inv.nextDeviceId_new (hinv : Inv crc w n s flat history) :
    flat.devices s.metadata.nextDeviceId = none := by
  cases hd : flat.devices s.metadata.nextDeviceId with
  | none => rfl
  | some d => exact absurd (hinv.devices _ d hd).id_lt (Nat.lt_irrefl _)

theorem createDevice_wp (hinv : Inv crc config.blockSize config.shardCount s flat history) (spec : DeviceSpec) :
    wp (onMetadata (createDevice config spec)) (fun head s' => ∃ history',
      Inv crc config.blockSize config.shardCount s' (flat.addDevice head.deviceId head.latestCommit spec
        (List.replicate (spec.logicalBlocks * spec.blockSize) 0)) history')
      (fun s' => Inv crc config.blockSize config.shardCount s' flat history) s := by
  refine wp_zoom.2 ?_
  rw [createDevice]
  refine wp_check hinv fun _ hconfig => wp_check hinv fun _ hspec => wp_check hinv fun _ hle => ?_
  obtain ⟨hcount, hw, -⟩ := LocalStoreConfig.validate_eq_ok hconfig
  obtain ⟨-, hbs⟩ := DeviceSpec.validate_eq_ok hspec
  refine wp_step rfl ?_
  have hgrows : ∀ nodes, s.metadata.nodes.Grows nodes → Coordinator.Grows crc s { s with
      metadata := { s.metadata with nextDeviceId := s.metadata.nextDeviceId + 1, nodes } } :=
    fun nodes h => ⟨h, refl _, rfl, Nat.le_succ _, le_rfl⟩
  refine Along.thenWp (createShards_along hconfig ?_ config.blockSize spec.logicalBlocks _) ?_ ?_
  · exact hinv.nodes
  · rintro roots _ ⟨nodes, rfl, hgrow⟩ hroots
    have hinv' := hinv.grows (hgrows nodes hgrow)
    refine wp_check hinv' fun _ _ => ?_
    obtain ⟨shards, hholds⟩ := holdsTree_of_empty hcount (Nat.le_of_not_lt (failIf_eq_ok.1 hle)) hroots
    have hinsert := hinv'.insertDevice hw spec hbs ⟨_, 0, roots, 0⟩ hinv.nextDeviceId_new (Nat.lt_succ_self _)
      hinv.nextCommitSeq_pos hinv.nextCommitSeq_pos hholds
    rw [wp_bind]
    exact wp_mono hinsert (fun _ _ h => ⟨_, h⟩) fun _ h => h.elim
  · rintro _ ⟨nodes, rfl, hgrow⟩
    exact hinv.grows (hgrows nodes hgrow)

/-! ## Forking -/

theorem forkTarget_wp (hinv : Inv crc w n s flat history) (target : Option Nat) :
    wp (forkTarget target) (fun id m => flat.devices id = none ∧ id < m.nextDeviceId ∧
      ∃ next, s.metadata.nextDeviceId ≤ next ∧ m = { s.metadata with nextDeviceId := next })
      (· = s.metadata) s.metadata := by
  unfold forkTarget
  cases target with
  | none => exact ⟨hinv.nextDeviceId_new, Nat.lt_succ_self _, _, Nat.le_succ _, rfl⟩
  | some target =>
    refine wp_step run_get (wp_check rfl fun _ hfree => ?_)
    have hfree : ¬ (target ∈ s.metadata.deviceHeads ∨ target ∈ s.metadata.deletedDeviceHeads) :=
      failIf_eq_ok.1 hfree
    have hnew : flat.devices target = none := by
      cases hd : flat.devices target with
      | none => rfl
      | some d => exact absurd (hinv.devices target d hd).known hfree
    rw [wp_bind, reserveDeviceIdAtLeastAfter]
    refine wp_step run_get ?_
    split
    · next hge => exact wp_check rfl fun _ _ => ⟨hnew, Nat.lt_succ_self _, _, Nat.le_succ_of_le hge, rfl⟩
    · next hlt => exact ⟨hnew, Nat.lt_of_not_le hlt, _, le_rfl, rfl⟩

theorem forkDevice_wp (hinv : Inv crc w n s flat history) (source : Nat) (target : Option Nat) :
    wp (onMetadata (forkDevice config source target)) (fun head s' => ∃ d history',
      flat.devices source = some d ∧
      Inv crc w n s' (flat.addDevice head.deviceId head.latestCommit d.spec d.bytes) history')
      (fun s' => Inv crc w n s' flat history) s := by
  refine wp_zoom.2 ?_
  rw [forkDevice]
  refine wp_step run_get (wp_check hinv fun sourceHead hhead => ?_)
  have hhead := orFail_eq_ok.1 hhead
  obtain ⟨d, hd⟩ := hinv.exists_device hhead
  have hdev := hinv.devices source d hd
  obtain ⟨-, hholds⟩ := hdev.holds hhead
  refine wp_check hinv fun spec hspec => ?_
  cases hdev.spec.symm.trans (orFail_eq_ok.1 hspec)
  rw [wp_bind]
  refine wp_mono (forkTarget_wp hinv target) ?_ fun _ h => h ▸ hinv
  rintro id _ ⟨hnew, hid, next, hnext, rfl⟩
  have hgrows : ∀ commitSeq forkRecords, s.metadata.nextCommitSeq ≤ commitSeq →
      Inv crc w n { s with
        metadata := { s.metadata with
          nextDeviceId := next, nextCommitSeq := commitSeq, forkRecords } } flat history :=
    fun _ _ h => hinv.grows ⟨refl _, refl _, rfl, hnext, h⟩
  rw [wp_bind]
  refine wp_mono (allocCommitSeq_wp _) ?_ fun _ h => h ▸ hgrows _ _ le_rfl
  rintro _ _ ⟨rfl, -, rfl⟩
  refine wp_check (hgrows _ _ (Nat.le_succ _)) fun _ _ => wp_step rfl ?_
  rw [wp_bind]
  refine wp_mono ((hgrows (s.metadata.nextCommitSeq + 1) _ (Nat.le_succ _)).insertDevice
    hdev.width_pos d.spec hdev.blockSize_pos ⟨id, 0, sourceHead.shardRoots, s.metadata.nextCommitSeq⟩ hnew hid
    (Nat.lt_succ_self _) (Nat.succ_pos _) hholds) (fun _ _ h => ⟨d, _, hd, h⟩) fun _ h => h.elim

/-! ## Restoring -/

theorem restoreDevice_wp (hinv : Inv crc w n s flat history) (source : Nat) (point : RestorePoint) :
    wp (onMetadata (restoreDevice config source point)) (fun head s' => ∃ d chosen history',
      flat.devices source = some d ∧ flat.chosenCommit point = some chosen ∧
      Inv crc w n s' (flat.addDevice head.deviceId head.latestCommit d.spec
        ((d.bytesAt chosen).getD [])) history') (fun s' => Inv crc w n s' flat history) s := by
  refine wp_zoom.2 ?_
  rw [restoreDevice]
  refine wp_step run_get (wp_check hinv fun spec hspec => ?_)
  have hspec := orFail_eq_ok.1 hspec
  obtain ⟨d, hd⟩ : ∃ d, flat.devices source = some d := by
    cases hd : flat.devices source with
    | none => cases (hinv.absent source hd).spec.symm.trans hspec
    | some d => exact ⟨d, rfl⟩
  have hdev := hinv.devices source d hd
  cases hdev.spec.symm.trans hspec
  refine wp_check hinv fun commitSeq htarget => wp_check hinv fun roots hreplay => ?_
  obtain ⟨birth, first, htime⟩ := hdev.timeline
  obtain ⟨hbirth, hroots⟩ := htime.replay hreplay
  obtain ⟨chosen, hchosen, hle, hquiet⟩ := hinv.chosenCommit htime htarget hbirth
  obtain ⟨roots', bytes, hroots', hbytes, hholds⟩ := htime.holds commitSeq hbirth
  cases hroots.symm.trans hroots'
  have hcontent : (d.bytesAt chosen).getD [] = bytes := by
    rw [htime.bytesAt_of_quiet hle hbirth hquiet, hbytes]
    rfl
  refine wp_check hinv fun _ _ => wp_step rfl ?_
  have hgrows : ∀ seq, s.metadata.nextCommitSeq ≤ seq → Inv crc w n { s with
      metadata := { s.metadata with
        nextDeviceId := s.metadata.nextDeviceId + 1, nextCommitSeq := seq } } flat history :=
    fun _ h => hinv.grows ⟨refl _, refl _, rfl, Nat.le_succ _, h⟩
  rw [wp_bind]
  refine wp_mono (allocCommitSeq_wp _) ?_ fun _ h => h ▸ hgrows _ le_rfl
  rintro _ _ ⟨rfl, -, rfl⟩
  refine wp_check (hgrows _ (Nat.le_succ _)) fun _ _ => ?_
  rw [wp_bind]
  refine wp_mono ((hgrows (s.metadata.nextCommitSeq + 1) (Nat.le_succ _)).insertDevice
    hdev.width_pos d.spec hdev.blockSize_pos ⟨s.metadata.nextDeviceId, 0, roots, s.metadata.nextCommitSeq⟩
    hinv.nextDeviceId_new (Nat.lt_succ_self _) (Nat.lt_succ_self _) (Nat.succ_pos _) hholds)
    (fun _ _ h => ?_) fun _ h => h.elim
  exact ⟨d, chosen, _, hd, hchosen, hcontent ▸ h⟩

/-! ## Deleting -/

theorem deleteDevice_wp (hinv : Inv crc w n s flat history) (deviceId : Nat) :
    wp (onMetadata (deleteDevice deviceId)) (fun _ s' => ∃ d, flat.devices deviceId = some d ∧
      Inv crc w n s' (flat.setDevice deviceId { d with live := false }) history)
      (fun s' => Inv crc w n s' flat history) s := by
  refine wp_zoom.2 ?_
  rw [deleteDevice]
  refine wp_step run_get (wp_check hinv fun head hhead => ?_)
  have hhead := orFail_eq_ok.1 hhead
  obtain ⟨d, hd⟩ := hinv.exists_device hhead
  have hdev := hinv.devices deviceId d hd
  rw [wp_bind]
  refine wp_mono (allocCommitSeq_wp _) ?_ fun _ h => h ▸ hinv
  rintro _ _ ⟨rfl, -, rfl⟩
  refine wp_step rfl ⟨d, hd, ?_⟩
  have hgone : deviceId ∉ s.metadata.deviceHeads.erase deviceId := fun h => (AList.mem_erase.1 h).1 rfl
  refine hinv.change (refl _) (refl _) (Nat.le_succ _)
    (fun id (hne : id ≠ deviceId) => ?_) (fun _ _ => rfl) (fun id hne => if_neg hne) (if_pos rfl) ?_
    hinv.checkpoints hinv.nextCheckpoint hinv.checkpointIds
  · exact ⟨refl _, refl _, le_rfl, Nat.le_succ _, rfl, AList.lookup_erase_ne hne,
      fun h => (AList.mem_insert _).2 (.inr h), rfl, fun _ _ => Iff.rfl⟩
  · obtain ⟨birth, first, htime⟩ := hdev.timeline
    refine ⟨hdev.width_pos, hdev.blockSize_pos, hdev.spec, hdev.id_lt, .inr ((AList.mem_insert _).2 (.inl rfl)),
      iff_of_false Bool.false_ne_true hgone, birth, first, ?_⟩
    refine ⟨htime.sorted, htime.log, htime.birth_le, Nat.lt_succ_of_lt htime.commit_lt,
      htime.versions, htime.checkpoints, htime.holds, fun head' hlookup => ?_⟩
    exact absurd (Table.mem_iff_lookup.2 ⟨head', hlookup⟩) hgone

/-! ## Checkpoints -/

theorem checkpoint_wp (hinv : Inv crc w n s flat history) (deviceId : Nat) :
    wp (onMetadata (checkpoint deviceId)) (fun _ s' => ∃ d, flat.devices deviceId = some d ∧
      Inv crc w n s' (flat.addCheckpoint deviceId d.commit) history)
      (fun s' => Inv crc w n s' flat history) s := by
  refine wp_zoom.2 ?_
  rw [checkpoint]
  refine wp_step run_get (wp_check hinv fun head hhead => ?_)
  have hhead := orFail_eq_ok.1 hhead
  obtain ⟨d, hd⟩ := hinv.exists_device hhead
  have hdev := hinv.devices deviceId d hd
  obtain ⟨birth, first, htime⟩ := hdev.timeline
  obtain ⟨hcommit, -, hroots⟩ := htime.head head hhead
  have hof : ∀ id k checkpoint, (s.metadata.withCheckpoint deviceId head.latestCommit
      head.shardRoots).CheckpointOf id k checkpoint ↔ _ :=
    hinv.checkpointOf_withCheckpoint rfl rfl head.latestCommit head.shardRoots
  refine wp_step rfl ⟨d, hd, ?_⟩
  rw [← hcommit]
  refine hinv.change (refl _) (refl _) le_rfl
    (fun id (hne : id ≠ deviceId) => ?_) (fun _ _ => rfl) (fun _ _ => rfl) hd ?_
    (hinv.checkpoints_withCheckpoint rfl rfl _ _) (congrArg (· + 1) hinv.nextCheckpoint)
    (hinv.checkpointIds_withCheckpoint rfl rfl _ _)
  · refine ⟨refl _, refl _, le_rfl, le_rfl, rfl, rfl, fun h => h, rfl,
      fun k checkpoint => (hof id k checkpoint).trans ?_⟩
    exact or_iff_right fun h => hne h.1
  · refine ⟨hdev.width_pos, hdev.blockSize_pos, hdev.spec, hdev.id_lt, hdev.known, hdev.live, birth, first, ?_⟩
    refine ⟨htime.sorted, htime.log, htime.birth_le, htime.commit_lt, htime.versions,
      fun k checkpoint hc => ?_, htime.holds, htime.head⟩
    obtain ⟨-, -, rfl⟩ | hc := (hof deviceId k checkpoint).1 hc
    · rw [hcommit]
      exact ⟨⟨⟨htime.birth_le, le_rfl⟩, rfl⟩, _, rfl, hroots⟩
    · exact htime.checkpoints k checkpoint hc

end CowStore.Local
