import CowStore.Local.Refine

/-!
# Changes of a device

A device is new, its roots are replaced by a commit, or its present roots are kept as a
checkpoint.  Each of these adds to the timeline of one device and spares all the others.
-/

namespace CowStore.Local

open Lib Object Tree

theorem allocCommitSeq_wp (m : MetadataInner) :
    wp allocCommitSeq (fun commitSeq m' => commitSeq = m.nextCommitSeq ∧
      m.nextCommitSeq + 1 < u64Bound ∧ m' = { m with nextCommitSeq := m.nextCommitSeq + 1 })
      (· = m) m := by
  rw [allocCommitSeq]
  refine wp_step run_get (wp_check rfl fun _ hfits => ?_)
  exact ⟨rfl, Nat.not_le.1 (failIf_eq_ok.1 hfits), rfl⟩

/-! ## Commits -/

namespace MetadataInner

def published (m : MetadataInner) (deviceId : Nat) (current : DeviceHead)
    (updates : List RootUpdate) (nextRoots : List Nat) : MetadataInner :=
  { m with
    nextCommitSeq := m.nextCommitSeq + 1
    nextCommitGroupId := m.nextCommitGroupId + 1
    shardCommits := m.shardCommits ++
      updates.filterMap (shardCommitOf deviceId m.nextCommitSeq m.nextCommitGroupId)
    deviceHeads := m.deviceHeads.insert deviceId
      { current with
        generation := current.generation + 1
        latestCommit := m.nextCommitSeq
        shardRoots := nextRoots }
    commitGroups := m.commitGroups.insert m.nextCommitGroupId
      ⟨m.nextCommitGroupId, m.nextCommitSeq, .blockDevice deviceId, updates⟩ }

end MetadataInner

/-- A commit is made as a whole, or nothing is changed. -/
theorem publishShardRoots_wp {m : MetadataInner} {deviceId : Nat} {updates : List RootUpdate}
    (hgen : ∀ head, m.deviceHeads.lookup deviceId = some head → head.generation < m.nextCommitSeq) :
    wp (publishShardRoots deviceId updates) (fun group m' => ∃ current nextRoots,
      m.deviceHeads.lookup deviceId = some current ∧ updates ≠ [] ∧
      updates.foldlM (applyShardUpdate m.nodes) current.shardRoots = .ok nextRoots ∧
      group.commitSeq = m.nextCommitSeq ∧ m' = m.published deviceId current updates nextRoots) (· = m) m := by
  rw [publishShardRoots]
  refine wp_step run_get (wp_check rfl fun current hcurrent => ?_)
  refine wp_check rfl fun _ hne => wp_check rfl fun nextRoots hroots => ?_
  have hcurrent := orFail_eq_ok.1 hcurrent
  rw [wp_bind]
  refine wp_mono (allocCommitSeq_wp m) ?_ fun _ h => h
  rintro _ _ ⟨rfl, hfits, rfl⟩
  refine wp_step rfl (wp_step rfl ?_)
  have hlt : ¬ current.generation + 1 ≥ u64Bound := by
    have := hgen current hcurrent
    omega
  refine wp_bind.2 (wp_lift (fun _ _ => ?_) fun _ herr => ?_)
  · exact wp_step rfl ⟨current, nextRoots, hcurrent, failIf_eq_ok.1 hne, hroots, rfl, rfl⟩
  · rw [failIf, if_neg hlt] at herr
    cases herr

namespace EditedShard

def blockUpdate (shard : EditedShard) : RootUpdate :=
  .blockShard shard.shardId shard.oldRoot shard.root

def commit (deviceId commitSeq commitGroup : Nat) (shard : EditedShard) : ShardCommit :=
  ⟨commitSeq, commitGroup, commitSeq, deviceId, shard.shardId, shard.oldRoot, shard.root⟩

end EditedShard

section

variable {nodes : NodeStore} {changed : List EditedShard} {roots out : List Nat}

theorem applyShardUpdate_eq_ok {shard : EditedShard}
    (h : applyShardUpdate nodes roots shard.blockUpdate = .ok out) :
    (shard.shardId < roots.length ∧ roots[shard.shardId]? = some shard.oldRoot) ∧
      out = roots.set shard.shardId shard.root := by
  obtain ⟨⟨⟩, hin, ⟨⟩, hold, ⟨⟩, -, h⟩ := bind3_eq_ok.1 h
  cases h
  exact ⟨⟨Nat.not_le.1 (failIf_eq_ok.1 hin), not_not.1 (failIf_eq_ok.1 hold)⟩, rfl⟩

theorem setAll_of_apply
    (h : (changed.map EditedShard.blockUpdate).foldlM (applyShardUpdate nodes) roots = .ok out) :
    out = setAll roots (changed.map fun shard => (shard.shardId, shard.root)) := by
  induction changed generalizing roots with
  | nil =>
    cases h
    rfl
  | cons shard changed ih =>
    rw [List.map_cons, List.foldlM_cons] at h
    obtain ⟨next, hnext, h⟩ := bind_eq_ok.1 h
    obtain ⟨-, rfl⟩ := applyShardUpdate_eq_ok hnext
    exact ih h

theorem replay_of_apply {deviceId commitSeq commitGroup : Nat}
    (h : (changed.map EditedShard.blockUpdate).foldlM (applyShardUpdate nodes) roots = .ok out) :
    (changed.map (EditedShard.commit deviceId commitSeq commitGroup)).foldlM replayShardCommit roots =
      .ok out := by
  induction changed generalizing roots with
  | nil => exact h
  | cons shard changed ih =>
    rw [List.map_cons, List.foldlM_cons] at h ⊢
    obtain ⟨next, hnext, h⟩ := bind_eq_ok.1 h
    obtain ⟨⟨hin, hold⟩, rfl⟩ := applyShardUpdate_eq_ok hnext
    refine bind_eq_ok.2 ⟨_, ?_, ih h⟩
    rw [replayShardCommit, EditedShard.commit, failIf, if_neg (Nat.not_le.2 hin), ok_bind, failIf,
      if_neg (not_not.2 hold)]
    rfl

end

theorem filterMap_shardCommitOf (deviceId commitSeq commitGroup : Nat) (changed : List EditedShard) :
    (changed.map EditedShard.blockUpdate).filterMap (shardCommitOf deviceId commitSeq commitGroup) =
      changed.map (EditedShard.commit deviceId commitSeq commitGroup) := by
  rw [List.filterMap_map]
  exact congrFun (List.filterMap_eq_map (f := EditedShard.commit deviceId commitSeq commitGroup)) changed

variable {crc : List UInt8 → Nat} {w n : Nat} {s s' : Coordinator} {flat : Flat} {history : History}
  {deviceId : Nat} {d : FlatDevice}

def History.set (history : History) (deviceId commitSeq : Nat) (shards : List MappingTree) :
    History :=
  fun id t => if id = deviceId ∧ commitSeq ≤ t then shards else history id t

theorem History.set_of_ne {id : Nat} (hne : id ≠ deviceId) (commitSeq : Nat)
    (shards : List MappingTree) : history.set deviceId commitSeq shards id = history id := by
  funext t
  exact if_neg fun h => hne h.1

/-- What a commit adds to the log of a device whose last commit was `last`. -/
structure Commits (last commitSeq : Nat) (new : List ShardCommit) : Prop where
  made : ∀ c ∈ new, c.commitSeq = commitSeq ∧ c.time = commitSeq
  sorted : new.Pairwise fun a b => a.shardId ≤ b.shardId
  later : new ≠ [] → last < commitSeq
  idle : new = [] → commitSeq = last

variable {shards : List MappingTree} {bytes : List UInt8}

theorem DeviceTimeline.push {birth : Nat} {first : List Nat}
    (h : DeviceTimeline crc w n s history deviceId d birth first) {commitSeq : Nat}
    {new : List ShardCommit} (hnew : Commits d.commit commitSeq new)
    (hlog : s'.metadata.deviceLog deviceId = s.metadata.deviceLog deviceId ++ new)
    (hcheckpoints : ∀ id checkpoint, s'.metadata.CheckpointOf deviceId id checkpoint ↔
      s.metadata.CheckpointOf deviceId id checkpoint) (hnodes : s.metadata.nodes.Grows s'.metadata.nodes)
    (hsegments : s.storageNodes.Grows crc s'.storageNodes)
    (hnext : commitSeq < s'.metadata.nextCommitSeq) {roots roots' : List Nat}
    (hroots : s.metadata.rootsAt deviceId first d.commit = .ok roots)
    (hreplay : new.foldlM replayShardCommit roots = .ok roots')
    (hholds : HoldsTree crc w n s'.metadata.nodes s'.storageNodes d.spec roots' shards bytes)
    (hhead : ∀ head, s'.metadata.deviceHeads.lookup deviceId = some head →
      head.latestCommit = commitSeq ∧ head.generation < s'.metadata.nextCommitSeq ∧
      head.shardRoots = roots') : DeviceTimeline crc w n s' (history.set deviceId commitSeq shards) deviceId
      (d.push commitSeq bytes) birth first := by
  have hle : d.commit ≤ commitSeq := by
    by_cases hnil : new = []
    · exact (hnew.idle hnil).ge
    · exact (hnew.later hnil).le
  have hmem : ∀ c ∈ new, d.commit < commitSeq := fun c hc => hnew.later (List.ne_nil_of_mem hc)
  -- before the commit the roots are as they were, and from it on they are the new ones
  have hbefore : ∀ t, (t < commitSeq ∨ t ≤ d.commit) →
      s'.metadata.rootsAt deviceId first t = s.metadata.rootsAt deviceId first t := by
    intro t ht
    rw [MetadataInner.rootsAt, hlog]
    refine stateAt_append_of_lt fun c hc => ?_
    have := hmem c hc
    rw [(hnew.made c hc).1]
    omega
  have hafter : ∀ t, commitSeq ≤ t → s'.metadata.rootsAt deviceId first t = .ok roots' := by
    intro t ht
    have hquiet : Quiet s deviceId d.commit t := fun c hc _ => (h.log c hc).1.2
    have hroots' := (DeviceTimeline.rootsAt_of_quiet (hle.trans ht) hquiet).trans hroots
    rw [MetadataInner.rootsAt, hlog, stateAt_append_of_le hroots']
    · exact hreplay
    · intro c hc
      rw [(hnew.made c hc).1]
      exact ht
  refine ⟨?_, ?_, h.birth_le.trans hle, hnext, ?_, ?_, ?_, ?_⟩
  · rw [hlog, List.pairwise_append]
    refine ⟨h.sorted, ?_, fun a ha b hb => ?_⟩
    · refine hnew.sorted.imp_of_mem fun {a b} ha hb hab => Prod.Lex.toLex_le_toLex.2 (.inr ⟨?_, hab⟩)
      exact (hnew.made a ha).1.trans (hnew.made b hb).1.symm
    · refine Prod.Lex.toLex_le_toLex.2 (.inl ?_)
      show a.commitSeq < b.commitSeq
      rw [(hnew.made b hb).1]
      exact (h.log a ha).1.2.trans_lt (hmem b hb)
  · intro c hc
    rw [hlog] at hc
    rcases List.mem_append.1 hc with hc | hc
    · obtain ⟨⟨h1, h2⟩, h3⟩ := h.log c hc
      exact ⟨⟨h1, h2.trans hle⟩, h3⟩
    · obtain ⟨h1, h2⟩ := hnew.made c hc
      refine ⟨⟨?_, h1.le⟩, h2.trans h1.symm⟩
      rw [h1]
      exact h.birth_le.trans hle
  · intro v hv
    rw [hlog]
    rcases List.mem_cons.1 hv with rfl | hv
    · show commitSeq = birth ∨ _
      by_cases hnil : new = []
      · rw [hnew.idle hnil, hnil, List.append_nil]
        exact h.versions (d.commit, d.bytes) List.mem_cons_self
      · obtain ⟨c, hc⟩ := List.exists_mem_of_ne_nil new hnil
        exact .inr ⟨c, List.mem_append_right _ hc, (hnew.made c hc).1⟩
    · refine (h.versions v hv).imp_right ?_
      rintro ⟨c, hc, heq⟩
      exact ⟨c, List.mem_append_left _ hc, heq⟩
  · intro id checkpoint hc
    obtain ⟨⟨⟨h1, h2⟩, h3⟩, roots0, h4, h5⟩ := h.checkpoints id checkpoint
      ((hcheckpoints id checkpoint).1 hc)
    exact ⟨⟨⟨h1, h2.trans hle⟩, h3⟩, roots0, h4, (hbefore _ (.inr h2)).trans h5⟩
  · intro t ht
    rw [FlatDevice.bytesAt_push]
    by_cases htc : commitSeq ≤ t
    · rw [if_pos htc, History.set, if_pos ⟨rfl, htc⟩]
      exact ⟨roots', bytes, hafter t htc, rfl, hholds⟩
    · rw [if_neg htc, History.set, if_neg fun h => htc h.2, hbefore t (.inl (by omega))]
      obtain ⟨roots0, bytes0, h1, h2, h3⟩ := h.holds t ht
      exact ⟨roots0, bytes0, h1, h2, h3.mono hnodes.nodes hsegments⟩
  · intro head hlookup
    obtain ⟨h1, h2, h3⟩ := hhead head hlookup
    refine ⟨h1, h2, ?_⟩
    rw [h3]
    exact hafter commitSeq le_rfl

theorem Inv.idle (hinv : Inv crc w n s flat history) (hd : flat.devices deviceId = some d)
    {head : DeviceHead} (hhead : s.metadata.deviceHeads.lookup deviceId = some head)
    (hholds : HoldsTree crc w n s.metadata.nodes s.storageNodes d.spec head.shardRoots shards bytes) :
    Inv crc w n s (flat.setDevice deviceId (d.push d.commit bytes))
      (history.set deviceId d.commit shards) := by
  have hdev := hinv.devices deviceId d hd
  obtain ⟨birth, first, htime⟩ := hdev.timeline
  obtain ⟨hlatest, hgen, hroots⟩ := htime.head head hhead
  have hcommits : Commits d.commit d.commit [] :=
    ⟨by simp, .nil, fun h => absurd rfl h, fun _ => rfl⟩
  have hpush := htime.push hcommits (List.append_nil _).symm (fun _ _ => Iff.rfl)
    (refl _) (refl _) htime.commit_lt hroots rfl hholds ?_
  · refine hinv.change (refl _) (refl _) le_rfl
      (fun id (_ : id ≠ deviceId) => (refl s : Coordinator.Grows crc s s).spares id)
      (fun id hid => History.set_of_ne hid _ _) (fun id hid => if_neg hid) (if_pos rfl) ?_
      hinv.checkpoints hinv.nextCheckpoint hinv.checkpointIds
    exact ⟨hdev.width_pos, hdev.blockSize_pos, hdev.spec, hdev.id_lt, hdev.known, hdev.live, birth, first, hpush⟩
  · intro head' hlookup
    cases hhead.symm.trans hlookup
    exact ⟨hlatest, hgen, rfl⟩

theorem Inv.publish (hinv : Inv crc w n s flat history) (hd : flat.devices deviceId = some d)
    {current : DeviceHead} (hcurrent : s.metadata.deviceHeads.lookup deviceId = some current)
    {changed : List EditedShard} (hne : changed ≠ [])
    (hsorted : changed.Pairwise fun a b => a.shardId < b.shardId) {nextRoots : List Nat}
    (happly : (changed.map EditedShard.blockUpdate).foldlM (applyShardUpdate s.metadata.nodes)
      current.shardRoots = .ok nextRoots)
    (hholds : HoldsTree crc w n s.metadata.nodes s.storageNodes d.spec nextRoots shards bytes) :
    Inv crc w n
      { s with
        metadata := s.metadata.published deviceId current (changed.map EditedShard.blockUpdate)
          nextRoots }
      (flat.setDevice deviceId (d.push s.metadata.nextCommitSeq bytes))
      (history.set deviceId s.metadata.nextCommitSeq shards) := by
  have hdev := hinv.devices deviceId d hd
  obtain ⟨birth, first, htime⟩ := hdev.timeline
  obtain ⟨hlatest, hgen, hroots⟩ := htime.head current hcurrent
  set new := changed.map (EditedShard.commit deviceId s.metadata.nextCommitSeq
    s.metadata.nextCommitGroupId) with hnew
  have hlog : ∀ id, (s.metadata.published deviceId current (changed.map EditedShard.blockUpdate)
      nextRoots).deviceLog id = s.metadata.deviceLog id ++ new.filter (·.deviceId = id) := by
    intro id
    rw [hnew, ← filterMap_shardCommitOf]
    exact List.filter_append _ _
  have hown : new.filter (·.deviceId = deviceId) = new := by
    refine List.filter_eq_self.2 fun c hc => ?_
    obtain ⟨shard, -, rfl⟩ := List.mem_map.1 hc
    exact decide_eq_true rfl
  have hcommits : Commits d.commit s.metadata.nextCommitSeq new := by
    refine ⟨fun c hc => ?_, List.pairwise_map.2 (hsorted.imp fun h => Nat.le_of_lt h),
      fun _ => htime.commit_lt, fun hnil => absurd (List.map_eq_nil_iff.1 hnil) hne⟩
    obtain ⟨shard, -, rfl⟩ := List.mem_map.1 hc
    exact ⟨rfl, rfl⟩
  refine hinv.change (refl _) (refl _) (Nat.le_succ _)
    (fun id (hid : id ≠ deviceId) => ?_)
    (fun id hid => History.set_of_ne hid _ _) (fun id hid => if_neg hid) (if_pos rfl) ?_
    hinv.checkpoints hinv.nextCheckpoint hinv.checkpointIds
  · refine ⟨refl _, refl _, le_rfl, Nat.le_succ _, rfl,
      AList.lookup_insert_ne hid, fun h => h, ?_, fun _ _ => Iff.rfl⟩
    rw [hlog, List.filter_eq_nil_iff.2, List.append_nil]
    intro c hc
    obtain ⟨shard, -, rfl⟩ := List.mem_map.1 hc
    exact fun heq => hid (of_decide_eq_true heq).symm
  · have hmem : deviceId ∈ s.metadata.deviceHeads := Table.mem_iff_lookup.2 ⟨current, hcurrent⟩
    have hmem' (head : DeviceHead) : deviceId ∈ s.metadata.deviceHeads.insert deviceId head :=
      (AList.mem_insert _).2 (.inl rfl)
    refine ⟨hdev.width_pos, hdev.blockSize_pos, hdev.spec, hdev.id_lt, .inl (hmem' _),
      iff_of_true (hdev.live.2 hmem) (hmem' _), birth, first, ?_⟩
    refine htime.push hcommits ?_ ?_ ?_ ?_ ?_ hroots (replay_of_apply happly) ?_ ?_
    · rw [hlog, hown]
    · exact fun _ _ => Iff.rfl
    · exact refl _
    · exact refl _
    · exact Nat.lt_succ_self _
    · exact hholds
    · intro head hlookup
      rw [MetadataInner.published, AList.lookup_insert] at hlookup
      cases hlookup
      exact ⟨rfl, Nat.succ_lt_succ hgen, rfl⟩

/-- The commit of new roots: they are published, or nothing is changed. -/
theorem publish_wp (hinv : Inv crc w n s flat history) (hd : flat.devices deviceId = some d)
    {current : DeviceHead} (hcurrent : s.metadata.deviceHeads.lookup deviceId = some current)
    {changed : List EditedShard} (hsorted : changed.Pairwise fun a b => a.shardId < b.shardId)
    (hholds : HoldsTree crc w n s.metadata.nodes s.storageNodes d.spec
      (setAll current.shardRoots (changed.map fun shard => (shard.shardId, shard.root))) shards bytes) :
    wp (onMetadata (publishShardRoots deviceId (changed.map EditedShard.blockUpdate)))
      (fun group s' => group.commitSeq = s.metadata.nextCommitSeq ∧ s'.storageNodes = s.storageNodes ∧
        Inv crc w n s' (flat.setDevice deviceId (d.push group.commitSeq bytes))
          (history.set deviceId group.commitSeq shards)) (· = s) s := by
  obtain ⟨birth, first, htime⟩ := (hinv.devices deviceId d hd).timeline
  refine wp_zoom.2 (wp_mono (publishShardRoots_wp fun head hlookup => ?_) ?_ ?_)
  · exact (htime.head head hlookup).2.1
  · rintro group _ ⟨current', nextRoots, hlookup, hne, happly, hseq, rfl⟩
    cases hcurrent.symm.trans hlookup
    rw [← setAll_of_apply happly] at hholds
    rw [hseq]
    refine ⟨rfl, rfl, hinv.publish hd hcurrent ?_ hsorted happly hholds⟩
    rintro rfl
    exact hne rfl
  · rintro _ rfl
    rfl

/-! ## Checkpoints -/

theorem checkpointOf_insert {m m' : MetadataInner} {next : Nat} {new : Checkpoint}
    (hfresh : next ∉ m.checkpoints) (hm : m'.checkpoints = m.checkpoints.insert next new)
    (id : Nat) (checkpoint : Checkpoint) : m'.CheckpointOf deviceId id checkpoint ↔
      (id = next ∧ checkpoint = new ∧ new.owner = .blockDevice deviceId) ∨
        m.CheckpointOf deviceId id checkpoint := by
  unfold MetadataInner.CheckpointOf
  rw [hm]
  by_cases hid : id = next
  · subst hid
    rw [AList.lookup_insert, AList.lookup_eq_none.2 hfresh]
    constructor
    · rintro ⟨h, howner⟩
      cases h
      exact .inl ⟨rfl, rfl, howner⟩
    · rintro (⟨-, rfl, howner⟩ | ⟨h, -⟩)
      · exact ⟨rfl, howner⟩
      · cases h
  · rw [AList.lookup_insert_ne hid]
    simp [hid]

def MetadataInner.withCheckpoint (m : MetadataInner) (deviceId commitSeq : Nat) (roots : List Nat) :
    MetadataInner :=
  { m with
    nextCheckpointId := m.nextCheckpointId + 1
    checkpoints := m.checkpoints.insert m.nextCheckpointId
      ⟨m.nextCheckpointId, commitSeq, commitSeq, .blockDevice deviceId, .blockShard roots⟩ }

section

variable (hinv : Inv crc w n s flat history) {m : MetadataInner}
  (hcheckpoints : m.checkpoints = s.metadata.checkpoints)
  (hnext : m.nextCheckpointId = s.metadata.nextCheckpointId) (commitSeq : Nat) (roots : List Nat)

include hinv hcheckpoints hnext

theorem Inv.checkpointOf_withCheckpoint (id k : Nat) (checkpoint : Checkpoint) :
    (m.withCheckpoint deviceId commitSeq roots).CheckpointOf id k checkpoint ↔
      (id = deviceId ∧ k = s.metadata.nextCheckpointId ∧
        checkpoint = ⟨k, commitSeq, commitSeq, .blockDevice deviceId, .blockShard roots⟩) ∨
      s.metadata.CheckpointOf id k checkpoint := by
  have hfresh : m.nextCheckpointId ∉ s.metadata.checkpoints := by
    intro hmem
    have := hinv.checkpointIds _ hmem
    omega
  have hinsert : (m.withCheckpoint deviceId commitSeq roots).checkpoints =
      s.metadata.checkpoints.insert m.nextCheckpointId ⟨m.nextCheckpointId, commitSeq, commitSeq,
        .blockDevice deviceId, .blockShard roots⟩ := by
    rw [← hcheckpoints]
    rfl
  rw [checkpointOf_insert hfresh hinsert, hnext]
  refine or_congr ⟨?_, ?_⟩ Iff.rfl
  · rintro ⟨rfl, rfl, howner⟩
    cases howner
    exact ⟨rfl, rfl, rfl⟩
  · rintro ⟨rfl, rfl, rfl⟩
    exact ⟨rfl, rfl, rfl⟩

theorem Inv.checkpoints_withCheckpoint (k id c : Nat) :
    (flat.addCheckpoint deviceId commitSeq).checkpoints k = some (id, c) ↔
      ∃ checkpoint, (m.withCheckpoint deviceId commitSeq roots).CheckpointOf id k checkpoint ∧
        checkpoint.commitSeq = c := by
  simp only [hinv.checkpointOf_withCheckpoint hcheckpoints hnext]
  unfold Flat.addCheckpoint
  by_cases hk : k = flat.nextCheckpoint
  · have hk' := hk.trans hinv.nextCheckpoint
    simp only [hk, if_true, Option.some.injEq, Prod.mk.injEq]
    constructor
    · rintro ⟨rfl, rfl⟩
      exact ⟨_, .inl ⟨rfl, hinv.nextCheckpoint, rfl⟩, rfl⟩
    · rintro ⟨checkpoint, ⟨rfl, -, rfl⟩ | ⟨hlookup, -⟩, rfl⟩
      · exact ⟨rfl, rfl⟩
      · have := hinv.checkpointIds _ (Table.mem_iff_lookup.2 ⟨_, hlookup⟩)
        have := hinv.nextCheckpoint
        omega
  · have hk' : k ≠ s.metadata.nextCheckpointId := fun h => hk (h.trans hinv.nextCheckpoint.symm)
    simp only [if_neg hk, hk', hinv.checkpoints, false_and, and_false, false_or]

theorem Inv.checkpointIds_withCheckpoint (k : Nat)
    (hk : k ∈ (m.withCheckpoint deviceId commitSeq roots).checkpoints) :
    k < (m.withCheckpoint deviceId commitSeq roots).nextCheckpointId := by
  show k < m.nextCheckpointId + 1
  rcases (AList.mem_insert _).1 hk with rfl | hk
  · omega
  · rw [hcheckpoints] at hk
    have := hinv.checkpointIds k hk
    omega

end

/-! ## New devices -/

theorem Inv.insertDevice (hinv : Inv crc w n s flat history) (hw : 0 < w) (spec : DeviceSpec)
    (hbs : 0 < spec.blockSize) (head : DeviceHead) (hnew : flat.devices head.deviceId = none)
    (hid : head.deviceId < s.metadata.nextDeviceId)
    (hcommit : head.latestCommit < s.metadata.nextCommitSeq)
    (hgen : head.generation < s.metadata.nextCommitSeq)
    (hholds : HoldsTree crc w n s.metadata.nodes s.storageNodes spec head.shardRoots shards bytes) :
    wp (insertDevice spec head) (fun _ metadata =>
      Inv crc w n { s with metadata } (flat.addDevice head.deviceId head.latestCommit spec bytes)
        (history.set head.deviceId head.latestCommit shards)) (fun _ => False) s.metadata := by
  have habsent := hinv.absent head.deviceId hnew
  have hof : ∀ id k checkpoint, (s.metadata.withCheckpoint head.deviceId head.latestCommit
      head.shardRoots).CheckpointOf id k checkpoint ↔ _ :=
    hinv.checkpointOf_withCheckpoint rfl rfl head.latestCommit head.shardRoots
  refine hinv.change (refl _) (refl _) le_rfl
    (fun id (hne : id ≠ head.deviceId) => ?_) (fun id hne => History.set_of_ne hne _ _)
    (fun id hne => if_neg hne) (if_pos rfl) ?_ (hinv.checkpoints_withCheckpoint rfl rfl _ _)
    (congrArg (· + 1) hinv.nextCheckpoint) (hinv.checkpointIds_withCheckpoint rfl rfl _ _)
  · refine ⟨refl _, refl _, le_rfl, le_rfl, AList.lookup_insert_ne hne,
      AList.lookup_insert_ne hne, fun h => h, rfl, fun k checkpoint => (hof id k checkpoint).trans ?_⟩
    exact or_iff_right fun h => hne h.1
  · have hmem : head.deviceId ∈ s.metadata.deviceHeads.insert head.deviceId head :=
      (AList.mem_insert _).2 (.inl rfl)
    refine ⟨hw, hbs, AList.lookup_insert _, hid, .inl hmem, iff_of_true rfl hmem, head.latestCommit,
      head.shardRoots, ?_⟩
    have hlog : s.metadata.deviceLog head.deviceId = [] := habsent.log
    have hroots : ∀ t, s.metadata.rootsAt head.deviceId head.shardRoots t = .ok head.shardRoots := by
      intro t
      rw [MetadataInner.rootsAt, hlog]
      rfl
    refine ⟨?_, ?_, le_rfl, hcommit, ?_, ?_, ?_, ?_⟩
    · exact hlog ▸ .nil
    · exact hlog ▸ fun c hc => absurd hc (List.not_mem_nil)
    · intro v hv
      cases List.mem_singleton.1 hv
      exact .inl rfl
    · intro k checkpoint hc
      obtain ⟨-, -, rfl⟩ | hc := (hof _ k checkpoint).1 hc
      · exact ⟨⟨⟨le_rfl, le_rfl⟩, rfl⟩, _, rfl, hroots _⟩
      · exact absurd hc (habsent.checkpoints k checkpoint)
    · intro t ht
      refine ⟨head.shardRoots, bytes, hroots t, ?_, ?_⟩
      · simp [FlatDevice.bytesAt, ht]
      · rw [History.set, if_pos ⟨rfl, ht⟩]
        exact hholds
    · intro head' hlookup
      rw [show AList.lookup head.deviceId (s.metadata.deviceHeads.insert head.deviceId head) = _
        from AList.lookup_insert _] at hlookup
      cases hlookup
      exact ⟨rfl, hgen, hroots _⟩

end CowStore.Local
