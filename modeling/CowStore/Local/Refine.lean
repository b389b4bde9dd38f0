import CowStore.Local.Batch
import CowStore.Local.Flat

/-!
# The coordinator refines the flat devices

For every device, the roots that its timeline gives at a commit are those of trees whose
blocks hold the array of the flat device at this commit.
-/

namespace CowStore.Local

open Lib Tree

/-! ## The invariant -/

/-- The trees of the shards of every device, at every commit. -/
abbrev History := Nat → Nat → List MappingTree

def MetadataInner.deviceLog (s : MetadataInner) (deviceId : Nat) : List ShardCommit :=
  s.shardCommits.filter (·.deviceId = deviceId)

def MetadataInner.rootsAt (s : MetadataInner) (deviceId : Nat) (first : List Nat) (t : Nat) :
    Result (List Nat) :=
  stateAt (·.commitSeq) replayShardCommit first (s.deviceLog deviceId) t

def MetadataInner.CheckpointOf (s : MetadataInner) (deviceId id : Nat) (checkpoint : Checkpoint) :
    Prop :=
  s.checkpoints.lookup id = some checkpoint ∧ checkpoint.owner = .blockDevice deviceId

section

variable (crc : List UInt8 → Nat) (w n : Nat)

/-- The timeline of a device, which starts at the commit `birth` with the roots `first`. -/
structure DeviceTimeline (s : Coordinator) (history : History) (deviceId : Nat) (d : FlatDevice)
    (birth : Nat) (first : List Nat) : Prop where
  sorted : (s.metadata.deviceLog deviceId).Pairwise fun a b =>
    toLex (a.commitSeq, a.shardId) ≤ toLex (b.commitSeq, b.shardId)
  log : ∀ c ∈ s.metadata.deviceLog deviceId,
    (birth ≤ c.commitSeq ∧ c.commitSeq ≤ d.commit) ∧ c.time = c.commitSeq
  birth_le : birth ≤ d.commit
  commit_lt : d.commit < s.metadata.nextCommitSeq
  versions : ∀ v ∈ (d.commit, d.bytes) :: d.earlier, v.1 = birth ∨
    ∃ c ∈ s.metadata.deviceLog deviceId, c.commitSeq = v.1
  checkpoints : ∀ id checkpoint, s.metadata.CheckpointOf deviceId id checkpoint →
    ((birth ≤ checkpoint.commitSeq ∧ checkpoint.commitSeq ≤ d.commit) ∧
      checkpoint.time = checkpoint.commitSeq) ∧
    ∃ roots, checkpoint.roots = .blockShard roots ∧
      s.metadata.rootsAt deviceId first checkpoint.commitSeq = .ok roots
  holds : ∀ t, birth ≤ t → ∃ roots bytes, s.metadata.rootsAt deviceId first t = .ok roots ∧
    d.bytesAt t = some bytes ∧ HoldsTree crc w n s.metadata.nodes s.storageNodes d.spec roots
      (history deviceId t) bytes
  head : ∀ head, s.metadata.deviceHeads.lookup deviceId = some head →
    head.latestCommit = d.commit ∧ head.generation < s.metadata.nextCommitSeq ∧
    s.metadata.rootsAt deviceId first d.commit = .ok head.shardRoots

structure DeviceInv (s : Coordinator) (history : History) (deviceId : Nat) (d : FlatDevice) :
    Prop where
  width_pos : 0 < w
  blockSize_pos : 0 < d.spec.blockSize
  spec : s.metadata.deviceSpecs.lookup deviceId = some d.spec
  id_lt : deviceId < s.metadata.nextDeviceId
  known : deviceId ∈ s.metadata.deviceHeads ∨ deviceId ∈ s.metadata.deletedDeviceHeads
  live : d.live = true ↔ deviceId ∈ s.metadata.deviceHeads
  timeline : ∃ birth first, DeviceTimeline crc w n s history deviceId d birth first

structure Absent (s : Coordinator) (deviceId : Nat) : Prop where
  spec : s.metadata.deviceSpecs.lookup deviceId = none
  head : s.metadata.deviceHeads.lookup deviceId = none
  log : s.metadata.deviceLog deviceId = []
  checkpoints : ∀ id checkpoint, ¬ s.metadata.CheckpointOf deviceId id checkpoint

structure Inv (s : Coordinator) (flat : Flat) (history : History) : Prop where
  nodes : s.metadata.nodes.Fresh
  segments : s.storageNodes.Fresh
  nextCommitSeq_pos : 0 < s.metadata.nextCommitSeq
  devices : ∀ id d, flat.devices id = some d → DeviceInv crc w n s history id d
  absent : ∀ id, flat.devices id = none → Absent s id
  checkpoints : ∀ id deviceId commitSeq, flat.checkpoints id = some (deviceId, commitSeq) ↔
    ∃ checkpoint, s.metadata.CheckpointOf deviceId id checkpoint ∧ checkpoint.commitSeq = commitSeq
  nextCheckpoint : flat.nextCheckpoint = s.metadata.nextCheckpointId
  checkpointIds : ∀ id, id ∈ s.metadata.checkpoints → id < s.metadata.nextCheckpointId

end

/-! ## Devices that an operation spares -/

/-- `s'` has the nodes and the segments of `s`, and more, and knows of the device what `s`
does. -/
structure Spares (crc : List UInt8 → Nat) (deviceId : Nat) (s s' : Coordinator) : Prop where
  nodes : s.metadata.nodes.Grows s'.metadata.nodes
  segments : s.storageNodes.Grows crc s'.storageNodes
  nextDeviceId : s.metadata.nextDeviceId ≤ s'.metadata.nextDeviceId
  nextCommitSeq : s.metadata.nextCommitSeq ≤ s'.metadata.nextCommitSeq
  spec : s'.metadata.deviceSpecs.lookup deviceId = s.metadata.deviceSpecs.lookup deviceId
  head : s'.metadata.deviceHeads.lookup deviceId = s.metadata.deviceHeads.lookup deviceId
  deleted : deviceId ∈ s.metadata.deletedDeviceHeads → deviceId ∈ s'.metadata.deletedDeviceHeads
  log : s'.metadata.deviceLog deviceId = s.metadata.deviceLog deviceId
  checkpoints : ∀ id checkpoint, s'.metadata.CheckpointOf deviceId id checkpoint ↔
    s.metadata.CheckpointOf deviceId id checkpoint

variable {crc : List UInt8 → Nat} {w n : Nat} {s s' : Coordinator} {flat flat' : Flat}
  {history history' : History} {deviceId : Nat} {d : FlatDevice}

theorem DeviceTimeline.spared {birth : Nat} {first : List Nat}
    (h : DeviceTimeline crc w n s history deviceId d birth first) (hs : Spares crc deviceId s s')
    (hhistory : history' deviceId = history deviceId) :
    DeviceTimeline crc w n s' history' deviceId d birth first := by
  have hroots : s'.metadata.rootsAt deviceId first = s.metadata.rootsAt deviceId first := by
    funext t
    rw [MetadataInner.rootsAt, hs.log]
    rfl
  refine ⟨hs.log ▸ h.sorted, hs.log ▸ h.log, h.birth_le, h.commit_lt.trans_le hs.nextCommitSeq,
    hs.log ▸ h.versions, fun id checkpoint hc => ?_, fun t ht => ?_, fun head hlookup => ?_⟩
  · rw [hroots]
    exact h.checkpoints id checkpoint ((hs.checkpoints id checkpoint).1 hc)
  · obtain ⟨roots, bytes, h1, h2, h3⟩ := h.holds t ht
    rw [hroots, hhistory]
    exact ⟨roots, bytes, h1, h2, h3.mono hs.nodes.nodes hs.segments⟩
  · rw [hroots]
    obtain ⟨h1, h2, h3⟩ := h.head head (hs.head ▸ hlookup)
    exact ⟨h1, h2.trans_le hs.nextCommitSeq, h3⟩

theorem DeviceInv.spared (h : DeviceInv crc w n s history deviceId d) (hs : Spares crc deviceId s s')
    (hhistory : history' deviceId = history deviceId) : DeviceInv crc w n s' history' deviceId d := by
  have hmem : deviceId ∈ s'.metadata.deviceHeads ↔ deviceId ∈ s.metadata.deviceHeads := by
    rw [Table.mem_iff_lookup, Table.mem_iff_lookup, hs.head]
  obtain ⟨birth, first, htime⟩ := h.timeline
  exact ⟨h.width_pos, h.blockSize_pos, hs.spec.trans h.spec, h.id_lt.trans_le hs.nextDeviceId,
    h.known.imp hmem.2 hs.deleted, h.live.trans hmem.symm, birth, first,
    htime.spared hs hhistory⟩

theorem Absent.spared (h : Absent s deviceId) (hs : Spares crc deviceId s s') : Absent s' deviceId :=
  ⟨hs.spec.trans h.spec, hs.head.trans h.head, hs.log.trans h.log,
    fun id checkpoint hc => h.checkpoints id checkpoint ((hs.checkpoints id checkpoint).1 hc)⟩

theorem Inv.change (hinv : Inv crc w n s flat history) {target : Nat} {d' : FlatDevice}
    (hnodes : s.metadata.nodes.Grows s'.metadata.nodes) (hsegments : s.storageNodes.Grows crc s'.storageNodes)
    (hseq : s.metadata.nextCommitSeq ≤ s'.metadata.nextCommitSeq)
    (hspares : ∀ id, id ≠ target → Spares crc id s s')
    (hhistory : ∀ id, id ≠ target → history' id = history id)
    (hdevices : ∀ id, id ≠ target → flat'.devices id = flat.devices id)
    (htarget : flat'.devices target = some d') (hd' : DeviceInv crc w n s' history' target d')
    (hcheckpoints : ∀ id deviceId commitSeq, flat'.checkpoints id = some (deviceId, commitSeq) ↔
      ∃ checkpoint, s'.metadata.CheckpointOf deviceId id checkpoint ∧ checkpoint.commitSeq = commitSeq)
    (hnext : flat'.nextCheckpoint = s'.metadata.nextCheckpointId)
    (hids : ∀ id, id ∈ s'.metadata.checkpoints → id < s'.metadata.nextCheckpointId) :
    Inv crc w n s' flat' history' := by
  refine ⟨hnodes.fresh hinv.nodes, hsegments.fresh hinv.segments,
    hinv.nextCommitSeq_pos.trans_le hseq, fun id d hd => ?_, fun id hnone => ?_, hcheckpoints, hnext, hids⟩
  · by_cases hid : id = target
    · subst hid
      cases htarget.symm.trans hd
      exact hd'
    · rw [hdevices id hid] at hd
      exact (hinv.devices id d hd).spared (hspares id hid) (hhistory id hid)
  · by_cases hid : id = target
    · subst hid
      cases htarget.symm.trans hnone
    · rw [hdevices id hid] at hnone
      exact (hinv.absent id hnone).spared (hspares id hid)

theorem DeviceInv.holds (h : DeviceInv crc w n s history deviceId d) {head : DeviceHead}
    (hhead : s.metadata.deviceHeads.lookup deviceId = some head) :
    head.latestCommit = d.commit ∧ HoldsTree crc w n s.metadata.nodes s.storageNodes d.spec
      head.shardRoots (history deviceId d.commit) d.bytes := by
  obtain ⟨birth, first, htime⟩ := h.timeline
  obtain ⟨hcommit, -, hroots⟩ := htime.head head hhead
  obtain ⟨roots, bytes, hroots', hbytes, hholds⟩ := htime.holds d.commit htime.birth_le
  cases hroots.symm.trans hroots'
  have hlast : d.bytesAt d.commit = some d.bytes := by simp [FlatDevice.bytesAt]
  cases hlast.symm.trans hbytes
  exact ⟨hcommit, hholds⟩

theorem Inv.exists_device (hinv : Inv crc w n s flat history) {head : DeviceHead}
    (hhead : s.metadata.deviceHeads.lookup deviceId = some head) : ∃ d, flat.devices deviceId = some d := by
  cases hd : flat.devices deviceId with
  | none => cases (hinv.absent deviceId hd).head.symm.trans hhead
  | some d => exact ⟨d, rfl⟩

theorem Inv.deviceInfo (hinv : Inv crc w n s flat history) {info : DeviceInfo}
    (h : s.metadata.deviceInfo deviceId = .ok info) : ∃ head d,
      s.metadata.deviceHeads.lookup deviceId = some head ∧ flat.devices deviceId = some d ∧
      info = ⟨deviceId, head.generation, d.spec, d.commit⟩ := by
  obtain ⟨head, hhead, spec, hspec, h⟩ := bind2_eq_ok.1 h
  cases h
  have hhead := orFail_eq_ok.1 hhead
  obtain ⟨d, hd⟩ := hinv.exists_device hhead
  have hdev := hinv.devices deviceId d hd
  cases hdev.spec.symm.trans (orFail_eq_ok.1 hspec)
  exact ⟨head, d, hhead, hd, by rw [(hdev.holds hhead).1]⟩

/-! ## Operations that only add -/

def MetadataInner.frame (s : MetadataInner) : MetadataInner :=
  { MetadataInner.new with
    deviceSpecs := s.deviceSpecs
    deviceHeads := s.deviceHeads
    deletedDeviceHeads := s.deletedDeviceHeads
    shardCommits := s.shardCommits
    checkpoints := s.checkpoints
    nextCheckpointId := s.nextCheckpointId }

namespace Coordinator

/-- `s'` has the nodes and the segments of `s`, and more; the devices are as in `s`. -/
structure Grows (crc : List UInt8 → Nat) (s s' : Coordinator) : Prop where
  nodes : s.metadata.nodes.Grows s'.metadata.nodes
  segments : s.storageNodes.Grows crc s'.storageNodes
  frame : s'.metadata.frame = s.metadata.frame
  nextDeviceId : s.metadata.nextDeviceId ≤ s'.metadata.nextDeviceId
  nextCommitSeq : s.metadata.nextCommitSeq ≤ s'.metadata.nextCommitSeq

instance : Std.Refl (Grows crc) :=
  ⟨fun _ => ⟨refl _, refl _, rfl, le_rfl, le_rfl⟩⟩

instance : IsTrans Coordinator (Grows crc) :=
  ⟨fun _ _ _ h h' => ⟨IsTrans.trans _ _ _ h.nodes h'.nodes, IsTrans.trans _ _ _ h.segments h'.segments,
    h'.frame.trans h.frame, h.nextDeviceId.trans h'.nextDeviceId,
    h.nextCommitSeq.trans h'.nextCommitSeq⟩⟩

theorem grows_of_editsNodes (h : EditsNodes s s') : Grows crc s s' := by
  refine ⟨h.nodes, ?_, ?_, ?_, ?_⟩
  · rw [h.storageNodes]
    exact refl _
  all_goals
    have heq := h.eq
    generalize s'.metadata.nodes = nodes at heq
    subst heq
    rfl

theorem grows_segments {segments : StorageNodes} (h : s.storageNodes.Grows crc segments) :
    Grows crc s { s with storageNodes := segments } :=
  ⟨refl _, h, rfl, le_rfl, le_rfl⟩

theorem along_onSegments {α : Type} {x : SegmentOp α} {Q : α → StorageNodes → Prop}
    (h : Along (StorageNodes.Grows crc) x s.storageNodes Q) :
    Along (Grows crc) (onSegments x) s fun a s' => ∃ segments,
      s' = { s with storageNodes := segments } ∧ s.storageNodes.Grows crc segments ∧ Q a segments :=
  Along.zoom h fun _ => grows_segments

theorem Grows.spares (h : Grows crc s s') (id : Nat) : Spares crc id s s' := by
  have hframe : ∀ {α : Type} (f : MetadataInner → α), f s'.metadata.frame = f s.metadata.frame :=
    fun f => congrArg f h.frame
  refine ⟨h.nodes, h.segments, h.nextDeviceId, h.nextCommitSeq,
    hframe fun m => m.deviceSpecs.lookup id, hframe fun m => m.deviceHeads.lookup id, fun hid => ?_,
    hframe fun m => m.deviceLog id, fun k checkpoint => ?_⟩
  · exact (hframe fun m => id ∈ m.deletedDeviceHeads).mpr hid
  · exact iff_of_eq (hframe fun m => m.CheckpointOf id k checkpoint)

end Coordinator

theorem Inv.grows (h : Inv crc w n s flat history) (hgrow : Coordinator.Grows crc s s') :
    Inv crc w n s' flat history := by
  have hcheckpoints : s'.metadata.checkpoints = s.metadata.checkpoints :=
    (congrArg (fun m : MetadataInner => m.checkpoints) hgrow.frame :)
  have hnext : s'.metadata.nextCheckpointId = s.metadata.nextCheckpointId :=
    (congrArg (fun m : MetadataInner => m.nextCheckpointId) hgrow.frame :)
  refine ⟨hgrow.nodes.fresh h.nodes, hgrow.segments.fresh h.segments,
    h.nextCommitSeq_pos.trans_le hgrow.nextCommitSeq,
    fun id d hd => (h.devices id d hd).spared (hgrow.spares id) rfl,
    fun id hnone => (h.absent id hnone).spared (hgrow.spares id), fun id deviceId commitSeq => ?_,
    hnext ▸ h.nextCheckpoint, ?_⟩
  · rw [h.checkpoints]
    exact exists_congr fun checkpoint =>
      and_congr_left fun _ => ((hgrow.spares deviceId).checkpoints id checkpoint).symm
  · rw [hcheckpoints, hnext]
    exact h.checkpointIds

/-! ## The timeline of a device -/

section

variable {birth : Nat} {first : List Nat}

theorem DeviceTimeline.sorted_seq (h : DeviceTimeline crc w n s history deviceId d birth first) :
    (s.metadata.deviceLog deviceId).Pairwise fun a b => a.commitSeq ≤ b.commitSeq := by
  refine h.sorted.imp fun {a b} hab => ?_
  rcases Prod.Lex.toLex_le_toLex.1 hab with hlt | ⟨heq, -⟩
  · exact hlt.le
  · exact heq.le

theorem DeviceTimeline.replay (h : DeviceTimeline crc w n s history deviceId d birth first)
    {commitSeq : Nat} {roots : List Nat}
    (hreplay : s.metadata.replayDeviceRoots deviceId commitSeq = .ok roots) :
    birth ≤ commitSeq ∧ s.metadata.rootsAt deviceId first commitSeq = .ok roots := by
  obtain ⟨checkpoint, hcheckpoint, hreplay⟩ := bind_eq_ok.1 hreplay
  obtain ⟨hmem, -⟩ := maxByKey_eq_some (orFail_eq_ok.1 hcheckpoint)
  obtain ⟨hmem, howner⟩ := List.mem_filter.1 hmem
  obtain ⟨howner, hle⟩ := of_decide_eq_true howner
  obtain ⟨id, hlookup⟩ := Table.mem_values.1 hmem
  obtain ⟨⟨⟨hbirth, -⟩, -⟩, roots0, hroots0, hstate⟩ := h.checkpoints id checkpoint ⟨hlookup, howner⟩
  obtain ⟨roots1, hroots1, hreplay⟩ := bind_eq_ok.1 hreplay
  rw [Checkpoint.blockRoots, hroots0] at hroots1
  cases hroots1
  refine ⟨hbirth.trans hle, ?_⟩
  have hsort : s.metadata.shardCommitsForDevice deviceId = s.metadata.deviceLog deviceId :=
    List.Pairwise.insertionSort_eq h.sorted
  rw [hsort] at hreplay
  rw [MetadataInner.rootsAt, ← stateAt_replay h.sorted_seq hle hstate]
  exact hreplay

/-- Up to `t`, nothing happened to the device after `c`. -/
def Quiet (s : Coordinator) (deviceId c t : Nat) : Prop :=
  ∀ commit ∈ s.metadata.deviceLog deviceId, commit.commitSeq ≤ t → commit.commitSeq ≤ c

theorem DeviceTimeline.rootsAt_of_quiet {c t : Nat} (hct : c ≤ t) (hquiet : Quiet s deviceId c t) :
    s.metadata.rootsAt deviceId first t = s.metadata.rootsAt deviceId first c :=
  stateAt_eq_of_none_between hct hquiet

theorem DeviceTimeline.bytesAt_of_quiet
    (h : DeviceTimeline crc w n s history deviceId d birth first) {c t : Nat} (hct : c ≤ t)
    (hbirth : birth ≤ c) (hquiet : Quiet s deviceId c t) : d.bytesAt t = d.bytesAt c := by
  unfold FlatDevice.bytesAt
  have hfind : ∀ vs : List (Nat × List UInt8), (∀ v ∈ vs, v.1 = birth ∨
      ∃ c ∈ s.metadata.deviceLog deviceId, c.commitSeq = v.1) →
      vs.find? (fun v => v.1 ≤ t) = vs.find? (fun v => v.1 ≤ c) := by
    intro vs hvs
    induction vs with
    | nil => rfl
    | cons v vs ih =>
      obtain ⟨hv, hvs⟩ := List.forall_mem_cons.1 hvs
      have hiff : v.1 ≤ t ↔ v.1 ≤ c := by
        refine ⟨fun hle => ?_, fun hle => hle.trans hct⟩
        rcases hv with hv | ⟨commit, hmem, hv⟩
        · omega
        · rw [← hv] at hle ⊢
          exact hquiet commit hmem hle
      rw [List.find?_cons, List.find?_cons, ih hvs, decide_eq_decide.2 hiff]
  rw [hfind _ h.versions]

/-- The commit to which a device is restored stands for the commit that was chosen. -/
theorem Inv.chosenCommit (hinv : Inv crc w n s flat history)
    (h : DeviceTimeline crc w n s history deviceId d birth first) {point : RestorePoint}
    {commitSeq : Nat} (htarget : s.metadata.targetCommitForRestore deviceId point = .ok commitSeq)
    (hbirth : birth ≤ commitSeq) : ∃ chosen, flat.chosenCommit point = some chosen ∧ commitSeq ≤ chosen ∧
      Quiet s deviceId commitSeq chosen := by
  cases point with
  | commit c =>
    rw [MetadataInner.targetCommitForRestore] at htarget
    split at htarget
    · cases htarget
      exact ⟨_, rfl, le_rfl, fun _ _ hle => hle⟩
    · cases htarget
  | checkpoint id =>
    obtain ⟨checkpoint, hlookup, ⟨⟩, howner, htarget⟩ := bind2_eq_ok.1 htarget
    cases htarget
    have howner : checkpoint.owner = .blockDevice deviceId := by simpa using failIf_eq_ok.1 howner
    have hflat := (hinv.checkpoints id deviceId checkpoint.commitSeq).2
      ⟨checkpoint, ⟨orFail_eq_ok.1 hlookup, howner⟩, rfl⟩
    exact ⟨checkpoint.commitSeq, by rw [Flat.chosenCommit, hflat]; rfl, le_rfl, fun _ _ hle => hle⟩
  | time t =>
    obtain ⟨⟨c, isDelete⟩, hmax, ⟨⟩, hdelete, htarget⟩ := bind2_eq_ok.1 htarget
    cases htarget
    have hdelete : isDelete = false := by simpa using failIf_eq_ok.1 hdelete
    subst hdelete
    obtain ⟨hmem, hle⟩ := maxByKey_eq_some (orFail_eq_ok.1 hmax)
    refine ⟨t, rfl, ?_, fun commit hcommit hct => ?_⟩
    · simp only [MetadataInner.restoreCandidates, List.mem_append, List.mem_map, List.mem_filter,
        decide_eq_true_eq, Prod.mk.injEq] at hmem
      rcases hmem with (⟨checkpoint, ⟨hmem, howner, htime⟩, rfl, -⟩ | ⟨commit, ⟨hmem, hid, htime⟩, rfl, -⟩) |
        ⟨record, -, -, hfalse⟩
      · obtain ⟨id, hlookup⟩ := Table.mem_values.1 hmem
        have := (h.checkpoints id checkpoint ⟨hlookup, howner⟩).1.2
        omega
      · have := (h.log commit (List.mem_filter.2 ⟨hmem, by simpa using hid⟩)).2
        omega
      · cases hfalse
    · have htime := (h.log commit hcommit).2
      obtain ⟨hmem, hid⟩ := List.mem_filter.1 hcommit
      have hcandidate : (commit.commitSeq, false) ∈ s.metadata.restoreCandidates deviceId t := by
        simp only [MetadataInner.restoreCandidates, List.mem_append, List.mem_map, List.mem_filter,
          decide_eq_true_eq]
        exact .inl (.inr ⟨commit, ⟨hmem, by simpa using hid, by omega⟩, rfl⟩)
      rcases Prod.Lex.toLex_le_toLex.1 (hle _ hcandidate) with hlt | ⟨heq, -⟩
      · exact hlt.le
      · exact heq.le

end

end CowStore.Local
