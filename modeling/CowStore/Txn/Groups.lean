import CowStore.Txn.Effects

/-!
# Commit groups

A group reads the head of every shard that it changes, then draws its number, and commits
only if none of these heads has been written since.  So the number of a group is greater
than every number that its shards have seen, and along each shard the numbers increase.
-/

namespace CowStore.Txn

open Lib Local TwoPhase

/-! ## The writes of a group -/

section

variable (deviceId : Nat) (group : CommitGroup) (updates : List ShardUpdate) (shardId : Nat)

theorem lastWrite_groupWrites_head :
    lastWrite (groupWrites deviceId group updates) (.deviceShardHead deviceId shardId) =
      (updates.reverse.find? (·.shardId = shardId)).map fun update =>
        .deviceShardHead ⟨update.newRoot, update.generation, group.commitSeq⟩ := by
  have hcommits : lastWrite (updates.map fun update : ShardUpdate =>
      ((.shardCommit deviceId group.commitSeq update.shardId : MetadataTxnKey),
        (.shardCommit ⟨group.commitSeq, group.commitGroup, group.commitSeq, deviceId, update.shardId,
          update.oldRoot, update.newRoot⟩ : MetadataTxnValue)))
      (.deviceShardHead deviceId shardId) = none := by
    simp [lastWrite_eq_none]
  rw [groupWrites, lastWrite_append, lastWrite_append, hcommits]
  simp only [headWrite, lastWrite_map, MetadataTxnKey.deviceShardHead.injEq, true_and]
  simp

theorem lastWrite_groupWrites_commit :
    lastWrite (groupWrites deviceId group updates) (.shardCommit deviceId group.commitSeq shardId) =
      (updates.reverse.find? (·.shardId = shardId)).map fun update =>
        .shardCommit ⟨group.commitSeq, group.commitGroup, group.commitSeq, deviceId, update.shardId,
          update.oldRoot, update.newRoot⟩ := by
  have hheads : lastWrite (updates.map fun update : ShardUpdate =>
      headWrite deviceId update.shardId update.newRoot update.generation group.commitSeq)
      (.shardCommit deviceId group.commitSeq shardId) = none := by
    simp [lastWrite_eq_none, headWrite]
  rw [groupWrites, lastWrite_append, lastWrite_append, hheads]
  simp only [lastWrite_map, MetadataTxnKey.shardCommit.injEq, true_and]
  simp

end

section

variable {u : Setup} {c : TxnCall} {es : List TxnEvent} {phase : MetadataTxnProfilePhase}
  {txn : MetadataTxn} {reply : Option TxnReply} {value : MetadataTxnValue}
  {deviceId commitSeq shardId : Nat}

theorem Commits.phase_of_shardCommit (h : Commits u c es phase txn reply)
    (hmem : (.shardCommit deviceId commitSeq shardId, value) ∈ txn.writes) : phase = .publishBlockCommit := by
  cases h.writeOf hmem with
  | shardCommit commit hphase => exact hphase

/-- What a group has done before it commits, seen from one of its shards. -/
theorem Commits.group (h : Commits u c es phase txn reply)
    (hlast : lastWrite txn.writes (.shardCommit deviceId commitSeq shardId) = some value) :
    ∃ (before reads : List TxnEvent) (r r' : VersionedMetadataTxnValue)
      (manifest : TxnDeviceManifest) (head : TxnShardHead) (groupId newRoot : Nat),
      es = before ++ ⟨.readOne (.deviceManifest deviceId), r⟩ ::
        (reads ++ [⟨.allocPublicCommitSeq, commitSeq⟩, ⟨.allocCommitGroupId, groupId⟩]) ∧
      r.value = some (.deviceManifest manifest) ∧ manifest.live = true ∧
      shardId < manifest.shardCount ∧ headRead deviceId (shardId, r') ∈ reads ∧
      r'.value = some (.deviceShardHead head) ∧ (.deviceShardHead deviceId shardId, r'.version) ∈ txn.reads ∧
      value = .shardCommit ⟨commitSeq, groupId, commitSeq, deviceId, shardId, head.root, newRoot⟩ ∧
      lastWrite txn.writes (.deviceShardHead deviceId shardId) =
        some (.deviceShardHead ⟨newRoot, head.generation + 1, commitSeq⟩) := by
  have hphase := h.phase_of_shardCommit (mem_of_lastWrite hlast)
  subst hphase
  cases h with
  | @publish _ deviceId' before reads r manifest checked commitSeq' groupId updates hcall hvalue hlive
      hreads hchecked hshard =>
    obtain ⟨update, -, heq⟩ | ⟨update, -, heq⟩ | heq := mem_groupWrites (mem_of_lastWrite hlast)
    · cases heq
    · cases heq
      rw [lastWrite_groupWrites_commit] at hlast
      obtain ⟨update', hfind, -⟩ := Option.map_eq_some_iff.1 hlast
      have hhead := lastWrite_groupWrites_head deviceId
        ⟨groupId, commitSeq', .blockDevice deviceId, updates⟩ checked update.shardId
      rw [hfind] at hlast hhead
      have hmem : update' ∈ checked := List.mem_reverse.1 (List.mem_of_find?_eq_some hfind)
      have hid : update'.shardId = update.shardId := by simpa using List.find?_some hfind
      obtain ⟨r', head, hread, hvalue', heq, hroot, hgeneration⟩ := hchecked update' hmem
      have hlt := hshard update' hmem
      rw [hid] at hread heq hlt
      refine ⟨before, reads, r, r', manifest, head, groupId, update'.newRoot, rfl, hvalue, hlive, hlt,
        hread, hvalue', ?_, ?_, ?_⟩
      · rw [← heq]
        exact List.mem_map_of_mem hmem
      · rw [hroot, ← Option.some.inj hlast, ← hid]
      · rw [hhead, Option.map_some, hgeneration]
    · cases heq

theorem Commits.group_of_head (h : Commits u c es .publishBlockCommit txn reply)
    (hlast : lastWrite txn.writes (.deviceShardHead deviceId shardId) = some value) :
    ∃ commitSeq value', lastWrite txn.writes (.shardCommit deviceId commitSeq shardId) = some value' := by
  cases h with
  | @publish _ deviceId' before reads r manifest checked commitSeq groupId updates hcall hvalue hlive
      hreads hchecked hshard =>
    obtain ⟨update, -, heq⟩ | ⟨update, -, heq⟩ | heq := mem_groupWrites (mem_of_lastWrite hlast)
    · cases heq
      rw [lastWrite_groupWrites_head] at hlast
      obtain ⟨update', hfind, -⟩ := Option.map_eq_some_iff.1 hlast
      have hcommit := lastWrite_groupWrites_commit deviceId
        ⟨groupId, commitSeq, .blockDevice deviceId, updates⟩ checked update.shardId
      rw [hfind] at hcommit
      exact ⟨commitSeq, _, hcommit⟩
    · cases heq
    · cases heq

end

/-! ## Groups in a run -/

section

variable {u : Setup} {calls : Nat → TxnCall} {acts acts' : List TxnAct} {act : TxnAct}
  {value : MetadataTxnValue} {deviceId commitSeq shardId : Nat}

theorem Setup.Runs.unwritten {t : Nat} {phase : MetadataTxnProfilePhase} {txn : MetadataTxn}
    {before mid : List TxnAct} {key : MetadataTxnKey}
    (h : u.Runs calls (before ++ mid ++ ⟨t, ⟨.commit phase txn, .ok ()⟩⟩ :: acts'))
    (hcount : (u.stateAfter (before ++ mid)).Counting)
    (hread : (key, ((u.stateAfter before).readOne key).version) ∈ txn.reads) :
    ∀ act ∈ mid, Wrote act key = none := by
  have hcurrent := h.current _ hread
  exact (h.before.version_append hcount key).2.1 hcurrent.symm

/-- A group has seen the head of its shard, has drawn its number then, and has found the head
unchanged. -/
theorem Setup.Runs.group (h : u.Runs calls (acts ++ act :: acts'))
    (hcount : (u.stateAfter (acts ++ act :: acts')).Counting)
    (hw : Wrote act (.shardCommit deviceId commitSeq shardId) = some value) :
    ∃ (seen later : List TxnAct) (head : TxnShardHead) (groupId newRoot : Nat), acts = seen ++ later ∧
      (∀ act ∈ later, Wrote act (.deviceShardHead deviceId shardId) = none) ∧
      (u.stateAfter seen).value (.deviceShardHead deviceId shardId) = some (.deviceShardHead head) ∧
      (u.stateAfter seen).nextPublicCommitSeq ≤ commitSeq ∧
      commitSeq < (u.stateAfter acts).nextPublicCommitSeq ∧
      value = .shardCommit ⟨commitSeq, groupId, commitSeq, deviceId, shardId, head.root, newRoot⟩ ∧
      Wrote act (.deviceShardHead deviceId shardId) =
        some (.deviceShardHead ⟨newRoot, head.generation + 1, commitSeq⟩) := by
  obtain ⟨phase, txn, reply, hact, hlast, hcommits, -⟩ := h.commits_of_wrote hw
  generalize act.thread = t at hact hcommits
  subst hact
  obtain ⟨before, reads, r, r', manifest, head, groupId, newRoot, hown, -, -, -, hread, hvalue, hreads,
    rfl, hhead⟩ := hcommits.group hlast
  obtain ⟨reads1, reads2, rfl⟩ := List.append_of_mem hread
  have hown' : own t acts = (before ++ ⟨.readOne (.deviceManifest deviceId), r⟩ :: reads1) ++
      ⟨.readOne (.deviceShardHead deviceId shardId), r'⟩ :: (reads2 ++
        [⟨.allocPublicCommitSeq, commitSeq⟩, ⟨.allocCommitGroupId, groupId⟩]) := by
    rw [hown]
    simp [headRead]
  obtain ⟨seen, later, rfl, -, hlater, hr'⟩ := h.before.locate hown'
  change r' = (u.stateAfter seen).readOne _ at hr'
  have hcount' := counting_before hcount
  have hdrawn : (⟨t, ⟨.allocPublicCommitSeq, commitSeq⟩⟩ : TxnAct) ∈ later := by
    refine mem_own.1 ?_
    rw [hlater]
    simp
  refine ⟨seen, _, head, groupId, newRoot, rfl, ?_, ?_, ?_, ?_, rfl, hhead⟩
  · rw [hr'] at hreads
    exact h.unwritten hcount' hreads
  · rw [← readOne_value, ← hr', hvalue]
  · -- the number was drawn after the read
    obtain ⟨later1, later2, rfl⟩ := List.append_of_mem hdrawn
    rw [← List.cons_append, ← List.append_assoc] at h hcount'
    have hseq := (h.before.drawn .publicCommitSeq hcount'.publicCommitSeq).1
    rw [hseq]
    exact (ahead_stateAfter seen _).publicCommitSeq
  · exact h.before.drawn_lt .publicCommitSeq hcount'.publicCommitSeq
      (List.mem_append_right _ (List.mem_cons_of_mem _ hdrawn))

theorem Setup.Runs.group_manifest (h : u.Runs calls (acts ++ act :: acts'))
    (hw : Wrote act (.shardCommit deviceId commitSeq shardId) = some value) :
    ∃ (before rest : List TxnAct) (r : VersionedMetadataTxnValue) (manifest : TxnDeviceManifest),
      acts = before ++ ⟨act.thread, ⟨.readOne (.deviceManifest deviceId), r⟩⟩ :: rest ∧
      (u.stateAfter before).value (.deviceManifest deviceId) = some (.deviceManifest manifest) ∧
      manifest.live = true ∧ shardId < manifest.shardCount := by
  obtain ⟨phase, txn, reply, -, hlast, hcommits, -⟩ := h.commits_of_wrote hw
  obtain ⟨before, reads, r, r', manifest, head, groupId, newRoot, hown, hvalue, hlive, hlt, -⟩ :=
    hcommits.group hlast
  obtain ⟨before, rest, rfl, -, -, hr⟩ := h.before.locate hown
  change r = (u.stateAfter before).readOne _ at hr
  exact ⟨before, rest, r, manifest, rfl, by rw [← readOne_value, ← hr, hvalue], hlive, hlt⟩

/-- The head of a shard is written by a group, or by a call that makes the device. -/
theorem Setup.Runs.head_writer (h : u.Runs calls (acts ++ act :: acts'))
    (hw : Wrote act (.deviceShardHead deviceId shardId) = some value) :
    (∃ commitSeq value', Wrote act (.shardCommit deviceId commitSeq shardId) = some value') ∨
      ∃ (head : DeviceHead) (root : Nat) (manifest : TxnDeviceManifest),
        Returned u calls (acts ++ act :: acts') act.thread (.head head) ∧ head.deviceId = deviceId ∧
        head.shardRoots[shardId]? = some root ∧ value = .deviceShardHead ⟨root, 0, head.latestCommit⟩ ∧
        manifest.live = true ∧ Wrote act (.deviceManifest deviceId) = some (.deviceManifest manifest) ∧
        (head.latestCommit = 0 ∨
          (⟨act.thread, ⟨.allocPublicCommitSeq, head.latestCommit⟩⟩ : TxnAct) ∈ acts) := by
  obtain ⟨phase, txn, reply, hact, hlast, hcommits, hreturned⟩ := h.commits_of_wrote hw
  obtain ⟨head, root, rfl, hid, hroot, rfl⟩ | ⟨-, rfl⟩ := hcommits.shardHead (mem_of_lastWrite hlast)
  · obtain ⟨manifest, hlive, hmanifest⟩ := hcommits.makes
    rw [hid] at hmanifest
    refine .inr ⟨head, root, manifest, hreturned _ rfl, hid, hroot, rfl, hlive,
      by rw [hact]; exact hmanifest, ?_⟩
    obtain hzero | hdrawn := hcommits.latestCommit
    · exact .inl hzero
    · exact .inr (mem_own.1 hdrawn)
  · obtain ⟨commitSeq, value', hcommit⟩ := hcommits.group_of_head hlast
    exact .inl ⟨commitSeq, value', by rw [hact]; exact hcommit⟩

/-- The commit of a group, seen from one of its shards: it records the root that the shard has as
the old one and counts on from its generation. -/
def ReplacesHead (u : Setup) (acts : List TxnAct) (act : TxnAct) (deviceId commitSeq shardId : Nat)
    (value : MetadataTxnValue) : Prop :=
  ∃ (head : TxnShardHead) (groupId newRoot : Nat),
    (u.stateAfter acts).value (.deviceShardHead deviceId shardId) = some (.deviceShardHead head) ∧
    value = .shardCommit ⟨commitSeq, groupId, commitSeq, deviceId, shardId, head.root, newRoot⟩ ∧
    (u.stateAfter (acts ++ [act])).value (.deviceShardHead deviceId shardId) =
      some (.deviceShardHead ⟨newRoot, head.generation + 1, commitSeq⟩)

theorem group_replaces_head (h : u.Runs calls (acts ++ act :: acts'))
    (hcount : (u.stateAfter (acts ++ act :: acts')).Counting)
    (hw : Wrote act (.shardCommit deviceId commitSeq shardId) = some value) :
    ReplacesHead u acts act deviceId commitSeq shardId value := by
  obtain ⟨seen, later, head, groupId, newRoot, rfl, hlater, hseen, -, -, rfl, hhead⟩ := h.group hcount hw
  have hsame := value_eq_of_entries_eq (h.before.entries_append hlater)
  exact ⟨head, groupId, newRoot, hsame.trans hseen, rfl, h.upto.value_of_wrote hhead⟩

def createAndWrite : Nat → TxnCall
  | 0 => .createDevice ⟨4, 4⟩
  | _ => .writeDevice 1 4 [1, 2, 3, 4] .acknowledged .unchecked

def writeTurns : List Nat := List.replicate 5 0 ++ List.replicate 14 1

theorem group_replaces_head_write : ∃ acts act value,
    Wrote act (.shardCommit 1 1 0) = some value ∧ ReplacesHead twoShards acts act 1 1 0 value := by
  have hrun := twoShards.runs_schedule createAndWrite writeTurns
  have hcount : (twoShards.stateAfter
      (twoShards.schedule createAndWrite writeTurns).acts).Counting := by
    rw [Setup.stateAfter_schedule]
    decide +kernel
  have hwrote : ((twoShards.schedule createAndWrite writeTurns).acts[17]?.bind
      (Wrote · (.shardCommit 1 1 0))).isSome := by decide +kernel
  obtain ⟨value, hwrote⟩ := Option.isSome_iff_exists.1 hwrote
  obtain ⟨act, hact, hw⟩ := Option.bind_eq_some_iff.1 hwrote
  obtain ⟨acts, acts', heq, -⟩ := exists_append_of_getElem? hact
  rw [heq] at hrun hcount
  exact ⟨acts, act, value, hw, group_replaces_head hrun hcount hw⟩

end

end CowStore.Txn
