import CowStore.Txn.Commits

/-!
# What the commits of a run write

Which calls write which keys: manifests are written by the calls that make a device and by
deletes, heads by the calls that make a device and by commit groups.
-/

namespace CowStore.Txn

open Lib Object Local TwoPhase Script

/-! ## The keys of a commit -/

section

variable {u : Setup} {c : TxnCall} {es : List TxnEvent} {phase : MetadataTxnProfilePhase}
  {txn : MetadataTxn} {reply : Option TxnReply} {value : MetadataTxnValue}

variable {write : MetadataTxnKey × MetadataTxnValue} {deviceId : Nat}

theorem mem_shardWrites {shards : List (Nat × List MetadataNode)} (h : write ∈ shardWrites deviceId shards) :
    (∃ node, write = nodeWrite node ∧ ∃ shard ∈ shards, node ∈ shard.2) ∨
      ∃ shard root, write = headWrite deviceId shard root 0 0 ∧ (shards.map (·.1))[shard]? = some root := by
  obtain ⟨⟨shard, i⟩, hmem, hwrite⟩ := List.mem_flatMap.1 h
  have hi : shards[i]? = some shard := List.mem_zipIdx_iff_getElem?.1 hmem
  obtain hnode | hhead := List.mem_append.1 hwrite
  · obtain ⟨node, hmem', rfl⟩ := List.mem_map.1 hnode
    exact .inl ⟨node, rfl, shard, List.mem_of_getElem? hi, hmem'⟩
  · rw [List.mem_singleton] at hhead
    exact .inr ⟨i, shard.1, hhead, by rw [List.getElem?_map, hi]; rfl⟩

theorem mem_targetWrites {target commitSeq : Nat} {source : TxnDeviceManifest} {roots : List Nat}
    (h : write ∈ targetWrites target source roots commitSeq) :
    write = manifestWrite target ⟨source.spec, source.shardCount, true⟩ ∨
      ∃ shard root, write = headWrite target shard root 0 commitSeq ∧ roots[shard]? = some root := by
  obtain hmanifest | hhead := List.mem_cons.1 h
  · exact .inl hmanifest
  · obtain ⟨⟨root, shard⟩, hmem, rfl⟩ := List.mem_map.1 hhead
    exact .inr ⟨shard, root, rfl, List.mem_zipIdx_iff_getElem?.1 hmem⟩

theorem mem_groupWrites {group : CommitGroup} {updates : List ShardUpdate}
    (h : write ∈ groupWrites deviceId group updates) : (∃ update ∈ updates, write =
        headWrite deviceId update.shardId update.newRoot update.generation group.commitSeq) ∨
      (∃ update ∈ updates, write = (.shardCommit deviceId group.commitSeq update.shardId,
        .shardCommit ⟨group.commitSeq, group.commitGroup, group.commitSeq, deviceId, update.shardId,
          update.oldRoot, update.newRoot⟩)) ∨
      write = (.commitGroup group.commitGroup, .commitGroup group) := by
  simp only [groupWrites, List.mem_append, List.mem_map, List.mem_singleton] at h
  obtain (⟨update, hmem, rfl⟩ | ⟨update, hmem, rfl⟩) | rfl := h
  · exact .inl ⟨update, hmem, rfl⟩
  · exact .inr (.inl ⟨update, hmem, rfl⟩)
  · exact .inr (.inr rfl)

/-- The writes of a commit: those of a call that makes a device, of a commit group, of a
checkpoint and of a delete. -/
inductive WriteOf (u : Setup) (c : TxnCall) (es : List TxnEvent) (phase : MetadataTxnProfilePhase)
    (txn : MetadataTxn) (reply : Option TxnReply) : MetadataTxnKey → MetadataTxnValue → Prop
  | node {node : MetadataNode} (hdrawn : (∃ segments, c = .persistMetadataNode node segments) ∨
        ⟨.allocMetadataNodeId, node.nodeId⟩ ∈ es)
      (hnew : (∃ y, reply = some y) ∨ ∃ r : VersionedMetadataTxnValue,
        ⟨.readOne (.metadataNode node.nodeId), r⟩ ∈ es ∧ r.value = none ∧
        (.metadataNode node.nodeId, r.version) ∈ txn.reads) :
      WriteOf u c es phase txn reply (.metadataNode node.nodeId) (.metadataNode node)
  | made {head : DeviceHead} {manifest : TxnDeviceManifest} (hreply : reply = some (.head head))
      (hlive : manifest.live = true)
      (hcount : manifest.shardCount = u.config.shardCount ∨
        ∃ (deviceId : Nat) (r : VersionedMetadataTxnValue) (manifest' : TxnDeviceManifest),
          ⟨.readOne (.deviceManifest deviceId), r⟩ ∈ es ∧ r.value = some (.deviceManifest manifest') ∧
          manifest'.shardCount = manifest.shardCount) :
      WriteOf u c es phase txn reply (.deviceManifest head.deviceId) (.deviceManifest manifest)
  | madeHead {head : DeviceHead} {shardId root : Nat} (hreply : reply = some (.head head))
      (hroot : head.shardRoots[shardId]? = some root) :
      WriteOf u c es phase txn reply (.deviceShardHead head.deviceId shardId)
        (.deviceShardHead ⟨root, 0, head.latestCommit⟩)
  | madeCheckpoint {head : DeviceHead} {checkpointId : Nat} (hreply : reply = some (.head head))
      (hdrawn : ⟨.allocCheckpointId, checkpointId⟩ ∈ es) :
      WriteOf u c es phase txn reply (.checkpoint checkpointId)
        (.checkpoint ⟨checkpointId, head.latestCommit, head.latestCommit, .blockDevice head.deviceId,
          .blockShard head.shardRoots⟩)
  | forkRecord (record : ForkRecord) :
      WriteOf u c es phase txn reply (.forkRecord record.commitSeq) (.forkRecord record)
  | groupHead {deviceId shardId : Nat} {head : TxnShardHead} (hcall : c.publishes = some deviceId)
      (hphase : phase = .publishBlockCommit) :
      WriteOf u c es phase txn reply (.deviceShardHead deviceId shardId) (.deviceShardHead head)
  | shardCommit (commit : ShardCommit) (hphase : phase = .publishBlockCommit) :
      WriteOf u c es phase txn reply (.shardCommit commit.deviceId commit.commitSeq commit.shardId)
        (.shardCommit commit)
  | commitGroup (group : CommitGroup) :
      WriteOf u c es phase txn reply (.commitGroup group.commitGroup) (.commitGroup group)
  | checkpoint {checkpointId deviceId commitSeq : Nat} {roots : List Nat} (hcall : c = .checkpoint deviceId)
      (hreply : reply = some (.checkpoint checkpointId))
      (hdrawn : ⟨.allocCheckpointId, checkpointId⟩ ∈ es) :
      WriteOf u c es phase txn reply (.checkpoint checkpointId)
        (.checkpoint ⟨checkpointId, commitSeq, commitSeq, .blockDevice deviceId, .blockShard roots⟩)
  | deleted {deviceId : Nat} {r : VersionedMetadataTxnValue} {manifest : TxnDeviceManifest}
      (hcall : c = .deleteDevice deviceId) (hread : ⟨.readOne (.deviceManifest deviceId), r⟩ ∈ es)
      (hvalue : r.value = some (.deviceManifest manifest)) (hlive : manifest.live = true)
      (hcurrent : (.deviceManifest deviceId, r.version) ∈ txn.reads) :
      WriteOf u c es phase txn reply (.deviceManifest deviceId)
        (.deviceManifest { manifest with live := false })
  | deleteRecord (record : DeleteRecord) (hcall : c = .deleteDevice record.deviceId) :
      WriteOf u c es phase txn reply (.deleteRecord record.commitSeq) (.deleteRecord record)

theorem Commits.writeOf {key : MetadataTxnKey} (h : Commits u c es phase txn reply)
    (hmem : (key, value) ∈ txn.writes) : WriteOf u c es phase txn reply key value := by
  cases h with
  | create hdrawn hshards hnodes =>
    simp only [List.mem_append, List.mem_cons, List.not_mem_nil, or_false] at hmem
    obtain hmem | hmem | hmem := hmem
    · obtain ⟨node, heq, shard, hshard, hnode⟩ | ⟨shard, root, heq, hroot⟩ := mem_shardWrites hmem
      · cases heq
        refine .node (.inr ?_) (.inl ⟨_, rfl⟩)
        exact List.mem_cons_of_mem _ (List.mem_append_left _ (hnodes shard hshard node hnode))
      · cases heq
        exact .madeHead rfl hroot
    · cases hmem
      exact .made rfl rfl (.inl rfl)
    · cases hmem
      exact .madeCheckpoint rfl (by simp)
  | persist hcall hvalue hdrawn =>
    cases List.mem_singleton.1 hmem
    refine .node (hdrawn.imp_right (List.mem_append_left _)) (.inr ⟨_, ?_, hvalue, ?_⟩)
    · exact List.mem_append_right _ List.mem_cons_self
    · exact List.mem_cons_self
  | publish hcall hvalue hlive hreads hchecked hshard =>
    obtain ⟨update, -, heq⟩ | ⟨update, -, heq⟩ | heq := mem_groupWrites hmem
    · cases heq
      exact .groupHead hcall rfl
    · cases heq
      exact .shardCommit ⟨_, _, _, _, _, _, _⟩ rfl
    · cases heq
      exact .commitGroup ⟨_, _, _, _⟩
  | checkpoint hvalue hlive hreads =>
    cases List.mem_singleton.1 hmem
    exact .checkpoint rfl rfl (by simp)
  | fork hvalue hlive hvalue' hreads hchosen =>
    simp only [List.mem_append, List.mem_cons, List.not_mem_nil, or_false] at hmem
    obtain hmem | hmem | hmem := hmem
    · obtain heq | ⟨shard, root, heq, hroot⟩ := mem_targetWrites hmem
      · cases heq
        exact .made rfl rfl (.inr ⟨_, _, _, List.mem_cons_self, hvalue, rfl⟩)
      · cases heq
        exact .madeHead rfl hroot
    · cases hmem
      exact .forkRecord ⟨_, _, _, _⟩
    · cases hmem
      exact .madeCheckpoint rfl (by simp)
  | restore hvalue hlive hresolved hreplayed =>
    simp only [List.mem_append, List.mem_singleton] at hmem
    obtain hmem | hmem := hmem
    · obtain heq | ⟨shard, root, heq, hroot⟩ := mem_targetWrites hmem
      · cases heq
        exact .made rfl rfl (.inr ⟨_, _, _, List.mem_cons_self, hvalue, rfl⟩)
      · cases heq
        exact .madeHead rfl hroot
    · cases hmem
      exact .madeCheckpoint rfl (by simp)
  | delete hvalue hlive hvalue' hreads =>
    simp only [List.mem_cons, List.not_mem_nil, or_false] at hmem
    obtain hmem | hmem := hmem
    · cases hmem
      exact .deleted rfl (by simp) hvalue hlive (by simp)
    · cases hmem
      exact .deleteRecord ⟨_, _, _, _⟩ rfl

/-- A manifest is written by the call that makes the device, or by one that deletes it. -/
theorem Commits.manifest (h : Commits u c es phase txn reply)
    (hmem : (.deviceManifest deviceId, value) ∈ txn.writes) :
    (∃ head manifest, reply = some (.head head) ∧ head.deviceId = deviceId ∧
      value = .deviceManifest manifest ∧ manifest.live = true) ∨
    ∃ (r : VersionedMetadataTxnValue) (manifest : TxnDeviceManifest), c = .deleteDevice deviceId ∧
      ⟨.readOne (.deviceManifest deviceId), r⟩ ∈ es ∧ r.value = some (.deviceManifest manifest) ∧
      manifest.live = true ∧ value = .deviceManifest { manifest with live := false } ∧
      (.deviceManifest deviceId, r.version) ∈ txn.reads := by
  cases h.writeOf hmem with
  | made hreply hlive hcount => exact .inl ⟨_, _, hreply, rfl, rfl, hlive⟩
  | deleted hcall hread hvalue hlive hcurrent =>
    exact .inr ⟨_, _, hcall, hread, hvalue, hlive, rfl, hcurrent⟩

theorem Commits.shardCount {manifest : TxnDeviceManifest} (h : Commits u c es phase txn reply)
    (hmem : (.deviceManifest deviceId, .deviceManifest manifest) ∈ txn.writes) :
    manifest.shardCount = u.config.shardCount ∨
      ∃ (deviceId' : Nat) (r : VersionedMetadataTxnValue) (manifest' : TxnDeviceManifest),
        ⟨.readOne (.deviceManifest deviceId'), r⟩ ∈ es ∧ r.value = some (.deviceManifest manifest') ∧
        manifest'.shardCount = manifest.shardCount := by
  cases h.writeOf hmem with
  | made hreply hlive hcount => exact hcount
  | deleted hcall hread hvalue hlive hcurrent => exact .inr ⟨_, _, _, hread, hvalue, rfl⟩

/-- A head is written by the call that makes the device, or by a commit group of the device. -/
theorem Commits.shardHead {shardId : Nat} (h : Commits u c es phase txn reply)
    (hmem : (.deviceShardHead deviceId shardId, value) ∈ txn.writes) :
    (∃ head root, reply = some (.head head) ∧ head.deviceId = deviceId ∧
      head.shardRoots[shardId]? = some root ∧ value = .deviceShardHead ⟨root, 0, head.latestCommit⟩) ∨
    c.publishes = some deviceId ∧ phase = .publishBlockCommit := by
  cases h.writeOf hmem with
  | madeHead hreply hroot => exact .inl ⟨_, _, hreply, rfl, hroot, rfl⟩
  | groupHead hcall hphase => exact .inr ⟨hcall, hphase⟩

theorem Commits.makes {head : DeviceHead} (h : Commits u c es phase txn (some (.head head))) :
    ∃ manifest : TxnDeviceManifest, manifest.live = true ∧
      lastWrite txn.writes (.deviceManifest head.deviceId) = some (.deviceManifest manifest) := by
  have hwritten : ∃ value, lastWrite txn.writes (.deviceManifest head.deviceId) = some value := by
    rw [← Option.isSome_iff_exists, Option.isSome_iff_ne_none, Ne, lastWrite_eq_none]
    intro hnone
    cases h with
    | create hdrawn hshards hnodes =>
      exact hnone _ (List.mem_append_right _ List.mem_cons_self) rfl
    | fork hvalue hlive hvalue' hreads hchosen =>
      exact hnone _ (List.mem_append_left _ List.mem_cons_self) rfl
    | restore hvalue hlive hresolved hreplayed =>
      exact hnone _ (List.mem_append_left _ List.mem_cons_self) rfl
  obtain ⟨value, hvalue⟩ := hwritten
  obtain ⟨head', manifest, -, -, rfl, hlive⟩ | ⟨r, manifest, rfl, -⟩ :=
    h.manifest (mem_of_lastWrite hvalue)
  · exact ⟨manifest, hlive, hvalue⟩
  · cases h

theorem Commits.latestCommit {head : DeviceHead} (h : Commits u c es phase txn (some (.head head))) :
    head.latestCommit = 0 ∨ ⟨.allocPublicCommitSeq, head.latestCommit⟩ ∈ es := by
  cases h with
  | create hdrawn hshards hnodes => exact .inl rfl
  | fork hvalue hlive hvalue' hreads hchosen => exact .inr (by simp)
  | restore hvalue hlive hresolved hreplayed => exact .inr (by simp)

theorem Commits.quiet {y : TxnReply} (h : Commits u c es phase txn (some y)) :
    ∀ e ∈ es, e.1.isCommit = false := by
  have hcaptured : ∀ {deviceId shards heads reads}, Captured deviceId shards heads reads →
      ∀ e ∈ reads, e.1.isCommit = false := by
    rintro deviceId shards heads reads ⟨capture, rfl, -, -⟩ e he
    obtain ⟨read, -, rfl⟩ := List.mem_map.1 he
    rfl
  cases h with
  | create hdrawn hshards hnodes =>
    simp only [List.forall_mem_cons, List.forall_mem_append, List.not_mem_nil, false_implies,
      implies_true, and_true]
    exact ⟨rfl, fun e he => by rw [hdrawn e he]; rfl, rfl⟩
  | checkpoint hvalue hlive hreads =>
    simp only [List.forall_mem_cons, List.forall_mem_append, List.not_mem_nil, false_implies,
      implies_true, and_true]
    exact ⟨rfl, hcaptured hreads, rfl⟩
  | fork hvalue hlive hvalue' hreads hchosen =>
    simp only [List.forall_mem_cons, List.forall_mem_append, List.not_mem_nil, false_implies,
      implies_true, and_true]
    refine ⟨rfl, rfl, hcaptured hreads, ?_, rfl, rfl⟩
    obtain ⟨-, rfl⟩ | ⟨-, rfl⟩ := hchosen
    · simp
    · simp [TxnReq.isCommit]
  | restore hvalue hlive hresolved hreplayed =>
    simp only [List.forall_mem_cons, List.forall_mem_append, List.not_mem_nil, false_implies,
      implies_true, and_true]
    exact ⟨rfl, (quiet_targetCommitForRestore.steps hresolved).1,
      (quiet_replayDeviceRoots.steps hreplayed).1, rfl, rfl, rfl⟩
  | delete hvalue hlive hvalue' hreads =>
    simp only [List.forall_mem_cons, List.forall_mem_append, List.not_mem_nil, false_implies,
      implies_true, and_true]
    exact ⟨rfl, rfl, hcaptured hreads, rfl⟩

end

/-! ## Captures -/

theorem Captured.length_eq {deviceId : Nat} {shards : List Nat} {heads : List TxnShardHead}
    {reads : List TxnEvent} (h : Captured deviceId shards heads reads) : heads.length = shards.length := by
  obtain ⟨capture, -, rfl, hheads⟩ := h
  have hlen := congrArg List.length hheads
  rw [List.length_map, List.length_map] at hlen
  rw [List.length_map, hlen]

theorem Captured.read {deviceId n shardId : Nat} {heads : List TxnShardHead} {reads : List TxnEvent}
    {head : TxnShardHead} (h : Captured deviceId (List.range n) heads reads)
    (hhead : heads[shardId]? = some head) : ∃ (r : VersionedMetadataTxnValue) (reads₁ reads₂ : List TxnEvent),
      reads = reads₁ ++ ⟨.readOne (.deviceShardHead deviceId shardId), r⟩ :: reads₂ ∧
      reads₁.length = shardId ∧ r.value = some (.deviceShardHead head) := by
  have hlen := h.length_eq
  obtain ⟨capture, rfl, hshards, hheads⟩ := h
  have hlt : shardId < heads.length := (List.getElem?_eq_some_iff.1 hhead).1
  have hcapture : capture.length = heads.length := by
    rw [hlen, ← hshards, List.length_map]
  obtain ⟨⟨shard, r⟩, hr⟩ : ∃ read, capture[shardId]? = some read :=
    ⟨_, List.getElem?_eq_getElem (by omega)⟩
  have hshard : shard = shardId := by
    have heq := congrArg (·[shardId]?) hshards
    simp only [List.getElem?_map, hr, Option.map_some] at heq
    rw [List.getElem?_range (by rw [List.length_range] at hlen; omega)] at heq
    exact Option.some.inj heq
  have hvalue : r.value = some (.deviceShardHead head) := by
    have heq := congrArg (·[shardId]?) hheads
    simp only [List.getElem?_map, hr, hhead, Option.map_some] at heq
    exact Option.some.inj heq
  subst hshard
  obtain ⟨capture1, capture2, rfl, hlen1⟩ := exists_append_of_getElem? hr
  exact ⟨r, capture1.map (headRead deviceId), capture2.map (headRead deviceId),
    by rw [List.map_append, List.map_cons]; rfl, by rw [List.length_map, hlen1], hvalue⟩

/-! ## Commits in a run -/

section

variable {u : Setup} {calls : Nat → TxnCall} {acts acts' : List TxnAct} {act : TxnAct} {t : Nat}
  {phase : MetadataTxnProfilePhase} {txn : MetadataTxn} {x : Result Unit}

def Returned (u : Setup) (calls : Nat → TxnCall) (acts : List TxnAct) (t : Nat) (reply : TxnReply) :
    Prop :=
  Returns ((calls t).script u.config u.mode) (own t acts) reply

/-- What stands behind a commit of a run, and that a call that only has to return after it
has returned. -/
theorem Setup.Runs.commits (h : u.Runs calls (acts ++ ⟨t, ⟨.commit phase txn, x⟩⟩ :: acts')) :
    ∃ reply, Commits u (calls t) (own t acts) phase txn reply ∧ (x = .ok () → ∀ y, reply = some y →
        Returned u calls (acts ++ ⟨t, ⟨.commit phase txn, x⟩⟩ :: acts') t y) := by
  obtain ⟨q, hq⟩ := h.follows t
  rw [own_append_cons] at hq
  obtain ⟨p, hp, hrest⟩ := steps_append.1 hq
  cases hrest with
  | @cons _ next _ _ _ hrest =>
    obtain ⟨reply, hcommits, hreply⟩ := commits_of_steps hp
    refine ⟨reply, hcommits, ?_⟩
    rintro rfl y rfl
    rw [hreply y rfl] at hrest
    have hdone : own t acts' = [] ∧ q = done y := by
      cases hrest' : own t acts' with
      | nil =>
        rw [hrest'] at hrest
        cases hrest
        exact ⟨rfl, rfl⟩
      | cons e es =>
        rw [hrest'] at hrest
        cases hrest
    rw [Returned, own_append_cons, hdone.1]
    exact Steps.append hp (.cons (by rw [hreply y rfl]; exact .nil _))

/-- A commit went through because its read set was unchanged. -/
theorem Setup.Runs.current (h : u.Runs calls (acts ++ ⟨t, ⟨.commit phase txn, .ok ()⟩⟩ :: acts')) :
    Current (u.stateAfter acts).entries txn :=
  TxnState.commit_fst.1 h.answer.symm

theorem Setup.Runs.commits_of_wrote (h : u.Runs calls (acts ++ act :: acts')) {key : MetadataTxnKey}
    {value : MetadataTxnValue} (hw : Wrote act key = some value) :
    ∃ phase txn reply, act = ⟨act.thread, ⟨.commit phase txn, .ok ()⟩⟩ ∧
      lastWrite txn.writes key = some value ∧
      Commits u (calls act.thread) (own act.thread acts) phase txn reply ∧
      ∀ y, reply = some y → Returned u calls (acts ++ act :: acts') act.thread y := by
  obtain ⟨phase, txn, hact, hlast⟩ := commit_of_wrote hw
  rw [hact] at h
  obtain ⟨reply, hcommits, hreturned⟩ := h.commits
  refine ⟨phase, txn, reply, hact, hlast, hcommits, ?_⟩
  rw [hact]
  exact hreturned rfl

theorem Returned.commit {reply : TxnReply} (h : Returned u calls acts t reply)
    (hreply : reply.afterCommit = true) :
    ∃ before phase txn rest, acts = before ++ ⟨t, ⟨.commit phase txn, .ok ()⟩⟩ :: rest ∧
      own t rest = [] ∧ Commits u (calls t) (own t before) phase txn (some reply) := by
  obtain ⟨es, phase, txn, hown, hcommits⟩ := commits_of_returns hreply h
  obtain ⟨before, rest, rfl, rfl, hrest⟩ := own_eq_append_cons hown
  exact ⟨before, phase, txn, rest, rfl, hrest, hcommits⟩

/-- A device that is there was made by a call that has returned. -/
theorem Setup.Runs.made {deviceId : Nat} (h : u.Runs calls (acts ++ acts'))
    (hvalue : (u.stateAfter acts).value (.deviceManifest deviceId) ≠ none) :
    ∃ t head phase txn, Returned u calls (acts ++ acts') t (.head head) ∧ head.deviceId = deviceId ∧
      (⟨t, ⟨.commit phase txn, .ok ()⟩⟩ : TxnAct) ∈ acts := by
  -- a delete has read the manifest earlier, so the length of the run decreases
  induction hlen : acts.length using Nat.strong_induction_on generalizing acts acts' with
  | _ n ih =>
    subst hlen
    obtain ⟨value, hvalue⟩ := Option.ne_none_iff_exists'.1 hvalue
    obtain ⟨before, act, rest, rfl, hw, -⟩ := h.before.writer hvalue
    rw [List.append_assoc, List.cons_append] at h ⊢
    obtain ⟨phase, txn, reply, hact, hlast, hcommits, hreturned⟩ := h.commits_of_wrote hw
    obtain ⟨head, manifest, rfl, hid, -⟩ | ⟨r, manifest, -, hread, hr, -⟩ :=
      hcommits.manifest (mem_of_lastWrite hlast)
    · refine ⟨act.thread, head, phase, txn, hreturned _ rfl, hid, ?_⟩
      rw [← hact]
      simp
    · obtain ⟨earlier, later, hbefore⟩ := List.append_of_mem (mem_own.1 hread)
      subst hbefore
      rw [List.append_assoc, List.cons_append] at h ⊢
      have hanswer : r = (u.stateAfter earlier).readOne (.deviceManifest deviceId) := h.answer
      obtain ⟨t, head, phase, txn, hreturned, hid, hmem⟩ := ih earlier.length
        (by simp only [List.length_append, List.length_cons]; omega) h
        (by rw [← readOne_value, ← hanswer, hr]; exact Option.some_ne_none _) rfl
      exact ⟨t, head, phase, txn, hreturned, hid, by simp [hmem]⟩

theorem Setup.Runs.shardCount {deviceId : Nat} {manifest : TxnDeviceManifest} (h : u.Runs calls acts)
    (hvalue : (u.stateAfter acts).value (.deviceManifest deviceId) = some (.deviceManifest manifest)) :
    manifest.shardCount = u.config.shardCount := by
  -- a manifest that was not made from the configuration was made from one that was read earlier
  induction hlen : acts.length using Nat.strong_induction_on generalizing acts deviceId manifest with
  | _ n ih =>
    subst hlen
    obtain ⟨before, act, rest, rfl, hw, -⟩ := h.writer hvalue
    obtain ⟨phase, txn, reply, -, hlast, hcommits, -⟩ := h.commits_of_wrote hw
    obtain hcount | ⟨deviceId', r, manifest', hread, hr, heq⟩ :=
      hcommits.shardCount (mem_of_lastWrite hlast)
    · exact hcount
    · obtain ⟨earlier, later, rfl⟩ := List.append_of_mem (mem_own.1 hread)
      have hanswer : r = (u.stateAfter earlier).readOne (.deviceManifest deviceId') := h.before.answer
      rw [← heq]
      exact ih earlier.length (by simp only [List.length_append, List.length_cons]; omega)
        h.before.before (by rw [← readOne_value, ← hanswer, hr]) rfl

end

/-! ## Schedules -/

namespace Setup

variable (u : Setup) (calls : Nat → TxnCall) (turns : List Nat)

def schedule : Progress TxnReq TxnAns StorageError TxnReply TxnState :=
  Lib.schedule u.serve (fun t => (calls t).script u.config u.mode) (.new u.nodes) turns

theorem runs_schedule : u.Runs calls (u.schedule calls turns).acts :=
  (schedule_spec u.serve _ _ turns).1

theorem stateAfter_schedule : u.stateAfter (u.schedule calls turns).acts = (u.schedule calls turns).state :=
  (schedule_spec u.serve _ _ turns).2.1

variable {u calls turns}

theorem returned_schedule {t : Nat} {reply : TxnReply}
    (h : ((u.schedule calls turns).scripts t).result? = some reply) :
    Returned u calls (u.schedule calls turns).acts t reply := by
  have hsteps : ((calls t).script u.config u.mode).Steps (own t (u.schedule calls turns).acts)
      ((u.schedule calls turns).scripts t) :=
    (schedule_spec u.serve (fun t => (calls t).script u.config u.mode) _ turns).2.2 t
  rw [eq_done_of_result? h] at hsteps
  exact hsteps

end Setup

/-- Two shards, blocks of four bytes, one storage node. -/
def twoShards : Setup where
  crc := fun _ => 0
  config := ⟨2, 4, 4, 2, 2, 1, 16, none⟩
  mode := .sharded 2
  nodes := ⟨[1], 0, 1, ∅, ∅⟩

end CowStore.Txn
