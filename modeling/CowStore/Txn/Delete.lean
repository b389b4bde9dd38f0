import CowStore.Txn.Groups

/-!
# Deletes

A delete has the manifest in its read set but not the heads that it records, and a commit
group has its heads in its read set but not the manifest that it found live.  So neither
stops the other: a delete is final, and records the last roots, only where no delete comes
between a group and its look at the manifest, and no group between a delete and its look at
the heads.
-/

namespace CowStore.Txn

open Lib Local TwoPhase

/-- The heads of the device have these roots, one for each of its shards. -/
def HasRoots (s : TxnState) (deviceId : Nat) (roots : List Nat) : Prop :=
  ∃ manifest : TxnDeviceManifest,
    s.value (.deviceManifest deviceId) = some (.deviceManifest manifest) ∧
    roots.length = manifest.shardCount ∧
    ∀ (shardId root : Nat), roots[shardId]? = some root → ∃ head : TxnShardHead,
      s.value (.deviceShardHead deviceId shardId) = some (.deviceShardHead head) ∧ head.root = root

/-- No deleted device is made again, no delete comes between a group and its look at the
manifest, and no group of a shard between a delete and its look at the head of the shard. -/
structure DeletesAlone (u : Setup) (acts : List TxnAct) : Prop where
  unrevived : ∀ before act rest deviceId manifest manifest', acts = before ++ act :: rest →
    Wrote act (.deviceManifest deviceId) = some (.deviceManifest manifest) → manifest.live = true →
    (u.stateAfter before).value (.deviceManifest deviceId) = some (.deviceManifest manifest') →
    manifest'.live = true
  published : ∀ before t deviceId r mid e rest commitSeq shardId value,
    acts = before ++ ⟨t, ⟨.readOne (.deviceManifest deviceId), r⟩⟩ :: (mid ++ ⟨t, e⟩ :: rest) →
    Wrote ⟨t, e⟩ (.shardCommit deviceId commitSeq shardId) = some value →
    ∀ act ∈ mid, ∀ commitSeq' record,
      Wrote act (.deleteRecord commitSeq') = some (.deleteRecord record) → record.deviceId ≠ deviceId
  deleted : ∀ before t deviceId shardId r mid e rest commitSeq record,
    acts = before ++ ⟨t, ⟨.readOne (.deviceShardHead deviceId shardId), r⟩⟩ :: (mid ++ ⟨t, e⟩ :: rest) →
    Wrote ⟨t, e⟩ (.deleteRecord commitSeq) = some (.deleteRecord record) → record.deviceId = deviceId →
    ∀ act ∈ mid, ∀ commitSeq', Wrote act (.shardCommit deviceId commitSeq' shardId) = none

/-! ## Deletes in a run -/

theorem Commits.deleteRecord {u : Setup} {c : TxnCall} {es : List TxnEvent}
    {phase : MetadataTxnProfilePhase} {txn : MetadataTxn} {reply : Option TxnReply} {commitSeq : Nat}
    {record : DeleteRecord} (h : Commits u c es phase txn reply)
    (hmem : (.deleteRecord commitSeq, .deleteRecord record) ∈ txn.writes) :
    ∃ (r r' : VersionedMetadataTxnValue) (manifest manifest' : TxnDeviceManifest)
      (heads : List TxnShardHead) (reads : List TxnEvent),
      es = ⟨.readOne (.deviceManifest record.deviceId), r⟩ ::
        ⟨.readOne (.deviceManifest record.deviceId), r'⟩ :: (reads ++ [⟨.allocPublicCommitSeq, commitSeq⟩]) ∧
      r.value = some (.deviceManifest manifest) ∧ r'.value = some (.deviceManifest manifest') ∧
      Captured record.deviceId (List.range manifest'.shardCount) heads reads ∧
      record.shardRoots = heads.map TxnShardHead.root ∧
      (.deviceManifest record.deviceId, r.version) ∈ txn.reads ∧
      lastWrite txn.writes (.deviceManifest record.deviceId) =
        some (.deviceManifest { manifest with live := false }) := by
  obtain ⟨deviceId, rfl⟩ : ∃ deviceId, c = .deleteDevice deviceId := by
    cases h.writeOf hmem with
    | deleteRecord record hcall => exact ⟨record.deviceId, hcall⟩
  cases h with
  | persist hcall hvalue hdrawn => cases hcall
  | publish hcall hvalue hlive hreads hchecked hshard => cases hcall
  | delete hvalue hlive hvalue' hreads =>
    obtain heq | hmem := List.mem_cons.1 hmem
    · cases heq
    · cases List.mem_singleton.1 hmem
      exact ⟨_, _, _, _, _, _, rfl, hvalue, hvalue', hreads, rfl, by simp,
        by simp [lastWrite_cons, manifestWrite]⟩

section

variable {u : Setup} {calls : Nat → TxnCall} {acts : List TxnAct}

def Dead (s : TxnState) (deviceId : Nat) : Prop :=
  ∃ manifest : TxnDeviceManifest,
    s.value (.deviceManifest deviceId) = some (.deviceManifest manifest) ∧ manifest.live = false

variable {record : DeleteRecord} {before rest : List TxnAct} {commitSeq : Nat} {act : TxnAct}

theorem Setup.Runs.dead_of_delete (h : u.Runs calls (before ++ act :: rest))
    (hw : Wrote act (.deleteRecord commitSeq) = some (.deleteRecord record)) :
    Dead (u.stateAfter (before ++ [act])) record.deviceId := by
  obtain ⟨phase, txn, reply, hact, hlast, hcommits, -⟩ := h.commits_of_wrote hw
  obtain ⟨r, r', manifest, manifest', heads, reads, -, -, -, -, -, -, hmanifest⟩ :=
    hcommits.deleteRecord (mem_of_lastWrite hlast)
  refine ⟨{ manifest with live := false }, h.upto.value_of_wrote ?_, rfl⟩
  rw [hact]
  exact hmanifest

theorem DeletesAlone.dead (halone : DeletesAlone u acts) {mid : List TxnAct} {deviceId : Nat}
    (hacts : acts = before ++ mid ++ rest) (h : u.Runs calls (before ++ mid))
    (hdead : Dead (u.stateAfter before) deviceId) : Dead (u.stateAfter (before ++ mid)) deviceId := by
  induction mid using List.reverseRecOn generalizing rest with
  | nil => rwa [List.append_nil]
  | append_singleton mid act ih =>
    rw [← List.append_assoc] at h ⊢
    have hsplit : acts = (before ++ mid) ++ act :: rest := by rw [hacts]; simp
    obtain ⟨manifest, hvalue, hlive⟩ := ih hsplit h.before
    cases hw : Wrote act (.deviceManifest deviceId) with
    | none => exact ⟨manifest, by rw [h.value_concat, hw]; exact hvalue, hlive⟩
    | some value =>
      obtain ⟨phase, txn, reply, -, hlast, hcommits, -⟩ := h.commits_of_wrote hw
      obtain ⟨head, made, -, -, rfl, hmade⟩ | ⟨r, made, -, -, -, -, rfl, -⟩ :=
        hcommits.manifest (mem_of_lastWrite hlast)
      · have hcontra := halone.unrevived _ _ _ _ _ _ hsplit hw hmade hvalue
        rw [hlive] at hcontra
        cases hcontra
      · exact ⟨_, h.value_of_wrote hw, rfl⟩

theorem DeletesAlone.last (halone : DeletesAlone u acts) (h : u.Runs calls acts) {act' : TxnAct}
    {commitSeq' shardId : Nat} (hacts : acts = before ++ act :: rest)
    (hw : Wrote act (.deleteRecord commitSeq) = some (.deleteRecord record)) (hmem : act' ∈ rest) :
    Wrote act' (.shardCommit record.deviceId commitSeq' shardId) = none := by
  by_contra hne
  obtain ⟨value, hw'⟩ := Option.ne_none_iff_exists'.1 hne
  obtain ⟨mid, rest', rfl⟩ := List.append_of_mem hmem
  have hsplit : acts = (before ++ act :: mid) ++ act' :: rest' := by rw [hacts]; simp
  obtain ⟨seen, later, r, manifest, heq, hvalue, hlive, -⟩ := (hsplit ▸ h).group_manifest hw'
  obtain ⟨hseen, hact, -⟩ | ⟨mid', hseen, rfl⟩ | ⟨mid', hbefore, rfl⟩ := append_cons_eq_append_cons heq
  · -- a read is not a delete
    rw [hact] at hw
    cases hw
  · -- the group looks at the manifest after the delete
    have hseen' : acts = (before ++ [act]) ++ mid' ++
        (⟨act'.thread, ⟨.readOne (.deviceManifest record.deviceId), r⟩⟩ :: (later ++ act' :: rest')) := by
      rw [hsplit, heq, hseen]
      simp
    have hrun : u.Runs calls ((before ++ [act]) ++ mid') := (hseen' ▸ h).before
    obtain ⟨manifest', hvalue', hdead⟩ := halone.dead hseen' hrun ((hacts ▸ h).dead_of_delete hw)
    have hstate : (before ++ [act]) ++ mid' = seen := by rw [hseen]; simp
    rw [hstate, hvalue] at hvalue'
    cases hvalue'
    rw [hlive] at hdead
    cases hdead
  · -- the delete comes between the group and its look at the manifest
    refine halone.published seen act'.thread record.deviceId r (mid' ++ act :: mid) act'.event rest'
      commitSeq' shardId value ?_ hw' act (by simp) commitSeq record hw rfl
    rw [hsplit, hbefore]
    simp

theorem DeletesAlone.roots (halone : DeletesAlone u acts) (h : u.Runs calls acts)
    (hcount : (u.stateAfter acts).Counting) (hacts : acts = before ++ act :: rest)
    (hw : Wrote act (.deleteRecord commitSeq) = some (.deleteRecord record)) :
    HasRoots (u.stateAfter before) record.deviceId record.shardRoots := by
  have hrun := h
  rw [hacts] at hrun hcount
  obtain ⟨phase, txn, reply, hact, hlast, hcommits, -⟩ := hrun.commits_of_wrote hw
  obtain ⟨r, r', manifest, manifest', heads, reads, hown, hr, hr', hreads, hroots, hread, -⟩ :=
    hcommits.deleteRecord (mem_of_lastWrite hlast)
  generalize act.thread = t at hact hown
  subst hact
  have hown' : own t before = [] ++ ⟨.readOne (.deviceManifest record.deviceId), r⟩ ::
      ⟨.readOne (.deviceManifest record.deviceId), r'⟩ ::
        (reads ++ [⟨.allocPublicCommitSeq, commitSeq⟩]) := hown
  obtain ⟨first, later, rfl, -, hlater, hanswer⟩ := hrun.before.locate hown'
  change r = (u.stateAfter first).readOne _ at hanswer
  rw [hanswer] at hread
  -- the manifest has not been written since the first look at it
  have hunwritten := hrun.unwritten (counting_before hcount) hread
  have hmanifest : ∀ {mid rest' : List TxnAct},
      ⟨t, ⟨.readOne (.deviceManifest record.deviceId), r⟩⟩ :: later = mid ++ rest' →
      (u.stateAfter (first ++ mid)).value (.deviceManifest record.deviceId) =
        some (.deviceManifest manifest) := by
    intro mid rest' hmid
    rw [hmid, ← List.append_assoc] at hrun
    rw [value_eq_of_entries_eq (hrun.before.before.entries_append fun a ha =>
      hunwritten a (by rw [hmid]; exact List.mem_append_left _ ha)), ← readOne_value, ← hanswer, hr]
  have hsame : manifest' = manifest := by
    have hlater' : own t later = [] ++ ⟨.readOne (.deviceManifest record.deviceId), r'⟩ ::
        (reads ++ [⟨.allocPublicCommitSeq, commitSeq⟩]) := hlater
    obtain ⟨mid, later', rfl, -, -⟩ := own_eq_append_cons hlater'
    have hvalue := hmanifest (List.cons_append ..).symm
    rw [← List.cons_append, ← List.append_assoc, List.append_assoc, List.cons_append] at hrun
    have hanswer' : r' = (u.stateAfter (first ++
        ⟨t, ⟨.readOne (.deviceManifest record.deviceId), r⟩⟩ :: mid)).readOne _ := hrun.answer
    rw [← readOne_value, ← hanswer', hr'] at hvalue
    cases hvalue
    rfl
  refine ⟨manifest, hmanifest (List.append_nil _).symm, ?_, ?_⟩
  · rw [hroots, List.length_map, hreads.length_eq, List.length_range, hsame]
  · intro shardId root hroot
    rw [hroots, List.getElem?_map] at hroot
    obtain ⟨head, hhead, rfl⟩ := Option.map_eq_some_iff.1 hroot
    obtain ⟨rd, reads1, reads2, rfl, -, hvalue⟩ := hreads.read hhead
    have hlater' : own t later = (⟨.readOne (.deviceManifest record.deviceId), r'⟩ :: reads1) ++
        ⟨.readOne (.deviceShardHead record.deviceId shardId), rd⟩ ::
          (reads2 ++ [⟨.allocPublicCommitSeq, commitSeq⟩]) := by
      rw [hlater]
      simp
    obtain ⟨mid, later', rfl, -, -⟩ := own_eq_append_cons hlater'
    refine ⟨head, ?_, rfl⟩
    have hsplit : acts = (first ++ ⟨t, ⟨.readOne (.deviceManifest record.deviceId), r⟩⟩ :: mid) ++
        ⟨t, ⟨.readOne (.deviceShardHead record.deviceId shardId), rd⟩⟩ ::
          (later' ++ ⟨t, ⟨.commit phase txn, .ok ()⟩⟩ :: rest) := by
      rw [hacts]
      simp
    -- no group has written the head since, and no call has made the device
    have hnone : ∀ a ∈ later', Wrote a (.deviceShardHead record.deviceId shardId) = none := by
      intro a ha
      by_contra hne
      obtain ⟨value, hwa⟩ := Option.ne_none_iff_exists'.1 hne
      obtain ⟨later1, later2, hlater'⟩ := List.append_of_mem ha
      have hsplit' : acts = (first ++ ⟨t, ⟨.readOne (.deviceManifest record.deviceId), r⟩⟩ :: (mid ++
          ⟨t, ⟨.readOne (.deviceShardHead record.deviceId shardId), rd⟩⟩ :: later1)) ++
            a :: (later2 ++ ⟨t, ⟨.commit phase txn, .ok ()⟩⟩ :: rest) := by
        rw [hsplit, hlater']
        simp
      obtain ⟨commitSeq', value', hcommit⟩ | ⟨made, root, manifest, -, -, -, -, -, hmade, -⟩ :=
        (hsplit' ▸ h).head_writer hwa
      · cases hcommit.symm.trans (halone.deleted _ _ _ _ _ _ _ _ _ _ hsplit hw rfl a ha commitSeq')
      · cases hmade.symm.trans (hunwritten a (by simp [ha]))
    rw [hsplit, ← List.cons_append, ← List.append_assoc] at h
    have hkept := h.before.read_kept hnone
    rw [hvalue, List.append_assoc, List.cons_append] at hkept
    exact hkept

end

end CowStore.Txn
