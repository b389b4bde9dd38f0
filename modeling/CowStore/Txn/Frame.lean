import CowStore.Txn.Effects

/-!
# New devices

A create, a restore and a fork without a target take the number of the new device from a
counter; a fork with a target takes it from the caller and does not look whether it is free.
The calls give every device a number of its own exactly if no target is a device already and
no target is handed out by the counter too.
-/

namespace CowStore.Txn

open Lib Local TwoPhase

/-- The call takes the number of its new device from the counter. -/
def TxnCall.drawsDevice : TxnCall → Bool
  | createDevice _ => true
  | forkDevice _ none => true
  | restoreDevice _ _ => true
  | _ => false

theorem TxnCall.only_drawsDevice {c : TxnCall} (h : c.drawsDevice = true) :
    c.stores = false ∧ c.publishes = none := by
  cases c with
  | createDevice spec => exact ⟨rfl, rfl⟩
  | forkDevice source target => exact ⟨rfl, rfl⟩
  | restoreDevice source point => exact ⟨rfl, rfl⟩
  | _ => cases h

/-! ## Numbers of devices -/

section

variable {u : Setup}

variable {es : List TxnEvent} {txn : MetadataTxn} {phase : MetadataTxnProfilePhase} {c : TxnCall}

theorem Commits.only_makes {head : DeviceHead} (h : Commits u c es phase txn (some (.head head)))
    (deviceId : Nat) : c.publishes = none ∧ c ≠ .deleteDevice deviceId := by
  cases h with
  | create hdrawn hshards => exact ⟨rfl, by simp⟩
  | fork hvalue hlive hvalue' hreads hchosen => exact ⟨rfl, by simp⟩
  | restore hvalue hlive hresolved hreplayed => exact ⟨rfl, by simp⟩

theorem Commits.of_fork {source target : Nat} {reply : Option TxnReply}
    (h : Commits u (.forkDevice source (some target)) es phase txn reply) :
    ∃ head, reply = some (.head head) ∧ head.deviceId = target := by
  cases h with
  | persist hcall hvalue hdrawn => cases hcall
  | publish hcall hvalue hlive hreads hchecked hshard => cases hcall
  | fork hvalue hlive hvalue' hreads hchosen =>
    obtain ⟨heq, -⟩ | ⟨heq, -⟩ := hchosen
    · cases heq
      exact ⟨_, rfl, rfl⟩
    · cases heq

theorem Commits.of_draws {reply : Option TxnReply} (h : Commits u c es phase txn reply)
    (hc : c.drawsDevice = true) : ∃ head, reply = some (.head head) := by
  cases h with
  | create hdrawn hshards => exact ⟨_, rfl⟩
  | persist hcall hvalue hdrawn =>
    rw [(TxnCall.only_drawsDevice hc).1] at hcall
    cases hcall
  | publish hcall hvalue hlive hreads hchecked hshard =>
    rw [(TxnCall.only_drawsDevice hc).2] at hcall
    cases hcall
  | checkpoint hvalue hlive hreads => cases hc
  | fork hvalue hlive hvalue' hreads hchosen => exact ⟨_, rfl⟩
  | restore hvalue hlive hresolved hreplayed => exact ⟨_, rfl⟩
  | delete hvalue hlive hvalue' hreads => cases hc

theorem Commits.target {head : DeviceHead} (h : Commits u c es phase txn (some (.head head))) :
    (∃ source, c = .forkDevice source (some head.deviceId) ∧ phase = .fork) ∨
      c.drawsDevice = true ∧ ∀ d, ⟨.allocDeviceId, d⟩ ∈ es ↔ d = head.deviceId := by
  have hcaptured : ∀ {deviceId shards heads reads}, Captured deviceId shards heads reads →
      ∀ d, (⟨.allocDeviceId, d⟩ : TxnEvent) ∉ reads := by
    rintro deviceId shards heads reads ⟨capture, rfl, -, -⟩ d he
    obtain ⟨read, -, heq⟩ := List.mem_map.1 he
    cases heq
  cases h with
  | @create _ deviceId _ _ _ hdrawn hshards =>
    refine .inr ⟨rfl, fun d => ?_⟩
    have hnot : (⟨.allocDeviceId, d⟩ : TxnEvent) ∉ _ := fun hmem => by cases hdrawn _ hmem
    simp [hnot]
  | fork hvalue hlive hvalue' hreads hchosen =>
    obtain ⟨rfl, -⟩ | ⟨rfl, rfl⟩ := hchosen
    · exact .inl ⟨_, rfl, rfl⟩
    · refine .inr ⟨rfl, fun d => ?_⟩
      simp [hcaptured hreads d]
  | restore hvalue hlive hresolved hreplayed =>
    refine .inr ⟨rfl, fun d => ?_⟩
    have hnot : (⟨.allocDeviceId, d⟩ : TxnEvent) ∉ _ := fun hmem => by
      obtain ⟨key, hkey⟩ := (asks_targetCommitForRestore.steps hresolved).1 _ hmem
      cases hkey
    have hnot' : (⟨.allocDeviceId, d⟩ : TxnEvent) ∉ _ := fun hmem => by
      obtain ⟨shard, hshard⟩ := (asks_replayDeviceRoots.steps hreplayed).1 _ hmem
      cases hshard
    simp [hnot, hnot']

end

/-! ## Fresh numbers -/

/-- The manifest and the heads of a device are the same in both states. -/
def SameDevice (s s' : TxnState) (deviceId : Nat) : Prop :=
  s'.value (.deviceManifest deviceId) = s.value (.deviceManifest deviceId) ∧
    ∀ shardId, s'.value (.deviceShardHead deviceId shardId) =
      s.value (.deviceShardHead deviceId shardId)

/-- The call of `t` has made a new device and left all others alone. -/
structure NewDevice (u : Setup) (calls : Nat → TxnCall) (acts : List TxnAct) (t deviceId : Nat) :
    Prop where
  fresh : ∀ before rest, acts = before ++ rest → own t before = [] →
    (u.stateAfter before).value (.deviceManifest deviceId) = none
  frame : ∀ before e rest, acts = before ++ ⟨t, e⟩ :: rest → ∀ other ≠ deviceId,
    SameDevice (u.stateAfter before) (u.stateAfter (before ++ [⟨t, e⟩])) other
  unique : ∀ t' head, Returned u calls acts t' (.head head) → head.deviceId = deviceId → t' = t

/-- No fork commits over a device that is there, and no call that draws the target of a fork
that has committed commits itself. -/
structure TargetsFree (u : Setup) (calls : Nat → TxnCall) (acts : List TxnAct) : Prop where
  absent : ∀ before t txn rest source target,
    acts = before ++ ⟨t, ⟨.commit .fork txn, .ok ()⟩⟩ :: rest →
    calls t = .forkDevice source (some target) →
    (u.stateAfter before).value (.deviceManifest target) = none
  undrawn : ∀ t t' txn phase txn' source target,
    (⟨t, ⟨.commit .fork txn, .ok ()⟩⟩ : TxnAct) ∈ acts →
    calls t = .forkDevice source (some target) → (calls t').drawsDevice = true →
    (⟨t', ⟨.allocDeviceId, target⟩⟩ : TxnAct) ∈ acts →
    (⟨t', ⟨.commit phase txn', .ok ()⟩⟩ : TxnAct) ∉ acts

section

variable {u : Setup} {calls : Nat → TxnCall} {acts : List TxnAct} {t t' : Nat} {head head' : DeviceHead}

variable {before rest : List TxnAct}

/-- The operations of a call that makes a device touch no other device. -/
theorem Returned.frame (hreturned : Returned u calls acts t (.head head)) (h : u.Runs calls acts)
    {e : TxnEvent} (hacts : acts = before ++ ⟨t, e⟩ :: rest) {other : Nat} (hother : other ≠ head.deviceId) :
    SameDevice (u.stateAfter before) (u.stateAfter (before ++ [⟨t, e⟩])) other := by
  subst hacts
  have hpre := h.upto
  -- whatever the operation writes, it writes as the commit of the new device
  have hmade : ∀ {key value}, Wrote ⟨t, e⟩ key = some value → ∃ phase txn,
      (key, value) ∈ txn.writes ∧ Commits u (calls t) (own t before) phase txn (some (.head head)) := by
    intro key value hw
    obtain ⟨phase, txn, reply, hact, hlast, hcommits, hreply⟩ := h.commits_of_wrote hw
    obtain ⟨before', phase', txn', rest', hacts, hrest, hcommits'⟩ := hreturned.commit rfl
    obtain ⟨rfl, heq, -⟩ | ⟨mid, rfl, -⟩ | ⟨mid, -, rfl⟩ := append_cons_eq_append_cons hacts
    · cases heq
      cases hact
      exact ⟨phase, txn, mem_of_lastWrite hlast, hcommits'⟩
    · have hmem : e ∈ own t (before ++ ⟨t, e⟩ :: mid) := mem_own.2 (by simp)
      cases hact
      cases hcommits'.quiet _ hmem
    · have hmem : e ∈ own t (mid ++ ⟨t, e⟩ :: rest) := mem_own.2 (by simp)
      rw [hrest] at hmem
      cases hmem
  constructor
  · rw [hpre.value_concat]
    cases hw : Wrote ⟨t, e⟩ (.deviceManifest other) with
    | none => rfl
    | some value =>
      obtain ⟨phase, txn, hmem, hcommits⟩ := hmade hw
      obtain ⟨head', manifest, heq, hid, -⟩ | ⟨r, manifest, hcall, -⟩ := hcommits.manifest hmem
      · cases heq
        exact absurd hid.symm hother
      · exact absurd hcall (hcommits.only_makes other).2
  · intro shardId
    rw [hpre.value_concat]
    cases hw : Wrote ⟨t, e⟩ (.deviceShardHead other shardId) with
    | none => rfl
    | some value =>
      obtain ⟨phase, txn, hmem, hcommits⟩ := hmade hw
      obtain ⟨head', root, heq, hid, -⟩ | ⟨hcall, -⟩ := hcommits.shardHead hmem
      · cases heq
        exact absurd hid.symm hother
      · rw [(hcommits.only_makes other).1] at hcall
        cases hcall

theorem drawn_of_commits {e : TxnEvent} {deviceId : Nat} (hacts : acts = before ++ ⟨t, e⟩ :: rest)
    (hdrawn : ⟨.allocDeviceId, deviceId⟩ ∈ own t before) :
    (⟨t, ⟨.allocDeviceId, deviceId⟩⟩ : TxnAct) ∈ acts := by
  rw [hacts]
  exact List.mem_append_left _ (mem_own.1 hdrawn)

theorem TargetsFree.not_later (hfree : TargetsFree u calls acts) (h : u.Runs calls acts)
    {mid : List TxnAct} {phase : MetadataTxnProfilePhase} {txn txn' : MetadataTxn} {source : Nat}
    (hacts : acts = before ++ ⟨t, ⟨.commit phase txn, .ok ()⟩⟩ ::
      (mid ++ ⟨t', ⟨.commit .fork txn', .ok ()⟩⟩ :: rest))
    (hcommits : Commits u (calls t) (own t before) phase txn (some (.head head))) :
    calls t' ≠ .forkDevice source (some head.deviceId) := by
  intro hcall
  have hsplit : acts = (before ++ [⟨t, ⟨.commit phase txn, .ok ()⟩⟩] ++ mid) ++
      ⟨t', ⟨.commit .fork txn', .ok ()⟩⟩ :: rest := by simp [hacts]
  have habsent := hfree.absent _ t' txn' rest source head.deviceId hsplit hcall
  obtain ⟨manifest, -, hlast⟩ := hcommits.makes
  rw [hsplit] at h
  have hvalue := h.before.before.value_of_wrote hlast
  exact h.before.value_ne_none (by rw [hvalue]; exact Option.some_ne_none _) habsent

theorem TargetsFree.unique (hfree : TargetsFree u calls acts) (h : u.Runs calls acts)
    (hids : (u.stateAfter acts).nextDeviceId ≤ u64Bound) (hreturned : Returned u calls acts t (.head head))
    (hreturned' : Returned u calls acts t' (.head head')) (hid : head'.deviceId = head.deviceId) :
    t' = t := by
  obtain ⟨before, phase, txn, rest, hacts, -, hcommits⟩ := hreturned.commit rfl
  obtain ⟨before', phase', txn', rest', hacts', -, hcommits'⟩ := hreturned'.commit rfl
  have hmem : (⟨t, ⟨.commit phase txn, .ok ()⟩⟩ : TxnAct) ∈ acts := by rw [hacts]; simp
  have hmem' : (⟨t', ⟨.commit phase' txn', .ok ()⟩⟩ : TxnAct) ∈ acts := by rw [hacts']; simp
  obtain ⟨source, hcall, rfl⟩ | ⟨hdraws, hdrawn⟩ := hcommits.target
  · obtain ⟨source', hcall', rfl⟩ | ⟨hdraws', hdrawn'⟩ := hcommits'.target
    · -- both from their callers: the later one finds the device of the earlier one
      obtain ⟨-, hact, -⟩ | ⟨mid, -, hmid⟩ | ⟨mid, -, hmid⟩ :=
        append_cons_eq_append_cons (hacts.symm.trans hacts')
      · cases hact
        rfl
      · rw [hmid] at hacts
        rw [hid] at hcall'
        exact absurd hcall' (hfree.not_later h hacts hcommits)
      · rw [hmid] at hacts'
        rw [← hid] at hcall
        exact absurd hcall (hfree.not_later h hacts' hcommits')
    · have hin := drawn_of_commits hacts' ((hdrawn' _).2 rfl)
      rw [hid] at hin
      exact absurd hmem' (hfree.undrawn t t' txn phase' txn' source _ hmem hcall hdraws' hin)
  · have hin := drawn_of_commits hacts ((hdrawn _).2 rfl)
    obtain ⟨source', hcall', rfl⟩ | ⟨hdraws', hdrawn'⟩ := hcommits'.target
    · rw [← hid] at hin
      exact absurd hmem (hfree.undrawn t' t txn' phase txn source' _ hmem' hcall' hdraws hin)
    · have hin' := drawn_of_commits hacts' ((hdrawn' _).2 rfl)
      rw [hid] at hin'
      exact h.drawn_unique .deviceId hids hin' hin

/-- Every call that has returned a device has made a new one, exactly if the targets that
callers name are free. -/
theorem new_devices_iff (h : u.Runs calls acts)
    (hids : (u.stateAfter acts).nextDeviceId ≤ u64Bound) :
    (∀ t head, Returned u calls acts t (.head head) → NewDevice u calls acts t head.deviceId) ↔
      TargetsFree u calls acts := by
  constructor
  · intro hnew
    constructor
    · intro before t txn rest source target hacts hcall
      by_contra hvalue
      rw [hacts] at h hnew
      obtain ⟨t', head', phase', txn', hreturned', hid', hmem'⟩ := h.made hvalue
      obtain ⟨reply, hcommits, hreturned⟩ := h.commits
      rw [hcall] at hcommits
      obtain ⟨head, rfl, hid⟩ := hcommits.of_fork
      have heq : t' = t := (hnew t head (hreturned rfl _ rfl)).unique t' head' hreturned'
        (hid'.trans hid.symm)
      subst heq
      cases hcommits.quiet _ (mem_own.2 hmem')
    · intro t t' txn phase txn' source target hmem hcall hdraws hdrawn hmem'
      obtain ⟨before, rest, hacts⟩ := List.append_of_mem hmem
      obtain ⟨before', rest', hacts'⟩ := List.append_of_mem hmem'
      obtain ⟨reply, hcommits, hreturned⟩ := (hacts ▸ h).commits
      obtain ⟨reply', hcommits', hreturned'⟩ := (hacts' ▸ h).commits
      rw [hcall] at hcommits
      obtain ⟨head, rfl, hid⟩ := hcommits.of_fork
      obtain ⟨head', rfl⟩ := hcommits'.of_draws hdraws
      have hmade := hreturned rfl _ rfl
      have hmade' := hreturned' rfl _ rfl
      rw [← hacts] at hmade
      rw [← hacts'] at hmade'
      have hid' : target = head'.deviceId := by
        obtain ⟨before'', phase'', txn'', rest'', hacts'', hrest, hcommits''⟩ := hmade'.commit rfl
        have hin : (⟨.allocDeviceId, target⟩ : TxnEvent) ∈ own t' acts := mem_own.2 hdrawn
        rw [hacts'', own_append_cons, hrest] at hin
        obtain ⟨source', hcall', -⟩ | ⟨-, honly⟩ := hcommits''.target
        · rw [hcall'] at hdraws
          cases hdraws
        · simpa [honly] using hin
      have heq : t' = t := (hnew t head hmade).unique t' head' hmade' (hid'.symm.trans hid.symm)
      subst heq
      rw [hcall] at hdraws
      cases hdraws
  · intro hfree t head hreturned
    refine ⟨?_, ?_, ?_⟩
    · intro before rest hacts hown
      by_contra hvalue
      rw [hacts] at h
      obtain ⟨t', head', phase, txn, hreturned', hid, hmem⟩ := h.made hvalue
      rw [← hacts] at h hreturned'
      have heq := hfree.unique h hids hreturned hreturned' hid
      subst heq
      have hcommit : (⟨.commit phase txn, .ok ()⟩ : TxnEvent) ∈ own t' before := mem_own.2 hmem
      rw [hown] at hcommit
      cases hcommit
    · intro before e rest hacts other hother
      exact hreturned.frame h hacts hother
    · intro t' head' hreturned' hid
      exact hfree.unique h hids hreturned hreturned' hid

end

def forkDrawn : Nat → TxnCall
  | 0 => .createDevice ⟨4, 4⟩
  | _ => .forkDevice 1 none

def forkDrawnTurns : List Nat := List.replicate 5 0 ++ List.replicate 8 1

theorem new_devices_iff_forkDrawn :
    Returned twoShards forkDrawn (twoShards.schedule forkDrawn forkDrawnTurns).acts 1
        (.head ⟨2, 0, [1, 2], 1⟩) ∧
      NewDevice twoShards forkDrawn (twoShards.schedule forkDrawn forkDrawnTurns).acts 1 2 := by
  have hreturned : Returned twoShards forkDrawn (twoShards.schedule forkDrawn forkDrawnTurns).acts 1
      (.head ⟨2, 0, [1, 2], 1⟩) := Setup.returned_schedule (by decide +kernel)
  -- no caller names a target
  have hfree : TargetsFree twoShards forkDrawn (twoShards.schedule forkDrawn forkDrawnTurns).acts := by
    have hcalls : ∀ t source target, forkDrawn t ≠ .forkDevice source (some target) := by
      intro t source target hcall
      cases t with
      | zero => cases hcall
      | succ t => cases hcall
    exact ⟨fun _ t _ _ source target _ hcall => absurd hcall (hcalls t source target),
      fun t _ _ _ _ source target _ hcall => absurd hcall (hcalls t source target)⟩
  have hids : (twoShards.stateAfter (twoShards.schedule forkDrawn forkDrawnTurns).acts).nextDeviceId ≤
      u64Bound := by
    rw [Setup.stateAfter_schedule]
    decide +kernel
  exact ⟨hreturned, (new_devices_iff (Setup.runs_schedule _ _ _) hids).2 hfree 1 _ hreturned⟩

def forkOver : Nat → TxnCall
  | 0 => .createDevice ⟨4, 4⟩
  | 1 => .createDevice ⟨4, 4⟩
  | _ => .forkDevice 1 (some 2)

/-- One call after the other. -/
def forkOverTurns : List Nat :=
  List.replicate 5 0 ++ List.replicate 5 1 ++ List.replicate 7 2

/-- The fork returns the device that the second create returned, and leaves the roots of its
source there. -/
theorem fork_over_device : ∃ acts, twoShards.Runs forkOver acts ∧
    (twoShards.stateAfter acts).Counting ∧
    Returned twoShards forkOver acts 1 (.head ⟨2, 0, [3, 4], 0⟩) ∧
    Returned twoShards forkOver acts 2 (.head ⟨2, 0, [1, 2], 1⟩) ∧
    (twoShards.stateAfter acts).value (.deviceShardHead 2 0) = some (.deviceShardHead ⟨1, 0, 1⟩) := by
  refine ⟨(twoShards.schedule forkOver forkOverTurns).acts, Setup.runs_schedule _ _ _, ?_,
    Setup.returned_schedule (by decide +kernel), Setup.returned_schedule (by decide +kernel), ?_⟩
  · rw [Setup.stateAfter_schedule]
    decide +kernel
  · rw [Setup.stateAfter_schedule]
    decide +kernel

end CowStore.Txn
