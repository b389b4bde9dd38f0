import CowStore.Txn.Coordinator

/-!
# Runs of the transactional coordinator

Any calls side by side, from an empty store.  As long as no counter has run over, the
version of a key only grows, and grows with every write to it: a key that has the version
that it had before has not been written since.
-/

namespace CowStore.Txn

open Lib Local TwoPhase

abbrev TxnEvent := Event TxnReq TxnAns

abbrev TxnAct := Act TxnReq TxnAns

/-- What a run starts from: the checksum, the configuration and the storage nodes. -/
structure Setup where
  crc : List UInt8 → Nat
  config : LocalStoreConfig
  mode : MetadataTxnMode
  nodes : StorageNodes

namespace Setup

variable (u : Setup) (calls : Nat → TxnCall)

def serve : (r : TxnReq) → TxnState → TxnAns r × TxnState :=
  Txn.serve u.crc u.config.blockSize u.mode

/-- The state after the operations, from an empty store. -/
def stateAfter (acts : List TxnAct) : TxnState := after u.serve (.new u.nodes) acts

def Runs (acts : List TxnAct) : Prop :=
  Interleaving u.serve (fun t => (calls t).script u.config u.mode) (.new u.nodes) acts

theorem stateAfter_append (acts acts' : List TxnAct) :
    u.stateAfter (acts ++ acts') = after u.serve (u.stateAfter acts) acts' :=
  after_append _ _ acts acts'

theorem stateAfter_concat (acts : List TxnAct) (act : TxnAct) :
    u.stateAfter (acts ++ [act]) = (u.serve act.event.1 (u.stateAfter acts)).2 :=
  u.stateAfter_append acts [act]

end Setup

/-! ## Counters -/

namespace TxnState

structure Counting (s : TxnState) : Prop where
  entryVersion : s.nextEntryVersion ≤ u64Bound
  deviceId : s.nextDeviceId ≤ u64Bound
  metadataNodeId : s.nextMetadataNodeId ≤ u64Bound
  publicCommitSeq : s.nextPublicCommitSeq ≤ u64Bound
  checkpointId : s.nextCheckpointId ≤ u64Bound

instance (s : TxnState) : Decidable s.Counting :=
  decidable_of_iff (s.nextEntryVersion ≤ u64Bound ∧ s.nextDeviceId ≤ u64Bound ∧
      s.nextMetadataNodeId ≤ u64Bound ∧ s.nextPublicCommitSeq ≤ u64Bound ∧
      s.nextCheckpointId ≤ u64Bound)
    ⟨fun ⟨h₁, h₂, h₃, h₄, h₅⟩ => ⟨h₁, h₂, h₃, h₄, h₅⟩,
      fun ⟨h₁, h₂, h₃, h₄, h₅⟩ => ⟨h₁, h₂, h₃, h₄, h₅⟩⟩

/-- The counters of `s'` are those of `s`, or ahead of them. -/
structure Ahead (s s' : TxnState) : Prop where
  entryVersion : s.nextEntryVersion ≤ s'.nextEntryVersion
  deviceId : s.nextDeviceId ≤ s'.nextDeviceId
  metadataNodeId : s.nextMetadataNodeId ≤ s'.nextMetadataNodeId
  publicCommitSeq : s.nextPublicCommitSeq ≤ s'.nextPublicCommitSeq
  checkpointId : s.nextCheckpointId ≤ s'.nextCheckpointId

theorem Ahead.refl (s : TxnState) : Ahead s s := ⟨le_rfl, le_rfl, le_rfl, le_rfl, le_rfl⟩

theorem Ahead.trans {s s' s'' : TxnState} (h : Ahead s s') (h' : Ahead s' s'') : Ahead s s'' :=
  ⟨h.1.trans h'.1, h.2.trans h'.2, h.3.trans h'.3, h.4.trans h'.4, h.5.trans h'.5⟩

theorem Counting.of_ahead {s s' : TxnState} (h : s'.Counting) (hahead : Ahead s s') : s.Counting :=
  ⟨hahead.1.trans h.1, hahead.2.trans h.2, hahead.3.trans h.3, hahead.4.trans h.4,
    hahead.5.trans h.5⟩

theorem onStorageNodes_snd {α : Type} (s : TxnState) (op : SegmentOp α) :
    ∃ storageNodes, (s.onStorageNodes op).2 = { s with storageNodes } := by
  unfold onStorageNodes
  split
  · exact ⟨_, rfl⟩
  · exact ⟨_, rfl⟩

theorem commit_snd (s : TxnState) (txn : MetadataTxn) :
    (s.commit txn).2 =
      { s with
        nextEntryVersion := s.nextEntryVersion + 1
        map := if Current s.entries txn then txn.writes.foldl
          (fun map write => map.insert write.1 ⟨s.nextEntryVersion % u64Bound, write.2⟩) s.map
          else s.map } := by
  unfold commit
  split
  · rfl
  · rfl

end TxnState

open TxnState

theorem ahead_serve (crc : List UInt8 → Nat) (blockSize : Nat) (mode : MetadataTxnMode) (r : TxnReq)
    (s : TxnState) : Ahead s (serve crc blockSize mode r s).2 := by
  cases r with
  | commit phase txn =>
    rw [serve, commit_snd]
    exact { Ahead.refl s with entryVersion := Nat.le_succ _ }
  | writeSegment bytes integrity =>
    obtain ⟨storageNodes, heq⟩ := onStorageNodes_snd s (writeSegment crc blockSize bytes integrity)
    rw [serve, heq]
    exact { Ahead.refl s with }
  | markSegmentReferenced segmentId =>
    obtain ⟨storageNodes, heq⟩ := onStorageNodes_snd s (markSegmentReferenced segmentId)
    rw [serve, heq]
    exact { Ahead.refl s with }
  | allocDeviceId => exact { Ahead.refl s with deviceId := Nat.le_succ _ }
  | allocMetadataNodeId => exact { Ahead.refl s with metadataNodeId := Nat.le_succ _ }
  | allocPublicCommitSeq => exact { Ahead.refl s with publicCommitSeq := Nat.le_succ _ }
  | allocCheckpointId => exact { Ahead.refl s with checkpointId := Nat.le_succ _ }
  | allocCommitGroupId => exact { Ahead.refl s with }
  | _ => exact Ahead.refl s

inductive Counter
  | deviceId
  | metadataNodeId
  | publicCommitSeq
  | checkpointId

namespace Counter

def next : Counter → TxnState → Nat
  | deviceId => nextDeviceId
  | metadataNodeId => nextMetadataNodeId
  | publicCommitSeq => nextPublicCommitSeq
  | checkpointId => nextCheckpointId

/-- The operation that got a number from the counter. -/
def draw : Counter → Nat → TxnEvent
  | deviceId, n => ⟨.allocDeviceId, n⟩
  | metadataNodeId, n => ⟨.allocMetadataNodeId, n⟩
  | publicCommitSeq, n => ⟨.allocPublicCommitSeq, n⟩
  | checkpointId, n => ⟨.allocCheckpointId, n⟩

theorem next_le {s s' : TxnState} (h : Ahead s s') (c : Counter) : c.next s ≤ c.next s' := by
  cases c with
  | deviceId => exact h.deviceId
  | metadataNodeId => exact h.metadataNodeId
  | publicCommitSeq => exact h.publicCommitSeq
  | checkpointId => exact h.checkpointId

end Counter

section

variable {u : Setup}

theorem ahead_stateAfter (acts acts' : List TxnAct) :
    (u.stateAfter acts).Ahead (u.stateAfter (acts ++ acts')) := by
  rw [u.stateAfter_append]
  exact after_of_step Ahead.refl (fun h h' => h.trans h') (fun r s => ahead_serve _ _ _ r s) _ acts'

theorem counting_before {acts acts' : List TxnAct} (h : (u.stateAfter (acts ++ acts')).Counting) :
    (u.stateAfter acts).Counting := h.of_ahead (ahead_stateAfter acts acts')

theorem ahead_new (acts : List TxnAct) : (TxnState.new u.nodes).Ahead (u.stateAfter acts) :=
  ahead_stateAfter [] acts

end

/-! ## Writes -/

/-- What an operation leaves under a key, if it writes the key. -/
def Wrote (act : TxnAct) (key : MetadataTxnKey) : Option MetadataTxnValue :=
  match act.event with
  | ⟨.commit _ txn, .ok ()⟩ => lastWrite txn.writes key
  | _ => none

@[simp] theorem wrote_commit (t : Nat) (phase : MetadataTxnProfilePhase) (txn : MetadataTxn)
    (key : MetadataTxnKey) :
    Wrote ⟨t, ⟨.commit phase txn, .ok ()⟩⟩ key = lastWrite txn.writes key := rfl

theorem commit_of_wrote {act : TxnAct} {key : MetadataTxnKey} {value : MetadataTxnValue}
    (h : Wrote act key = some value) : ∃ phase txn, act = ⟨act.thread, ⟨.commit phase txn, .ok ()⟩⟩ ∧
      lastWrite txn.writes key = some value := by
  obtain ⟨t, r, x⟩ := act
  cases r with
  | commit phase txn =>
    cases x with
    | ok x => exact ⟨phase, txn, rfl, h⟩
    | error err => cases h
  | _ => cases h

namespace TxnState

/-- Every version was drawn, and none is the one of an absent key. -/
def Versioned (s : TxnState) : Prop :=
  ∀ key e, s.map.lookup key = some e → 0 < e.version ∧ e.version < s.nextEntryVersion

variable {txn : MetadataTxn} {s : TxnState}

theorem Versioned.versionOf_lt (h : s.Versioned) (hpos : 0 < s.nextEntryVersion)
    (key : MetadataTxnKey) : versionOf s.entries key < s.nextEntryVersion := by
  rw [versionOf]
  cases he : s.entries key with
  | none => exact hpos
  | some e => exact (h key e he).2

theorem entries_commit (h : (s.commit txn).1 = .ok ()) (key : MetadataTxnKey) : (s.commit txn).2.entries key =
      ((lastWrite txn.writes key).map fun v => ⟨s.nextEntryVersion % u64Bound, v⟩).or (s.entries key) := by
  rw [← writeAll_apply]
  unfold commit at h ⊢
  split at h
  · next hcurrent =>
    rw [if_pos hcurrent]
    exact entries_foldl_insert txn.writes _ s.map key
  · cases h

theorem commit_fst : (s.commit txn).1 = .ok () ↔ Current s.entries txn := by
  unfold commit
  split
  · next h => exact ⟨fun _ => h, fun _ => rfl⟩
  · next h => exact ⟨fun hc => (by cases hc), fun hc => absurd hc h⟩

theorem entries_commit_of_ne (h : (s.commit txn).1 ≠ .ok ()) : (s.commit txn).2.entries = s.entries := by
  rw [Ne, commit_fst] at h
  rw [commit_snd, if_neg h]
  rfl

end TxnState

theorem map_serve {crc : List UInt8 → Nat} {blockSize : Nat} {mode : MetadataTxnMode} {r : TxnReq}
    (hr : ∀ phase txn, r ≠ .commit phase txn) (s : TxnState) :
    (serve crc blockSize mode r s).2.map = s.map := by
  cases r with
  | commit phase txn => exact absurd rfl (hr phase txn)
  | writeSegment bytes integrity =>
    obtain ⟨storageNodes, heq⟩ := onStorageNodes_snd s (writeSegment crc blockSize bytes integrity)
    rw [serve, heq]
  | markSegmentReferenced segmentId =>
    obtain ⟨storageNodes, heq⟩ := onStorageNodes_snd s (markSegmentReferenced segmentId)
    rw [serve, heq]
  | _ => rfl

/-! ## Runs -/

section

variable {u : Setup} {calls : Nat → TxnCall} {acts acts' : List TxnAct} {act : TxnAct}
  {key : MetadataTxnKey} {t : Nat}

theorem Setup.Runs.before (h : u.Runs calls (acts ++ acts')) : u.Runs calls acts := Interleaving.before h

theorem Setup.Runs.upto (h : u.Runs calls (acts ++ act :: acts')) : u.Runs calls (acts ++ [act]) := by
  rw [← List.singleton_append, ← List.append_assoc] at h
  exact h.before

theorem Setup.Runs.answer (h : u.Runs calls (acts ++ act :: acts')) :
    act.event.2 = (u.serve act.event.1 (u.stateAfter acts)).1 := Interleaving.answer h

variable {value : MetadataTxnValue} {n : Nat}

theorem Setup.Runs.drawn (c : Counter) (h : u.Runs calls (acts ++ ⟨t, c.draw n⟩ :: acts'))
    (hbound : c.next (u.stateAfter (acts ++ ⟨t, c.draw n⟩ :: acts')) ≤ u64Bound) :
    n = c.next (u.stateAfter acts) ∧ c.next (u.stateAfter (acts ++ [⟨t, c.draw n⟩])) = n + 1 := by
  have hanswer := h.answer
  have hserve : n = c.next (u.stateAfter acts) % u64Bound ∧
      c.next (u.stateAfter (acts ++ [⟨t, c.draw n⟩])) = c.next (u.stateAfter acts) + 1 := by
    rw [u.stateAfter_concat]
    cases c with
    | deviceId => exact ⟨hanswer, rfl⟩
    | metadataNodeId => exact ⟨hanswer, rfl⟩
    | publicCommitSeq => exact ⟨hanswer, rfl⟩
    | checkpointId => exact ⟨hanswer, rfl⟩
  have hahead := c.next_le (ahead_stateAfter (u := u) (acts ++ [⟨t, c.draw n⟩]) acts')
  rw [List.append_assoc, List.singleton_append] at hahead
  have hmod := Nat.mod_eq_of_lt (a := c.next (u.stateAfter acts)) (b := u64Bound) (by omega)
  omega

theorem Setup.Runs.drawn_lt (c : Counter) (h : u.Runs calls acts)
    (hbound : c.next (u.stateAfter acts) ≤ u64Bound) (hdrawn : (⟨t, c.draw n⟩ : TxnAct) ∈ acts) :
    n < c.next (u.stateAfter acts) := by
  obtain ⟨before, rest, rfl⟩ := List.append_of_mem hdrawn
  have hnext := (h.drawn c hbound).2
  have hahead := c.next_le (ahead_stateAfter (u := u) (before ++ [⟨t, c.draw n⟩]) rest)
  rw [List.append_assoc, List.singleton_append] at hahead
  omega

theorem Setup.Runs.drawn_unique (c : Counter) {t' : Nat} (h : u.Runs calls acts)
    (hbound : c.next (u.stateAfter acts) ≤ u64Bound) (hdrawn : (⟨t, c.draw n⟩ : TxnAct) ∈ acts)
    (hdrawn' : (⟨t', c.draw n⟩ : TxnAct) ∈ acts) : t = t' := by
  have hlater : ∀ {before mid rest : List TxnAct} {t t' : Nat},
      acts ≠ before ++ ⟨t, c.draw n⟩ :: (mid ++ ⟨t', c.draw n⟩ :: rest) := by
    rintro before mid rest t t' rfl
    have hfirst := h.drawn c hbound
    rw [← List.cons_append, ← List.append_assoc] at h hbound
    have hsecond := h.drawn c hbound
    have hahead := c.next_le (ahead_stateAfter (u := u) (before ++ [⟨t, c.draw n⟩]) mid)
    rw [List.append_assoc, List.singleton_append] at hahead
    omega
  obtain ⟨before, rest, hacts⟩ := List.append_of_mem hdrawn
  obtain ⟨before', rest', hacts'⟩ := List.append_of_mem hdrawn'
  obtain ⟨-, hact, -⟩ | ⟨mid, -, rfl⟩ | ⟨mid, -, rfl⟩ :=
    append_cons_eq_append_cons (hacts.symm.trans hacts')
  · exact congrArg Act.thread hact
  · exact absurd hacts hlater
  · exact absurd hacts' hlater

/-- One operation changes the keys that it wrote, and no others. -/
theorem Setup.Runs.entries_concat (h : u.Runs calls (acts ++ [act])) (key : MetadataTxnKey) :
    (u.stateAfter (acts ++ [act])).entries key = ((Wrote act key).map fun v =>
        ⟨(u.stateAfter acts).nextEntryVersion % u64Bound, v⟩).or ((u.stateAfter acts).entries key) := by
  have hanswer := h.answer
  rw [u.stateAfter_concat]
  obtain ⟨t, r, x⟩ := act
  by_cases hr : ∃ phase txn, r = .commit phase txn
  · obtain ⟨phase, txn, rfl⟩ := hr
    change x = ((u.stateAfter acts).commit txn).1 at hanswer
    cases hx : ((u.stateAfter acts).commit txn).1 with
    | ok v =>
      rw [hanswer, hx, wrote_commit]
      exact entries_commit hx key
    | error err =>
      rw [hanswer, hx]
      exact congrFun (entries_commit_of_ne (by rw [hx]; exact nofun)) key
  · have hmap : (u.serve r (u.stateAfter acts)).2.map = (u.stateAfter acts).map :=
      map_serve (fun phase txn heq => hr ⟨phase, txn, heq⟩) _
    have hnone : Wrote ⟨t, ⟨r, x⟩⟩ key = none := by
      cases hw : Wrote ⟨t, ⟨r, x⟩⟩ key with
      | none => rfl
      | some v =>
        obtain ⟨phase, txn, heq, -⟩ := commit_of_wrote hw
        cases heq
        exact absurd ⟨phase, txn, rfl⟩ hr
    rw [hnone]
    exact congrArg (AList.lookup key) hmap

theorem Setup.Runs.value_concat (h : u.Runs calls (acts ++ [act])) (key : MetadataTxnKey) :
    (u.stateAfter (acts ++ [act])).value key = (Wrote act key).or ((u.stateAfter acts).value key) := by
  have hentries := h.entries_concat key
  change ((u.stateAfter (acts ++ [act])).entries key).map Entry.value =
    (Wrote act key).or (((u.stateAfter acts).entries key).map Entry.value)
  rw [hentries]
  cases Wrote act key with
  | none => rfl
  | some v => rfl

theorem Setup.Runs.value_ne_none (h : u.Runs calls (acts ++ acts')) {key : MetadataTxnKey}
    (hvalue : (u.stateAfter acts).value key ≠ none) : (u.stateAfter (acts ++ acts')).value key ≠ none := by
  induction acts' using List.reverseRecOn with
  | nil => rwa [List.append_nil]
  | append_singleton acts' act ih =>
    rw [← List.append_assoc] at h ⊢
    rw [h.value_concat key]
    cases Wrote act key with
    | some value => exact Option.some_ne_none value
    | none => exact ih h.before

theorem Setup.Runs.value_of_wrote (h : u.Runs calls (acts ++ [act])) {key : MetadataTxnKey}
    (hw : Wrote act key = some value) : (u.stateAfter (acts ++ [act])).value key = some value := by
  rw [h.value_concat key, hw]
  rfl

theorem entryVersion_of_wrote {key : MetadataTxnKey} (hw : Wrote act key = some value)
    (hcount : (u.stateAfter (acts ++ [act])).Counting) :
    (u.stateAfter (acts ++ [act])).nextEntryVersion = (u.stateAfter acts).nextEntryVersion + 1 ∧
      (u.stateAfter acts).nextEntryVersion % u64Bound = (u.stateAfter acts).nextEntryVersion := by
  obtain ⟨phase, txn, heq, -⟩ := commit_of_wrote hw
  have hnext : (u.stateAfter (acts ++ [act])).nextEntryVersion =
      (u.stateAfter acts).nextEntryVersion + 1 := by
    rw [u.stateAfter_concat, heq]
    exact congrArg nextEntryVersion (commit_snd _ txn)
  have hbound := hcount.entryVersion
  exact ⟨hnext, Nat.mod_eq_of_lt (by omega)⟩

theorem Setup.Runs.versioned (h : u.Runs calls acts) (hcount : (u.stateAfter acts).Counting) :
    (u.stateAfter acts).Versioned := by
  induction acts using List.reverseRecOn with
  | nil => exact nofun
  | append_singleton acts act ih =>
    intro key e he
    have hahead := (ahead_stateAfter (u := u) acts [act]).entryVersion
    have hpos := (ahead_new (u := u) acts).entryVersion
    have hold := ih h.before (counting_before hcount)
    change (u.stateAfter (acts ++ [act])).entries key = some e at he
    rw [h.entries_concat key] at he
    cases hw : Wrote act key with
    | none =>
      rw [hw] at he
      have := hold key e he
      omega
    | some v =>
      rw [hw] at he
      cases he
      -- a commit that went through has drawn its version
      obtain ⟨hnext, hmod⟩ := entryVersion_of_wrote hw hcount
      change 1 ≤ _ at hpos
      change 0 < _ % _ ∧ _ % _ < _
      omega

theorem Setup.Runs.version_concat (h : u.Runs calls (acts ++ [act]))
    (hcount : (u.stateAfter (acts ++ [act])).Counting) (key : MetadataTxnKey) :
    versionOf (u.stateAfter acts).entries key ≤ versionOf (u.stateAfter (acts ++ [act])).entries key ∧
      (versionOf (u.stateAfter acts).entries key = versionOf (u.stateAfter (acts ++ [act])).entries key ↔
        Wrote act key = none) := by
  cases hw : Wrote act key with
  | none =>
    have hsame : (u.stateAfter (acts ++ [act])).entries key = (u.stateAfter acts).entries key := by
      rw [h.entries_concat key, hw]
      rfl
    rw [versionOf, versionOf, hsame]
    exact ⟨le_rfl, iff_of_true rfl rfl⟩
  | some v =>
    obtain ⟨-, hmod⟩ := entryVersion_of_wrote hw hcount
    have hnew : versionOf (u.stateAfter (acts ++ [act])).entries key =
        (u.stateAfter acts).nextEntryVersion := by
      rw [versionOf, h.entries_concat key, hw]
      exact hmod
    have hold := (h.before.versioned (counting_before hcount)).versionOf_lt
      (ahead_new (u := u) acts).entryVersion key
    rw [hnew]
    exact ⟨hold.le, iff_of_false hold.ne (by simp)⟩

/-- The version of a key grows, and stays only where no operation writes the key. -/
theorem Setup.Runs.version_append (h : u.Runs calls (acts ++ acts'))
    (hcount : (u.stateAfter (acts ++ acts')).Counting) (key : MetadataTxnKey) :
    versionOf (u.stateAfter acts).entries key ≤ versionOf (u.stateAfter (acts ++ acts')).entries key ∧
      (versionOf (u.stateAfter acts).entries key = versionOf (u.stateAfter (acts ++ acts')).entries key ↔
        ∀ act ∈ acts', Wrote act key = none) := by
  induction acts' using List.reverseRecOn with
  | nil => simp
  | append_singleton acts' act ih =>
    rw [← List.append_assoc] at h hcount ⊢
    obtain ⟨hle, hiff⟩ := ih h.before (counting_before hcount)
    obtain ⟨hle', hiff'⟩ := h.version_concat hcount key
    refine ⟨hle.trans hle', ?_⟩
    rw [List.forall_mem_append, ← hiff, List.forall_mem_singleton, ← hiff']
    omega

theorem Setup.Runs.entries_append (h : u.Runs calls (acts ++ acts'))
    (hnone : ∀ act ∈ acts', Wrote act key = none) :
    (u.stateAfter (acts ++ acts')).entries key = (u.stateAfter acts).entries key := by
  induction acts' using List.reverseRecOn with
  | nil => rw [List.append_nil]
  | append_singleton acts' act ih =>
    rw [← List.append_assoc] at h ⊢
    rw [List.forall_mem_append, List.forall_mem_singleton] at hnone
    rw [h.entries_concat key, hnone.2, ← ih h.before hnone.1]
    rfl

theorem value_eq_of_entries_eq {s s' : TxnState} (h : s.entries key = s'.entries key) :
    s.value key = s'.value key := congrArg (Option.map Entry.value) h

/-- A value was written by an operation, after which the key was left alone. -/
theorem Setup.Runs.writer (h : u.Runs calls acts) (hvalue : (u.stateAfter acts).value key = some value) :
    ∃ before act rest, acts = before ++ act :: rest ∧ Wrote act key = some value ∧
      ∀ act' ∈ rest, Wrote act' key = none := by
  induction acts using List.reverseRecOn with
  | nil => cases hvalue
  | append_singleton acts act ih =>
    rw [h.value_concat key] at hvalue
    cases hw : Wrote act key with
    | some v =>
      rw [hw] at hvalue
      exact ⟨acts, act, [], rfl, by rw [hw]; exact hvalue, by simp⟩
    | none =>
      rw [hw] at hvalue
      obtain ⟨before, act', rest, heq, hw', hrest⟩ := ih h.before hvalue
      refine ⟨before, act', rest ++ [act], by rw [heq]; simp, hw', ?_⟩
      rw [List.forall_mem_append, List.forall_mem_singleton]
      exact ⟨hrest, hw⟩

/-! ## The operations of one call -/

/-- Where an operation of a call stands in the run, and the answer that it got there. -/
theorem Setup.Runs.locate (h : u.Runs calls acts) {es es' : List TxnEvent} {r : TxnReq} {x : TxnAns r}
    (hown : own t acts = es ++ ⟨r, x⟩ :: es') :
    ∃ before rest, acts = before ++ ⟨t, ⟨r, x⟩⟩ :: rest ∧ own t before = es ∧ own t rest = es' ∧
      x = (u.serve r (u.stateAfter before)).1 := by
  obtain ⟨before, rest, rfl, hbefore, hrest⟩ := own_eq_append_cons hown
  exact ⟨before, rest, rfl, hbefore, hrest, h.answer⟩

theorem readOne_value (s : TxnState) (key : MetadataTxnKey) : (s.readOne key).value = s.value key := by
  rw [TxnState.readOne, versioned, TxnState.value]
  rfl

theorem Setup.Runs.read_kept {r : VersionedMetadataTxnValue}
    (h : u.Runs calls (acts ++ ⟨t, ⟨.readOne key, r⟩⟩ :: acts'))
    (hnone : ∀ act ∈ acts', Wrote act key = none) :
    (u.stateAfter (acts ++ ⟨t, ⟨.readOne key, r⟩⟩ :: acts')).value key = r.value := by
  have hanswer : r = (u.stateAfter acts).readOne key := h.answer
  rw [value_eq_of_entries_eq (h.entries_append (List.forall_mem_cons.2 ⟨rfl, hnone⟩)), ← readOne_value,
    ← hanswer]

end

end CowStore.Txn
