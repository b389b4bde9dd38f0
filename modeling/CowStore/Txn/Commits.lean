import CowStore.Txn.Trace

/-!
# What a call has done before it commits

Every call commits at most a few times, and what it has read and drawn before a commit can
be read off its script.  `Commits` lists this for each kind of commit: the operations of
the call so far, in their order, and the transaction that they lead to.
-/

namespace CowStore.Txn

open Lib Object Tree Local StorageError Script

/-! ## Reads -/

section

variable {es : List TxnEvent} {deviceId shardId nodeId : Nat} {read : MetadataTxnKey × Nat}

variable {value : MetadataTxnValue} {head : TxnShardHead}

theorem returns_readRequired {key : MetadataTxnKey} :
    Returns (readRequired key) es (read, value) ↔ ∃ r : VersionedMetadataTxnValue,
      es = [⟨.readOne key, r⟩] ∧ r.value = some value ∧ read = (key, r.version) := by
  simp only [readRequired, readOne, perform, returns_request_bind, returns_lift_bind, pure_eq_done,
    returns_done, orFail_eq_ok, Prod.mk.injEq]
  constructor
  · rintro ⟨r, es', rfl, value', hvalue, rfl, rfl, rfl⟩
    exact ⟨r, rfl, hvalue, rfl⟩
  · rintro ⟨r, rfl, hvalue, rfl⟩
    exact ⟨r, [], rfl, value, hvalue, rfl, rfl, rfl⟩

theorem manifest?_eq_some {manifest : TxnDeviceManifest} :
    value.manifest? = some manifest ↔ value = .deviceManifest manifest := by
  cases value <;> simp [MetadataTxnValue.manifest?]

theorem shardHead?_eq_some : value.shardHead? = some head ↔ value = .deviceShardHead head := by
  cases value <;> simp [MetadataTxnValue.shardHead?]

theorem node?_eq_some {node : MetadataNode} : value.node? = some node ↔ value = .metadataNode node := by
  cases value <;> simp [MetadataTxnValue.node?]

theorem returns_readManifest {manifest : TxnDeviceManifest}
    (h : Returns (readManifest deviceId) es (read, manifest)) :
    ∃ r : VersionedMetadataTxnValue, es = [⟨.readOne (.deviceManifest deviceId), r⟩] ∧
      r.value = some (.deviceManifest manifest) ∧ manifest.live = true ∧
      read = (.deviceManifest deviceId, r.version) := by
  obtain ⟨⟨read', value⟩, es1, es2, rfl, hr, hrest⟩ := returns_bind.1 h
  obtain ⟨r, rfl, hvalue, rfl⟩ := returns_readRequired.1 hr
  simp only [returns_lift_bind, orFail_eq_ok, manifest?_eq_some, failIf_eq_ok, pure_eq_done,
    returns_done, Prod.mk.injEq] at hrest
  obtain ⟨manifest', rfl, -, hlive, rfl, rfl, rfl⟩ := hrest
  exact ⟨r, rfl, hvalue, by simpa using hlive, rfl⟩

theorem returns_readShardHead (h : Returns (readShardHead deviceId shardId) es (read, head)) :
    ∃ r : VersionedMetadataTxnValue, es = [⟨.readOne (.deviceShardHead deviceId shardId), r⟩] ∧
      r.value = some (.deviceShardHead head) ∧ read = (.deviceShardHead deviceId shardId, r.version) := by
  obtain ⟨⟨read', value⟩, es1, es2, rfl, hr, hrest⟩ := returns_bind.1 h
  obtain ⟨r, rfl, hvalue, rfl⟩ := returns_readRequired.1 hr
  simp only [returns_lift_bind, orFail_eq_ok, shardHead?_eq_some, pure_eq_done, returns_done,
    Prod.mk.injEq] at hrest
  obtain ⟨head', rfl, rfl, rfl, rfl⟩ := hrest
  exact ⟨r, rfl, hvalue, rfl⟩

theorem returns_getMetadataNode {node : MetadataNode} (h : Returns (getMetadataNode nodeId) es node) :
    ∃ r : VersionedMetadataTxnValue, es = [⟨.readOne (.metadataNode nodeId), r⟩] ∧
      r.value = some (.metadataNode node) := by
  obtain ⟨⟨read', value⟩, es1, es2, rfl, hr, hrest⟩ := returns_bind.1 h
  obtain ⟨r, rfl, hvalue, -⟩ := returns_readRequired.1 hr
  obtain ⟨rfl, hnode⟩ := returns_lift.1 hrest
  rw [orFail_eq_ok, node?_eq_some] at hnode
  exact ⟨r, rfl, by rw [hvalue, hnode]⟩

def headRead (deviceId : Nat) (read : Nat × VersionedMetadataTxnValue) : TxnEvent :=
  ⟨.readOne (.deviceShardHead deviceId read.1), read.2⟩

/-- The heads of the shards, as the reads found them. -/
def Captured (deviceId : Nat) (shards : List Nat) (heads : List TxnShardHead)
    (reads : List TxnEvent) : Prop :=
  ∃ capture : List (Nat × VersionedMetadataTxnValue), reads = capture.map (headRead deviceId) ∧
    capture.map (·.1) = shards ∧
    capture.map (·.2.value) = heads.map fun head => some (.deviceShardHead head)

theorem returns_readShardIndex (h : Returns (readShardIndex deviceId shardId) es head) :
    ∃ r : VersionedMetadataTxnValue, es = [⟨.readOne (.deviceShardHead deviceId shardId), r⟩] ∧
      r.value = some (.deviceShardHead head) := by
  simp only [readShardIndex, returns_lift_bind] at h
  obtain ⟨-, -, h⟩ := h
  obtain ⟨⟨read', head'⟩, es1, es2, rfl, hr, hrest⟩ := returns_bind.1 h
  obtain ⟨r, rfl, hvalue, -⟩ := returns_readShardHead hr
  obtain ⟨rfl, rfl⟩ := returns_done.1 hrest
  exact ⟨r, rfl, hvalue⟩

theorem captured_of_rounds {shards : List Nat} {rounds : List (List TxnEvent × TxnShardHead)}
    (h : List.Forall₂ (fun shard round => Returns (readShardIndex deviceId shard) round.1 round.2)
      shards rounds) : Captured deviceId shards (rounds.map (·.2)) (rounds.map (·.1)).flatten := by
  induction h with
  | nil => exact ⟨[], rfl, rfl, rfl⟩
  | @cons shard round shards rounds hround _ ih =>
    obtain ⟨r, hes, hvalue⟩ := returns_readShardIndex hround
    obtain ⟨capture, hreads, hshards, hheads⟩ := ih
    refine ⟨(shard, r) :: capture, ?_, ?_, ?_⟩
    · rw [List.map_cons, List.flatten_cons, hes, hreads]
      rfl
    · rw [List.map_cons, hshards]
    · rw [List.map_cons, List.map_cons, List.map_cons, hheads, hvalue]

theorem returns_getHead {head : DeviceHead} (h : Returns (getHead deviceId) es head) :
    ∃ (r : VersionedMetadataTxnValue) (manifest : TxnDeviceManifest) (heads : List TxnShardHead)
      (reads : List TxnEvent), es = ⟨.readOne (.deviceManifest deviceId), r⟩ :: reads ∧
      r.value = some (.deviceManifest manifest) ∧ manifest.live = true ∧
      Captured deviceId (List.range manifest.shardCount) heads reads ∧ head = headOf deviceId heads := by
  obtain ⟨⟨read', manifest⟩, es1, es2, rfl, hr, hrest⟩ := returns_bind.1 h
  obtain ⟨r, rfl, hvalue, hlive, -⟩ := returns_readManifest hr
  obtain ⟨heads, es3, es4, rfl, hheads, hlast⟩ := returns_bind.1 hrest
  simp only [returns_lift_bind, pure_eq_done, returns_done] at hlast
  obtain ⟨-, -, rfl, rfl⟩ := hlast
  obtain ⟨rounds, rfl, rfl, hrounds⟩ := returns_mapM hheads
  exact ⟨r, manifest, _, _, by rw [List.append_nil, List.singleton_append], hvalue, hlive,
    captured_of_rounds hrounds, rfl⟩

end

/-! ## Scripts without commits -/

def TxnReq.isCommit : TxnReq → Bool
  | .commit _ _ => true
  | _ => false

/-- The script never commits. -/
abbrev Quiet {α : Type} (p : Plane α) : Prop := p.Asks fun r => r.isCommit = false

theorem Quiet.not_reaches {α : Type} {p : Plane α} (h : Quiet p) {es : List TxnEvent}
    {phase : MetadataTxnProfilePhase} {txn : MetadataTxn} : ¬ Reaches p es (.commit phase txn) :=
  fun hreach => by cases h.reaches hreach

section

variable {config : LocalStoreConfig} {spec : DeviceSpec} {deviceId shard source targetCommit : Nat}

variable {nodeId bufLen : Nat} {range : ByteRange} {requested : BlockRange} {P : TxnReq → Prop}

theorem quiet_perform {r : TxnReq} (h : r.isCommit = false) : Quiet (perform r) := asks_request h

theorem quiet_readRequired {key : MetadataTxnKey} : Quiet (readRequired key) :=
  (quiet_perform rfl).bind fun _ => asks_lift.bind fun _ => trivial

theorem quiet_readManifest : Quiet (readManifest deviceId) :=
  quiet_readRequired.bind fun _ => asks_lift.bind fun _ => asks_lift.bind fun _ => trivial

theorem quiet_readShardHead : Quiet (readShardHead deviceId shard) :=
  quiet_readRequired.bind fun _ => asks_lift.bind fun _ => trivial

theorem asks_getMetadataNode (hnode : ∀ nodeId, P (.readOne (.metadataNode nodeId))) :
    (getMetadataNode nodeId).Asks P := by
  have hread : (readRequired (.metadataNode nodeId)).Asks P :=
    (asks_request (hnode nodeId)).bind fun _ => asks_lift.bind fun _ => trivial
  exact hread.bind fun _ => asks_lift

theorem quiet_getMetadataNode : Quiet (getMetadataNode nodeId) := asks_getMetadataNode fun _ => rfl

theorem quiet_readShardIndex : Quiet (readShardIndex deviceId shard) :=
  asks_lift.bind fun _ => quiet_readShardHead.bind fun _ => trivial

theorem quiet_getHead : Quiet (getHead deviceId) :=
  quiet_readManifest.bind fun _ =>
    (asks_mapM fun _ _ => quiet_readShardIndex).bind fun _ => asks_lift.bind fun _ => trivial

theorem quiet_deviceSpec : Quiet (deviceSpec deviceId) := quiet_readManifest.bind fun _ => trivial

theorem quiet_deviceInfo : Quiet (deviceInfo deviceId) :=
  quiet_readManifest.bind fun _ => quiet_getHead.bind fun _ => trivial

theorem asks_createEmptyTreeNodes (fanout leafBlocks fuel : Nat) (range : BlockRange) :
    (createEmptyTreeNodes fanout leafBlocks fuel range).Asks (· = .allocMetadataNodeId) := by
  have halloc : allocMetadataNodeId.Asks (· = .allocMetadataNodeId) := asks_request rfl
  induction fuel generalizing range with
  | zero => trivial
  | succ fuel ih =>
    rw [createEmptyTreeNodes]
    refine asks_lift.bind fun _ => ?_
    split
    · exact halloc.bind fun _ => asks_lift.bind fun _ => trivial
    · refine (asks_mapM fun childIndex _ => ?_).bind fun children => ?_
      · exact asks_lift.bind fun childRange => (ih childRange).bind fun _ => trivial
      · exact halloc.bind fun _ => asks_lift.bind fun _ => trivial

variable {logicalBlocks : Nat}

theorem asks_createShardNodes :
    (createShardNodes config logicalBlocks shard).Asks (· = .allocMetadataNodeId) :=
  asks_lift.bind fun _ => asks_lift.bind fun _ =>
    (asks_createEmptyTreeNodes _ _ _ _).bind fun _ => asks_lift.bind fun _ => trivial

theorem returns_createEmptyTreeNodes {metadataFanout metadataLeafBlocks fuel : Nat} {range : BlockRange}
    {es : List TxnEvent} {tree : Nat × List MetadataNode}
    (h : Returns (createEmptyTreeNodes metadataFanout metadataLeafBlocks fuel range) es tree) :
    ∀ node ∈ tree.2, ⟨.allocMetadataNodeId, node.nodeId⟩ ∈ es := by
  induction fuel generalizing range es tree with
  | zero => exact absurd h not_returns_fail
  | succ fuel ih =>
    simp only [createEmptyTreeNodes, returns_lift_bind] at h
    obtain ⟨-, -, h⟩ := h
    split at h
    · simp only [allocMetadataNodeId, perform, returns_request_bind, returns_lift_bind, pure_eq_done,
        returns_done] at h
      obtain ⟨nodeId, es', rfl, -, -, rfl, rfl⟩ := h
      intro node hnode
      rw [List.mem_singleton.1 hnode]
      exact List.mem_cons_self
    · obtain ⟨children, es1, es2, rfl, hchildren, hrest⟩ := returns_bind.1 h
      simp only [allocMetadataNodeId, perform, returns_request_bind, returns_lift_bind, pure_eq_done,
        returns_done] at hrest
      obtain ⟨nodeId, es', rfl, -, -, rfl, rfl⟩ := hrest
      obtain ⟨rounds, rfl, rfl, hrounds⟩ := returns_mapM hchildren
      intro node hnode
      obtain hnode | hnode := List.mem_append.1 hnode
      · obtain ⟨nodes, hnodes, hmem⟩ := List.mem_flatten.1 hnode
        simp only [List.map_map, List.mem_map] at hnodes
        obtain ⟨round, hround, rfl⟩ := hnodes
        obtain ⟨childIndex, -, hchild⟩ := forall₂_mem_right hrounds hround
        simp only [returns_lift_bind] at hchild
        obtain ⟨childRange, -, hchild⟩ := hchild
        obtain ⟨tree, es3, es4, hes, htree, hlast⟩ := returns_bind.1 hchild
        obtain ⟨rfl, hround'⟩ := returns_done.1 hlast
        refine List.mem_append_left _ (List.mem_flatten.2 ⟨round.1, List.mem_map.2 ⟨round, hround, rfl⟩, ?_⟩)
        rw [hes, List.append_nil]
        refine ih htree node ?_
        rwa [Function.comp_apply, ← hround'] at hmem
      · rw [List.mem_singleton.1 hnode]
        exact List.mem_append_right _ List.mem_cons_self

theorem returns_createShardNodes {config : LocalStoreConfig} {shard : Nat} {es : List TxnEvent}
    {tree : Nat × List MetadataNode} (h : Returns (createShardNodes config logicalBlocks shard) es tree) :
    ∀ node ∈ tree.2, ⟨.allocMetadataNodeId, node.nodeId⟩ ∈ es := by
  simp only [createShardNodes, returns_lift_bind] at h
  obtain ⟨startBlocks, -, endBlocks, -, h⟩ := h
  obtain ⟨tree', es1, es2, rfl, htree, hrest⟩ := returns_bind.1 h
  simp only [returns_lift_bind, pure_eq_done, returns_done] at hrest
  obtain ⟨-, -, rfl, rfl⟩ := hrest
  rw [List.append_nil]
  exact returns_createEmptyTreeNodes htree

theorem quiet_createShardNodes : Quiet (createShardNodes config logicalBlocks shard) :=
  asks_createShardNodes.mono fun r hr => by rw [hr]; rfl

theorem quiet_forkTarget {target : Option Nat} : Quiet (forkTarget target) := by
  cases target with
  | some target => trivial
  | none => exact quiet_perform rfl

theorem asks_targetCommitForRestore {point : RestorePoint} :
    (targetCommitForRestore source point).Asks fun r => ∃ key, r = .readOne key := by
  cases point with
  | commit commitSeq => trivial
  | time time => trivial
  | checkpoint checkpointId =>
    have hread : (readRequired (.checkpoint checkpointId)).Asks fun r => ∃ key, r = .readOne key :=
      (asks_request ⟨_, rfl⟩).bind fun _ => asks_lift.bind fun _ => trivial
    exact hread.bind fun _ => asks_lift.bind fun _ => asks_lift.bind fun _ => trivial

theorem quiet_targetCommitForRestore {point : RestorePoint} : Quiet (targetCommitForRestore source point) :=
  asks_targetCommitForRestore.mono fun r ⟨key, hr⟩ => by rw [hr]; rfl

theorem asks_replayDeviceRoots {mode : MetadataTxnMode} :
    (replayDeviceRoots mode source targetCommit).Asks fun r => ∃ shard, r = .shardValues shard := by
  have hvalues : (storeValues mode).Asks fun r => ∃ shard, r = .shardValues shard :=
    Asks.bind (asks_mapM fun shard _ => asks_request ⟨shard, rfl⟩) fun _ => trivial
  exact hvalues.bind fun _ => asks_lift

theorem quiet_replayDeviceRoots {mode : MetadataTxnMode} :
    Quiet (replayDeviceRoots mode source targetCommit) :=
  asks_replayDeviceRoots.mono fun r ⟨shard, hr⟩ => by rw [hr]; rfl

theorem quiet_checkUpdate {manifest : TxnDeviceManifest} {update : RootUpdate} :
    Quiet (checkUpdate deviceId manifest update) := by
  cases update with
  | blockShard shardId oldRoot newRoot =>
    exact asks_lift.bind fun _ => quiet_readShardHead.bind fun _ => asks_lift.bind fun _ =>
      quiet_getMetadataNode.bind fun _ => asks_lift.bind fun _ => trivial
  | fileCreated fileId newRoot newSize => trivial
  | fileRoot fileId oldRoot newRoot newSize => trivial

theorem quiet_shardChunk : Quiet (shardChunk config deviceId spec requested shard) := by
  refine asks_lift.bind fun _ => asks_lift.bind fun _ => asks_lift.bind fun overlap => ?_
  cases overlap with
  | none => trivial
  | some overlap => exact asks_lift.bind fun _ => quiet_readShardHead.bind fun _ => trivial

theorem quiet_splitDeviceRange : Quiet (splitDeviceRange config deviceId spec range) :=
  (asks_mapM fun _ _ => quiet_shardChunk).bind fun _ => asks_lift.bind fun _ => trivial

theorem quiet_descriptorsForEntries {entries : List LeafEntry}
    {additional : List SegmentWriteReceipt} : Quiet (descriptorsForEntries entries additional) := by
  refine (asks_mapM fun segmentId _ => ?_).bind fun _ => trivial
  unfold descriptorFor
  split
  · trivial
  · exact (quiet_perform rfl).bind fun _ => asks_lift.bind fun _ => trivial

theorem quiet_markReferenced {receipt : SegmentWriteReceipt} : Quiet (markReferenced receipt) :=
  (quiet_perform rfl).bind fun _ => asks_lift

section

variable {β : Type} {visit : LeafEntry → Plane (List β)}
  (hnode : ∀ nodeId, P (.readOne (.metadataNode nodeId))) (hvisit : ∀ entry, (visit entry).Asks P)

include hnode hvisit

theorem asks_walkNode (fuel : Nat) (node : MetadataNode) : (walkNode requested visit fuel node).Asks P := by
  induction fuel generalizing node with
  | zero => trivial
  | succ fuel ih =>
    rw [walkNode]
    split
    · refine (asks_mapM fun child _ => asks_lift.bind fun overlaps => ?_).bind fun _ => trivial
      split
      · exact (asks_getMetadataNode hnode).bind fun childNode => ih childNode
      · trivial
    · exact (asks_mapM fun entry _ => hvisit entry).bind fun _ => trivial

theorem asks_walkChunk {chunk : DeviceWriteChunk} : (walkChunk requested visit chunk).Asks P := by
  refine (asks_getMetadataNode hnode).bind fun node => asks_lift.bind fun overlaps => ?_
  split
  · exact asks_walkNode hnode hvisit _ _
  · trivial

end

theorem asks_entrySegment {entry : LeafEntry} : (entrySegment requested entry).Asks P :=
  asks_lift.bind fun _ => trivial

theorem asks_readEntry (hread : ∀ segmentId range, P (.readSegment segmentId range))
    {blockSize : Nat} {entry : LeafEntry} : (readEntry requested blockSize bufLen entry).Asks P := by
  refine asks_lift.bind fun overlap => ?_
  cases overlap with
  | none => trivial
  | some overlap =>
    exact asks_lift.bind fun _ => asks_lift.bind fun _ => asks_lift.bind fun _ =>
      asks_lift.bind fun _ => asks_lift.bind fun _ => asks_lift.bind fun _ =>
      (asks_request (hread _ _)).bind fun _ => asks_lift.bind fun _ => asks_lift.bind fun _ => trivial

theorem quiet_segmentIdsForDeviceRead : Quiet (segmentIdsForDeviceRead config deviceId range) := by
  refine quiet_deviceSpec.bind fun spec => asks_lift.bind fun _ => ?_
  split
  · trivial
  · exact quiet_splitDeviceRange.bind fun _ =>
      (asks_mapM fun _ _ => asks_walkChunk (fun _ => rfl) fun _ => asks_entrySegment).bind fun _ => trivial

theorem quiet_readDeviceUnverified : Quiet (readDeviceUnverified config deviceId range bufLen) := by
  refine quiet_deviceSpec.bind fun spec => asks_lift.bind fun _ => asks_lift.bind fun _ => ?_
  split
  · trivial
  · refine quiet_splitDeviceRange.bind fun _ => (asks_mapM fun _ _ => ?_).bind fun _ => trivial
    exact asks_walkChunk (fun _ => rfl) fun _ => asks_readEntry fun _ _ => rfl

theorem quiet_readDeviceWithVerification {verification : ReadVerification} :
    Quiet (readDeviceWithVerification config deviceId range bufLen verification) :=
  quiet_segmentIdsForDeviceRead.bind fun _ => quiet_readDeviceUnverified.bind fun _ =>
    (asks_mapM fun _ _ => (quiet_perform rfl).bind fun _ => asks_lift).bind fun _ => trivial

end

/-! ## Drafts -/

/-- What a call is about to commit, and what it returns then. -/
structure Draft (α : Type) where
  phase : MetadataTxnProfilePhase
  txn : MetadataTxn
  result : α

def finish {α : Type} (draft : Draft α) : Plane α := do
  storeCommit draft.phase draft.txn.reads draft.txn.writes
  return draft.result

section

variable {α β : Type} {p : Plane (Draft α)} {f : α → β} {es : List TxnEvent}

/-- The only commit of a finished draft is the one that it drafts. -/
theorem steps_finish (hp : Quiet p) {phase : MetadataTxnProfilePhase} {txn : MetadataTxn}
    {next : Result Unit → Plane β}
    (h : Steps (p >>= finish >>= fun a => pure (f a)) es (ask (.commit phase txn) next)) :
    ∃ draft, Returns p es draft ∧ draft.phase = phase ∧ draft.txn = txn ∧
      next (.ok ()) = done (f draft.result) := by
  rw [Script.bind_assoc] at h
  have hdraft : ∀ draft : Draft α, (finish draft >>= fun a => (pure (f a) : Plane β)) =
      ask (.commit draft.phase draft.txn) fun x : Result Unit =>
        (liftM x : Plane Unit) >>= (fun _ => done draft.result) >>= fun a => done (f a) := fun _ => rfl
  have hsteps : ∀ (draft : Draft α) (es' : List TxnEvent),
      Steps (finish draft >>= fun a => (pure (f a) : Plane β)) es' (ask (.commit phase txn) next) →
      es' = [] ∧ draft.phase = phase ∧ draft.txn = txn ∧ next (.ok ()) = done (f draft.result) := by
    intro draft es' hsteps
    rw [hdraft] at hsteps
    cases hsteps with
    | nil => exact ⟨rfl, rfl, rfl, rfl⟩
    | @cons _ _ x _ _ hnext =>
      cases x with
      | ok x => cases hnext
      | error err => cases hnext
  obtain ⟨p', hp', heq⟩ | ⟨draft, es1, es2, rfl, hreturns, hrest⟩ := steps_bind h
  · cases p' with
    | done draft =>
      obtain ⟨-, hrest⟩ := hsteps draft [] (by rw [heq]; exact .nil _)
      exact ⟨draft, hp', hrest⟩
    | fail err => cases heq
    | ask r next' =>
      cases heq
      cases (hp.steps hp').2.1
  · obtain ⟨rfl, hrest'⟩ := hsteps draft es2 hrest
    rw [List.append_nil]
    exact ⟨draft, hreturns, hrest'⟩

theorem reaches_finish (hp : Quiet p) {phase : MetadataTxnProfilePhase} {txn : MetadataTxn}
    (h : Reaches (p >>= finish) es (.commit phase txn)) :
    ∃ draft, Returns p es draft ∧ draft.phase = phase ∧ draft.txn = txn := by
  obtain ⟨next, hsteps⟩ := h
  rw [← bind_pure (p >>= finish)] at hsteps
  obtain ⟨draft, hreturns, hphase, htxn, -⟩ := steps_finish hp hsteps
  exact ⟨draft, hreturns, hphase, htxn⟩

theorem returns_finish {b : β} (h : Returns (p >>= finish >>= fun a => pure (f a)) es b) :
    ∃ es' draft, es = es' ++ [⟨.commit draft.phase draft.txn, .ok ()⟩] ∧ Returns p es' draft ∧
      b = f draft.result := by
  obtain ⟨a, es1, es2, rfl, ha, hb⟩ := returns_bind.1 h
  obtain ⟨rfl, rfl⟩ := returns_done.1 hb
  obtain ⟨draft, es3, es4, rfl, hdraft, hfinish⟩ := returns_bind.1 ha
  simp only [finish, storeCommit, perform, Script.bind_assoc, returns_request_bind,
    returns_lift_bind, pure_eq_done, returns_done] at hfinish
  obtain ⟨x, es', rfl, -, rfl, rfl, rfl⟩ := hfinish
  exact ⟨es3, draft, by rw [List.append_nil], hdraft, rfl⟩

end

def createDraft (config : LocalStoreConfig) (spec : DeviceSpec) : Plane (Draft DeviceHead) := do
  spec.validate
  failIf (spec.logicalBlocks < config.shardCount)
    (invalidArgument "device logical blocks must cover every shard")
  let deviceId ← allocDeviceId
  let shards ← (List.range config.shardCount).mapM (createShardNodes config spec.logicalBlocks)
  let head : DeviceHead := ⟨deviceId, 0, shards.map (·.1), 0⟩
  head.validate config.shardCount
  let checkpointId ← allocCheckpointId
  return ⟨.createDevice, ⟨[], shardWrites deviceId shards ++
    [manifestWrite deviceId ⟨spec, config.shardCount, true⟩,
      checkpointWrite checkpointId 0 deviceId (shards.map (·.1))]⟩, head⟩

def checkpointDraft (deviceId : Nat) : Plane (Draft Nat) := do
  let head ← getHead deviceId
  let checkpointId ← allocCheckpointId
  return ⟨.checkpoint,
    ⟨[], [checkpointWrite checkpointId head.latestCommit deviceId head.shardRoots]⟩, checkpointId⟩

def forkDraft (source : Nat) (target : Option Nat) : Plane (Draft DeviceHead) := do
  let (_, sourceManifest) ← readManifest source
  let sourceHead ← getHead source
  let target ← forkTarget target
  let commitSeq ← allocPublicCommitSeq
  failIf (sourceHead.shardRoots.length > u32Bound) (invalidArgument "shard index overflows u32")
  let checkpointId ← allocCheckpointId
  return ⟨.fork, ⟨[], targetWrites target sourceManifest sourceHead.shardRoots commitSeq ++
    [(.forkRecord commitSeq, .forkRecord ⟨commitSeq, source, target, sourceHead.shardRoots⟩),
      checkpointWrite checkpointId commitSeq target sourceHead.shardRoots]⟩,
    ⟨target, 0, sourceHead.shardRoots, commitSeq⟩⟩

def deleteDraft (deviceId : Nat) : Plane (Draft Nat) := do
  let (manifestRead, manifest) ← readManifest deviceId
  let head ← getHead deviceId
  let commitSeq ← allocPublicCommitSeq
  return ⟨.delete, ⟨[manifestRead], [manifestWrite deviceId { manifest with live := false },
    (.deleteRecord commitSeq, .deleteRecord ⟨commitSeq, commitSeq, deviceId, head.shardRoots⟩)]⟩,
    commitSeq⟩

def restoreDraft (mode : MetadataTxnMode) (source : Nat) (point : RestorePoint) :
    Plane (Draft DeviceHead) := do
  let (_, sourceManifest) ← readManifest source
  let targetCommit ← targetCommitForRestore source point
  let shardRoots ← replayDeviceRoots mode source targetCommit
  let target ← allocDeviceId
  let commitSeq ← allocPublicCommitSeq
  failIf (shardRoots.length > u32Bound) (invalidArgument "shard index overflows u32")
  let checkpointId ← allocCheckpointId
  return ⟨.restore, ⟨[], targetWrites target sourceManifest shardRoots commitSeq ++
    [checkpointWrite checkpointId commitSeq target shardRoots]⟩, ⟨target, 0, shardRoots, commitSeq⟩⟩

def publishDraft (deviceId : Nat) (updates : List RootUpdate) : Plane (Draft CommitGroup) := do
  let (_, manifest) ← readManifest deviceId
  let checked ← updates.mapM (checkUpdate deviceId manifest)
  let commitSeq ← allocPublicCommitSeq
  let commitGroup ← allocCommitGroupId
  let group : CommitGroup := ⟨commitGroup, commitSeq, .blockDevice deviceId, updates⟩
  return ⟨.publishBlockCommit,
    ⟨checked.map ShardUpdate.read, groupWrites deviceId group checked⟩, group⟩

section

variable {config : LocalStoreConfig} {spec : DeviceSpec} {deviceId source : Nat}

variable {target : Option Nat} {mode : MetadataTxnMode} {point : RestorePoint}

theorem publishUpdates_eq (deviceId : Nat) (updates : List RootUpdate) :
    publishUpdates deviceId updates = publishDraft deviceId updates >>= finish := by
  simp only [publishUpdates, publishDraft, finish, Script.bind_assoc, pure_bind]

theorem quiet_createDraft : Quiet (createDraft config spec) :=
  asks_lift.bind fun _ => asks_lift.bind fun _ => (quiet_perform rfl).bind fun _ =>
    (asks_mapM fun _ _ => quiet_createShardNodes).bind fun _ => asks_lift.bind fun _ =>
    (quiet_perform rfl).bind fun _ => trivial

theorem quiet_checkpointDraft : Quiet (checkpointDraft deviceId) :=
  quiet_getHead.bind fun _ => (quiet_perform rfl).bind fun _ => trivial

theorem quiet_forkDraft : Quiet (forkDraft source target) :=
  quiet_readManifest.bind fun _ => quiet_getHead.bind fun _ => quiet_forkTarget.bind fun _ =>
    (quiet_perform rfl).bind fun _ => asks_lift.bind fun _ => (quiet_perform rfl).bind fun _ => trivial

theorem quiet_deleteDraft : Quiet (deleteDraft deviceId) :=
  quiet_readManifest.bind fun _ => quiet_getHead.bind fun _ => (quiet_perform rfl).bind fun _ => trivial

theorem quiet_restoreDraft : Quiet (restoreDraft mode source point) :=
  quiet_readManifest.bind fun _ => quiet_targetCommitForRestore.bind fun _ =>
    quiet_replayDeviceRoots.bind fun _ => (quiet_perform rfl).bind fun _ =>
    (quiet_perform rfl).bind fun _ => asks_lift.bind fun _ => (quiet_perform rfl).bind fun _ => trivial

theorem quiet_publishDraft {updates : List RootUpdate} : Quiet (publishDraft deviceId updates) :=
  quiet_readManifest.bind fun _ => (asks_mapM fun _ _ => quiet_checkUpdate).bind fun _ =>
    (quiet_perform rfl).bind fun _ => (quiet_perform rfl).bind fun _ => trivial

end

/-! ## The operations that lead to a commit -/

/-- A checked update stands on a read of the head of its shard. -/
def Backed (deviceId : Nat) (reads : List TxnEvent) (update : ShardUpdate) : Prop :=
  ∃ (r : VersionedMetadataTxnValue) (head : TxnShardHead),
    headRead deviceId (update.shardId, r) ∈ reads ∧ r.value = some (.deviceShardHead head) ∧
      update.read = (.deviceShardHead deviceId update.shardId, r.version) ∧
      head.root = update.oldRoot ∧ update.generation = head.generation + 1

def TxnCall.stores : TxnCall → Bool
  | persistMetadataNode _ _ => true
  | writeDevice _ _ _ _ _ => true
  | _ => false

/-- The device that the call publishes commit groups of. -/
def TxnCall.publishes : TxnCall → Option Nat
  | publishCommitGroup (.blockDevice deviceId) _ _ => some deviceId
  | writeDevice deviceId _ _ _ _ => some deviceId
  | _ => none

/-- What a call has done when it is about to commit, and what it returns if the commit goes
through and is the last thing that it does. -/
inductive Commits (u : Setup) : TxnCall → List TxnEvent → MetadataTxnProfilePhase → MetadataTxn →
    Option TxnReply → Prop
  | create {spec : DeviceSpec} {deviceId checkpointId : Nat} {shards : List (Nat × List MetadataNode)}
      {drawn : List TxnEvent} (hdrawn : ∀ e ∈ drawn, e.1 = .allocMetadataNodeId)
      (hshards : shards.length = u.config.shardCount)
      (hnodes : ∀ shard ∈ shards, ∀ node ∈ shard.2, ⟨.allocMetadataNodeId, node.nodeId⟩ ∈ drawn) :
      Commits u (.createDevice spec)
        (⟨.allocDeviceId, deviceId⟩ :: (drawn ++ [⟨.allocCheckpointId, checkpointId⟩]))
        .createDevice
        ⟨[], shardWrites deviceId shards ++
          [manifestWrite deviceId ⟨spec, u.config.shardCount, true⟩,
            checkpointWrite checkpointId 0 deviceId (shards.map (·.1))]⟩
        (some (.head ⟨deviceId, 0, shards.map (·.1), 0⟩))
  | persist {c : TxnCall} {before : List TxnEvent} {node : MetadataNode}
      {r : VersionedMetadataTxnValue} (hcall : c.stores = true) (hvalue : r.value = none)
      (hdrawn : (∃ segments, c = .persistMetadataNode node segments) ∨
        ⟨.allocMetadataNodeId, node.nodeId⟩ ∈ before) :
      Commits u c (before ++ [⟨.readOne (.metadataNode node.nodeId), r⟩]) .persistNode
        ⟨[(.metadataNode node.nodeId, r.version)], [nodeWrite node]⟩ none
  | publish {c : TxnCall} {deviceId : Nat} {before reads : List TxnEvent}
      {r : VersionedMetadataTxnValue} {manifest : TxnDeviceManifest} {checked : List ShardUpdate}
      {commitSeq groupId : Nat} {updates : List RootUpdate} (hcall : c.publishes = some deviceId)
      (hvalue : r.value = some (.deviceManifest manifest)) (hlive : manifest.live = true)
      (hreads : ∀ e ∈ reads, e.1 ≠ .readOne (.deviceManifest deviceId))
      (hchecked : ∀ update ∈ checked, Backed deviceId reads update)
      (hshard : ∀ update ∈ checked, update.shardId < manifest.shardCount) :
      Commits u c
        (before ++ ⟨.readOne (.deviceManifest deviceId), r⟩ ::
          (reads ++ [⟨.allocPublicCommitSeq, commitSeq⟩, ⟨.allocCommitGroupId, groupId⟩]))
        .publishBlockCommit
        ⟨checked.map ShardUpdate.read,
          groupWrites deviceId ⟨groupId, commitSeq, .blockDevice deviceId, updates⟩ checked⟩ none
  | checkpoint {deviceId checkpointId : Nat} {r : VersionedMetadataTxnValue}
      {manifest : TxnDeviceManifest} {heads : List TxnShardHead} {reads : List TxnEvent}
      (hvalue : r.value = some (.deviceManifest manifest)) (hlive : manifest.live = true)
      (hreads : Captured deviceId (List.range manifest.shardCount) heads reads) :
      Commits u (.checkpoint deviceId)
        (⟨.readOne (.deviceManifest deviceId), r⟩ :: (reads ++ [⟨.allocCheckpointId, checkpointId⟩]))
        .checkpoint
        ⟨[], [checkpointWrite checkpointId (headOf deviceId heads).latestCommit deviceId
          (headOf deviceId heads).shardRoots]⟩
        (some (.checkpoint checkpointId))
  | fork {source deviceId commitSeq checkpointId : Nat} {target : Option Nat}
      {r r' : VersionedMetadataTxnValue} {manifest manifest' : TxnDeviceManifest}
      {heads : List TxnShardHead} {reads chosen : List TxnEvent}
      (hvalue : r.value = some (.deviceManifest manifest)) (hlive : manifest.live = true)
      (hvalue' : r'.value = some (.deviceManifest manifest'))
      (hreads : Captured source (List.range manifest'.shardCount) heads reads)
      (hchosen : target = some deviceId ∧ chosen = [] ∨
        target = none ∧ chosen = [⟨.allocDeviceId, deviceId⟩]) :
      Commits u (.forkDevice source target)
        (⟨.readOne (.deviceManifest source), r⟩ :: ⟨.readOne (.deviceManifest source), r'⟩ ::
          (reads ++ (chosen ++
            [⟨.allocPublicCommitSeq, commitSeq⟩, ⟨.allocCheckpointId, checkpointId⟩])))
        .fork
        ⟨[], targetWrites deviceId manifest (headOf source heads).shardRoots commitSeq ++
          [(.forkRecord commitSeq,
              .forkRecord ⟨commitSeq, source, deviceId, (headOf source heads).shardRoots⟩),
            checkpointWrite checkpointId commitSeq deviceId (headOf source heads).shardRoots]⟩
        (some (.head ⟨deviceId, 0, (headOf source heads).shardRoots, commitSeq⟩))
  | restore {source targetCommit deviceId commitSeq checkpointId : Nat} {point : RestorePoint}
      {r : VersionedMetadataTxnValue} {manifest : TxnDeviceManifest} {roots : List Nat}
      {resolved replayed : List TxnEvent}
      (hvalue : r.value = some (.deviceManifest manifest)) (hlive : manifest.live = true)
      (hresolved : Returns (targetCommitForRestore source point) resolved targetCommit)
      (hreplayed : Returns (replayDeviceRoots u.mode source targetCommit) replayed roots) :
      Commits u (.restoreDevice source point)
        (⟨.readOne (.deviceManifest source), r⟩ :: (resolved ++ (replayed ++
          [⟨.allocDeviceId, deviceId⟩, ⟨.allocPublicCommitSeq, commitSeq⟩,
            ⟨.allocCheckpointId, checkpointId⟩])))
        .restore
        ⟨[], targetWrites deviceId manifest roots commitSeq ++
          [checkpointWrite checkpointId commitSeq deviceId roots]⟩
        (some (.head ⟨deviceId, 0, roots, commitSeq⟩))
  | delete {deviceId commitSeq : Nat} {r r' : VersionedMetadataTxnValue}
      {manifest manifest' : TxnDeviceManifest} {heads : List TxnShardHead} {reads : List TxnEvent}
      (hvalue : r.value = some (.deviceManifest manifest)) (hlive : manifest.live = true)
      (hvalue' : r'.value = some (.deviceManifest manifest'))
      (hreads : Captured deviceId (List.range manifest'.shardCount) heads reads) :
      Commits u (.deleteDevice deviceId)
        (⟨.readOne (.deviceManifest deviceId), r⟩ :: ⟨.readOne (.deviceManifest deviceId), r'⟩ ::
          (reads ++ [⟨.allocPublicCommitSeq, commitSeq⟩]))
        .delete
        ⟨[(.deviceManifest deviceId, r.version)],
          [manifestWrite deviceId { manifest with live := false },
            (.deleteRecord commitSeq, .deleteRecord
              ⟨commitSeq, commitSeq, deviceId, (headOf deviceId heads).shardRoots⟩)]⟩
        (some (.deleted commitSeq))

section

variable {u : Setup} {es : List TxnEvent} {phase : MetadataTxnProfilePhase} {txn : MetadataTxn}

variable {draft : Draft DeviceHead} {deviceId : Nat} {c : TxnCall} {α : Type}

theorem commits_create {spec : DeviceSpec} (h : Returns (createDraft u.config spec) es draft) :
    Commits u (.createDevice spec) es draft.phase draft.txn (some (.head draft.result)) := by
  simp only [createDraft, allocDeviceId, allocCheckpointId, perform, returns_lift_bind,
    returns_request_bind] at h
  obtain ⟨-, -, -, -, deviceId, es', rfl, h⟩ := h
  obtain ⟨shards, drawn, es2, rfl, hshards, hrest⟩ := returns_bind.1 h
  simp only [returns_lift_bind, returns_request_bind, pure_eq_done, returns_done] at hrest
  obtain ⟨-, -, checkpointId, es3, rfl, rfl, rfl⟩ := hrest
  have hdrawn := ((asks_mapM fun _ _ => asks_createShardNodes).steps hshards).1
  obtain ⟨rounds, rfl, rfl, hrounds⟩ := returns_mapM hshards
  refine .create hdrawn ?_ ?_
  · rw [List.length_map, ← hrounds.length_eq, List.length_range]
  · intro shard hshard node hnode
    obtain ⟨round, hround, rfl⟩ := List.mem_map.1 hshard
    obtain ⟨i, -, htree⟩ := forall₂_mem_right hrounds hround
    exact List.mem_flatten.2 ⟨round.1, List.mem_map.2 ⟨round, hround, rfl⟩,
      returns_createShardNodes htree node hnode⟩

theorem commits_checkpoint {draft : Draft Nat} (h : Returns (checkpointDraft deviceId) es draft) :
    Commits u (.checkpoint deviceId) es draft.phase draft.txn (some (.checkpoint draft.result)) := by
  obtain ⟨head, es1, es2, rfl, hhead, hrest⟩ := returns_bind.1 h
  obtain ⟨r, manifest, heads, reads, rfl, hvalue, hlive, hreads, rfl⟩ := returns_getHead hhead
  simp only [allocCheckpointId, perform, returns_request_bind, pure_eq_done, returns_done] at hrest
  obtain ⟨checkpointId, es', rfl, rfl, rfl⟩ := hrest
  exact .checkpoint hvalue hlive hreads

theorem commits_fork {source : Nat} {target : Option Nat} (h : Returns (forkDraft source target) es draft) :
    Commits u (.forkDevice source target) es draft.phase draft.txn (some (.head draft.result)) := by
  obtain ⟨⟨read, manifest⟩, es1, es2, rfl, hmanifest, hrest⟩ := returns_bind.1 h
  obtain ⟨r, rfl, hvalue, hlive, -⟩ := returns_readManifest hmanifest
  obtain ⟨head, es3, es4, rfl, hhead, hrest'⟩ := returns_bind.1 hrest
  obtain ⟨r', manifest', heads, reads, rfl, hvalue', -, hreads, rfl⟩ := returns_getHead hhead
  obtain ⟨deviceId, chosen, es5, rfl, hchosen, hlast⟩ := returns_bind.1 hrest'
  simp only [allocPublicCommitSeq, allocCheckpointId, perform, returns_lift_bind,
    returns_request_bind, pure_eq_done, returns_done] at hlast
  obtain ⟨commitSeq, es6, rfl, -, -, checkpointId, es7, rfl, rfl, rfl⟩ := hlast
  refine .fork hvalue hlive hvalue' hreads ?_
  cases target with
  | some target =>
    obtain ⟨rfl, rfl⟩ := returns_done.1 hchosen
    exact .inl ⟨rfl, rfl⟩
  | none => exact .inr ⟨rfl, returns_request.1 hchosen⟩

theorem commits_delete {draft : Draft Nat} (h : Returns (deleteDraft deviceId) es draft) :
    Commits u (.deleteDevice deviceId) es draft.phase draft.txn (some (.deleted draft.result)) := by
  obtain ⟨⟨read, manifest⟩, es1, es2, rfl, hmanifest, hrest⟩ := returns_bind.1 h
  obtain ⟨r, rfl, hvalue, hlive, rfl⟩ := returns_readManifest hmanifest
  obtain ⟨head, es3, es4, rfl, hhead, hlast⟩ := returns_bind.1 hrest
  obtain ⟨r', manifest', heads, reads, rfl, hvalue', -, hreads, rfl⟩ := returns_getHead hhead
  simp only [allocPublicCommitSeq, perform, returns_request_bind, pure_eq_done, returns_done] at hlast
  obtain ⟨commitSeq, es5, rfl, rfl, rfl⟩ := hlast
  exact .delete hvalue hlive hvalue' hreads

theorem commits_restore {source : Nat} {point : RestorePoint}
    (h : Returns (restoreDraft u.mode source point) es draft) :
    Commits u (.restoreDevice source point) es draft.phase draft.txn (some (.head draft.result)) := by
  obtain ⟨⟨read, manifest⟩, es1, es2, rfl, hmanifest, hrest⟩ := returns_bind.1 h
  obtain ⟨r, rfl, hvalue, hlive, -⟩ := returns_readManifest hmanifest
  obtain ⟨targetCommit, resolved, es3, rfl, hresolved, hrest'⟩ := returns_bind.1 hrest
  obtain ⟨roots, replayed, es4, rfl, hreplayed, hlast⟩ := returns_bind.1 hrest'
  simp only [allocDeviceId, allocPublicCommitSeq, allocCheckpointId, perform, returns_lift_bind,
    returns_request_bind, pure_eq_done, returns_done] at hlast
  obtain ⟨deviceId, es5, rfl, commitSeq, es6, rfl, -, -, checkpointId, es7, rfl, rfl, rfl⟩ := hlast
  exact .restore hvalue hlive hresolved hreplayed

theorem returns_checkUpdate {manifest : TxnDeviceManifest} {update : RootUpdate}
    {checked : ShardUpdate} (h : Returns (checkUpdate deviceId manifest update) es checked) :
    ∃ r r' : VersionedMetadataTxnValue, es = [headRead deviceId (checked.shardId, r),
        ⟨.readOne (.metadataNode checked.newRoot), r'⟩] ∧
      Backed deviceId es checked ∧ checked.shardId < manifest.shardCount := by
  cases update with
  | blockShard shardId oldRoot newRoot =>
    simp only [checkUpdate, returns_lift_bind, failIf_eq_ok] at h
    obtain ⟨-, hshard, h⟩ := h
    obtain ⟨⟨read, head⟩, es1, es2, rfl, hhead, hrest⟩ := returns_bind.1 h
    obtain ⟨r, rfl, hvalue, rfl⟩ := returns_readShardHead hhead
    simp only [returns_lift_bind, failIf_eq_ok] at hrest
    obtain ⟨-, hroot, hrest⟩ := hrest
    obtain ⟨node, es3, es4, rfl, hnode, hlast⟩ := returns_bind.1 hrest
    obtain ⟨r', rfl, -⟩ := returns_getMetadataNode hnode
    simp only [returns_lift_bind, pure_eq_done, returns_done] at hlast
    obtain ⟨generation, hgeneration, rfl, rfl⟩ := hlast
    obtain ⟨rfl, -⟩ := checkedAdd_eq_ok hgeneration
    refine ⟨r, r', rfl, ⟨r, head, by simp [headRead], hvalue, rfl, by simpa using hroot, rfl⟩, ?_⟩
    simpa using hshard
  | fileCreated fileId newRoot newSize => exact absurd h not_returns_fail
  | fileRoot fileId oldRoot newRoot newSize => exact absurd h not_returns_fail

theorem Backed.mono {reads reads' : List TxnEvent} {update : ShardUpdate}
    (h : Backed deviceId reads update) (hsub : reads ⊆ reads') : Backed deviceId reads' update := by
  obtain ⟨r, head, hmem, hrest⟩ := h
  exact ⟨r, head, hsub hmem, hrest⟩

theorem commits_publish {updates : List RootUpdate} {draft : Draft CommitGroup}
    (hcall : c.publishes = some deviceId) (before : List TxnEvent)
    (h : Returns (publishDraft deviceId updates) es draft) :
    Commits u c (before ++ es) draft.phase draft.txn none := by
  obtain ⟨⟨read, manifest⟩, es1, es2, rfl, hmanifest, hrest⟩ := returns_bind.1 h
  obtain ⟨r, rfl, hvalue, hlive, -⟩ := returns_readManifest hmanifest
  obtain ⟨checked, reads, es3, rfl, hchecked, hlast⟩ := returns_bind.1 hrest
  simp only [allocPublicCommitSeq, allocCommitGroupId, perform, returns_request_bind, pure_eq_done,
    returns_done] at hlast
  obtain ⟨commitSeq, es4, rfl, groupId, es5, rfl, rfl, rfl⟩ := hlast
  obtain ⟨rounds, rfl, rfl, hrounds⟩ := returns_mapM hchecked
  -- what holds of every round holds of every checked update and of every read
  have hround := fun round (hmem : round ∈ rounds) =>
    returns_checkUpdate (forall₂_mem_right hrounds hmem).choose_spec.2
  refine .publish hcall hvalue hlive ?_ ?_ ?_
  · intro e he
    obtain ⟨es', hmem, he'⟩ := List.mem_flatten.1 he
    obtain ⟨round, hmem', rfl⟩ := List.mem_map.1 hmem
    obtain ⟨r1, r2, heq, -⟩ := hround round hmem'
    rw [heq] at he'
    simp only [List.mem_cons, List.not_mem_nil, or_false] at he'
    obtain rfl | rfl := he'
    · simp [headRead]
    · simp
  · intro update hmem
    obtain ⟨round, hmem', rfl⟩ := List.mem_map.1 hmem
    obtain ⟨-, -, -, hbacked, -⟩ := hround round hmem'
    exact hbacked.mono fun e he => List.mem_flatten.2 ⟨_, List.mem_map_of_mem hmem', he⟩
  · intro update hmem
    obtain ⟨round, hmem', rfl⟩ := List.mem_map.1 hmem
    obtain ⟨-, -, -, -, hlt⟩ := hround round hmem'
    exact hlt

theorem reaches_persistMetadataNode {node : MetadataNode} {segments : List SegmentDescriptor}
    (h : Reaches (persistMetadataNode node segments) es (.commit phase txn)) :
    ∃ r : VersionedMetadataTxnValue, es = [⟨.readOne (.metadataNode node.nodeId), r⟩] ∧
      r.value = none ∧ phase = .persistNode ∧
      txn = ⟨[(.metadataNode node.nodeId, r.version)], [nodeWrite node]⟩ := by
  simp only [persistMetadataNode, readOne, perform, reaches_lift_bind, reaches_request_bind,
    reduceCtorEq, and_false, false_or] at h
  obtain ⟨-, -, r, es', rfl, h⟩ := h
  cases hvalue : r.value with
  | some value =>
    rw [hvalue] at h
    cases value with
    | metadataNode existing => exact absurd h not_reaches_lift
    | _ => exact absurd h not_reaches_fail
  | none =>
    simp only [hvalue, storeCommit, perform, reaches_request_bind, not_reaches_lift, and_false,
      exists_false, or_false, TxnReq.commit.injEq] at h
    obtain ⟨rfl, rfl, rfl⟩ := h
    exact ⟨r, rfl, hvalue, rfl, rfl⟩

/-- The call is about to store a node under a number that it has drawn. -/
def StoresNode (es : List TxnEvent) (phase : MetadataTxnProfilePhase) (txn : MetadataTxn) : Prop :=
  ∃ (before : List TxnEvent) (node : MetadataNode) (r : VersionedMetadataTxnValue),
    es = before ++ [⟨.readOne (.metadataNode node.nodeId), r⟩] ∧ r.value = none ∧
      ⟨.allocMetadataNodeId, node.nodeId⟩ ∈ before ∧ phase = .persistNode ∧
      txn = ⟨[(.metadataNode node.nodeId, r.version)], [nodeWrite node]⟩

theorem StoresNode.after (h : StoresNode es phase txn) (es' : List TxnEvent) :
    StoresNode (es' ++ es) phase txn := by
  obtain ⟨before, node, r, rfl, hvalue, hdrawn, hphase, htxn⟩ := h
  exact ⟨es' ++ before, node, r, by rw [List.append_assoc], hvalue, List.mem_append_right _ hdrawn,
    hphase, htxn⟩

def StoresNodes {α : Type} (p : Plane α) : Prop :=
  ∀ es phase txn, Reaches p es (.commit phase txn) → StoresNode es phase txn

theorem Quiet.storesNodes {p : Plane α} (h : Quiet p) : StoresNodes p :=
  fun _ _ _ hreach => absurd hreach h.not_reaches

theorem storesNodes_lift {x : Result α} : StoresNodes (liftM x : Plane α) :=
  Quiet.storesNodes asks_lift

theorem StoresNodes.bind {β : Type} {p : Plane α} {f : α → Plane β} (hp : StoresNodes p)
    (hf : ∀ a, StoresNodes (f a)) : StoresNodes (p >>= f) := by
  intro es phase txn hreach
  obtain hreach | ⟨a, es1, es2, rfl, -, hreach⟩ := reaches_bind.1 hreach
  · exact hp _ _ _ hreach
  · exact (hf a _ _ _ hreach).after es1

theorem storesNodes_mapM {β : Type} {f : α → Plane β} {xs : List α}
    (h : ∀ x ∈ xs, StoresNodes (f x)) : StoresNodes (xs.mapM f) := by
  intro es phase txn hreach
  obtain ⟨before, x, rest, es1, es2, ys, rfl, rfl, -, hreach⟩ := reaches_mapM hreach
  exact (h x (by simp) _ _ _ hreach).after es1

theorem storesNodes_addMetadataNode {coveredRange : BlockRange} {kind : MetadataNodeKind}
    {segments : List SegmentDescriptor} : StoresNodes (addMetadataNode coveredRange kind segments) := by
  intro es phase txn hreach
  simp only [addMetadataNode, allocateMetadataNode, allocMetadataNodeId, perform, Script.bind_assoc,
    pure_bind, reaches_request_bind, reduceCtorEq, and_false, false_or, reaches_lift_bind] at hreach
  obtain ⟨nodeId, es', rfl, -, -, hreach⟩ := hreach
  obtain hreach | ⟨-, es1, es2, -, -, hreach⟩ := reaches_bind.1 hreach
  · obtain ⟨r, rfl, hvalue, rfl, rfl⟩ := reaches_persistMetadataNode hreach
    exact ⟨[⟨.allocMetadataNodeId, nodeId⟩], _, r, rfl, hvalue, by simp, rfl, rfl⟩
  · exact absurd hreach not_reaches_done

theorem storesNodes_replaceTreeRangeAt (blockSize : Nat) (edit : TreeRangeEdit)
    (additional : List SegmentWriteReceipt) (fuel : Nat) (node : MetadataNode) :
    StoresNodes (replaceTreeRangeAt blockSize edit additional fuel node) := by
  induction fuel generalizing node with
  | zero => exact Quiet.storesNodes trivial
  | succ fuel ih =>
    rw [replaceTreeRangeAt]
    refine storesNodes_lift.bind fun overlaps => ?_
    split
    · split
      · refine storesNodes_lift.bind fun contents => ?_
        split
        · exact Quiet.storesNodes trivial
        · exact quiet_descriptorsForEntries.storesNodes.bind fun _ =>
            storesNodes_addMetadataNode
      · next children =>
        refine (storesNodes_mapM fun child _ => ?_).bind fun edited => ?_
        · refine storesNodes_lift.bind fun overlaps => ?_
          split
          · exact quiet_getMetadataNode.storesNodes.bind fun childNode =>
              (ih childNode).bind fun _ => Quiet.storesNodes trivial
          · exact Quiet.storesNodes trivial
        · split
          · exact storesNodes_addMetadataNode
          · exact Quiet.storesNodes trivial
    · exact Quiet.storesNodes trivial

theorem storesNodes_writeChunk {config : LocalStoreConfig} {blockSize offset : Nat}
    {data : List UInt8} {integrity : PayloadIntegrity} {chunk : DeviceWriteChunk} :
    StoresNodes (writeChunk config blockSize offset data integrity chunk) := by
  refine storesNodes_lift.bind fun _ => storesNodes_lift.bind fun _ => storesNodes_lift.bind fun _ =>
    storesNodes_lift.bind fun _ => storesNodes_lift.bind fun _ =>
    (Quiet.storesNodes (quiet_perform rfl)).bind fun _ => storesNodes_lift.bind fun receipt =>
    StoresNodes.bind ?_ fun _ => Quiet.storesNodes trivial
  exact storesNodes_lift.bind fun _ => quiet_getMetadataNode.storesNodes.bind fun _ =>
    storesNodes_lift.bind fun _ => storesNodes_lift.bind fun _ => storesNodes_replaceTreeRangeAt _ _ _ _ _

theorem reaches_publishCommitGroup {owner : MappingOwner} {fence : MetadataFence} {updates : List RootUpdate}
    (hcall : ∀ deviceId, owner = .blockDevice deviceId → c.publishes = some deviceId) (before : List TxnEvent)
    (h : Reaches (publishCommitGroup owner fence updates) es (.commit phase txn)) :
    Commits u c (before ++ es) phase txn none := by
  unfold publishCommitGroup at h
  split at h
  · exact absurd h not_reaches_fail
  · split at h
    · split at h
      · exact absurd h not_reaches_fail
      · rw [publishUpdates_eq] at h
        obtain ⟨draft, hreturns, rfl, rfl⟩ := reaches_finish quiet_publishDraft h
        exact commits_publish (hcall _ rfl) before hreturns
    · exact absurd h not_reaches_fail

theorem commits_writeDevice {offset : Nat} {data : List UInt8} {durability : WriteDurability}
    {integrity : PayloadIntegrity}
    (h : Reaches (writeDeviceWithIntegrity u.config deviceId offset data durability integrity) es
      (.commit phase txn)) :
    Commits u (.writeDevice deviceId offset data durability integrity) es phase txn none := by
  have hstores : StoresNode es phase txn →
      Commits u (.writeDevice deviceId offset data durability integrity) es phase txn none := by
    rintro ⟨before, node, r, rfl, hvalue, hdrawn, rfl, rfl⟩
    exact .persist rfl hvalue (.inr hdrawn)
  obtain h | ⟨spec, es1, es2, rfl, -, h⟩ := reaches_bind.1 h
  · exact absurd h quiet_deviceSpec.not_reaches
  simp only [reaches_lift_bind] at h
  obtain ⟨-, -, -, -, h⟩ := h
  split at h
  · obtain h | ⟨info, es3, es4, -, -, h⟩ := reaches_bind.1 h
    · exact absurd h quiet_deviceInfo.not_reaches
    · exact absurd h not_reaches_done
  obtain h | ⟨chunks, es3, es4, rfl, -, h⟩ := reaches_bind.1 h
  · exact absurd h quiet_splitDeviceRange.not_reaches
  obtain h | ⟨written, es5, es6, rfl, -, h⟩ := reaches_bind.1 h
  · exact hstores (((storesNodes_mapM fun _ _ => storesNodes_writeChunk) _ _ _ h).after es3
      |>.after es1)
  obtain h | ⟨group, es7, es8, rfl, -, h⟩ := reaches_bind.1 h
  · have hcommits := reaches_publishCommitGroup (u := u)
      (c := .writeDevice deviceId offset data durability integrity)
      (fun _ howner => congrArg some (MappingOwner.blockDevice.inj howner)) (es1 ++ (es3 ++ es5)) h
    simpa only [List.append_assoc] using hcommits
  · refine absurd h (Quiet.not_reaches ?_)
    exact (asks_mapM fun _ _ => quiet_markReferenced).bind fun _ => trivial

/-- The call drafts a commit, and returns once the commit has gone through. -/
def Drafted (u : Setup) (c : TxnCall) : Prop :=
  ∃ (α : Type) (p : Plane (Draft α)) (f : α → TxnReply), Quiet p ∧
    c.script u.config u.mode = (p >>= finish >>= fun a => pure (f a)) ∧
    ∀ es draft, Returns p es draft → Commits u c es draft.phase draft.txn (some (f draft.result))

theorem Drafted.commits_of_steps {next : Result Unit → Plane TxnReply} (hc : Drafted u c)
    (h : Steps (c.script u.config u.mode) es (ask (.commit phase txn) next)) :
    ∃ reply, Commits u c es phase txn reply ∧ ∀ x, reply = some x → next (.ok ()) = done x := by
  obtain ⟨α, p, f, hp, hscript, hcommits⟩ := hc
  rw [hscript] at h
  obtain ⟨draft, hreturns, rfl, rfl, hnext⟩ := steps_finish hp h
  exact ⟨_, hcommits es draft hreturns, fun x hx => by rw [hnext, Option.some.inj hx]⟩

theorem Drafted.commits_of_returns {reply : TxnReply} (hc : Drafted u c)
    (h : Returns (c.script u.config u.mode) es reply) :
    ∃ es' phase txn, es = es' ++ [⟨.commit phase txn, .ok ()⟩] ∧ Commits u c es' phase txn (some reply) := by
  obtain ⟨α, p, f, -, hscript, hcommits⟩ := hc
  rw [hscript] at h
  obtain ⟨es', draft, rfl, hreturns, rfl⟩ := returns_finish h
  exact ⟨es', _, _, rfl, hcommits es' draft hreturns⟩

/-- The reply of a call whose commit is the last thing that it does. -/
def TxnReply.afterCommit : TxnReply → Bool
  | head _ => true
  | checkpoint _ => true
  | deleted _ => true
  | _ => false

theorem drafted_create (spec : DeviceSpec) : Drafted u (.createDevice spec) := by
  refine ⟨_, createDraft u.config spec, .head, quiet_createDraft, ?_, fun _ _ => commits_create⟩
  simp only [TxnCall.script, createDevice, createDraft, finish, Script.bind_assoc, pure_bind]

theorem drafted_checkpoint (deviceId : Nat) : Drafted u (.checkpoint deviceId) := by
  refine ⟨_, checkpointDraft deviceId, .checkpoint, quiet_checkpointDraft, ?_,
    fun _ _ => commits_checkpoint⟩
  simp only [TxnCall.script, checkpoint, checkpointDraft, finish, Script.bind_assoc, pure_bind]

theorem drafted_fork (source : Nat) (target : Option Nat) : Drafted u (.forkDevice source target) := by
  refine ⟨_, forkDraft source target, .head, quiet_forkDraft, ?_, fun _ _ => commits_fork⟩
  simp only [TxnCall.script, forkDevice, forkDraft, finish, Script.bind_assoc, pure_bind]

theorem drafted_restore (source : Nat) (point : RestorePoint) : Drafted u (.restoreDevice source point) := by
  refine ⟨_, restoreDraft u.mode source point, .head, quiet_restoreDraft, ?_,
    fun _ _ => commits_restore⟩
  simp only [TxnCall.script, restoreDevice, restoreDraft, finish, Script.bind_assoc, pure_bind]

theorem drafted_delete (deviceId : Nat) : Drafted u (.deleteDevice deviceId) := by
  refine ⟨_, deleteDraft deviceId, .deleted, quiet_deleteDraft, ?_, fun _ _ => commits_delete⟩
  simp only [TxnCall.script, deleteDevice, deleteDraft, finish, Script.bind_assoc, pure_bind]

theorem reaches_of_steps {p : Plane α} {f : α → TxnReply} {r : TxnReq} {next : TxnAns r → Plane TxnReply}
    (h : Steps (p >>= fun a => pure (f a)) es (ask r next)) : Reaches p es r := by
  obtain hreach | ⟨_, _, _, -, -, hreach⟩ := reaches_bind.1 ⟨_, h⟩
  · exact hreach
  · exact absurd hreach not_reaches_done

/-- Whatever call is about to commit has done what `Commits` lists. -/
theorem commits_of_steps {next : Result Unit → Plane TxnReply}
    (h : Steps (c.script u.config u.mode) es (ask (.commit phase txn) next)) :
    ∃ reply, Commits u c es phase txn reply ∧ ∀ x, reply = some x → next (.ok ()) = done x := by
  cases c with
  | createDevice spec => exact (drafted_create spec).commits_of_steps h
  | deviceInfo deviceId => exact absurd (reaches_of_steps h) quiet_deviceInfo.not_reaches
  | persistMetadataNode node segments =>
    obtain ⟨r, rfl, hvalue, rfl, rfl⟩ := reaches_persistMetadataNode (reaches_of_steps h)
    have hcommits : Commits u (.persistMetadataNode node segments)
        ([] ++ [⟨.readOne (.metadataNode node.nodeId), r⟩]) .persistNode _ none :=
      .persist rfl hvalue (.inl ⟨segments, rfl⟩)
    exact ⟨none, hcommits, nofun⟩
  | publishCommitGroup owner fence updates =>
    exact ⟨none, reaches_publishCommitGroup (fun _ howner => by rw [howner]; rfl) [] (reaches_of_steps h), nofun⟩
  | checkpoint deviceId => exact (drafted_checkpoint deviceId).commits_of_steps h
  | forkDevice source target => exact (drafted_fork source target).commits_of_steps h
  | restoreDevice source point => exact (drafted_restore source point).commits_of_steps h
  | deleteDevice deviceId => exact (drafted_delete deviceId).commits_of_steps h
  | writeDevice deviceId offset data durability integrity =>
    exact ⟨none, commits_writeDevice (reaches_of_steps h), nofun⟩
  | readDevice deviceId range bufLen verification =>
    exact absurd (reaches_of_steps h) quiet_readDeviceWithVerification.not_reaches

theorem commits_of_returns {reply : TxnReply} (hreply : reply.afterCommit = true)
    (h : Returns (c.script u.config u.mode) es reply) :
    ∃ es' phase txn, es = es' ++ [⟨.commit phase txn, .ok ()⟩] ∧ Commits u c es' phase txn (some reply) := by
  cases c with
  | createDevice spec => exact (drafted_create spec).commits_of_returns h
  | checkpoint deviceId => exact (drafted_checkpoint deviceId).commits_of_returns h
  | forkDevice source target => exact (drafted_fork source target).commits_of_returns h
  | restoreDevice source point => exact (drafted_restore source point).commits_of_returns h
  | deleteDevice deviceId => exact (drafted_delete deviceId).commits_of_returns h
  | _ =>
    obtain ⟨a, es1, es2, -, -, hdone⟩ := returns_bind.1 h
    obtain ⟨-, rfl⟩ := returns_done.1 hdone
    cases hreply

end

end CowStore.Txn
