import CowStore.Local.Device

/-!
# Identifiers of devices and keyspaces

The counters of the identifiers are `u128` and go up by one without a check, so they wrap; a
caller that chooses the target of a fork or of a snapshot moves them anywhere.  As long as no
identifier is drawn at the very end of the range, every new device and keyspace has an
identifier that nothing else has.
-/

namespace CowStore.Local

open Lib Object Tree MetadataInner

/-- The requests to the metadata plane that make, delete and checkpoint devices and keyspaces. -/
inductive IdRequest
  | createDevice (spec : DeviceSpec)
  | forkDevice (source : Nat) (target : Option Nat)
  | restoreDevice (source : Nat) (point : RestorePoint)
  | deleteDevice (deviceId : Nat)
  | checkpoint (deviceId : Nat)
  | createKeyspace
  | snapshotKeyspace (source : Nat) (target : Option Nat)
  | restoreKeyspace (source : Nat) (point : RestorePoint)
  | checkpointKeyspace (keyspaceId : Nat)
  deriving DecidableEq, Repr

inductive Made
  | device (deviceId : Nat)
  | keyspace (keyspaceId : Nat)
  | nothing
  deriving DecidableEq, Repr

namespace IdRequest

def run (config : LocalStoreConfig) : IdRequest → MetadataOp Made
  | createDevice spec => return .device (← Local.createDevice config spec).deviceId
  | forkDevice source target => return .device (← Local.forkDevice config source target).deviceId
  | restoreDevice source point => return .device (← Local.restoreDevice config source point).deviceId
  | deleteDevice deviceId => do
    let _ ← Local.deleteDevice deviceId
    return .nothing
  | checkpoint deviceId => do
    let _ ← Local.checkpoint deviceId
    return .nothing
  | createKeyspace => return .keyspace (← Local.createKeyspace config).keyspaceId
  | snapshotKeyspace source target => return .keyspace (← Local.snapshotKeyspace source target).keyspaceId
  | restoreKeyspace source point => return .keyspace (← Local.restoreKeyspace source point).keyspaceId
  | checkpointKeyspace keyspaceId => do
    let _ ← Local.checkpointKeyspace keyspaceId
    return .nothing

def drawsDevice : IdRequest → Bool
  | createDevice _ => true
  | forkDevice _ target => target.isNone
  | restoreDevice _ _ => true
  | _ => false

def drawsKeyspace : IdRequest → Bool
  | createKeyspace => true
  | snapshotKeyspace _ target => target.isNone
  | restoreKeyspace _ _ => true
  | _ => false

end IdRequest

namespace MetadataInner

/-- The counters as they are after `+= 1` on a `u128`. -/
def wrapIds (m : MetadataInner) : MetadataInner :=
  { m with
    nextDeviceId := m.nextDeviceId % u128Bound
    nextKeyspaceId := m.nextKeyspaceId % u128Bound }

def Unused (m : MetadataInner) : Made → Prop
  | .device deviceId => deviceId ∉ m.deviceHeads ∧ deviceId ∉ m.deletedDeviceHeads
  | .keyspace keyspaceId => keyspaceId ∉ m.keyspaceHeads
  | .nothing => True

end MetadataInner

def IdRequest.handle (config : LocalStoreConfig) (m : MetadataInner) (request : IdRequest) : MetadataInner :=
  match request.run config m with
  | .ok _ m' => m'.wrapIds
  | .error _ m' => m'.wrapIds

def afterIdRequests (config : LocalStoreConfig) (requests : List IdRequest) : MetadataInner :=
  requests.foldl (IdRequest.handle config) .new

/-- Every request of the history makes something that had no name before. -/
def FreshIds (config : LocalStoreConfig) (requests : List IdRequest) : Prop :=
  ∀ before request rest made m', requests = before ++ request :: rest →
    request.run config (afterIdRequests config before) = .ok made m' →
    (afterIdRequests config before).Unused made

/-- No identifier is drawn where the counter stands at the last one. -/
def WithinIds (config : LocalStoreConfig) (requests : List IdRequest) : Prop :=
  ∀ before request rest, requests = before ++ request :: rest →
    (request.drawsDevice → (afterIdRequests config before).nextDeviceId + 1 < u128Bound) ∧
    (request.drawsKeyspace → (afterIdRequests config before).nextKeyspaceId + 1 < u128Bound)

/-! ## What requests do to the identifiers -/

section

variable {config : LocalStoreConfig} {m m' m'' : MetadataInner} {α : Type}

structure SameIds (m m' : MetadataInner) : Prop where
  deviceHeads : m'.deviceHeads = m.deviceHeads
  deletedDeviceHeads : m'.deletedDeviceHeads = m.deletedDeviceHeads
  keyspaceHeads : m'.keyspaceHeads = m.keyspaceHeads
  nextDeviceId : m'.nextDeviceId = m.nextDeviceId
  nextKeyspaceId : m'.nextKeyspaceId = m.nextKeyspaceId

instance : Std.Refl SameIds := ⟨fun _ => ⟨rfl, rfl, rfl, rfl, rfl⟩⟩

instance : IsTrans MetadataInner SameIds :=
  ⟨fun _ _ _ h h' => ⟨h'.1.trans h.1, h'.2.trans h.2, h'.3.trans h.3, h'.4.trans h.4, h'.5.trans h.5⟩⟩

theorem onNodes_sameIds {x : NodeOp α} : Moves SameIds (onNodes x) m :=
  Moves.zoom fun _ => ⟨rfl, rfl, rfl, rfl, rfl⟩

theorem createShard_sameIds {logicalBlocks shard : Nat} :
    Moves SameIds (createShard config logicalBlocks shard) m :=
  Along.check2 fun _ _ => onNodes_sameIds

theorem allocCommitSeq_sameIds : Moves SameIds allocCommitSeq m :=
  Along.get (Along.check fun _ _ =>
    Along.step run_set ⟨rfl, rfl, rfl, rfl, rfl⟩ (Along.pure trivial))

theorem insertCheckpoint_sameIds {owner : MappingOwner} {commitSeq : Nat} {roots : CheckpointRoots} :
    Moves SameIds (insertCheckpoint owner commitSeq roots) m :=
  Along.get (Along.step run_set ⟨rfl, rfl, rfl, rfl, rfl⟩ (Along.pure trivial))

theorem insertKeyspaceCatalogShard_sameIds {files : Table Nat KeyspaceFile} :
    Moves SameIds (insertKeyspaceCatalogShard files) m := by
  refine Moves.seq ?_ fun shardId m1 _ => Along.check fun _ _ => ?_
  · exact Along.get
      (Along.step run_set ⟨rfl, rfl, rfl, rfl, rfl⟩ (Along.pure trivial))
  · exact Along.step run_modify ⟨rfl, rfl, rfl, rfl, rfl⟩ (Along.pure trivial)

theorem insertKeyspaceRoot_sameIds {shardRoots : List Nat} {fileCount : Nat} :
    Moves SameIds (insertKeyspaceRoot shardRoots fileCount) m := by
  refine Moves.seq ?_ fun shardId m1 _ => Along.check fun _ _ => ?_
  · exact Along.get
      (Along.step run_set ⟨rfl, rfl, rfl, rfl, rfl⟩ (Along.pure trivial))
  · exact Along.step run_modify ⟨rfl, rfl, rfl, rfl, rfl⟩ (Along.pure trivial)

theorem insertEmptyKeyspaceRoot_sameIds : Moves SameIds insertEmptyKeyspaceRoot m :=
  (Moves.mapM fun _ _ => insertKeyspaceCatalogShard_sameIds).bind fun _ _ _ _ =>
    insertKeyspaceRoot_sameIds

structure Below (m : MetadataInner) : Prop where
  device : ∀ deviceId, deviceId ∈ m.deviceHeads ∨ deviceId ∈ m.deletedDeviceHeads →
    deviceId < m.nextDeviceId
  keyspace : ∀ keyspaceId, keyspaceId ∈ m.keyspaceHeads → keyspaceId < m.nextKeyspaceId

/-- What a request has done: the objects are below the counters, which went up by one where the
request draws from them, or are where a target has moved them. -/
structure Handled (request : IdRequest) (m m' : MetadataInner) : Prop where
  below : Below m'
  device : m'.nextDeviceId = m.nextDeviceId ∨ m'.nextDeviceId < u128Bound ∨
    request.drawsDevice = true ∧ m'.nextDeviceId = m.nextDeviceId + 1
  keyspace : m'.nextKeyspaceId = m.nextKeyspaceId ∨ m'.nextKeyspaceId < u128Bound ∨
    request.drawsKeyspace = true ∧ m'.nextKeyspaceId = m.nextKeyspaceId + 1

variable {request : IdRequest} {id : Nat}

theorem Below.same (h : Below m) (hsame : SameIds m m') : Below m' := by
  constructor
  · intro deviceId hid
    rw [hsame.deviceHeads, hsame.deletedDeviceHeads] at hid
    rw [hsame.nextDeviceId]
    exact h.device deviceId hid
  · intro keyspaceId hid
    rw [hsame.keyspaceHeads] at hid
    rw [hsame.nextKeyspaceId]
    exact h.keyspace keyspaceId hid

theorem Below.handled (h : Below m) (request : IdRequest) (hsame : SameIds m m') : Handled request m m' :=
  ⟨h.same hsame, .inl hsame.nextDeviceId, .inl hsame.nextKeyspaceId⟩

theorem Handled.same (h : Handled request m m') (hsame : SameIds m' m'') : Handled request m m'' := by
  refine ⟨h.below.same hsame, ?_, ?_⟩
  · rw [hsame.nextDeviceId]
    exact h.device
  · rw [hsame.nextKeyspaceId]
    exact h.keyspace

theorem Below.raiseDevice (h : Below m) {next : Nat} (hle : m.nextDeviceId ≤ next)
    (hnext : next < u128Bound ∨ request.drawsDevice = true ∧ next = m.nextDeviceId + 1) :
    Handled request m { m with nextDeviceId := next } :=
  ⟨⟨fun deviceId hid => (h.device deviceId hid).trans_le hle, h.keyspace⟩, .inr hnext, .inl rfl⟩

theorem Below.raiseKeyspace (h : Below m) {next : Nat} (hle : m.nextKeyspaceId ≤ next)
    (hnext : next < u128Bound ∨ request.drawsKeyspace = true ∧ next = m.nextKeyspaceId + 1) :
    Handled request m { m with nextKeyspaceId := next } :=
  ⟨⟨h.device, fun keyspaceId hid => (h.keyspace keyspaceId hid).trans_le hle⟩, .inl rfl, .inr hnext⟩

theorem Below.drawDevice (h : Below m) (request : IdRequest) (hdraws : request.drawsDevice = true) :
    Handled request m { m with nextDeviceId := m.nextDeviceId + 1 } :=
  h.raiseDevice (Nat.le_succ _) (.inr ⟨hdraws, rfl⟩)

theorem Below.drawKeyspace (h : Below m) (request : IdRequest)
    (hdraws : request.drawsKeyspace = true) :
    Handled request m { m with nextKeyspaceId := m.nextKeyspaceId + 1 } :=
  h.raiseKeyspace (Nat.le_succ _) (.inr ⟨hdraws, rfl⟩)

theorem Below.unused_device (h : Below m) : m.Unused (.device m.nextDeviceId) :=
  ⟨fun hmem => Nat.lt_irrefl _ (h.device _ (.inl hmem)), fun hmem => Nat.lt_irrefl _ (h.device _ (.inr hmem))⟩

theorem Below.unused_keyspace (h : Below m) : m.Unused (.keyspace m.nextKeyspaceId) :=
  fun hmem => Nat.lt_irrefl _ (h.keyspace _ hmem)

theorem insertDevice_handled (h : Handled request m m') {spec : DeviceSpec} {head : DeviceHead}
    (hlt : head.deviceId < m'.nextDeviceId) :
    wp (insertDevice spec head) (fun _ => Handled request m) (Handled request m) m' := by
  refine wp_step run_modify ?_
  have hinsert : Handled request m { m' with
      deviceSpecs := m'.deviceSpecs.insert head.deviceId spec
      deviceHeads := m'.deviceHeads.insert head.deviceId head } := by
    refine ⟨⟨?_, h.below.keyspace⟩, h.device, h.keyspace⟩
    intro deviceId hid
    rw [AList.mem_insert, or_assoc] at hid
    obtain rfl | hid := hid
    · exact hlt
    · exact h.below.device deviceId hid
  exact Along.thenWp insertCheckpoint_sameIds (fun _ _ hsame _ => hinsert.same hsame)
    fun _ hsame => hinsert.same hsame

theorem Handled.insertKeyspace (h : Handled request m m') {head : KeyspaceHead} {keyspaceId : Nat}
    (hlt : keyspaceId < m'.nextKeyspaceId) :
    Handled request m { m' with keyspaceHeads := m'.keyspaceHeads.insert keyspaceId head } := by
  refine ⟨⟨h.below.device, ?_⟩, h.device, h.keyspace⟩
  intro id hid
  rw [AList.mem_insert] at hid
  obtain rfl | hid := hid
  · exact hlt
  · exact h.below.keyspace id hid

theorem insertKeyspace_handled (h : Handled request m m') {head : KeyspaceHead}
    (hlt : head.keyspaceId < m'.nextKeyspaceId) :
    wp (insertKeyspace head) (fun _ => Handled request m) (Handled request m) m' := by
  refine Along.thenWp insertKeyspaceRoot_sameIds ?_ fun _ hsame => h.same hsame
  intro root m1 hsame _
  have hinsert : Handled request m { m1 with
      keyspaceHeads := m1.keyspaceHeads.insert head.keyspaceId head } :=
    (h.same hsame).insertKeyspace (hlt.trans_eq hsame.nextKeyspaceId.symm)
  exact wp_step run_modify (Along.thenWp insertCheckpoint_sameIds
    (fun _ _ hsame _ => hinsert.same hsame) fun _ hsame => hinsert.same hsame)

theorem forkTarget_handled (h : Below m) (source : Nat) (target : Option Nat) :
    wp (forkTarget target) (fun id m' => m.Unused (.device id) ∧ id < m'.nextDeviceId ∧
      Handled (.forkDevice source target) m m') (Handled (.forkDevice source target) m) m := by
  cases target with
  | none => exact ⟨h.unused_device, Nat.lt_succ_self _, h.drawDevice _ rfl⟩
  | some target =>
    have hsame := h.handled (.forkDevice source (some target)) (refl m)
    refine wp_step run_get (wp_check hsame fun _ hunused => ?_)
    rw [failIf_eq_ok, not_or] at hunused
    refine wp_bind.2 (wp_step run_get ?_)
    split
    · next hge =>
      refine wp_check hsame fun _ hfits => ?_
      rw [failIf_eq_ok, Nat.not_le] at hfits
      exact ⟨hunused, Nat.lt_succ_self _, h.raiseDevice (by omega) (.inl hfits)⟩
    · next hlt => exact ⟨hunused, Nat.lt_of_not_le hlt, hsame⟩

theorem snapshotTarget_handled (h : Below m) (source : Nat) (target : Option Nat) :
    wp (snapshotTarget target) (fun id m' => m.Unused (.keyspace id) ∧ id < m'.nextKeyspaceId ∧
      Handled (.snapshotKeyspace source target) m m') (Handled (.snapshotKeyspace source target) m) m := by
  cases target with
  | none => exact ⟨h.unused_keyspace, Nat.lt_succ_self _, h.drawKeyspace _ rfl⟩
  | some target =>
    have hsame := h.handled (.snapshotKeyspace source (some target)) (refl m)
    refine wp_step run_get (wp_check hsame fun _ hunused => ?_)
    rw [failIf_eq_ok] at hunused
    refine wp_bind.2 (wp_step run_get ?_)
    split
    · next hge =>
      refine wp_check hsame fun _ hfits => ?_
      rw [failIf_eq_ok, Nat.not_le] at hfits
      exact ⟨hunused, Nat.lt_succ_self _, h.raiseKeyspace (by omega) (.inl hfits)⟩
    · next hlt => exact ⟨hunused, Nat.lt_of_not_le hlt, hsame⟩

/-- A request makes something that had no name, and leaves all names below the counters. -/
theorem IdRequest.run_handled (h : Below m) (request : IdRequest) :
    wp (request.run config) (fun made m' => m.Unused made ∧ Handled request m m') (Handled request m) m := by
  have hstart := h.handled request (refl m)
  cases request with
  | createDevice spec =>
    have hraise := h.drawDevice (.createDevice spec) rfl
    refine wp_bind.2 (wp_check hstart fun _ _ => wp_check hstart fun _ _ => wp_check hstart fun _ _ => ?_)
    refine wp_step rfl (Along.thenWp (Moves.mapM fun _ _ => createShard_sameIds) ?_
      fun _ hsame => hraise.same hsame)
    intro roots m1 hsame _
    refine wp_check (hraise.same hsame) fun _ _ => wp_bind.2 ?_
    refine wp_mono (insertDevice_handled (hraise.same hsame) ?_) (fun _ m2 h2 => ⟨h.unused_device, h2⟩)
      fun _ h2 => h2
    exact (Nat.lt_succ_self _).trans_eq hsame.nextDeviceId.symm
  | forkDevice source target =>
    refine wp_bind.2 (wp_step run_get (wp_check hstart fun _ _ => wp_check hstart fun _ _ => wp_bind.2 ?_))
    refine wp_mono (forkTarget_handled h source target) ?_ fun _ h1 => h1
    rintro id m1 ⟨hunused, hlt, h1⟩
    refine Along.thenWp allocCommitSeq_sameIds ?_ fun _ hsame => h1.same hsame
    intro commitSeq m2 hsame _
    have h2 := h1.same hsame
    refine wp_check h2 fun _ _ => wp_step run_modify (wp_bind.2 ?_)
    refine wp_mono (insertDevice_handled ?_ ?_) (fun _ m3 h3 => ⟨hunused, h3⟩) fun _ h3 => h3
    · exact h2.same ⟨rfl, rfl, rfl, rfl, rfl⟩
    · exact hlt.trans_eq hsame.nextDeviceId.symm
  | restoreDevice source point =>
    have hraise := h.drawDevice (.restoreDevice source point) rfl
    refine wp_bind.2 (wp_step run_get (wp_check hstart fun _ _ => wp_check hstart fun _ _ =>
      wp_check hstart fun _ _ => wp_check hstart fun _ _ => wp_step rfl ?_))
    refine Along.thenWp allocCommitSeq_sameIds ?_ fun _ hsame => hraise.same hsame
    intro commitSeq m1 hsame _
    have h1 := hraise.same hsame
    refine wp_check h1 fun _ _ => wp_bind.2 ?_
    refine wp_mono (insertDevice_handled h1 ?_) (fun _ m2 h2 => ⟨h.unused_device, h2⟩) fun _ h2 => h2
    exact (Nat.lt_succ_self _).trans_eq hsame.nextDeviceId.symm
  | deleteDevice deviceId =>
    refine wp_bind.2 (wp_step run_get (wp_check hstart fun head hhead => ?_))
    rw [getHead, orFail_eq_ok] at hhead
    refine Along.thenWp allocCommitSeq_sameIds ?_ fun _ hsame => h.handled _ hsame
    intro commitSeq m1 hsame _
    refine wp_step run_modify ⟨trivial, ⟨⟨?_, (h.same hsame).keyspace⟩, .inl hsame.nextDeviceId,
      .inl hsame.nextKeyspaceId⟩⟩
    intro id hid
    rw [AList.mem_erase, AList.mem_insert] at hid
    obtain ⟨-, hid⟩ | rfl | hid := hid
    · exact (h.same hsame).device id (.inl hid)
    · refine (h.same hsame).device id (.inl ?_)
      rw [hsame.deviceHeads, ← AList.lookup_isSome, hhead]
      rfl
    · exact (h.same hsame).device id (.inr hid)
  | checkpoint deviceId =>
    refine wp_bind.2 (wp_step run_get (wp_check hstart fun head _ => ?_))
    exact wp_mono insertCheckpoint_sameIds (fun _ _ h1 => ⟨trivial, h.handled _ h1.1⟩)
      fun _ h1 => h.handled _ h1
  | createKeyspace =>
    have hraise := h.drawKeyspace .createKeyspace rfl
    refine wp_bind.2 (wp_check hstart fun _ _ => wp_step rfl ?_)
    refine Along.thenWp insertEmptyKeyspaceRoot_sameIds ?_ fun _ hsame => hraise.same hsame
    intro root m1 hsame _
    have hlt := (Nat.lt_succ_self _).trans_eq hsame.nextKeyspaceId.symm
    have hinsert : ∀ head, Handled _ m { m1 with keyspaceHeads := m1.keyspaceHeads.insert _ head } :=
      fun _ => (hraise.same hsame).insertKeyspace hlt
    exact wp_step run_modify (Along.thenWp insertCheckpoint_sameIds
      (fun _ _ hsame' _ => ⟨h.unused_keyspace, (hinsert _).same hsame'⟩)
      fun _ hsame' => (hinsert _).same hsame')
  | snapshotKeyspace source target =>
    refine wp_bind.2 (wp_step run_get (wp_check hstart fun _ _ => wp_bind.2 ?_))
    refine wp_mono (snapshotTarget_handled h source target) ?_ fun _ h1 => h1
    rintro id m1 ⟨hunused, hlt, h1⟩
    refine Along.thenWp allocCommitSeq_sameIds ?_ fun _ hsame => h1.same hsame
    intro commitSeq m2 hsame _
    refine wp_bind.2 (wp_mono (insertKeyspace_handled (h1.same hsame) ?_) (fun _ m3 h3 => ⟨hunused, h3⟩)
      fun _ h3 => h3)
    exact hlt.trans_eq hsame.nextKeyspaceId.symm
  | restoreKeyspace source point =>
    have hraise := h.drawKeyspace (.restoreKeyspace source point) rfl
    refine wp_bind.2 (wp_step run_get (wp_check hstart fun _ _ => wp_check hstart fun _ _ => wp_step rfl ?_))
    refine Along.thenWp allocCommitSeq_sameIds ?_ fun _ hsame => hraise.same hsame
    intro commitSeq m1 hsame _
    refine wp_bind.2 (wp_mono (insertKeyspace_handled (hraise.same hsame) ?_)
      (fun _ m2 h2 => ⟨h.unused_keyspace, h2⟩) fun _ h2 => h2)
    exact (Nat.lt_succ_self _).trans_eq hsame.nextKeyspaceId.symm
  | checkpointKeyspace keyspaceId =>
    refine wp_bind.2 (wp_step run_get (wp_check hstart fun head _ => ?_))
    refine Along.thenWp insertKeyspaceRoot_sameIds ?_ fun _ hsame => h.handled _ hsame
    intro root m1 hsame _
    exact wp_mono insertCheckpoint_sameIds
      (fun _ _ h1 => ⟨trivial, (h.handled _ hsame).same h1.1⟩) fun _ h1 => (h.handled _ hsame).same h1

theorem Handled.wrapIds (h : Handled request m m') (hdevice : m.nextDeviceId < u128Bound)
    (hkeyspace : m.nextKeyspaceId < u128Bound) (hdraws : request.drawsDevice → m.nextDeviceId + 1 < u128Bound)
    (hdraws' : request.drawsKeyspace → m.nextKeyspaceId + 1 < u128Bound) :
    m'.wrapIds = m' ∧ m'.nextDeviceId < u128Bound ∧ m'.nextKeyspaceId < u128Bound := by
  have hdevice' : m'.nextDeviceId < u128Bound := by
    obtain heq | hlt | ⟨hdraw, heq⟩ := h.device
    · omega
    · exact hlt
    · have := hdraws hdraw
      omega
  have hkeyspace' : m'.nextKeyspaceId < u128Bound := by
    obtain heq | hlt | ⟨hdraw, heq⟩ := h.keyspace
    · omega
    · exact hlt
    · have := hdraws' hdraw
      omega
  refine ⟨?_, hdevice', hkeyspace'⟩
  rw [MetadataInner.wrapIds, Nat.mod_eq_of_lt hdevice', Nat.mod_eq_of_lt hkeyspace']

end

/-! ## Histories -/

section

variable {config : LocalStoreConfig} {requests : List IdRequest}

theorem afterIdRequests_concat (requests : List IdRequest) (request : IdRequest) :
    afterIdRequests config (requests ++ [request]) =
      request.handle config (afterIdRequests config requests) := by
  rw [afterIdRequests, List.foldl_append]
  rfl

theorem WithinIds.before {rest : List IdRequest} (h : WithinIds config (requests ++ rest)) :
    WithinIds config requests := by
  intro before request rest' heq
  exact h before request (rest' ++ rest) (by rw [heq]; simp)

theorem WithinIds.below (h : WithinIds config requests) :
    Below (afterIdRequests config requests) ∧ (afterIdRequests config requests).nextDeviceId < u128Bound ∧
      (afterIdRequests config requests).nextKeyspaceId < u128Bound := by
  induction requests using List.reverseRecOn with
  | nil =>
    change Below .new ∧ 1 < u128Bound ∧ 1 < u128Bound
    refine ⟨⟨?_, ?_⟩, by decide, by decide⟩
    · intro deviceId hid
      obtain hid | hid := hid
      · cases hid
      · cases hid
    · exact nofun
  | append_singleton requests request ih =>
    obtain ⟨hbelow, hdevice, hkeyspace⟩ := ih h.before
    obtain ⟨hdraws, hdraws'⟩ := h requests request [] rfl
    have hrun : wp (request.run config) _ _ _ := IdRequest.run_handled hbelow request
    have hwrapped : ∀ m', Handled request (afterIdRequests config requests) m' → Below m'.wrapIds ∧
        m'.wrapIds.nextDeviceId < u128Bound ∧ m'.wrapIds.nextKeyspaceId < u128Bound := by
      intro m' hhandled
      obtain ⟨hwrap, hlt⟩ := hhandled.wrapIds hdevice hkeyspace hdraws hdraws'
      rw [hwrap]
      exact ⟨hhandled.below, hlt⟩
    rw [afterIdRequests_concat, IdRequest.handle]
    cases heq : request.run config (afterIdRequests config requests) with
    | ok made m' => exact hwrapped m' (wp_of_ok hrun heq).2
    | error err m' => exact hwrapped m' (wp_of_error hrun heq)

/-- Within the range every new device and keyspace has a name of its own. -/
theorem freshIds_of_within (h : WithinIds config requests) : FreshIds config requests := by
  intro before request rest made m' heq hrun
  rw [heq] at h
  exact (wp_of_ok (IdRequest.run_handled h.before.below.1 request) hrun).1

end

def forkToTarget (target : Nat) : List IdRequest :=
  [.createDevice ⟨4, 4⟩, .forkDevice 1 (some target), .createDevice ⟨4, 4⟩, .createDevice ⟨4, 4⟩]

theorem freshIds_forkToTarget :
    output ((IdRequest.createDevice ⟨4, 4⟩).run smallConfig)
        (afterIdRequests smallConfig ((forkToTarget (2 ^ 127)).take 3)) = some (.device (2 ^ 127 + 2)) ∧
      FreshIds smallConfig (forkToTarget (2 ^ 127)) := by
  refine ⟨by decide +kernel, freshIds_of_within ?_⟩
  have hwithin : ∀ k < 4,
      (((forkToTarget (2 ^ 127))[k]?.any IdRequest.drawsDevice = true →
        (afterIdRequests smallConfig ((forkToTarget (2 ^ 127)).take k)).nextDeviceId + 1 < u128Bound)) ∧
      ((forkToTarget (2 ^ 127))[k]?.any IdRequest.drawsKeyspace = true →
        (afterIdRequests smallConfig ((forkToTarget (2 ^ 127)).take k)).nextKeyspaceId + 1 < u128Bound) := by
    decide +kernel
  intro before request rest heq
  have hlt : before.length < 4 := by
    have hlen := congrArg List.length heq
    rw [List.length_append, List.length_cons] at hlen
    change 4 = _ at hlen
    omega
  have hk := hwithin before.length hlt
  have hget : (before ++ request :: rest)[before.length]? = some request := by simp
  rw [heq, List.take_left, hget] at hk
  exact hk

/-- The target is the last but one identifier: the counter comes round to the first device. -/
theorem ids_reused :
    output ((IdRequest.createDevice ⟨4, 4⟩).run smallConfig)
        (afterIdRequests smallConfig (forkToTarget (2 ^ 128 - 2))) = some (.device 1) ∧
      1 ∈ (afterIdRequests smallConfig (forkToTarget (2 ^ 128 - 2))).deviceHeads ∧
      ¬ FreshIds smallConfig (forkToTarget (2 ^ 128 - 2) ++ [.createDevice ⟨4, 4⟩]) := by
  have hrun : output ((IdRequest.createDevice ⟨4, 4⟩).run smallConfig)
      (afterIdRequests smallConfig (forkToTarget (2 ^ 128 - 2))) = some (.device 1) := by
    decide +kernel
  have hmem : 1 ∈ (afterIdRequests smallConfig (forkToTarget (2 ^ 128 - 2))).deviceHeads := by
    decide +kernel
  refine ⟨hrun, hmem, fun hfresh => ?_⟩
  obtain ⟨m', hok⟩ := ok_of_output hrun
  exact (hfresh _ _ [] _ m' rfl hok).1 hmem

end CowStore.Local
