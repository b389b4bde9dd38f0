import CowStore.Local.Device

/-!
# Operations that leave files alone

Whatever is done to trees, segments and block devices leaves the keyspaces, their catalogs
and timelines and the append streams as they are.
-/

namespace CowStore.Local

open Lib Object Tree

/-- The rows of keyspaces, files and streams, and the counters they come from. -/
structure FileRows where
  nextKeyspaceId : Nat
  nextFileId : Nat
  nextKeyspaceCatalogShardId : Nat
  keyspaceHeads : Table Nat KeyspaceHead
  keyspaceRoots : Table Nat KeyspaceRoot
  keyspaceCatalogShards : Table Nat KeyspaceCatalogShard
  keyspaceCommits : List KeyspaceCommit
  fileWriterEpochs : Table (Nat × Nat) Nat
  appendStreams : Table Nat AppendStreamState
  appendPublishInFlight : Table Nat AppendPublishInFlight

def MetadataInner.fileRows (m : MetadataInner) : FileRows :=
  ⟨m.nextKeyspaceId, m.nextFileId, m.nextKeyspaceCatalogShardId, m.keyspaceHeads, m.keyspaceRoots,
    m.keyspaceCatalogShards, m.keyspaceCommits, m.fileWriterEpochs, m.appendStreams,
    m.appendPublishInFlight⟩

def SameFiles (m m' : MetadataInner) : Prop := m'.fileRows = m.fileRows

instance : Std.Refl SameFiles := ⟨fun _ => rfl⟩

instance : IsTrans MetadataInner SameFiles := ⟨fun _ _ _ h h' => h'.trans h⟩

section

variable {config : LocalStoreConfig} {m : MetadataInner} {α : Type}

theorem onNodes_sameFiles (x : NodeOp α) : Moves SameFiles (onNodes x) m := Moves.zoom fun _ => rfl

theorem allocCommitSeq_sameFiles : Moves SameFiles allocCommitSeq m :=
  Along.get (Along.check fun _ _ => Along.step run_set rfl (Along.pure trivial))

theorem allocCommitGroupId_sameFiles : Moves SameFiles allocCommitGroupId m :=
  Along.get (Along.step run_set rfl (Along.pure trivial))

theorem insertCheckpoint_sameFiles {owner : MappingOwner} {commitSeq : Nat} {roots : CheckpointRoots} :
    Moves SameFiles (insertCheckpoint owner commitSeq roots) m :=
  Along.get (Along.step run_set rfl (Along.pure trivial))

theorem insertDevice_sameFiles {spec : DeviceSpec} {head : DeviceHead} :
    Moves SameFiles (insertDevice spec head) m :=
  Along.step run_modify rfl (insertCheckpoint_sameFiles.thenPure)

theorem createShard_sameFiles {logicalBlocks shard : Nat} :
    Moves SameFiles (createShard config logicalBlocks shard) m :=
  Along.check2 fun _ _ => onNodes_sameFiles _

theorem createDevice_sameFiles (spec : DeviceSpec) : Moves SameFiles (createDevice config spec) m := by
  refine Along.check3 fun _ _ _ => ?_
  refine Along.step rfl rfl ((Moves.mapM fun _ _ => createShard_sameFiles).bind ?_)
  intro roots m1 _ _
  exact Along.check fun _ _ => insertDevice_sameFiles.thenPure

theorem forkTarget_sameFiles (target : Option Nat) : Moves SameFiles (forkTarget target) m := by
  cases target with
  | none => exact Along.get (Along.step run_set rfl (Along.pure trivial))
  | some target =>
    refine Along.get (Along.check fun _ _ => ?_)
    refine Moves.seq ?_ fun _ _ _ => Along.pure trivial
    refine Along.get ?_
    split
    · exact Along.check fun _ _ => ⟨rfl, trivial⟩
    · exact Along.pure trivial

theorem forkDevice_sameFiles {source : Nat} {target : Option Nat} :
    Moves SameFiles (forkDevice config source target) m := by
  refine Along.get (Along.check2 fun _ _ => ?_)
  refine (forkTarget_sameFiles target).bind fun id m1 _ _ => ?_
  refine allocCommitSeq_sameFiles.bind fun commitSeq m2 _ _ => Along.check fun _ _ => ?_
  exact Along.step run_modify rfl
    (insertDevice_sameFiles.thenPure)

theorem restoreDevice_sameFiles {source : Nat} {point : RestorePoint} :
    Moves SameFiles (restoreDevice config source point) m := by
  refine Along.get (Along.check2 fun _ _ => Along.check2 fun _ _ => Along.step rfl rfl ?_)
  refine allocCommitSeq_sameFiles.bind fun commitSeq m1 _ _ => Along.check fun _ _ => ?_
  exact insertDevice_sameFiles.thenPure

variable {deviceId : Nat}

theorem deleteDevice_sameFiles : Moves SameFiles (deleteDevice deviceId) m := by
  refine Along.get (Along.check fun _ _ => allocCommitSeq_sameFiles.bind ?_)
  exact fun _ _ _ _ => Along.step run_modify rfl (Along.pure trivial)

theorem checkpoint_sameFiles : Moves SameFiles (checkpoint deviceId) m :=
  Along.get (Along.check fun _ _ => insertCheckpoint_sameFiles)

theorem publishShardRoots_sameFiles {updates : List RootUpdate} :
    Moves SameFiles (publishShardRoots deviceId updates) m := by
  refine Along.get (Along.check3 fun _ _ _ => ?_)
  refine allocCommitSeq_sameFiles.bind fun _ _ _ _ => allocCommitGroupId_sameFiles.bind fun _ _ _ _ => ?_
  refine Along.step run_modify rfl (Along.check fun _ _ => ?_)
  exact Along.step run_modify rfl (Along.pure trivial)

end

/-! ## The coordinator -/

def Coordinator.Via (R : MetadataInner → MetadataInner → Prop) (s s' : Coordinator) : Prop :=
  R s.metadata s'.metadata

section

variable {R : MetadataInner → MetadataInner → Prop} {s : Coordinator} {α β : Type}

instance [Std.Refl R] : Std.Refl (Coordinator.Via R) := ⟨fun s => refl s.metadata⟩

instance [IsTrans MetadataInner R] : IsTrans Coordinator (Coordinator.Via R) :=
  ⟨fun s t u h h' => IsTrans.trans (r := R) s.metadata t.metadata u.metadata h h'⟩

theorem along_onMetadata {x : MetadataOp α} {Q : α → MetadataInner → Prop} (h : Along R x s.metadata Q) :
    Along (Coordinator.Via R) (onMetadata x) s fun a s' => Q a s'.metadata := by
  refine Along.mono (Along.zoom (R := Coordinator.Via R) h ?_) ?_
  · exact fun _ ht => ht
  · rintro a _ - ⟨m', rfl, -, hq⟩
    exact hq

theorem along_segments [Std.Refl R] (x : SegmentOp α) :
    Along (Coordinator.Via R) (onSegments x) s fun _ s' => s'.metadata = s.metadata := by
  refine wp_zoom.2 (wp_of_forall (fun _ _ => ⟨?_, rfl⟩) fun _ => ?_) <;>
    exact refl (r := R) s.metadata

variable {xs : List α}

theorem along_foldlM [Std.Refl R] [IsTrans MetadataInner R] {f : β → α → Op β} {b : β}
    (hf : ∀ b x s, Moves (Coordinator.Via R) (f b x) s) : Moves (Coordinator.Via R) (xs.foldlM f b) s :=
  Along.foldlM trivial fun b x _ s _ _ => hf b x s

theorem along_segments_mapM [Std.Refl R] [IsTrans MetadataInner R] {f : α → SegmentOp β} :
    Moves (Coordinator.Via R) (xs.mapM fun x => onSegments (f x)) s :=
  Moves.mapM fun x _ => (along_segments (f x)).moves

theorem along_edit {x : NodeOp α} : Moves (Coordinator.Via SameFiles) (onMetadata (onNodes x)) s :=
  along_onMetadata (onNodes_sameFiles x)

variable {crc : List UInt8 → Nat} {config : LocalStoreConfig}

theorem editShard_sameFiles {receipts : List SegmentWriteReceipt} {shard : PackedShard} :
    Moves (Coordinator.Via SameFiles) (editShard config receipts shard) s := by
  refine Along.check fun _ _ => Along.get ?_
  exact along_edit.thenPure

theorem commitBlockBatch_sameFiles {deviceId : Nat} {writes : List BlockBatchWrite}
    {durability : WriteDurability} :
    Moves (Coordinator.Via SameFiles) (commitBlockBatchWithDelta crc config deviceId writes durability) s := by
  refine Along.get (Along.check3 fun _ _ _ => (along_segments _).bind fun packed s1 _ _ => ?_)
  refine (Moves.mapM fun _ _ => editShard_sameFiles).bind fun edited s2 _ _ => ?_
  dsimp only
  split
  · exact Along.pure trivial
  · refine (along_onMetadata publishShardRoots_sameFiles).bind fun _ _ _ _ => ?_
    exact along_segments_mapM.thenPure

theorem discardChunk_sameFiles {chunk : DeviceWriteChunk} :
    Moves (Coordinator.Via SameFiles) (discardChunk config chunk) s :=
  Along.get (along_edit.thenPure)

theorem discardDevice_sameFiles {deviceId offset len : Nat} :
    Moves (Coordinator.Via SameFiles) (discardDeviceWithDelta config deviceId offset len) s := by
  refine Along.get (Along.check2 fun _ _ => ?_)
  split
  · exact Along.pure trivial
  · refine Along.check fun _ _ => (Moves.mapM fun _ _ => discardChunk_sameFiles).bind fun _ _ _ _ => ?_
    dsimp only
    split
    · exact Along.pure trivial
    · exact (along_onMetadata publishShardRoots_sameFiles).thenPure

theorem perform_sameFiles (request : DeviceRequest) :
    Moves (Coordinator.Via SameFiles) (perform crc config request) s := by
  cases request with
  | createDevice spec =>
    exact (along_onMetadata (createDevice_sameFiles spec)).thenPure
  | commitBlockBatch deviceId writes durability =>
    exact commitBlockBatch_sameFiles.thenPure
  | discardDevice deviceId offset len =>
    exact discardDevice_sameFiles.thenPure
  | writeZeroes deviceId offset len =>
    exact discardDevice_sameFiles.thenPure
  | forkDevice source target =>
    exact (along_onMetadata forkDevice_sameFiles).thenPure
  | restoreDevice source point =>
    exact (along_onMetadata restoreDevice_sameFiles).thenPure
  | deleteDevice deviceId =>
    exact (along_onMetadata deleteDevice_sameFiles).thenPure
  | checkpoint deviceId =>
    exact (along_onMetadata checkpoint_sameFiles).thenPure

end

end CowStore.Local
