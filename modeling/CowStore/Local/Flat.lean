import CowStore.Local.Coordinator

/-!
# Flat block devices

What the block operations are for: a device is an array of bytes.  A new one is all
zeroes, a batch makes its writes in order, a discard writes zeroes, and a fork or a restore
starts from the array that its source had at a commit.  The arrays that a device has had
are kept with the commits that made them, the newest first.
-/

namespace CowStore.Local

open Lib Object

inductive DeviceRequest
  | createDevice (spec : DeviceSpec)
  | commitBlockBatch (deviceId : Nat) (writes : List BlockBatchWrite) (durability : WriteDurability)
  | discardDevice (deviceId offset len : Nat)
  | writeZeroes (deviceId offset len : Nat)
  | forkDevice (source : Nat) (target : Option Nat)
  | restoreDevice (source : Nat) (point : RestorePoint)
  | deleteDevice (deviceId : Nat)
  | checkpoint (deviceId : Nat)
  deriving DecidableEq, Repr

/-- A new device with the commit at which it starts, a commit, or a checkpoint. -/
inductive DeviceResponse
  | device (deviceId commitSeq : Nat)
  | commit (commitSeq : Nat)
  | checkpoint (checkpointId : Nat)
  deriving DecidableEq, Repr

def perform (crc : List UInt8 → Nat) (config : LocalStoreConfig) :
    DeviceRequest → Op DeviceResponse
  | .createDevice spec => do
    let head ← onMetadata (createDevice config spec)
    return .device head.deviceId head.latestCommit
  | .commitBlockBatch deviceId writes durability => do
    let committed ← commitBlockBatchWithDelta crc config deviceId writes durability
    return .commit committed.1.commitSeq
  | .discardDevice deviceId offset len => do
    let committed ← discardDeviceWithDelta config deviceId offset len
    return .commit committed.1.commitSeq
  | .writeZeroes deviceId offset len => do
    let committed ← writeZeroesWithDelta config deviceId offset len
    return .commit committed.1.commitSeq
  | .forkDevice source target => do
    let head ← onMetadata (forkDevice config source target)
    return .device head.deviceId head.latestCommit
  | .restoreDevice source point => do
    let head ← onMetadata (restoreDevice config source point)
    return .device head.deviceId head.latestCommit
  | .deleteDevice deviceId => do
    let commitSeq ← onMetadata (deleteDevice deviceId)
    return .commit commitSeq
  | .checkpoint deviceId => do
    let checkpointId ← onMetadata (checkpoint deviceId)
    return .checkpoint checkpointId

structure FlatDevice where
  spec : DeviceSpec
  live : Bool
  commit : Nat
  bytes : List UInt8
  earlier : List (Nat × List UInt8)
  deriving DecidableEq, Repr

namespace FlatDevice

/-- The array at a commit: the newest that is not of a later one. -/
def bytesAt (d : FlatDevice) (commitSeq : Nat) : Option (List UInt8) :=
  (((d.commit, d.bytes) :: d.earlier).find? (·.1 ≤ commitSeq)).map (·.2)

def push (d : FlatDevice) (commitSeq : Nat) (bytes : List UInt8) : FlatDevice :=
  { d with commit := commitSeq, bytes, earlier := (d.commit, d.bytes) :: d.earlier }

theorem bytesAt_push (d : FlatDevice) (commitSeq : Nat) (bytes : List UInt8) (t : Nat) :
    (d.push commitSeq bytes).bytesAt t = if commitSeq ≤ t then some bytes else d.bytesAt t := by
  unfold bytesAt push
  by_cases h : commitSeq ≤ t
  · simp [h]
  · rw [if_neg h, List.find?_cons, decide_eq_false h]

end FlatDevice

structure Flat where
  devices : Nat → Option FlatDevice
  /-- The device and the commit of each checkpoint. -/
  checkpoints : Nat → Option (Nat × Nat)
  nextCheckpoint : Nat

namespace Flat

def new : Flat := ⟨fun _ => none, fun _ => none, 1⟩

def setDevice (flat : Flat) (deviceId : Nat) (d : FlatDevice) : Flat :=
  { flat with devices := fun id => if id = deviceId then some d else flat.devices id }

def addCheckpoint (flat : Flat) (deviceId commitSeq : Nat) : Flat :=
  { flat with
    checkpoints := fun id =>
      if id = flat.nextCheckpoint then some (deviceId, commitSeq) else flat.checkpoints id
    nextCheckpoint := flat.nextCheckpoint + 1 }

def addDevice (flat : Flat) (deviceId commitSeq : Nat) (spec : DeviceSpec) (bytes : List UInt8) :
    Flat :=
  (flat.setDevice deviceId ⟨spec, true, commitSeq, bytes, []⟩).addCheckpoint deviceId commitSeq

def chosenCommit (flat : Flat) : RestorePoint → Option Nat
  | .commit commitSeq => some commitSeq
  | .checkpoint checkpointId => (flat.checkpoints checkpointId).map (·.2)
  | .time time => some time

def content (flat : Flat) (deviceId : Nat) : Option (List UInt8) :=
  (flat.devices deviceId).bind fun d => if d.live then some d.bytes else none

def update (flat : Flat) (deviceId commitSeq : Nat) (f : List UInt8 → List UInt8) : Flat :=
  match flat.devices deviceId with
  | some d => flat.setDevice deviceId (d.push commitSeq (f d.bytes))
  | none => flat

def step (flat : Flat) : DeviceRequest → DeviceResponse → Flat
  | .createDevice spec, .device deviceId commitSeq =>
    flat.addDevice deviceId commitSeq spec (List.replicate (spec.logicalBlocks * spec.blockSize) 0)
  | .commitBlockBatch deviceId writes _, .commit commitSeq =>
    flat.update deviceId commitSeq fun bytes => spliceAll bytes (flatWrites writes)
  | .discardDevice deviceId offset len, .commit commitSeq
  | .writeZeroes deviceId offset len, .commit commitSeq =>
    flat.update deviceId commitSeq fun bytes => splice bytes offset (List.replicate len 0)
  | .forkDevice source _, .device deviceId commitSeq =>
    match flat.devices source with
    | some d => flat.addDevice deviceId commitSeq d.spec d.bytes
    | none => flat
  | .restoreDevice source point, .device deviceId commitSeq =>
    match flat.devices source, flat.chosenCommit point with
    | some d, some chosen =>
      flat.addDevice deviceId commitSeq d.spec ((d.bytesAt chosen).getD [])
    | _, _ => flat
  | .deleteDevice deviceId, .commit _ =>
    match flat.devices deviceId with
    | some d => flat.setDevice deviceId { d with live := false }
    | none => flat
  | .checkpoint deviceId, .checkpoint _ =>
    match flat.devices deviceId with
    | some d => flat.addCheckpoint deviceId d.commit
    | none => flat
  | _, _ => flat

end Flat

end CowStore.Local
