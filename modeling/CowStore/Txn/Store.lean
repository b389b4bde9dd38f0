import CowStore.Lib.TwoPhase
import CowStore.Local.Metadata

/-!
# The transactional metadata store

A map from keys to versioned values.  In serial mode one mutex guards the whole map; in
sharded mode every key belongs to one of several mutexes by a hash of its parts.  A
commit compares the versions of the keys that were read and writes its keys under one
new version.
-/

namespace CowStore.Txn

open Lib Object Local StorageError TwoPhase

inductive MetadataTxnKey
  | deviceManifest (deviceId : Nat)
  | deviceShardHead (deviceId shardId : Nat)
  | metadataNode (nodeId : Nat)
  | commitGroup (groupId : Nat)
  | shardCommit (deviceId commitSeq shardId : Nat)
  | forkRecord (commitSeq : Nat)
  | deleteRecord (commitSeq : Nat)
  | checkpoint (checkpointId : Nat)
  deriving DecidableEq, Repr

structure TxnDeviceManifest where
  spec : DeviceSpec
  shardCount : Nat
  live : Bool
  deriving DecidableEq, Repr

structure TxnShardHead where
  root : Nat
  generation : Nat
  latestCommit : Nat
  deriving DecidableEq, Repr

inductive MetadataTxnValue
  | deviceManifest (manifest : TxnDeviceManifest)
  | deviceShardHead (head : TxnShardHead)
  | metadataNode (node : MetadataNode)
  | commitGroup (group : CommitGroup)
  | shardCommit (commit : ShardCommit)
  | forkRecord (record : ForkRecord)
  | deleteRecord (record : DeleteRecord)
  | checkpoint (checkpoint : Checkpoint)
  deriving DecidableEq, Repr

abbrev MetadataTxn := TwoPhase.Txn MetadataTxnKey MetadataTxnValue

/-- The order of the keys in a `BTreeMap`: by variant, then by fields. -/
def MetadataTxnKey.rank : MetadataTxnKey → Nat ×ₗ Nat ×ₗ Nat ×ₗ Nat
  | deviceManifest deviceId => toLex (1, toLex (deviceId, toLex (0, 0)))
  | deviceShardHead deviceId shardId => toLex (2, toLex (deviceId, toLex (shardId, 0)))
  | metadataNode nodeId => toLex (3, toLex (nodeId, toLex (0, 0)))
  | commitGroup groupId => toLex (4, toLex (groupId, toLex (0, 0)))
  | shardCommit deviceId commitSeq shardId =>
    toLex (5, toLex (deviceId, toLex (commitSeq, shardId)))
  | forkRecord commitSeq => toLex (6, toLex (commitSeq, toLex (0, 0)))
  | deleteRecord commitSeq => toLex (7, toLex (commitSeq, toLex (0, 0)))
  | checkpoint checkpointId => toLex (8, toLex (checkpointId, toLex (0, 0)))

theorem MetadataTxnKey.rank_injective : Function.Injective rank := by
  intro a b h
  cases a <;> cases b <;> simp_all [rank]

instance : LinearOrder MetadataTxnKey := LinearOrder.lift' _ MetadataTxnKey.rank_injective

/-! ## Shards of keys -/

/-- One step of the hash for every byte of `value`, the most significant first. -/
def mix (hash value : Nat) : Nat :=
  [56, 48, 40, 32, 24, 16, 8, 0].foldl
    (fun hash shift => (hash ^^^ ((value >>> shift) % 256)) * 0x100000001b3 % u64Bound) hash

def rawU128Low64 (raw : Nat) : Nat := raw % u64Bound

/-- The numbers that the hash of a key runs through. -/
def MetadataTxnKey.hashParts : MetadataTxnKey → List Nat
  | deviceManifest deviceId => [1, rawU128Low64 deviceId]
  | deviceShardHead deviceId shardId => [2, rawU128Low64 deviceId, shardId]
  | metadataNode nodeId => [3, rawU128Low64 nodeId]
  | commitGroup groupId => [4, rawU128Low64 groupId]
  | shardCommit deviceId commitSeq shardId => [5, rawU128Low64 deviceId, commitSeq, shardId]
  | forkRecord commitSeq => [6, commitSeq]
  | deleteRecord commitSeq => [7, commitSeq]
  | checkpoint checkpointId => [8, rawU128Low64 checkpointId]

def metadataTxnKeyShard (key : MetadataTxnKey) (shardCount : Nat) : Nat :=
  if shardCount ≤ 1 then 0 else key.hashParts.foldl mix 0xcbf29ce484222325 % shardCount

inductive MetadataTxnMode
  | serial
  | sharded (shardCount : Nat)
  deriving DecidableEq, Repr

namespace MetadataTxnMode

/-- The check of `MetadataTxnStore::new`. -/
def validate : MetadataTxnMode → Result Unit
  | serial => .ok ()
  | sharded shardCount => failIf (shardCount = 0)
      (invalidArgument "metadata transaction shard count must be greater than zero")

def shards : MetadataTxnMode → Nat
  | serial => 1
  | sharded shardCount => shardCount

def keyShard : MetadataTxnMode → MetadataTxnKey → Nat
  | serial, _ => 0
  | sharded shardCount, key => metadataTxnKeyShard key shardCount

end MetadataTxnMode

def touched (shardCount : Nat) (txn : MetadataTxn) : List Nat :=
  ((txn.reads.map (fun read => metadataTxnKeyShard read.1 shardCount) ++
    txn.writes.map fun write => metadataTxnKeyShard write.1 shardCount).insertionSort (· ≤ ·)).dedup

inductive StoreCall
  | read (keys : List MetadataTxnKey)
  | values
  | commit (txn : MetadataTxn)

/-- The mutexes that a call goes through: a read visits those of its keys one after the
other, `values` visits all. -/
def StoreCall.call (mode : MetadataTxnMode) : StoreCall → Call MetadataTxnKey MetadataTxnValue
  | read keys =>
    match mode with
    | .serial => .read [0]
    | .sharded shardCount => .read (keys.map fun key => metadataTxnKeyShard key shardCount)
  | values =>
    match mode with
    | .serial => .read [0]
    | .sharded shardCount => .read (List.range shardCount)
  | commit txn => .commit txn

structure VersionedMetadataTxnValue where
  key : MetadataTxnKey
  version : Nat
  value : Option MetadataTxnValue
  deriving DecidableEq, Repr

def versioned (m : Map MetadataTxnKey MetadataTxnValue) (key : MetadataTxnKey) :
    VersionedMetadataTxnValue :=
  ⟨key, versionOf m key, (m key).map Entry.value⟩

section

variable (mode : MetadataTxnMode) (calls : Nat → StoreCall)

variable {mode calls} {s : StoreState}

end

end CowStore.Txn
