import CowStore.Object.Range

/-!
# The configuration of a local store
-/

namespace CowStore.Local

open Lib

def u32Bound : Nat := 2 ^ 32

inductive WriteDurability
  | acknowledged
  | flushed
  deriving DecidableEq, Repr

structure LocalStoreConfig where
  shardCount : Nat
  blockSize : Nat
  fileRootBlocks : Nat
  metadataFanout : Nat
  metadataLeafBlocks : Nat
  storageNode : Nat
  observabilityEventCapacity : Nat
  streamAutoPersistBytes : Option Nat
  deriving DecidableEq, Repr

namespace LocalStoreConfig

def validate (config : LocalStoreConfig) : Result Unit := do
  failIf (config.shardCount = 0) (.invalidArgument "shard_count must be greater than zero")
  failIf (config.blockSize = 0) (.invalidArgument "block_size must be greater than zero")
  failIf (¬ config.blockSize.isPowerOfTwo) (.invalidArgument "block_size must be a power of two")
  failIf (config.fileRootBlocks = 0)
    (.invalidArgument "file_root_blocks must be greater than zero")
  failIf (config.metadataFanout < 2) (.invalidArgument "metadata_fanout must be at least two")
  failIf (config.metadataLeafBlocks = 0)
    (.invalidArgument "metadata_leaf_blocks must be greater than zero")
  failIf (config.observabilityEventCapacity = 0)
    (.invalidArgument "observability_event_capacity must be greater than zero")
  failIf (config.streamAutoPersistBytes = some 0)
    (.invalidArgument "stream_auto_persist_bytes must be greater than zero when configured")

theorem validate_eq_ok {config : LocalStoreConfig} {u : Unit} (h : config.validate = .ok u) :
    0 < config.shardCount ∧ 0 < config.blockSize ∧ 0 < config.fileRootBlocks ∧
      2 ≤ config.metadataFanout ∧ 0 < config.metadataLeafBlocks := by
  obtain ⟨⟨⟩, h1, ⟨⟩, h2, -, -, h⟩ := bind3_eq_ok.1 h
  obtain ⟨⟨⟩, h4, ⟨⟩, h5, h⟩ := bind2_eq_ok.1 h
  obtain ⟨⟨⟩, h6, -⟩ := bind_eq_ok.1 h
  rw [failIf_eq_ok] at h1 h2 h4 h5 h6
  omega

end LocalStoreConfig

def normalizeStorageNodes (primary : Nat) (storageNodes : List Nat) : List Nat :=
  (primary :: storageNodes).eraseDups

end CowStore.Local
