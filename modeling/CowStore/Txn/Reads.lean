import CowStore.Txn.Effects

/-!
# The operations of a device read

A read goes over the device twice, with the same operations each time: the manifest, the
heads of the shards in the range, and the nodes below them.  The first walk collects the
segments to verify, the second one reads the bytes.
-/

namespace CowStore.Txn

open Lib Object Local Script

section

variable {config : LocalStoreConfig} {es : List TxnEvent} {deviceId bufLen : Nat} {range : ByteRange}

variable {spec : DeviceSpec}

theorem returns_deviceSpec (h : Returns (deviceSpec deviceId) es spec) :
    ∃ (r : VersionedMetadataTxnValue) (manifest : TxnDeviceManifest),
      es = [⟨.readOne (.deviceManifest deviceId), r⟩] ∧
      r.value = some (.deviceManifest manifest) ∧ spec = manifest.spec := by
  obtain ⟨⟨read, manifest⟩, es1, es2, rfl, hmanifest, hrest⟩ := returns_bind.1 h
  obtain ⟨r, rfl, hvalue, -, -⟩ := returns_readManifest hmanifest
  obtain ⟨rfl, rfl⟩ := returns_done.1 hrest
  exact ⟨r, manifest, rfl, hvalue, rfl⟩

/-- The chunk has the root that the read of its head found. -/
def RootedAt (chunk : DeviceWriteChunk) (read : Nat × VersionedMetadataTxnValue) : Prop :=
  chunk.shardId = read.1 ∧
    ∃ head : TxnShardHead, read.2.value = some (.deviceShardHead head) ∧ head.root = chunk.oldRoot

theorem returns_shardChunk {requested : BlockRange} {shard : Nat} {part : Option DeviceWriteChunk}
    (h : Returns (shardChunk config deviceId spec requested shard) es part) :
    ∃ capture : List (Nat × VersionedMetadataTxnValue), es = capture.map (headRead deviceId) ∧
      List.Forall₂ RootedAt part.toList capture := by
  simp only [shardChunk, returns_lift_bind] at h
  obtain ⟨-, -, -, -, overlap, -, h⟩ := h
  cases overlap with
  | none =>
    obtain ⟨rfl, rfl⟩ := returns_done.1 h
    exact ⟨[], rfl, .nil⟩
  | some overlap =>
    simp only [returns_lift_bind] at h
    obtain ⟨-, -, h⟩ := h
    obtain ⟨⟨read, head⟩, es1, es2, rfl, hhead, hrest⟩ := returns_bind.1 h
    obtain ⟨r, rfl, hvalue, -⟩ := returns_readShardHead hhead
    obtain ⟨rfl, rfl⟩ := returns_done.1 hrest
    exact ⟨[(shard, r)], rfl, .cons ⟨rfl, head, hvalue, rfl⟩ .nil⟩

theorem returns_splitDeviceRange {chunks : List DeviceWriteChunk}
    (h : Returns (splitDeviceRange config deviceId spec range) es chunks) :
    ∃ capture : List (Nat × VersionedMetadataTxnValue), es = capture.map (headRead deviceId) ∧
      List.Forall₂ RootedAt chunks capture := by
  obtain ⟨parts, es1, es2, rfl, hparts, hrest⟩ := returns_bind.1 h
  simp only [returns_lift_bind, pure_eq_done, returns_done] at hrest
  obtain ⟨-, -, rfl, rfl⟩ := hrest
  obtain ⟨rounds, rfl, rfl, hrounds⟩ := returns_mapM hparts
  rw [List.append_nil]
  clear hparts h
  generalize List.range config.shardCount = shards at hrounds
  induction hrounds with
  | nil => exact ⟨[], rfl, .nil⟩
  | @cons shard round shards rounds hround _ ih =>
    obtain ⟨capture, hes, hchunk⟩ := returns_shardChunk hround
    obtain ⟨capture', hes', hchunks⟩ := ih
    refine ⟨capture ++ capture', ?_, ?_⟩
    · rw [List.map_cons, List.flatten_cons, hes, hes', List.map_append]
    · have hcons : (List.map (fun x => x.2) (round :: rounds)).reduceOption =
          round.2.toList ++ (rounds.map (·.2)).reduceOption := by
        cases hround : round.2 with
        | none => rw [List.map_cons, hround]; rfl
        | some chunk => rw [List.map_cons, hround]; rfl
      rw [hcons]
      exact List.rel_append hchunk hchunks

variable (deviceId range) in
/-- The operations of one walk: the manifest, the heads of the chunks and the nodes below them. -/
def WalksDevice {β : Type} (visit : DeviceSpec → LeafEntry → Plane (List β)) (es : List TxnEvent)
    (parts : List (List β)) : Prop :=
  ∃ (r : VersionedMetadataTxnValue) (manifest : TxnDeviceManifest)
    (capture : List (Nat × VersionedMetadataTxnValue)) (chunks : List DeviceWriteChunk)
    (walked : List TxnEvent),
    es = ⟨.readOne (.deviceManifest deviceId), r⟩ :: (capture.map (headRead deviceId) ++ walked) ∧
    r.value = some (.deviceManifest manifest) ∧ List.Forall₂ RootedAt chunks capture ∧
    Returns (chunks.mapM (walkChunk (requestedBlocks manifest.spec range) (visit manifest.spec)))
      walked parts

section

variable {β : Type} {visit : DeviceSpec → LeafEntry → Plane (List β)} {r : VersionedMetadataTxnValue}
  {manifest : TxnDeviceManifest} (hvalue : r.value = some (.deviceManifest manifest))
include hvalue

theorem walksDevice_nil : WalksDevice deviceId range visit [⟨.readOne (.deviceManifest deviceId), r⟩] [] :=
  ⟨r, manifest, [], [], [], rfl, hvalue, .nil, returns_done.2 ⟨rfl, rfl⟩⟩

theorem walksDevice_chunks {γ : Type} {f : List (List β) → γ} {c : γ}
    (h : Returns (splitDeviceRange config deviceId manifest.spec range >>= fun chunks =>
      chunks.mapM (walkChunk (requestedBlocks manifest.spec range) (visit manifest.spec)) >>= fun parts =>
        pure (f parts)) es c) :
    ∃ parts, WalksDevice deviceId range visit ([⟨.readOne (.deviceManifest deviceId), r⟩] ++ es) parts ∧
      c = f parts := by
  obtain ⟨chunks, heads, es2, rfl, hchunks, hwalk⟩ := returns_bind.1 h
  obtain ⟨parts, walked, es3, rfl, hparts, hlast⟩ := returns_bind.1 hwalk
  obtain ⟨rfl, rfl⟩ := returns_done.1 hlast
  obtain ⟨capture, rfl, hrooted⟩ := returns_splitDeviceRange hchunks
  exact ⟨parts, ⟨r, manifest, capture, chunks, walked, by simp, hvalue, hrooted, hparts⟩, rfl⟩

end

theorem returns_segmentIdsForDeviceRead {ids : List Nat}
    (h : Returns (segmentIdsForDeviceRead config deviceId range) es ids) :
    ∃ parts, WalksDevice deviceId range (fun spec => entrySegment (requestedBlocks spec range)) es parts ∧
      ids = (parts.flatten.insertionSort (· ≤ ·)).dedup := by
  obtain ⟨spec, es1, es2, rfl, hspec, hrest⟩ := returns_bind.1 h
  obtain ⟨r, manifest, rfl, hvalue, rfl⟩ := returns_deviceSpec hspec
  simp only [returns_lift_bind] at hrest
  obtain ⟨-, -, hrest⟩ := hrest
  split at hrest
  · obtain ⟨rfl, rfl⟩ := returns_done.1 hrest
    exact ⟨[], walksDevice_nil hvalue, rfl⟩
  · exact walksDevice_chunks hvalue hrest

theorem returns_readDeviceUnverified {bytes : List UInt8}
    (h : Returns (readDeviceUnverified config deviceId range bufLen) es bytes) :
    ∃ parts, WalksDevice deviceId range
        (fun spec => readEntry (requestedBlocks spec range) spec.blockSize bufLen) es parts ∧
      bytes = spliceAll (List.replicate bufLen 0) parts.flatten := by
  obtain ⟨spec, es1, es2, rfl, hspec, hrest⟩ := returns_bind.1 h
  obtain ⟨r, manifest, rfl, hvalue, rfl⟩ := returns_deviceSpec hspec
  simp only [returns_lift_bind, failIf_eq_ok] at hrest
  obtain ⟨-, -, -, hbuf, hrest⟩ := hrest
  split at hrest
  · next hlen =>
    obtain ⟨rfl, rfl⟩ := returns_done.1 hrest
    have hzero : bufLen = 0 := by omega
    subst hzero
    exact ⟨[], walksDevice_nil hvalue, rfl⟩
  · exact walksDevice_chunks hvalue hrest

theorem returns_readDeviceWithVerification {verification : ReadVerification} {bytes : List UInt8}
    (h : Returns (readDeviceWithVerification config deviceId range bufLen verification) es bytes) :
    ∃ (ids : List Nat) (first second verified : List TxnEvent), es = first ++ (second ++ verified) ∧
      Returns (segmentIdsForDeviceRead config deviceId range) first ids ∧
      Returns (readDeviceUnverified config deviceId range bufLen) second bytes ∧
      verified = ids.map fun segmentId => ⟨.verifySegmentPayloadForRead segmentId verification, .ok ()⟩ := by
  obtain ⟨ids, first, es2, rfl, hids, hrest⟩ := returns_bind.1 h
  obtain ⟨bytes', second, es3, rfl, hbytes, hverify⟩ := returns_bind.1 hrest
  obtain ⟨units, verified, es4, rfl, hverified, hlast⟩ := returns_bind.1 hverify
  obtain ⟨rfl, rfl⟩ := returns_done.1 hlast
  refine ⟨ids, first, second, verified, by rw [List.append_nil], hids, hbytes, ?_⟩
  obtain ⟨rounds, -, rfl, hrounds⟩ := returns_mapM hverified
  clear hverified hverify hrest h hids
  induction hrounds with
  | nil => rfl
  | @cons segmentId round ids rounds hround _ ih =>
    simp only [verifySegment, perform, returns_request_bind, returns_lift] at hround
    obtain ⟨x, es', hes, rfl, rfl⟩ := hround
    rw [List.map_cons, List.flatten_cons, ih, hes]
    rfl

end

end CowStore.Txn
