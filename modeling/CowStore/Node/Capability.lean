import CowStore.Durable.Codec
import CowStore.Lib.Apart
import CowStore.Node.Authority

/-!
# Canonical bodies and their proofs

A grant, a receipt and a piece of reference evidence are each written out as a
canonical body, a tag with its length and then every field but the proof, and the
proof is a keyed hash of that body.  Bodies determine what they were written from.
Each step of the hash permutes its four lanes for a fixed byte, so one changed byte
anywhere in a body changes the proof.
-/

namespace CowStore.Node

open Lib Object Local
open Durable (putU8 putU64 putU128 IntegrityFits)

/-! ## The stable hash -/

structure StableHash32 where
  lanes : Vector (BitVec 64) 4
  index : Nat

def usizeMax : Nat := u64Bound - 1

namespace StableHash32

def new : StableHash32 :=
  ⟨#v[0x243f6a8885a308d3, 0x13198a2e03707344, 0xa4093822299f31d0, 0x082efa98ec4e6c89], 0⟩

def multiplier : BitVec 64 := 0x9e3779b185ebca87

/-- One byte of `update`: the byte, already shifted into place, enters one lane, and the lane
is carried into the one after it. -/
def mix (lanes : Vector (BitVec 64) 4) (lane : Fin 4) (input : BitVec 64) : Vector (BitVec 64) 4 :=
  let next : Fin 4 := lane + 1
  let word := (lanes[lane] ^^^ input).rotateLeft (7 + lane * 5) * multiplier
  let lanes := lanes.set lane word
  lanes.set next (lanes[next] ^^^ word.rotateRight 11)

def absorb (hash : StableHash32) (byte : UInt8) : StableHash32 where
  lanes := mix hash.lanes (Fin.ofNat 4 hash.index) (byte.toBitVec.setWidth 64 <<< (hash.index % 8 * 8))
  index := min (hash.index + 1) usizeMax

def update (hash : StableHash32) (bytes : List UInt8) : StableHash32 :=
  bytes.foldl absorb hash

/-- The thirty-two bytes of a tag, as the number they stand for. -/
def finish (hash : StableHash32) : Nat :=
  beNat (hash.lanes.toList.flatMap fun lane => beBytes 8 lane.toNat)

/-! Every step is a permutation of the lanes. -/

theorem rotateRight_rotateLeft (x : BitVec 64) {r : Nat} (h : r < 64) :
    (x.rotateLeft r).rotateRight r = x := by
  apply BitVec.eq_of_getElem_eq
  intro i hi
  simp only [BitVec.getElem_rotateRight, BitVec.getElem_rotateLeft, Nat.mod_eq_of_lt h]
  split
  · split
    · omega
    · congr 1
      omega
  · split
    · congr 1
      omega
    · omega

variable {x y : BitVec 64}

theorem rotateLeft_inj {r : Nat} (h : r < 64) (hxy : x.rotateLeft r = y.rotateLeft r) : x = y := by
  rw [← rotateRight_rotateLeft x h, hxy, rotateRight_rotateLeft y h]

/-- The multiplier is odd, so it can be undone. -/
theorem mul_multiplier_inj (h : x * multiplier = y * multiplier) : x = y := by
  have hunit : multiplier * 0x887493432badb37#64 = 1#64 := by decide
  have := congrArg (· * 0x887493432badb37#64) h
  simpa only [BitVec.mul_assoc, hunit, BitVec.mul_one] using this

def word (lane : Fin 4) (x : BitVec 64) : BitVec 64 := x.rotateLeft (7 + lane * 5) * multiplier

theorem word_inj {lane : Fin 4} (h : word lane x = word lane y) : x = y :=
  rotateLeft_inj (by omega) (mul_multiplier_inj h)

theorem ne_next (lane : Fin 4) : lane ≠ lane + 1 := by
  revert lane
  decide

theorem getElem_mix (lanes : Vector (BitVec 64) 4) (lane : Fin 4) (input : BitVec 64) (i : Fin 4) :
    (mix lanes lane input)[i] =
      if i = lane + 1 then lanes[i] ^^^ (word lane (lanes[lane] ^^^ input)).rotateRight 11
      else if i = lane then word lane (lanes[lane] ^^^ input) else lanes[i] := by
  simp only [mix, word, Fin.getElem_fin, Vector.getElem_set, Fin.val_inj, eq_comm (b := i)]
  split
  · next h =>
    subst h
    simp [ne_next]
  · rfl

theorem mix_lane (lanes : Vector (BitVec 64) 4) (lane : Fin 4) (input : BitVec 64) :
    (mix lanes lane input)[lane] = word lane (lanes[lane] ^^^ input) := by
  rw [getElem_mix, if_neg (ne_next lane), if_pos rfl]

variable {lanes lanes' : Vector (BitVec 64) 4} {lane : Fin 4} {input input' : BitVec 64}

theorem mix_inj (h : mix lanes lane input = mix lanes' lane input) : lanes = lanes' := by
  have hget : ∀ i : Fin 4, (mix lanes lane input)[i] = (mix lanes' lane input)[i] := fun i => by rw [h]
  have hlane : lanes[lane] = lanes'[lane] := by
    have := hget lane
    rw [mix_lane, mix_lane] at this
    exact (BitVec.xor_left_inj input).1 (word_inj this)
  ext i hi : 1
  have := hget ⟨i, hi⟩
  rw [getElem_mix, getElem_mix, hlane] at this
  by_cases hnext : (⟨i, hi⟩ : Fin 4) = lane + 1
  · rw [if_pos hnext, if_pos hnext] at this
    exact (BitVec.xor_left_inj _).1 this
  · by_cases hat : (⟨i, hi⟩ : Fin 4) = lane
    · subst hat
      exact hlane
    · rwa [if_neg hnext, if_neg hnext, if_neg hat, if_neg hat] at this

theorem mix_input_inj (h : mix lanes lane input = mix lanes lane input') : input = input' := by
  have := congrArg (fun lanes => lanes[lane]) h
  simp only [mix_lane] at this
  exact (BitVec.xor_right_inj _).1 (word_inj this)

/-- The eight places a byte is shifted to all lie inside the lane. -/
theorem shifted_inj {a b : UInt8} {k : Nat} (hk : k < 8)
    (h : a.toBitVec.setWidth 64 <<< (k * 8) = b.toBitVec.setWidth 64 <<< (k * 8)) : a = b := by
  have hval : ∀ c : UInt8, (c.toBitVec.setWidth 64 <<< (k * 8)).toNat = c.toNat * 2 ^ (k * 8) := by
    intro c
    have hc := c.toNat_lt
    have hpow : 2 ^ (k * 8) ≤ 2 ^ 56 := Nat.pow_le_pow_right (by decide) (by omega)
    have hsmall : c.toNat * 2 ^ (k * 8) < 2 ^ 64 :=
      calc c.toNat * 2 ^ (k * 8) ≤ c.toNat * 2 ^ 56 := Nat.mul_le_mul_left _ hpow
        _ < 2 ^ 8 * 2 ^ 56 := Nat.mul_lt_mul_of_pos_right hc (by decide)
        _ = 2 ^ 64 := by decide
    rw [BitVec.toNat_shiftLeft, Nat.shiftLeft_eq, BitVec.toNat_setWidth,
      Nat.mod_eq_of_lt (a := c.toBitVec.toNat) (by simp; omega)]
    exact Nat.mod_eq_of_lt hsmall
  have := congrArg BitVec.toNat h
  rw [hval, hval] at this
  exact UInt8.toNat_inj.1 (Nat.eq_of_mul_eq_mul_right (Nat.two_pow_pos _) this)

/-- Two hashes at the same place in their messages that have seen different bytes. -/
def Apart (s t : StableHash32) : Prop := s.index = t.index ∧ s.lanes ≠ t.lanes

theorem absorb_apart_of_ne (s : StableHash32) {a b : UInt8} (h : a ≠ b) : Apart (s.absorb a) (s.absorb b) :=
  ⟨rfl, fun heq => h (shifted_inj (Nat.mod_lt _ (by decide)) (mix_input_inj heq))⟩

theorem absorb_apart {s t : StableHash32} (a : UInt8) (h : Apart s t) : Apart (s.absorb a) (t.absorb a) := by
  obtain ⟨hindex, hlanes⟩ := h
  refine ⟨by simp only [absorb, hindex], fun heq => hlanes ?_⟩
  simp only [absorb, hindex] at heq
  exact mix_inj heq

theorem finish_inj {s t : StableHash32} (h : s.finish = t.finish) : s.lanes = t.lanes := by
  have hlength : ∀ lanes : List (BitVec 64),
      (lanes.flatMap fun lane => beBytes 8 lane.toNat).length = 8 * lanes.length := by
    intro lanes
    simp [List.length_flatMap, Nat.mul_comm]
  have hbytes := beNat_inj (by rw [hlength, hlength]; simp) h
  have hinj : ∀ lanes lanes' : List (BitVec 64), lanes.length = lanes'.length →
      (lanes.flatMap fun lane => beBytes 8 lane.toNat) = (lanes'.flatMap fun lane => beBytes 8 lane.toNat) →
      lanes = lanes' := by
    intro lanes
    induction lanes with
    | nil => exact fun lanes' hlen _ => (List.length_eq_zero_iff.1 hlen.symm).symm
    | cons lane lanes ih =>
      intro lanes' hlen heq
      cases lanes' with
      | nil => simp at hlen
      | cons lane' lanes' =>
        rw [List.flatMap_cons, List.flatMap_cons] at heq
        obtain ⟨hhead, htail⟩ := (beBytes_append_iff lane.isLt lane'.isLt).1 heq
        rw [BitVec.toNat_inj.1 hhead, ih lanes' (by simpa using hlen) htail]
  exact Vector.toList_inj.1 (hinj _ _ (by simp) hbytes)

/-- One changed byte changes the tag, whatever came before and whatever follows. -/
theorem finish_ne_of_oneApart {x y : List UInt8} (h : OneApart x y) (hash : StableHash32) :
    (hash.update x).finish ≠ (hash.update y).finish := by
  intro heq
  have happart : Apart (hash.update x) (hash.update y) :=
    foldl_oneApart h (fun s a b => s.absorb_apart_of_ne) (fun s t a => absorb_apart a) hash
  exact happart.2 (finish_inj heq)

end StableHash32

@[irreducible] def deterministicTestProof (keyId : Nat) (canonicalBody : List UInt8) : Nat :=
  ((StableHash32.new.update (putU128 keyId)).update canonicalBody).finish

theorem deterministicTestProof_ne_of_oneApart {x y : List UInt8} (h : OneApart x y) (keyId : Nat) :
    deterministicTestProof keyId x ≠ deterministicTestProof keyId y := by
  unfold deterministicTestProof
  exact StableHash32.finish_ne_of_oneApart h _

/-! ## Canonical bodies -/

def ascii (text : String) : List UInt8 :=
  text.toList.map fun c => UInt8.ofNat c.toNat

def putBytes (bytes : List UInt8) : List UInt8 :=
  putU64 bytes.length ++ bytes

@[irreducible] def putGrantHash (hash : Nat) : List UInt8 :=
  putBytes (beBytes 32 hash)

def putMappingOwner : MappingOwner → List UInt8
  | .blockDevice deviceId => putU8 1 ++ putU128 deviceId
  | .nativeKeyspace keyspaceId => putU8 2 ++ putU128 keyspaceId

def putWriteGrantIntent : WriteGrantIntent → List UInt8
  | .blockWrite deviceId range fence shardId oldRoot =>
    putU8 1 ++ putU128 deviceId ++ putU64 range.start ++ putU64 range.blocks ++ putU64 fence ++
      putU64 shardId ++ putU128 oldRoot
  | .nativeWrite keyspaceId fileId range baseVersion =>
    putU8 2 ++ putU128 keyspaceId ++ putU128 fileId ++ putU64 range.offset ++ putU64 range.len ++
      putU64 baseVersion
  | .nativeAppendStream keyspaceId fileId streamId ticketId appendOffset bytes writerEpoch =>
    putU8 3 ++ putU128 keyspaceId ++ putU128 fileId ++ putU128 streamId ++ putU128 ticketId ++
      putU64 appendOffset ++ putU64 bytes ++ putU64 writerEpoch
  | .internal owner => putU8 4 ++ putMappingOwner owner

def putWriteDurability : WriteDurability → List UInt8
  | .acknowledged => putU8 1
  | .flushed => putU8 2

def putPayloadIntegrity : PayloadIntegrity → List UInt8
  | .verified => putU8 1
  | .unchecked => putU8 2

def putSegmentPayloadIntegrity : SegmentPayloadIntegrity → List UInt8
  | .crc32c checksum => putU8 1 ++ putU64 checksum
  | .unchecked => putU8 2

def putProofScheme : ProofScheme → List UInt8
  | .deterministicTestMacV1 => putU8 1
  | .nodeSignatureV1 => putU8 2

def putSegmentReceiptLifecycle : List UInt8 := putU8 1

def putSegmentDescriptor (descriptor : SegmentDescriptor) : List UInt8 :=
  putU128 descriptor.segmentId ++ putU64 descriptor.blocks ++ putU64 descriptor.bytes ++
    putSegmentPayloadIntegrity descriptor.integrity

def putSegmentReplicaPlacement (placement : SegmentReplicaPlacement) : List UInt8 :=
  putU128 placement.segmentId ++ putU128 placement.storageNode ++ putU64 placement.offset ++
    putU64 placement.bytes

def WriteGrantBody.canonicalBody (grant : WriteGrantBody) : List UInt8 :=
  putBytes (ascii "TCOW_WRITE_GRANT_V1") ++ putU128 grant.tenant ++ putU128 grant.principal ++
    putU128 grant.grantId ++ putU128 grant.nonce ++ putU64 grant.grantEpoch ++
    putU64 grant.expiresAt ++ putMappingOwner grant.owner ++ putWriteGrantIntent grant.intent ++
    putU128 grant.writeIntent ++ putU128 grant.segmentId ++ putU128 grant.storageNode ++
    putU64 grant.maxBytes ++ putPayloadIntegrity grant.payloadIntegrity ++
    putWriteDurability grant.durability ++ putU128 grant.keyId ++ putProofScheme grant.proofScheme

def SegmentReceiptBody.canonicalBody (receipt : SegmentReceiptBody) : List UInt8 :=
  putBytes (ascii "TCOW_SEGMENT_RECEIPT_V1") ++ putU128 receipt.tenant ++ putU128 receipt.grantId ++
    putGrantHash receipt.grantHash ++ putU128 receipt.principal ++
    putMappingOwner receipt.owner ++ putU128 receipt.storageNode ++
    putU64 receipt.storageNodeIncarnation ++ putU128 receipt.segmentId ++
    putU128 receipt.writeIntent ++ putWriteGrantIntent receipt.intent ++ putU64 receipt.bytes ++
    putSegmentPayloadIntegrity receipt.integrity ++ putWriteDurability receipt.durability ++
    putSegmentReceiptLifecycle ++ putU64 receipt.receiptEpoch ++ putU64 receipt.expiresAt ++
    putU128 receipt.nodeKeyId ++ putProofScheme receipt.proofScheme ++
    putSegmentDescriptor receipt.descriptor ++ putSegmentReplicaPlacement receipt.placement

def ReferenceEvidenceBody.canonicalBody (evidence : ReferenceEvidenceBody) : List UInt8 :=
  putBytes (ascii "TCOW_REFERENCE_EVIDENCE_V1") ++ putU128 evidence.tenant ++
    putU128 evidence.principal ++ putMappingOwner evidence.owner ++ putU128 evidence.grantId ++
    putU128 evidence.segmentId ++ putU128 evidence.storageNode ++ putU64 evidence.metadataCommit ++
    putU64 evidence.receiptEpoch ++ putU128 evidence.nodeKeyId ++ putProofScheme evidence.proofScheme

/-! ## Bodies determine their fields

The fields of a body are machine words; `Fits` says that they are. -/

def MappingOwnerFits : MappingOwner → Prop
  | .blockDevice deviceId => deviceId < u128Bound
  | .nativeKeyspace keyspaceId => keyspaceId < u128Bound

def WriteGrantIntentFits : WriteGrantIntent → Prop
  | .blockWrite deviceId range fence shardId oldRoot =>
    deviceId < u128Bound ∧ range.start < u64Bound ∧ range.blocks < u64Bound ∧ fence < u64Bound ∧
      shardId < u32Bound ∧ oldRoot < u128Bound
  | .nativeWrite keyspaceId fileId range baseVersion =>
    keyspaceId < u128Bound ∧ fileId < u128Bound ∧ range.offset < u64Bound ∧ range.len < u64Bound ∧
      baseVersion < u64Bound
  | .nativeAppendStream keyspaceId fileId streamId ticketId appendOffset bytes writerEpoch =>
    keyspaceId < u128Bound ∧ fileId < u128Bound ∧ streamId < u128Bound ∧ ticketId < u128Bound ∧
      appendOffset < u64Bound ∧ bytes < u64Bound ∧ writerEpoch < u64Bound
  | .internal owner => MappingOwnerFits owner

structure SegmentDescriptorFits (descriptor : SegmentDescriptor) : Prop where
  segmentId : descriptor.segmentId < u128Bound
  blocks : descriptor.blocks < u64Bound
  bytes : descriptor.bytes < u64Bound
  integrity : IntegrityFits descriptor.integrity

structure SegmentReplicaPlacementFits (placement : SegmentReplicaPlacement) : Prop where
  segmentId : placement.segmentId < u128Bound
  storageNode : placement.storageNode < u128Bound
  offset : placement.offset < u64Bound
  bytes : placement.bytes < u64Bound

structure WriteGrantBody.Fits (grant : WriteGrantBody) : Prop where
  tenant : grant.tenant < u128Bound
  principal : grant.principal < u128Bound
  grantId : grant.grantId < u128Bound
  nonce : grant.nonce < u128Bound
  grantEpoch : grant.grantEpoch < u64Bound
  expiresAt : grant.expiresAt < u64Bound
  owner : MappingOwnerFits grant.owner
  intent : WriteGrantIntentFits grant.intent
  writeIntent : grant.writeIntent < u128Bound
  segmentId : grant.segmentId < u128Bound
  storageNode : grant.storageNode < u128Bound
  maxBytes : grant.maxBytes < u64Bound
  keyId : grant.keyId < u128Bound

structure SegmentReceiptBody.Fits (receipt : SegmentReceiptBody) : Prop where
  tenant : receipt.tenant < u128Bound
  grantId : receipt.grantId < u128Bound
  grantHash : receipt.grantHash < 256 ^ 32
  principal : receipt.principal < u128Bound
  owner : MappingOwnerFits receipt.owner
  storageNode : receipt.storageNode < u128Bound
  storageNodeIncarnation : receipt.storageNodeIncarnation < u64Bound
  segmentId : receipt.segmentId < u128Bound
  writeIntent : receipt.writeIntent < u128Bound
  intent : WriteGrantIntentFits receipt.intent
  bytes : receipt.bytes < u64Bound
  integrity : IntegrityFits receipt.integrity
  receiptEpoch : receipt.receiptEpoch < u64Bound
  expiresAt : receipt.expiresAt < u64Bound
  nodeKeyId : receipt.nodeKeyId < u128Bound
  descriptor : SegmentDescriptorFits receipt.descriptor
  placement : SegmentReplicaPlacementFits receipt.placement

structure ReferenceEvidenceBody.Fits (evidence : ReferenceEvidenceBody) : Prop where
  tenant : evidence.tenant < u128Bound
  principal : evidence.principal < u128Bound
  owner : MappingOwnerFits evidence.owner
  grantId : evidence.grantId < u128Bound
  segmentId : evidence.segmentId < u128Bound
  storageNode : evidence.storageNode < u128Bound
  metadataCommit : evidence.metadataCommit < u64Bound
  receiptEpoch : evidence.receiptEpoch < u64Bound
  nodeKeyId : evidence.nodeKeyId < u128Bound

section

variable {r s : List UInt8}

variable {v w : Nat}

@[simp] theorem putU8_append_iff (hv : v < 256) (hw : w < 256) :
    putU8 v ++ r = putU8 w ++ s ↔ v = w ∧ r = s :=
  beBytes_append_iff (by simpa using hv) (by simpa using hw)

@[simp] theorem putU64_append_iff (hv : v < u64Bound) (hw : w < u64Bound) :
    putU64 v ++ r = putU64 w ++ s ↔ v = w ∧ r = s :=
  beBytes_append_iff (by simpa [u64Bound] using hv) (by simpa [u64Bound] using hw)

@[simp] theorem putU128_append_iff (hv : v < u128Bound) (hw : w < u128Bound) :
    putU128 v ++ r = putU128 w ++ s ↔ v = w ∧ r = s :=
  beBytes_append_iff (by simpa [u128Bound] using hv) (by simpa [u128Bound] using hw)

@[simp] theorem putMappingOwner_append_iff {a b : MappingOwner} (ha : MappingOwnerFits a) (hb : MappingOwnerFits b) :
    putMappingOwner a ++ r = putMappingOwner b ++ s ↔ a = b ∧ r = s := by
  cases a <;> cases b <;>
    simp_all [putMappingOwner, MappingOwnerFits]

theorem lt_u64Bound_of_lt_u32Bound (h : v < u32Bound) : v < u64Bound :=
  h.trans (by decide)

@[simp] theorem putWriteGrantIntent_append_iff {a b : WriteGrantIntent} (ha : WriteGrantIntentFits a)
    (hb : WriteGrantIntentFits b) :
    putWriteGrantIntent a ++ r = putWriteGrantIntent b ++ s ↔ a = b ∧ r = s := by
  obtain ⟨_, ⟨_, _⟩, _, _, _⟩ | ⟨_, _, ⟨_, _⟩, _⟩ | _ | _ := a <;>
  obtain ⟨_, ⟨_, _⟩, _, _, _⟩ | ⟨_, _, ⟨_, _⟩, _⟩ | _ | _ := b <;>
    simp_all [putWriteGrantIntent, WriteGrantIntentFits, lt_u64Bound_of_lt_u32Bound, and_assoc]

@[simp] theorem putSegmentPayloadIntegrity_append_iff {a b : SegmentPayloadIntegrity} (ha : IntegrityFits a)
    (hb : IntegrityFits b) :
    putSegmentPayloadIntegrity a ++ r = putSegmentPayloadIntegrity b ++ s ↔ a = b ∧ r = s := by
  cases a <;> cases b <;>
    simp_all [putSegmentPayloadIntegrity, IntegrityFits]

@[simp] theorem putPayloadIntegrity_append_iff {a b : PayloadIntegrity} :
    putPayloadIntegrity a ++ r = putPayloadIntegrity b ++ s ↔ a = b ∧ r = s := by
  cases a <;> cases b <;> simp [putPayloadIntegrity]

@[simp] theorem putWriteDurability_append_iff {a b : WriteDurability} :
    putWriteDurability a ++ r = putWriteDurability b ++ s ↔ a = b ∧ r = s := by
  cases a <;> cases b <;> simp [putWriteDurability]

@[simp] theorem putProofScheme_append_iff {a b : ProofScheme} :
    putProofScheme a ++ r = putProofScheme b ++ s ↔ a = b ∧ r = s := by
  cases a <;> cases b <;> simp [putProofScheme]

@[simp] theorem putSegmentDescriptor_append_iff {a b : SegmentDescriptor} (ha : SegmentDescriptorFits a)
    (hb : SegmentDescriptorFits b) :
    putSegmentDescriptor a ++ r = putSegmentDescriptor b ++ s ↔ a = b ∧ r = s := by
  cases a
  cases b
  cases ha
  cases hb
  simp_all [putSegmentDescriptor, and_assoc]

@[simp] theorem putSegmentReplicaPlacement_append_iff {a b : SegmentReplicaPlacement}
    (ha : SegmentReplicaPlacementFits a) (hb : SegmentReplicaPlacementFits b) :
    putSegmentReplicaPlacement a ++ r = putSegmentReplicaPlacement b ++ s ↔ a = b ∧ r = s := by
  cases a
  cases b
  cases ha
  cases hb
  simp_all [putSegmentReplicaPlacement, and_assoc]

@[simp] theorem putGrantHash_append_iff (hv : v < 256 ^ 32) (hw : w < 256 ^ 32) :
    putGrantHash v ++ r = putGrantHash w ++ s ↔ v = w ∧ r = s := by
  unfold putGrantHash putBytes
  rw [length_beBytes, length_beBytes, List.append_assoc, List.append_assoc, List.append_cancel_left_eq]
  exact beBytes_append_iff hv hw

theorem WriteGrantBody.canonicalBody_append_iff {a b : WriteGrantBody} (ha : a.Fits) (hb : b.Fits) :
    a.canonicalBody ++ r = b.canonicalBody ++ s ↔ a = b ∧ r = s := by
  cases a
  cases b
  cases ha
  cases hb
  simp_all [canonicalBody, and_assoc]

theorem SegmentReceiptBody.canonicalBody_append_iff {a b : SegmentReceiptBody} (ha : a.Fits) (hb : b.Fits) :
    a.canonicalBody ++ r = b.canonicalBody ++ s ↔ a = b ∧ r = s := by
  cases ha
  cases hb
  unfold canonicalBody
  simp only [List.append_assoc, List.append_cancel_left_eq, putU128_append_iff, putU64_append_iff,
    putGrantHash_append_iff, putMappingOwner_append_iff, putWriteGrantIntent_append_iff,
    putSegmentPayloadIntegrity_append_iff, putWriteDurability_append_iff, putProofScheme_append_iff,
    putSegmentDescriptor_append_iff, putSegmentReplicaPlacement_append_iff, *]
  cases a
  cases b
  simp only [mk.injEq, and_assoc]

theorem ReferenceEvidenceBody.canonicalBody_append_iff {a b : ReferenceEvidenceBody} (ha : a.Fits)
    (hb : b.Fits) : a.canonicalBody ++ r = b.canonicalBody ++ s ↔ a = b ∧ r = s := by
  cases a
  cases b
  cases ha
  cases hb
  simp_all [canonicalBody, and_assoc]

end

def stableMac : Mac where
  grantHash grant := (StableHash32.new.update grant.canonicalBody).finish
  grantProof keyId grant := deterministicTestProof keyId grant.canonicalBody
  receiptProof keyId receipt := deterministicTestProof keyId receipt.canonicalBody
  referenceProof keyId evidence := deterministicTestProof keyId evidence.canonicalBody

/-! ## Bodies with one byte changed

A verifier takes the key from the body that it is shown, but it also asks that the key be the
one of the storage node the body names.  One byte cannot change both. -/

@[simp] theorem length_putGrantHash (hash : Nat) : (putGrantHash hash).length = 40 := by
  unfold putGrantHash putBytes
  rw [List.length_append, length_beBytes, Durable.length_putU64]

@[simp] theorem length_putMappingOwner (owner : MappingOwner) : (putMappingOwner owner).length = 17 := by
  cases owner <;> simp [putMappingOwner]

@[simp] theorem length_putPayloadIntegrity (integrity : PayloadIntegrity) :
    (putPayloadIntegrity integrity).length = 1 := by
  cases integrity <;> simp [putPayloadIntegrity]

@[simp] theorem length_putWriteDurability (durability : WriteDurability) :
    (putWriteDurability durability).length = 1 := by
  cases durability <;> simp [putWriteDurability]

@[simp] theorem length_putProofScheme (scheme : ProofScheme) : (putProofScheme scheme).length = 1 := by
  cases scheme <;> simp [putProofScheme]

/-- A body that has a node and a key at fixed distances from its end. -/
def EndsIn (body : List UInt8) (node between key after : Nat) : Prop :=
  ∃ pre mid post, body = (pre ++ (putU128 node ++ mid)) ++ (putU128 key ++ post) ∧
    mid.length = between ∧ post.length = after

theorem node_or_key_of_oneApart {x y : List UInt8} {node node' key key' between after : Nat}
    (hx : EndsIn x node between key after) (hy : EndsIn y node' between key' after)
    (hnode : node < u128Bound) (hnode' : node' < u128Bound) (hkey : key < u128Bound)
    (hkey' : key' < u128Bound) (h : OneApart x y) : node = node' ∨ key = key' := by
  obtain ⟨pre, mid, post, rfl, hmid, hpost⟩ := hx
  obtain ⟨pre', mid', post', rfl, hmid', hpost'⟩ := hy
  have hlen := h.length_eq
  simp only [List.length_append, Durable.length_putU128] at hlen
  rcases h.append_cases (by simp; omega) with hfront | hback
  · have hpair := (List.append_inj' hfront (by simp [hmid, hmid'])).2
    exact .inl ((putU128_append_iff hnode hnode').1 hpair).1
  · exact .inr ((putU128_append_iff hkey hkey').1 hback).1

theorem WriteGrantBody.endsIn (grant : WriteGrantBody) :
    EndsIn grant.canonicalBody grant.storageNode 10 grant.keyId 1 := by
  obtain ⟨pre, h⟩ : ∃ pre, grant.canonicalBody = pre ++ putU128 grant.storageNode ++
      putU64 grant.maxBytes ++ putPayloadIntegrity grant.payloadIntegrity ++
      putWriteDurability grant.durability ++ putU128 grant.keyId ++ putProofScheme grant.proofScheme :=
    ⟨_, rfl⟩
  refine ⟨pre, putU64 grant.maxBytes ++ putPayloadIntegrity grant.payloadIntegrity ++
    putWriteDurability grant.durability, putProofScheme grant.proofScheme, ?_, by simp, by simp⟩
  rw [h]
  simp only [List.append_assoc]

theorem ReferenceEvidenceBody.endsIn (evidence : ReferenceEvidenceBody) :
    EndsIn evidence.canonicalBody evidence.storageNode 16 evidence.nodeKeyId 1 := by
  obtain ⟨pre, h⟩ : ∃ pre, evidence.canonicalBody = pre ++ putU128 evidence.storageNode ++
      putU64 evidence.metadataCommit ++ putU64 evidence.receiptEpoch ++ putU128 evidence.nodeKeyId ++
      putProofScheme evidence.proofScheme := ⟨_, rfl⟩
  refine ⟨pre, putU64 evidence.metadataCommit ++ putU64 evidence.receiptEpoch,
    putProofScheme evidence.proofScheme, ?_, by simp, by simp⟩
  rw [h]
  simp only [List.append_assoc]

def SegmentReceiptBody.afterNode (receipt : SegmentReceiptBody) : List UInt8 :=
  putU64 receipt.storageNodeIncarnation ++ putU128 receipt.segmentId ++ putU128 receipt.writeIntent ++
    putWriteGrantIntent receipt.intent ++ putU64 receipt.bytes ++
    putSegmentPayloadIntegrity receipt.integrity ++ putWriteDurability receipt.durability ++
    putSegmentReceiptLifecycle ++ putU64 receipt.receiptEpoch ++ putU64 receipt.expiresAt ++
    putU128 receipt.nodeKeyId ++ putProofScheme receipt.proofScheme ++
    putSegmentDescriptor receipt.descriptor ++ putSegmentReplicaPlacement receipt.placement

theorem SegmentReceiptBody.canonicalBody_eq (receipt : SegmentReceiptBody) : ∃ pre, pre.length = 136 ∧
      receipt.canonicalBody = (pre ++ putU128 receipt.storageNode) ++ receipt.afterNode := by
  refine ⟨putBytes (ascii "TCOW_SEGMENT_RECEIPT_V1") ++ putU128 receipt.tenant ++
    putU128 receipt.grantId ++ putGrantHash receipt.grantHash ++ putU128 receipt.principal ++
    putMappingOwner receipt.owner, ?_, ?_⟩
  · simp [putBytes, ascii]
  · unfold canonicalBody afterNode
    simp only [List.append_assoc]

/-- A receipt names its node at a fixed place and its key after fields of varying length, but
what follows the node can be read in one way only. -/
theorem SegmentReceiptBody.node_or_key {a b : SegmentReceiptBody} (ha : a.Fits) (hb : b.Fits)
    (h : OneApart a.canonicalBody b.canonicalBody) :
    a.storageNode = b.storageNode ∨ a.nodeKeyId = b.nodeKeyId := by
  obtain ⟨pre, hpre, hbody⟩ := a.canonicalBody_eq
  obtain ⟨pre', hpre', hbody'⟩ := b.canonicalBody_eq
  rw [hbody, hbody'] at h
  rcases h.append_cases (by simp [hpre, hpre']) with hfront | hback
  · have hnode := (List.append_inj' hfront (by simp)).2
    rw [← List.append_nil (putU128 a.storageNode), ← List.append_nil (putU128 b.storageNode)] at hnode
    exact .inl ((putU128_append_iff ha.storageNode hb.storageNode).1 hnode).1
  · refine .inr ?_
    unfold afterNode at hback
    simp only [List.append_assoc] at hback
    replace hback := ((putU64_append_iff ha.storageNodeIncarnation hb.storageNodeIncarnation).1 hback).2
    replace hback := ((putU128_append_iff ha.segmentId hb.segmentId).1 hback).2
    replace hback := ((putU128_append_iff ha.writeIntent hb.writeIntent).1 hback).2
    replace hback := ((putWriteGrantIntent_append_iff ha.intent hb.intent).1 hback).2
    replace hback := ((putU64_append_iff ha.bytes hb.bytes).1 hback).2
    replace hback := ((putSegmentPayloadIntegrity_append_iff ha.integrity hb.integrity).1 hback).2
    replace hback := (putWriteDurability_append_iff.1 hback).2
    replace hback := List.append_cancel_left hback
    replace hback := ((putU64_append_iff ha.receiptEpoch hb.receiptEpoch).1 hback).2
    replace hback := ((putU64_append_iff ha.expiresAt hb.expiresAt).1 hback).2
    exact ((putU128_append_iff ha.nodeKeyId hb.nodeKeyId).1 hback).1

/-! ## Capabilities -/

inductive Capability
  | writeGrant (grant : WriteGrantBody)
  | segmentReceipt (receipt : SegmentReceiptBody)
  | referenceEvidence (evidence : ReferenceEvidenceBody)
  deriving DecidableEq, Repr

namespace Capability

def canonicalBody : Capability → List UInt8
  | writeGrant grant => grant.canonicalBody
  | segmentReceipt receipt => receipt.canonicalBody
  | referenceEvidence evidence => evidence.canonicalBody

def keyId : Capability → Nat
  | writeGrant grant => grant.keyId
  | segmentReceipt receipt => receipt.nodeKeyId
  | referenceEvidence evidence => evidence.nodeKeyId

def storageNode : Capability → Nat
  | writeGrant grant => grant.storageNode
  | segmentReceipt receipt => receipt.storageNode
  | referenceEvidence evidence => evidence.storageNode

def Fits : Capability → Prop
  | writeGrant grant => grant.Fits
  | segmentReceipt receipt => receipt.Fits
  | referenceEvidence evidence => evidence.Fits

/-- The verifier of its kind takes the capability with this proof. -/
def Accepted : Capability → Nat → Prop
  | writeGrant grant, proof => ∃ storageNode segmentId bytes hash,
      stableMac.verifyWriteGrantAndHash ⟨grant, proof⟩ storageNode segmentId bytes = .ok hash
  | segmentReceipt receipt, proof => stableMac.verifySegmentReceipt ⟨receipt, proof⟩ = .ok ()
  | referenceEvidence evidence, proof => ∃ segmentId storageNode,
      stableMac.verifyReferenceEvidence ⟨evidence, proof⟩ segmentId storageNode = .ok ()

def tag : Capability → List UInt8
  | writeGrant _ => ascii "TCOW_WRITE_GRANT_V1"
  | segmentReceipt _ => ascii "TCOW_SEGMENT_RECEIPT_V1"
  | referenceEvidence _ => ascii "TCOW_REFERENCE_EVIDENCE_V1"

theorem canonicalBody_eq (c : Capability) : ∃ fields, c.canonicalBody = putU64 c.tag.length ++ (c.tag ++ fields) := by
  cases c with
  | writeGrant grant =>
    unfold canonicalBody WriteGrantBody.canonicalBody putBytes
    simp only [List.append_assoc]
    exact ⟨_, rfl⟩
  | segmentReceipt receipt =>
    unfold canonicalBody SegmentReceiptBody.canonicalBody putBytes
    simp only [List.append_assoc]
    exact ⟨_, rfl⟩
  | referenceEvidence evidence =>
    unfold canonicalBody ReferenceEvidenceBody.canonicalBody putBytes
    simp only [List.append_assoc]
    exact ⟨_, rfl⟩

variable {c d : Capability} {proof : Nat}

theorem tag_eq_of_length (h : c.tag.length = d.tag.length) : c.tag = d.tag := by
  have hgrant : (ascii "TCOW_WRITE_GRANT_V1").length = 19 := by decide
  have hreceipt : (ascii "TCOW_SEGMENT_RECEIPT_V1").length = 23 := by decide
  have hevidence : (ascii "TCOW_REFERENCE_EVIDENCE_V1").length = 26 := by decide
  cases c <;> cases d <;> simp_all [tag]

theorem tag_eq_of_take (h : c.tag.take 6 = d.tag.take 6) : c.tag = d.tag := by
  have hgrant : (ascii "TCOW_WRITE_GRANT_V1").take 6 = ascii "TCOW_W" := by decide
  have hreceipt : (ascii "TCOW_SEGMENT_RECEIPT_V1").take 6 = ascii "TCOW_S" := by decide
  have hevidence : (ascii "TCOW_REFERENCE_EVIDENCE_V1").take 6 = ascii "TCOW_R" := by decide
  cases c <;> cases d <;> simp only [tag, hgrant, hreceipt, hevidence] at h ⊢ <;>
    exact absurd h (by decide)

theorem length_tag_lt (c : Capability) : 6 ≤ c.tag.length ∧ c.tag.length < u64Bound := by
  cases c <;> simp only [tag] <;> decide

theorem tag_eq_of_canonicalBody_eq (h : c.canonicalBody = d.canonicalBody) : c.tag = d.tag := by
  obtain ⟨x, hx⟩ := c.canonicalBody_eq
  obtain ⟨y, hy⟩ := d.canonicalBody_eq
  rw [hx, hy, putU64_append_iff c.length_tag_lt.2 d.length_tag_lt.2] at h
  exact tag_eq_of_length h.1

theorem tag_eq_of_oneApart (h : OneApart c.canonicalBody d.canonicalBody) : c.tag = d.tag := by
  obtain ⟨x, hx⟩ := c.canonicalBody_eq
  obtain ⟨y, hy⟩ := d.canonicalBody_eq
  rw [hx, hy] at h
  rcases h.append_cases (by simp) with hlength | hrest
  · rw [← List.append_nil (putU64 c.tag.length), ← List.append_nil (putU64 d.tag.length),
      putU64_append_iff c.length_tag_lt.2 d.length_tag_lt.2] at hlength
    exact tag_eq_of_length hlength.1
  · have htake := congrArg (List.take 6) hrest
    rw [List.take_append_of_le_length c.length_tag_lt.1,
      List.take_append_of_le_length d.length_tag_lt.1] at htake
    exact tag_eq_of_take htake

theorem canonicalBody_inj (hc : c.Fits) (hd : d.Fits) (h : c.canonicalBody = d.canonicalBody) : c = d := by
  have htag := congrArg List.length (tag_eq_of_canonicalBody_eq h)
  have happend : c.canonicalBody ++ [] = d.canonicalBody ++ [] := by rw [h]
  cases c <;> cases d <;> first
    | exact absurd htag (by simp only [tag]; decide)
    | skip
  · rw [((WriteGrantBody.canonicalBody_append_iff hc hd).1 happend).1]
  · rw [((SegmentReceiptBody.canonicalBody_append_iff hc hd).1 happend).1]
  · rw [((ReferenceEvidenceBody.canonicalBody_append_iff hc hd).1 happend).1]

theorem node_or_key (hc : c.Fits) (hd : d.Fits) (h : OneApart c.canonicalBody d.canonicalBody) :
    c.storageNode = d.storageNode ∨ c.keyId = d.keyId := by
  have htag := congrArg List.length (tag_eq_of_oneApart h)
  cases c <;> cases d <;> first
    | exact absurd htag (by simp only [tag]; decide)
    | skip
  case writeGrant.writeGrant a b =>
    exact node_or_key_of_oneApart a.endsIn b.endsIn hc.storageNode hd.storageNode hc.keyId hd.keyId h
  case segmentReceipt.segmentReceipt => exact SegmentReceiptBody.node_or_key hc hd h
  case referenceEvidence.referenceEvidence a b =>
    exact node_or_key_of_oneApart a.endsIn b.endsIn hc.storageNode hd.storageNode hc.nodeKeyId hd.nodeKeyId h

/-- What every verifier asks for: the key of the node that is named, and the proof under it. -/
theorem Accepted.key_and_proof (h : Accepted c proof) :
    c.keyId = c.storageNode ∧ proof = deterministicTestProof c.keyId c.canonicalBody := by
  cases c with
  | writeGrant grant =>
    obtain ⟨storageNode, segmentId, bytes, hash, h⟩ := h
    exact Mac.verifyWriteGrantAndHash_proof h
  | segmentReceipt receipt => exact Mac.verifySegmentReceipt_proof h
  | referenceEvidence evidence =>
    obtain ⟨segmentId, storageNode, h⟩ := h
    exact Mac.verifyReferenceEvidence_proof h

/-- Canonical bodies determine the capability, its kind included, and a byte changed in the body
of an accepted one is noticed: no body one byte away has the same proof under its key, and no
capability with such a body is accepted with the old proof. -/
theorem canonicalBody_unambiguous {c d : Capability} (hc : c.Fits) (hd : d.Fits) :
    (c.canonicalBody = d.canonicalBody → c = d) ∧
      ∀ proof, c.Accepted proof →
        (∀ body, OneApart c.canonicalBody body → deterministicTestProof c.keyId body ≠ proof) ∧
        (OneApart c.canonicalBody d.canonicalBody → ¬ d.Accepted proof) := by
  refine ⟨canonicalBody_inj hc hd, fun proof haccepted => ?_⟩
  obtain ⟨hkey, hproof⟩ := haccepted.key_and_proof
  have htamper : ∀ body, OneApart c.canonicalBody body → deterministicTestProof c.keyId body ≠ proof := by
    intro body hbody heq
    rw [hproof] at heq
    exact deterministicTestProof_ne_of_oneApart hbody c.keyId heq.symm
  refine ⟨htamper, fun hone haccepted' => ?_⟩
  obtain ⟨hkey', hproof'⟩ := haccepted'.key_and_proof
  have hkeys : d.keyId = c.keyId := by
    rcases node_or_key hc hd hone with hnode | hkeys
    · rw [hkey, hkey', hnode]
    · exact hkeys.symm
  rw [hkeys] at hproof'
  exact htamper _ hone hproof'.symm

def sampleGrant (tenant : Nat) : WriteGrantBody where
  tenant := tenant
  principal := 1
  grantId := 5
  nonce := 5
  grantEpoch := 1
  expiresAt := 9
  owner := .blockDevice 3
  intent := .blockWrite 3 ⟨0, 1⟩ 1 0 7
  writeIntent := 2
  segmentId := 5
  storageNode := 4
  maxBytes := 4096
  payloadIntegrity := .verified
  durability := .acknowledged
  keyId := 4
  proofScheme := .deterministicTestMacV1

theorem sampleGrant_fits {tenant : Nat} (h : tenant < u128Bound) : (sampleGrant tenant).Fits := by
  constructor <;> first | exact h | (simp only [sampleGrant, MappingOwnerFits, WriteGrantIntentFits]; decide)

theorem sampleGrant_tampered :
    let proof := deterministicTestProof 4 (sampleGrant 1).canonicalBody
    (writeGrant (sampleGrant 1)).Accepted proof ∧ ¬ (writeGrant (sampleGrant 2)).Accepted proof := by
  intro proof
  have haccepted : (writeGrant (sampleGrant 1)).Accepted proof := by
    refine ⟨4, 5, 4096, stableMac.grantHash (sampleGrant 1), ?_⟩
    have hproof : verifyExpectedProof (stableMac.grantProof 4 (sampleGrant 1)) proof = .ok () :=
      failIf_eq_ok.2 (not_not.2 rfl)
    simp only [Mac.verifyWriteGrantAndHash, sampleGrant] at hproof ⊢
    rw [hproof]
    rfl
  have hone : OneApart (sampleGrant 1).canonicalBody (sampleGrant 2).canonicalBody :=
    ⟨(sampleGrant 1).canonicalBody.take 42, 1, 2, (sampleGrant 1).canonicalBody.drop 43, by decide,
      by decide +kernel, by decide +kernel⟩
  have h := canonicalBody_unambiguous (c := writeGrant (sampleGrant 1)) (d := writeGrant (sampleGrant 2))
    (sampleGrant_fits (by decide)) (sampleGrant_fits (by decide))
  exact ⟨haccepted, (h.2 proof haccepted).2 hone⟩

end Capability

end CowStore.Node
