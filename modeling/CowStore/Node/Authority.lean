import CowStore.Local.Metadata

/-!
# Grants and receipts

A write to a storage node needs a grant, and a segment that was written has a receipt.  Both
carry a proof over everything else in them; the hash functions behind the proofs are
parameters.  What matters to a storage node: a receipt that was made for a verified grant
passes its own verification later.
-/

namespace CowStore.Node

open Lib Object Local StorageError

inductive ProofScheme
  | deterministicTestMacV1
  | nodeSignatureV1
  deriving DecidableEq, Repr

inductive WriteGrantIntent
  | blockWrite (deviceId : Nat) (range : BlockRange) (fence shardId oldRoot : Nat)
  | nativeWrite (keyspaceId fileId : Nat) (range : ByteRange) (baseVersion : Nat)
  | nativeAppendStream (keyspaceId fileId streamId ticketId appendOffset bytes writerEpoch : Nat)
  | internal (owner : MappingOwner)
  deriving DecidableEq, Repr

def WriteGrantIntent.owner : WriteGrantIntent → MappingOwner
  | blockWrite deviceId _ _ _ _ => .blockDevice deviceId
  | nativeWrite keyspaceId _ _ _ => .nativeKeyspace keyspaceId
  | nativeAppendStream keyspaceId _ _ _ _ _ _ => .nativeKeyspace keyspaceId
  | internal owner => owner

structure WriteGrantBody where
  tenant : Nat
  principal : Nat
  grantId : Nat
  nonce : Nat
  grantEpoch : Nat
  expiresAt : Nat
  owner : MappingOwner
  intent : WriteGrantIntent
  writeIntent : Nat
  segmentId : Nat
  storageNode : Nat
  maxBytes : Nat
  payloadIntegrity : PayloadIntegrity
  durability : WriteDurability
  keyId : Nat
  proofScheme : ProofScheme
  deriving DecidableEq, Repr

structure WriteGrant extends WriteGrantBody where
  proof : Nat
  deriving DecidableEq, Repr

structure SegmentReplicaPlacement where
  segmentId : Nat
  storageNode : Nat
  offset : Nat
  bytes : Nat
  deriving DecidableEq, Repr

/-- A receipt without its proof; the state that it promises is always durable, pending
metadata. -/
structure SegmentReceiptBody where
  tenant : Nat
  grantId : Nat
  grantHash : Nat
  principal : Nat
  owner : MappingOwner
  storageNode : Nat
  storageNodeIncarnation : Nat
  segmentId : Nat
  writeIntent : Nat
  intent : WriteGrantIntent
  bytes : Nat
  integrity : SegmentPayloadIntegrity
  durability : WriteDurability
  receiptEpoch : Nat
  expiresAt : Nat
  nodeKeyId : Nat
  proofScheme : ProofScheme
  descriptor : SegmentDescriptor
  placement : SegmentReplicaPlacement
  deriving DecidableEq, Repr

structure SegmentWriteReceipt extends SegmentReceiptBody where
  proof : Nat
  deriving DecidableEq, Repr

structure ReferenceEvidenceBody where
  tenant : Nat
  principal : Nat
  owner : MappingOwner
  grantId : Nat
  segmentId : Nat
  storageNode : Nat
  metadataCommit : Nat
  receiptEpoch : Nat
  nodeKeyId : Nat
  proofScheme : ProofScheme
  deriving DecidableEq, Repr

structure ReferenceEvidence extends ReferenceEvidenceBody where
  proof : Nat
  deriving DecidableEq, Repr

structure Mac where
  grantHash : WriteGrantBody → Nat
  grantProof : Nat → WriteGrantBody → Nat
  receiptProof : Nat → SegmentReceiptBody → Nat
  referenceProof : Nat → ReferenceEvidenceBody → Nat

def localGrantEpoch : Nat := 1

def nodeKeyId (storageNode : Nat) : Nat := storageNode

def verifyNotExpired (expiresAt : Nat) : Result Unit :=
  failIf (expiresAt < localGrantEpoch) (unavailable "write grant expired")

def verifyExpectedProof (expected proof : Nat) : Result Unit :=
  failIf (proof ≠ expected) (conflict "proof verification failed")

namespace Mac

variable (mac : Mac)

def verifyWriteGrantAndHash (grant : WriteGrant) (storageNode segmentId bytes : Nat) : Result Nat := do
  verifyNotExpired grant.expiresAt
  failIf (grant.grantEpoch ≠ localGrantEpoch)
    (conflict "write grant epoch does not match verifier epoch")
  failIf (grant.owner ≠ grant.intent.owner) (conflict "write grant owner does not match intent")
  failIf (grant.maxBytes = 0) (invalidArgument "write grant must authorize at least one byte")
  failIf (grant.proofScheme ≠ .deterministicTestMacV1)
    (unsupported "local grant verifier supports only deterministic test proofs")
  failIf (grant.keyId ≠ nodeKeyId grant.storageNode) (conflict "grant key does not match storage node")
  verifyExpectedProof (mac.grantProof grant.keyId grant.toWriteGrantBody) grant.proof
  failIf (grant.storageNode ≠ storageNode) (conflict "write grant storage node does not match request")
  failIf (grant.segmentId ≠ segmentId) (conflict "write grant segment ID does not match request")
  failIf (bytes ≠ grant.maxBytes)
    (invalidArgument "write grant byte count does not match granted segment length")
  return mac.grantHash grant.toWriteGrantBody

def verifySegmentReceipt (receipt : SegmentWriteReceipt) : Result Unit := do
  verifyNotExpired receipt.expiresAt
  failIf (receipt.receiptEpoch ≠ localGrantEpoch) (conflict "receipt epoch does not match verifier epoch")
  failIf (receipt.owner ≠ receipt.intent.owner) (conflict "receipt owner does not match intent")
  failIf (receipt.bytes = 0) (invalidArgument "receipt must describe at least one byte")
  failIf (receipt.proofScheme ≠ .deterministicTestMacV1)
    (unsupported "local receipt verifier supports only deterministic test proofs")
  failIf (receipt.nodeKeyId ≠ nodeKeyId receipt.storageNode)
    (conflict "receipt key does not match storage node")
  verifyExpectedProof (mac.receiptProof receipt.nodeKeyId receipt.toSegmentReceiptBody) receipt.proof
  failIf (receipt.segmentId ≠ receipt.descriptor.segmentId ∨
      receipt.segmentId ≠ receipt.placement.segmentId)
    (conflict "receipt segment IDs do not match descriptor and placement")
  failIf (receipt.storageNode ≠ receipt.placement.storageNode)
    (conflict "receipt storage node does not match placement")
  failIf (receipt.bytes ≠ receipt.descriptor.bytes ∨ receipt.bytes ≠ receipt.placement.bytes)
    (conflict "receipt byte count does not match descriptor and placement")
  failIf (receipt.integrity ≠ receipt.descriptor.integrity)
    (conflict "receipt payload integrity does not match descriptor")

def verifyReferenceEvidence (evidence : ReferenceEvidence) (segmentId storageNode : Nat) : Result Unit := do
  failIf (evidence.proofScheme ≠ .deterministicTestMacV1)
    (unsupported "local reference verifier supports only deterministic test proofs")
  failIf (evidence.segmentId ≠ segmentId)
    (conflict "reference evidence segment ID does not match request")
  failIf (evidence.storageNode ≠ storageNode)
    (conflict "reference evidence storage node does not match request")
  failIf (evidence.nodeKeyId ≠ nodeKeyId storageNode)
    (conflict "reference evidence key does not match storage node")
  verifyExpectedProof (mac.referenceProof evidence.nodeKeyId evidence.toReferenceEvidenceBody) evidence.proof

/-! ## Receipts that verify -/

variable {mac} {grant : WriteGrant} {storageNode segmentId bytes hash : Nat}

/-! A verified capability carries the proof of its body under the key of the node it names. -/

theorem verifyWriteGrantAndHash_proof
    (h : mac.verifyWriteGrantAndHash grant storageNode segmentId bytes = .ok hash) :
    grant.keyId = grant.storageNode ∧ grant.proof = mac.grantProof grant.keyId grant.toWriteGrantBody := by
  obtain ⟨⟨⟩, -, ⟨⟩, -, ⟨⟩, -, h⟩ := bind3_eq_ok.1 h
  obtain ⟨⟨⟩, -, ⟨⟩, -, ⟨⟩, hkey, h⟩ := bind3_eq_ok.1 h
  obtain ⟨⟨⟩, hproof, -⟩ := bind_eq_ok.1 h
  exact ⟨not_not.1 (failIf_eq_ok.1 hkey), not_not.1 (failIf_eq_ok.1 hproof)⟩

theorem verifySegmentReceipt_proof {receipt : SegmentWriteReceipt}
    (h : mac.verifySegmentReceipt receipt = .ok ()) : receipt.nodeKeyId = receipt.storageNode ∧
      receipt.proof = mac.receiptProof receipt.nodeKeyId receipt.toSegmentReceiptBody := by
  obtain ⟨⟨⟩, -, ⟨⟩, -, ⟨⟩, -, h⟩ := bind3_eq_ok.1 h
  obtain ⟨⟨⟩, -, ⟨⟩, -, ⟨⟩, hkey, h⟩ := bind3_eq_ok.1 h
  obtain ⟨⟨⟩, hproof, -⟩ := bind_eq_ok.1 h
  exact ⟨not_not.1 (failIf_eq_ok.1 hkey), not_not.1 (failIf_eq_ok.1 hproof)⟩

theorem verifyReferenceEvidence_proof {evidence : ReferenceEvidence}
    (h : mac.verifyReferenceEvidence evidence segmentId storageNode = .ok ()) :
    evidence.nodeKeyId = evidence.storageNode ∧
      evidence.proof = mac.referenceProof evidence.nodeKeyId evidence.toReferenceEvidenceBody := by
  obtain ⟨⟨⟩, -, ⟨⟩, -, ⟨⟩, hnode, h⟩ := bind3_eq_ok.1 h
  obtain ⟨⟨⟩, hkey, hproof⟩ := bind_eq_ok.1 h
  have hnode : evidence.storageNode = storageNode := not_not.1 (failIf_eq_ok.1 hnode)
  have hkey : evidence.nodeKeyId = storageNode := not_not.1 (failIf_eq_ok.1 hkey)
  exact ⟨hkey.trans hnode.symm, not_not.1 (failIf_eq_ok.1 hproof)⟩

end Mac

end CowStore.Node
