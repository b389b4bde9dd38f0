import CowStore.Lib.Bytes
import CowStore.Lib.Prog
import CowStore.Lib.Table
import CowStore.Object.Node

/-!
# Segments

The bytes of writes are kept in segments.  A segment is reserved in the catalog of a
storage node, written and synced in its store, and committed with a receipt; from then
on neither the receipt nor the bytes change.  The catalogs and the stores of all nodes
are one table each here, since a segment identifier is given out once for all nodes.
-/

namespace CowStore.Local

open Lib Object StorageError

inductive PayloadIntegrity
  | verified
  | unchecked
  deriving DecidableEq, Repr

inductive ReadVerification
  | default
  | requireVerified
  | skip
  deriving DecidableEq, Repr

inductive SegmentLifecycleState
  | reserved
  | writing
  | durablePendingMetadata
  | referenced
  | released
  | freed
  deriving DecidableEq, Repr

structure SegmentWriteReceipt where
  storageNode : Nat
  descriptor : SegmentDescriptor
  deriving DecidableEq, Repr

structure CatalogEntry where
  storageNode : Nat
  bytes : Nat
  state : SegmentLifecycleState
  receipt : Option SegmentWriteReceipt
  deriving DecidableEq, Repr

def CatalogEntry.Ready (entry : CatalogEntry) : Prop :=
  entry.state = .durablePendingMetadata ∨ entry.state = .referenced

structure SegmentRecord where
  bytes : List UInt8
  synced : Bool
  descriptor : SegmentDescriptor
  deriving DecidableEq, Repr

structure StorageNodes where
  nodeOrder : List Nat
  nextPlacementIndex : Nat
  nextSegmentId : Nat
  catalog : Table Nat CatalogEntry
  store : Table Nat SegmentRecord
  deriving DecidableEq

abbrev SegmentOp (α : Type) := EStateM StorageError StorageNodes α

def segmentNotFound (segmentId : Nat) : StorageError := notFound "segment" (toString segmentId)

section

-- the checksum of the `crc32c` crate
variable (crc : List UInt8 → Nat)

def segmentPayloadIntegrity (mode : PayloadIntegrity) (bytes : List UInt8) :
    SegmentPayloadIntegrity :=
  match mode with
  | .verified => .crc32c (crc bytes)
  | .unchecked => .unchecked

def verifySegmentPayloadIntegrity (integrity : SegmentPayloadIntegrity) (bytes : List UInt8) :
    Result Unit :=
  match integrity with
  | .crc32c expected =>
    failIf (crc bytes ≠ expected) (corrupt "segment payload checksum mismatch")
  | .unchecked => return ()

def Tagged (integrity : SegmentPayloadIntegrity) (bytes : List UInt8) : Prop :=
  ∀ sum, integrity = .crc32c sum → sum = crc bytes

theorem tagged_segmentPayloadIntegrity (mode : PayloadIntegrity) (bytes : List UInt8) :
    Tagged crc (segmentPayloadIntegrity crc mode bytes) bytes := by
  rintro sum h
  cases mode <;> cases h
  rfl

variable {crc} in
theorem Tagged.verify {integrity : SegmentPayloadIntegrity} {bytes : List UInt8}
    (h : Tagged crc integrity bytes) : verifySegmentPayloadIntegrity crc integrity bytes = .ok () := by
  cases integrity with
  | unchecked => rfl
  | crc32c sum => rw [verifySegmentPayloadIntegrity, h sum rfl, failIf, if_neg (not_not.2 rfl)]

def verifyReadIntegrityPolicy (integrity : SegmentPayloadIntegrity)
    (verification : ReadVerification) : Result Unit :=
  failIf (integrity = .unchecked ∧ verification = .requireVerified)
    (conflict "read requires verified payload but source is unchecked")

/-! ## Writing -/

def chooseStorageNode : SegmentOp Nat := do
  let s ← get
  let node ← orFail s.nodeOrder[s.nextPlacementIndex % s.nodeOrder.length]?
    (invalidArgument "placement policy requires at least one storage node")
  failIf (s.nextPlacementIndex + 1 ≥ u64Bound) (conflict "placement index overflow")
  set { s with nextPlacementIndex := s.nextPlacementIndex + 1 }
  return node

def allocateSegmentId : SegmentOp Nat := do
  let s ← get
  failIf (s.nextSegmentId + 1 ≥ u64Bound) (conflict "segment id overflow")
  set { s with nextSegmentId := s.nextSegmentId + 1 }
  return s.nextSegmentId

def reserveSegmentWithId (storageNode segmentId bytes : Nat) : SegmentOp Unit := do
  failIf (bytes = 0) (invalidArgument "segment reservation must contain bytes")
  let s ← get
  failIf (s.catalog.lookup segmentId ≠ none) (conflict "segment ID already exists")
  set { s with catalog := s.catalog.insert segmentId ⟨storageNode, bytes, .reserved, none⟩ }

def beginWrite (segmentId : Nat) : SegmentOp Unit := do
  let s ← get
  let entry ← orFail (s.catalog.lookup segmentId) (segmentNotFound segmentId)
  failIf (entry.state ≠ .reserved ∧ entry.state ≠ .writing)
    (conflict "segment write can only begin from Reserved state")
  set { s with catalog := s.catalog.insert segmentId { entry with state := .writing } }

/-- The payload in the store of the node, under its integrity. -/
def writeSegmentOwned (blockSize segmentId : Nat) (bytes : List UInt8) (mode : PayloadIntegrity) :
    SegmentOp SegmentDescriptor := do
  failIf (bytes = []) (invalidArgument "segment write must contain bytes")
  failIf (bytes.length % blockSize ≠ 0)
    (invalidArgument "segment write length must be block aligned")
  let s ← get
  failIf (s.store.lookup segmentId ≠ none)
    (conflict "segment ID already exists with different bytes")
  let descriptor : SegmentDescriptor :=
    ⟨segmentId, bytes.length / blockSize, bytes.length, segmentPayloadIntegrity crc mode bytes⟩
  set { s with store := s.store.insert segmentId ⟨bytes, false, descriptor⟩ }
  return descriptor

def syncSegment (segmentId : Nat) : SegmentOp Unit := do
  let s ← get
  let record ← orFail (s.store.lookup segmentId) (segmentNotFound segmentId)
  set { s with store := s.store.insert segmentId { record with synced := true } }

def commitSegment (receipt : SegmentWriteReceipt) : SegmentOp Unit := do
  let s ← get
  let segmentId := receipt.descriptor.segmentId
  let entry ← orFail (s.catalog.lookup segmentId) (segmentNotFound segmentId)
  failIf (receipt.storageNode ≠ entry.storageNode)
    (invalidArgument "segment receipt storage node does not match local catalog")
  failIf (receipt.descriptor.bytes ≠ entry.bytes)
    (invalidArgument "segment receipt bytes must match reservation")
  failIf (entry.state ≠ .writing) (conflict "segment receipt requires Writing state")
  set { s with
    catalog := s.catalog.insert segmentId
      { entry with receipt := some receipt, state := .durablePendingMetadata } }

/-- A new segment with the given bytes, on the storage node whose turn it is. -/
def writeSegment (blockSize : Nat) (bytes : List UInt8) (mode : PayloadIntegrity) :
    SegmentOp SegmentWriteReceipt := do
  failIf (bytes.length ≥ u64Bound)
    (invalidArgument "segment reservation byte length overflows u64")
  let storageNode ← chooseStorageNode
  let segmentId ← allocateSegmentId
  failIf (bytes.length = 0) (invalidArgument "write grant must authorize at least one byte")
  reserveSegmentWithId storageNode segmentId bytes.length
  beginWrite segmentId
  let descriptor ← writeSegmentOwned crc blockSize segmentId bytes mode
  syncSegment segmentId
  let receipt : SegmentWriteReceipt := ⟨storageNode, descriptor⟩
  commitSegment receipt
  return receipt

def markSegmentReferenced (segmentId : Nat) : SegmentOp Unit := do
  let s ← get
  let entry ← orFail (s.catalog.lookup segmentId) (segmentNotFound segmentId)
  failIf (entry.state ≠ .durablePendingMetadata ∧ entry.state ≠ .referenced)
    (conflict "segment can be referenced only from DurablePendingMetadata state")
  set { s with catalog := s.catalog.insert segmentId { entry with state := .referenced } }

/-! ## Reading -/

namespace StorageNodes

variable (s : StorageNodes)

def receiptForSegment (segmentId : Nat) : Result SegmentWriteReceipt := do
  let entry ← orFail (s.catalog.lookup segmentId) (segmentNotFound segmentId)
  orFail entry.receipt (unavailable "segment has no durable receipt")

def verifySegmentPayloadForRead (segmentId : Nat) (verification : ReadVerification) :
    Result Unit := do
  if verification = .skip then
    return ()
  else
    let record ← orFail (s.store.lookup segmentId) (segmentNotFound segmentId)
    failIf (record.descriptor.integrity = .unchecked ∧ verification = .requireVerified)
      (conflict "read requires verified payload but segment is unchecked")
    verifySegmentPayloadIntegrity crc record.descriptor.integrity record.bytes

def readSegment (segmentId : Nat) (range : ByteRange) : Result (List UInt8) := do
  let record ← orFail (s.store.lookup segmentId) (segmentNotFound segmentId)
  failIf (¬ record.synced) (unavailable "segment is not synced")
  let stop ← range.endExclusive
  failIf (stop > record.bytes.length)
    (invalidArgument "segment read extends past end of segment")
  return slice record.bytes range.offset range.len

def readSegmentWithIntegrity (storageNode segmentId : Nat) (range : ByteRange)
    (integrity : SegmentPayloadIntegrity) (verification : ReadVerification) :
    Result (List UInt8) := do
  let entry ← orFail ((s.catalog.lookup segmentId).filter (·.storageNode = storageNode))
    (segmentNotFound segmentId)
  let receipt ← orFail entry.receipt (unavailable "segment has no durable receipt")
  failIf (receipt.storageNode ≠ storageNode ∨ receipt.descriptor.segmentId ≠ segmentId ∨
      receipt.descriptor.integrity ≠ integrity)
    (corrupt "read plan segment source disagrees with storage-node catalog")
  verifyReadIntegrityPolicy integrity verification
  s.verifySegmentPayloadForRead crc segmentId verification
  s.readSegment segmentId range

end StorageNodes

/-- Bytes of an append log, by storage node and log number. -/
abbrev AppendRunLogs := Table (Nat × Nat) (List UInt8)

def readAppendRunSource (logs : AppendRunLogs) (storageNode logId : Nat) (range : ByteRange)
    (integrity : SegmentPayloadIntegrity) (verification : ReadVerification) :
    Result (List UInt8) := do
  verifyReadIntegrityPolicy integrity verification
  let log ← orFail (logs.lookup (storageNode, logId))
    (corrupt "append-run log is missing from local store")
  failIf (range.offset + range.len > log.length) (corrupt "append-run range exceeds local log")
  let bytes := slice log range.offset range.len
  if verification = .skip then
    return bytes
  else
    verifySegmentPayloadIntegrity crc integrity bytes
    return bytes

/-! ## What stays of a segment -/

namespace StorageNodes

def Fresh (s : StorageNodes) : Prop :=
  ∀ id, s.nextSegmentId ≤ id → s.catalog.lookup id = none ∧ s.store.lookup id = none

/-- The segment `id` was committed with `receipt` and holds `bytes`. -/
structure Committed (s : StorageNodes) (id : Nat) (receipt : SegmentWriteReceipt)
    (bytes : List UInt8) : Prop where
  catalog : ∃ entry, s.catalog.lookup id = some entry ∧ entry.storageNode = receipt.storageNode ∧
    entry.receipt = some receipt
  store : s.store.lookup id = some ⟨bytes, true, receipt.descriptor⟩
  id_eq : receipt.descriptor.segmentId = id
  bytes_eq : receipt.descriptor.bytes = bytes.length
  length_lt : bytes.length < u64Bound
  integrity : ∃ mode, receipt.descriptor.integrity = segmentPayloadIntegrity crc mode bytes

def Ready (s : StorageNodes) (id : Nat) : Prop :=
  ∃ entry, s.catalog.lookup id = some entry ∧ entry.Ready

/-- Every segment of `s` is one of `s'`. -/
structure Grows (s s' : StorageNodes) : Prop where
  committed : ∀ {id receipt bytes}, s.Committed crc id receipt bytes →
    s'.Committed crc id receipt bytes
  ready : ∀ {id}, s.Ready id → s'.Ready id
  next : s.nextSegmentId ≤ s'.nextSegmentId
  fresh : s.Fresh → s'.Fresh

instance : Std.Refl (Grows crc) := ⟨fun _ => ⟨id, id, le_rfl, id⟩⟩

instance : IsTrans StorageNodes (Grows crc) :=
  ⟨fun _ _ _ h h' => ⟨h'.committed ∘ h.committed, h'.ready ∘ h.ready, h.next.trans h'.next,
    h'.fresh ∘ h.fresh⟩⟩

variable {crc} {s : StorageNodes}

variable {bytes : List UInt8} {receipt : SegmentWriteReceipt}

theorem Committed.unique {id : Nat} {receipt' : SegmentWriteReceipt} {bytes' : List UInt8}
    (h : s.Committed crc id receipt bytes) (h' : s.Committed crc id receipt' bytes') :
    receipt = receipt' ∧ bytes = bytes' := by
  obtain ⟨entry, hentry, -, hreceipt⟩ := h.catalog
  obtain ⟨entry', hentry', -, hreceipt'⟩ := h'.catalog
  cases hentry.symm.trans hentry'
  cases hreceipt.symm.trans hreceipt'
  cases h.store.symm.trans h'.store
  exact ⟨rfl, rfl⟩

/-- A read of a committed segment, unless only verified payloads may be read. -/
theorem Committed.read {id : Nat} (h : s.Committed crc id receipt bytes)
    (verification : ReadVerification) (range : ByteRange) (hrange : range.stop ≤ bytes.length) :
    s.readSegmentWithIntegrity crc receipt.storageNode id range receipt.descriptor.integrity
        verification = .ok (slice bytes range.offset range.len) ∨
      verification = .requireVerified ∧ ∃ err, s.readSegmentWithIntegrity crc receipt.storageNode id
        range receipt.descriptor.integrity verification = .error err := by
  obtain ⟨entry, hentry, hnode, hreceipt⟩ := h.catalog
  have hstop : range.stop < u64Bound := hrange.trans_lt h.length_lt
  have hfilter : (s.catalog.lookup id).filter (fun e => e.storageNode = receipt.storageNode) =
      some entry := by simp [hentry, hnode]
  rw [readSegmentWithIntegrity, hfilter]
  simp only [orFail, ok_bind, hreceipt]
  rw [failIf, if_neg (by simp [h.id_eq]), ok_bind]
  by_cases hpolicy : receipt.descriptor.integrity = .unchecked ∧ verification = .requireVerified
  · refine .inr ⟨hpolicy.2, conflict "read requires verified payload but source is unchecked", ?_⟩
    rw [verifyReadIntegrityPolicy, failIf, if_pos hpolicy]
    rfl
  · refine .inl ?_
    have hsum : verifySegmentPayloadIntegrity crc receipt.descriptor.integrity bytes = .ok () := by
      obtain ⟨mode, hmode⟩ := h.integrity
      rw [hmode]
      exact (tagged_segmentPayloadIntegrity crc mode bytes).verify
    have hverify : s.verifySegmentPayloadForRead crc id verification = .ok () := by
      rw [verifySegmentPayloadForRead]
      split
      · rfl
      · rw [h.store]
        simp only [orFail, ok_bind]
        rw [failIf, if_neg hpolicy, ok_bind, hsum]
    rw [verifyReadIntegrityPolicy, failIf, if_neg hpolicy, ok_bind, hverify, ok_bind, readSegment,
      h.store]
    simp only [orFail, ok_bind]
    rw [failIf, if_neg (by simp), ok_bind, ByteRange.endExclusive_eq_ok.2 ⟨hstop, rfl⟩, ok_bind,
      failIf, if_neg (by omega)]
    rfl

theorem Committed.receiptForSegment {id : Nat} (h : s.Committed crc id receipt bytes) :
    s.receiptForSegment id = .ok receipt := by
  obtain ⟨entry, hentry, -, hreceipt⟩ := h.catalog
  rw [StorageNodes.receiptForSegment, hentry]
  simp [orFail, hreceipt]

theorem grows_catalog {id : Nat} {entry : CatalogEntry} (hid : id < s.nextSegmentId)
    (h : ∀ old, s.catalog.lookup id = some old → old.receipt ≠ none →
      entry.storageNode = old.storageNode ∧ entry.receipt = old.receipt)
    (hready : ∀ old, s.catalog.lookup id = some old → old.Ready → entry.Ready) :
    Grows crc s { s with catalog := s.catalog.insert id entry } where
  committed {id' receipt bytes} hc := by
    refine ⟨?_, hc.store, hc.id_eq, hc.bytes_eq, hc.length_lt, hc.integrity⟩
    obtain ⟨old, hold, hnode, hreceipt⟩ := hc.catalog
    by_cases heq : id' = id
    · subst heq
      obtain ⟨h1, h2⟩ := h old hold (by simp [hreceipt])
      exact ⟨entry, AList.lookup_insert _, h1.trans hnode, h2.trans hreceipt⟩
    · exact ⟨old, by rw [AList.lookup_insert_ne heq]; exact hold, hnode, hreceipt⟩
  ready := by
    rintro id' ⟨old, hold, hr⟩
    by_cases heq : id' = id
    · subst heq
      exact ⟨entry, AList.lookup_insert _, hready old hold hr⟩
    · exact ⟨old, by rw [AList.lookup_insert_ne heq]; exact hold, hr⟩
  next := le_rfl
  fresh hs id' hle := by
    have hlt : s.nextSegmentId ≤ id' := hle
    exact ⟨by rw [AList.lookup_insert_ne (by omega)]; exact (hs id' hle).1, (hs id' hle).2⟩

theorem grows_store {id : Nat} {record : SegmentRecord} (hid : id < s.nextSegmentId)
    (h : ∀ old, s.store.lookup id = some old → record = { old with synced := true }) :
    Grows crc s { s with store := s.store.insert id record } where
  committed {id' receipt bytes} hc := by
    refine ⟨hc.catalog, ?_, hc.id_eq, hc.bytes_eq, hc.length_lt, hc.integrity⟩
    by_cases heq : id' = id
    · subst heq
      rw [AList.lookup_insert, h _ hc.store]
    · rw [AList.lookup_insert_ne heq]
      exact hc.store
  ready h := h
  next := le_rfl
  fresh hs id' hle := by
    have hlt : s.nextSegmentId ≤ id' := hle
    exact ⟨(hs id' hle).1, by rw [AList.lookup_insert_ne (by omega)]; exact (hs id' hle).2⟩

/-! ## Intact segments -/

section

variable (crc) (blockSize : Nat)

/-- The descriptor is that of a segment which holds all of its blocks. -/
def Known (s : StorageNodes) (d : SegmentDescriptor) : Prop :=
  ∃ receipt bytes, s.Committed crc d.segmentId receipt bytes ∧ receipt.descriptor = d ∧
    d.blocks * blockSize ≤ bytes.length

/-- Every payload has its own checksum, and every receipt is that of a committed segment. -/
structure Intact (s : StorageNodes) : Prop where
  fresh : s.Fresh
  payloads : ∀ {id record}, s.store.lookup id = some record →
    Tagged crc record.descriptor.integrity record.bytes
  receipts : ∀ {id entry receipt}, s.catalog.lookup id = some entry →
    entry.receipt = some receipt → receipt.descriptor.segmentId = id ∧
      s.Known crc blockSize receipt.descriptor

/-- Every segment of `s` is one of `s'`, which is intact if `s` is. -/
structure Keeps (s s' : StorageNodes) : Prop extends Grows crc s s' where
  intact : s.Intact crc blockSize → s'.Intact crc blockSize

instance : Std.Refl (Keeps crc blockSize) := ⟨fun _ => ⟨refl _, id⟩⟩

instance : IsTrans StorageNodes (Keeps crc blockSize) :=
  ⟨fun _ _ _ h h' => ⟨IsTrans.trans _ _ _ h.toGrows h'.toGrows, h'.intact ∘ h.intact⟩⟩

end

variable {blockSize : Nat}

theorem Known.mono {s' : StorageNodes} {d : SegmentDescriptor} (h : s.Known crc blockSize d)
    (hgrow : s.Grows crc s') : s'.Known crc blockSize d := by
  obtain ⟨receipt, bytes, hc, hrest⟩ := h
  exact ⟨receipt, bytes, hgrow.committed hc, hrest⟩

theorem keeps_of_same {s' : StorageNodes} (hcatalog : s'.catalog = s.catalog)
    (hstore : s'.store = s.store) (hnext : s.nextSegmentId ≤ s'.nextSegmentId) :
    Keeps crc blockSize s s' := by
  have hgrow : Grows crc s s' := by
    refine ⟨fun h => ⟨by rw [hcatalog]; exact h.catalog, by rw [hstore]; exact h.store, h.id_eq,
      h.bytes_eq, h.length_lt, h.integrity⟩, fun h => ?_, hnext, fun h id hid => ?_⟩
    · rw [Ready, hcatalog]
      exact h
    · rw [hcatalog, hstore]
      exact h id (hnext.trans hid)
  refine ⟨hgrow, fun h => ⟨hgrow.fresh h.fresh, fun hid => ?_, fun hid hreceipt => ?_⟩⟩
  · rw [hstore] at hid
    exact h.payloads hid
  · rw [hcatalog] at hid
    obtain ⟨heq, hknown⟩ := h.receipts hid hreceipt
    exact ⟨heq, hknown.mono hgrow⟩

theorem keeps_catalog {id : Nat} {entry : CatalogEntry}
    (hgrow : Grows crc s { s with catalog := s.catalog.insert id entry })
    (h : ∀ receipt, entry.receipt = some receipt →
      (∃ old, s.catalog.lookup id = some old ∧ old.receipt = some receipt) ∨
        receipt.descriptor.segmentId = id ∧
        Known crc blockSize { s with catalog := s.catalog.insert id entry } receipt.descriptor) :
    Keeps crc blockSize s { s with catalog := s.catalog.insert id entry } := by
  refine ⟨hgrow, fun hs => ⟨hgrow.fresh hs.fresh, hs.payloads, fun {id' other receipt} hid hreceipt => ?_⟩⟩
  have hold : ∀ {old : CatalogEntry}, s.catalog.lookup id' = some old → old.receipt = some receipt →
      receipt.descriptor.segmentId = id' ∧
        Known crc blockSize { s with catalog := s.catalog.insert id entry } receipt.descriptor :=
    fun hold hr => (hs.receipts hold hr).imp_right fun hknown => hknown.mono hgrow
  simp only [Table.lookup_insert_eq] at hid
  split at hid
  · next heq =>
    cases hid
    subst heq
    rcases h receipt hreceipt with ⟨old, h1, h2⟩ | hnew
    · exact hold h1 h2
    · exact hnew
  · exact hold hid hreceipt

theorem keeps_store {id : Nat} {record : SegmentRecord}
    (hgrow : Grows crc s { s with store := s.store.insert id record })
    (h : Tagged crc record.descriptor.integrity record.bytes) :
    Keeps crc blockSize s { s with store := s.store.insert id record } := by
  refine ⟨hgrow, fun hs => ⟨hgrow.fresh hs.fresh, fun {id' other} hid => ?_, fun hid hreceipt =>
    (hs.receipts hid hreceipt).imp_right fun hknown => hknown.mono hgrow⟩⟩
  simp only [Table.lookup_insert_eq] at hid
  split at hid
  · cases hid
    exact h
  · exact hs.payloads hid

end StorageNodes

section

open StorageNodes

variable {crc} {s : StorageNodes} {blockSize : Nat}

theorem chooseStorageNode_along : Along (Keeps crc blockSize) chooseStorageNode s fun _ s' =>
    s' = { s with nextPlacementIndex := s'.nextPlacementIndex } := by
  rw [chooseStorageNode]
  refine Along.get (Along.check2 fun node _ => ?_)
  exact Along.step run_set (keeps_of_same rfl rfl le_rfl) (Along.pure rfl)

theorem allocateSegmentId_along : Along (Keeps crc blockSize) allocateSegmentId s fun id s' =>
    id = s.nextSegmentId ∧ s' = { s with nextSegmentId := s.nextSegmentId + 1 } := by
  rw [allocateSegmentId]
  refine Along.get (Along.check fun _ _ => ?_)
  exact Along.step run_set (keeps_of_same rfl rfl (Nat.le_succ _)) (Along.pure ⟨rfl, rfl⟩)

theorem reserveSegmentWithId_run {node id bytes : Nat} (hb : bytes ≠ 0)
    (h : s.catalog.lookup id = none) : reserveSegmentWithId node id bytes s =
      .ok () { s with catalog := s.catalog.insert id ⟨node, bytes, .reserved, none⟩ } := by
  simp [reserveSegmentWithId, bind, EStateM.bind, failIf, hb, h]

theorem beginWrite_run {id : Nat} {entry : CatalogEntry} (h : s.catalog.lookup id = some entry)
    (hstate : entry.state = .reserved) : beginWrite id s =
      .ok () { s with catalog := s.catalog.insert id { entry with state := .writing } } := by
  simp [beginWrite, bind, EStateM.bind, failIf, orFail, h, hstate]

theorem syncSegment_run {id : Nat} {record : SegmentRecord} (h : s.store.lookup id = some record) :
    syncSegment id s =
      .ok () { s with store := s.store.insert id { record with synced := true } } := by
  simp [syncSegment, bind, EStateM.bind, orFail, h]

theorem commitSegment_run {receipt : SegmentWriteReceipt} {entry : CatalogEntry}
    (h : s.catalog.lookup receipt.descriptor.segmentId = some entry)
    (hnode : receipt.storageNode = entry.storageNode)
    (hbytes : receipt.descriptor.bytes = entry.bytes) (hstate : entry.state = .writing) :
    commitSegment receipt s = .ok () { s with
      catalog := s.catalog.insert receipt.descriptor.segmentId
        { entry with receipt := some receipt, state := .durablePendingMetadata } } := by
  simp [commitSegment, bind, EStateM.bind, failIf, orFail, h, hnode, hbytes, hstate]

theorem writeSegmentOwned_along {id : Nat} {bytes : List UInt8} {mode : PayloadIntegrity}
    (hid : id < s.nextSegmentId) (h : s.store.lookup id = none) :
    Along (Keeps crc blockSize) (writeSegmentOwned crc blockSize id bytes mode) s fun d s' =>
      d = ⟨id, bytes.length / blockSize, bytes.length, segmentPayloadIntegrity crc mode bytes⟩ ∧
        s' = { s with store := s.store.insert id ⟨bytes, false, d⟩ } := by
  rw [writeSegmentOwned]
  refine Along.check2 fun _ _ => Along.get ?_
  refine Along.check fun _ _ => Along.step run_set (keeps_store (grows_store hid ?_)
    (tagged_segmentPayloadIntegrity crc mode bytes)) (Along.pure ⟨rfl, rfl⟩)
  intro old hold
  rw [h] at hold
  cases hold

/-- What is known of a segment that was just written: it is a new one, and holds the bytes. -/
structure SegmentWritten (crc : List UInt8 → Nat) (blockSize : Nat) (bytes : List UInt8)
    (mode : PayloadIntegrity) (s : StorageNodes) (receipt : SegmentWriteReceipt)
    (s' : StorageNodes) : Prop where
  committed : s'.Committed crc receipt.descriptor.segmentId receipt bytes
  new : s.nextSegmentId ≤ receipt.descriptor.segmentId
  ready : s'.Ready receipt.descriptor.segmentId
  known : s'.Known crc blockSize receipt.descriptor
  mode_eq : receipt.descriptor.integrity = segmentPayloadIntegrity crc mode bytes

theorem writeSegment_keeps (hs : s.Fresh) (bytes : List UInt8) (mode : PayloadIntegrity) :
    Along (Keeps crc blockSize) (writeSegment crc blockSize bytes mode) s
      (SegmentWritten crc blockSize bytes mode s) := by
  rw [writeSegment]
  refine Along.check fun _ hlen => Along.bind chooseStorageNode_along fun node s1 hgrow1 hs1 => ?_
  have hfresh1 := hgrow1.fresh hs
  refine Along.bind allocateSegmentId_along ?_
  rintro id s2 hgrow2 ⟨rfl, hs2⟩
  have hid : s1.nextSegmentId < s2.nextSegmentId := by rw [hs2]; exact Nat.lt_succ_self _
  have hcat : s2.catalog.lookup s1.nextSegmentId = none := by
    rw [hs2]
    exact (hfresh1 _ le_rfl).1
  have hstore : s2.store.lookup s1.nextSegmentId = none := by
    rw [hs2]
    exact (hfresh1 _ le_rfl).2
  refine Along.check fun _ hne => ?_
  have hne : bytes.length ≠ 0 := failIf_eq_ok.1 hne
  refine Along.step (reserveSegmentWithId_run hne hcat)
    (keeps_catalog (grows_catalog hid (by simp [hcat]) (by simp [hcat])) nofun) ?_
  refine Along.step (beginWrite_run (AList.lookup_insert _) rfl)
    (keeps_catalog (grows_catalog hid ?_ ?_) nofun) ?_
  · intro old hold hreceipt
    rw [AList.lookup_insert] at hold
    cases hold
    exact absurd rfl hreceipt
  · intro old hold hready
    rw [AList.lookup_insert] at hold
    cases hold
    rcases hready with h | h <;> cases h
  refine Along.bind (writeSegmentOwned_along hid hstore) ?_
  rintro d s3 - ⟨hd, hs3⟩
  have hstore3 : s3.store.lookup s1.nextSegmentId = some ⟨bytes, false, d⟩ := by
    rw [hs3]
    exact AList.lookup_insert _
  have hid3 : s1.nextSegmentId < s3.nextSegmentId := by rw [hs3]; exact hid
  refine Along.step (syncSegment_run hstore3) (keeps_store (grows_store hid3 ?_) ?_) ?_
  · intro old hold
    rw [hstore3] at hold
    cases hold
    rfl
  · rw [hd]
    exact tagged_segmentPayloadIntegrity crc mode bytes
  have hdid : d.segmentId = s1.nextSegmentId := by rw [hd]
  have hcat3 : s3.catalog.lookup d.segmentId = some ⟨node, bytes.length, .writing, none⟩ := by
    rw [hs3, hdid]
    exact AList.lookup_insert _
  let s4 : StorageNodes := { s3 with store := s3.store.insert s1.nextSegmentId ⟨bytes, true, d⟩ }
  let entry : CatalogEntry := ⟨node, bytes.length, .durablePendingMetadata, some ⟨node, d⟩⟩
  let s5 : StorageNodes := { s4 with catalog := s4.catalog.insert d.segmentId entry }
  have hcommitted : s5.Committed crc d.segmentId ⟨node, d⟩ bytes := by
    refine ⟨⟨_, AList.lookup_insert _, rfl, rfl⟩, ?_, rfl, by rw [hd],
      Nat.lt_of_not_ge (failIf_eq_ok.1 hlen), mode, by rw [hd]⟩
    rw [hdid]
    exact AList.lookup_insert _
  have hknown : s5.Known crc blockSize d :=
    ⟨⟨node, d⟩, bytes, hcommitted, rfl, by rw [hd]; exact Nat.div_mul_le_self _ _⟩
  have hbytes : d.bytes = bytes.length := by rw [hd]
  have hcat4 : s4.catalog.lookup (SegmentWriteReceipt.mk node d).descriptor.segmentId =
      some ⟨node, bytes.length, .writing, none⟩ := hcat3
  have hrun : commitSegment ⟨node, d⟩ s4 = .ok () s5 := commitSegment_run hcat4 rfl hbytes rfl
  refine Along.step hrun (keeps_catalog (grows_catalog ?_ ?_ ?_) ?_) ?_
  · rw [hdid]
    exact hid3
  · intro old hold hreceipt
    rw [hcat3] at hold
    cases hold
    exact absurd rfl hreceipt
  · exact fun _ _ _ => .inl rfl
  · rintro receipt ⟨⟩
    exact .inr ⟨rfl, hknown⟩
  refine Along.pure ⟨hcommitted, ?_, ⟨_, AList.lookup_insert _, .inl rfl⟩, hknown, by rw [hd]⟩
  rw [hdid, hs1]

theorem writeSegment_along (hs : s.Fresh) (blockSize : Nat) (bytes : List UInt8) (mode : PayloadIntegrity) :
    Along (Grows crc) (writeSegment crc blockSize bytes mode) s fun receipt s' =>
      s'.Committed crc receipt.descriptor.segmentId receipt bytes ∧
        s.nextSegmentId ≤ receipt.descriptor.segmentId ∧ s'.Ready receipt.descriptor.segmentId :=
  ((writeSegment_keeps hs bytes mode).weaken fun _ h => h.toGrows).mono
    fun _ _ _ h => ⟨h.committed, h.new, h.ready⟩

theorem markSegmentReferenced_run {id : Nat} (hs : s.Fresh) (h : s.Ready id) :
    ∃ s', markSegmentReferenced id s = .ok () s' ∧ Grows crc s s' := by
  obtain ⟨entry, hentry, hready⟩ := h
  have hstate : ¬ (entry.state ≠ .durablePendingMetadata ∧ entry.state ≠ .referenced) := by
    rintro ⟨h1, h2⟩
    exact hready.elim h1 h2
  have hid : id < s.nextSegmentId := by
    by_contra hge
    rw [(hs id (by omega)).1] at hentry
    cases hentry
  refine ⟨{ s with catalog := s.catalog.insert id { entry with state := .referenced } }, ?_,
    grows_catalog hid ?_ fun _ _ _ => .inr rfl⟩
  · rw [markSegmentReferenced, run_bind_ok run_get, hentry, orFail,
      run_bind_ok (run_lift_ok entry), failIf, if_neg hstate, run_bind_ok (run_lift_ok ())]
    rfl
  · intro old hold _
    cases hentry.symm.trans hold
    exact ⟨rfl, rfl⟩

end

/-! ## What a write leaves alone -/

namespace StorageNodes

def KeepsReady (t t' : StorageNodes) : Prop := ∀ id, t.Ready id → t'.Ready id

instance : Std.Refl KeepsReady := ⟨fun _ _ h => h⟩

instance : IsTrans StorageNodes KeepsReady := ⟨fun _ _ _ h h' id hid => h' id (h id hid)⟩

def KeepsPayloads (s s' : StorageNodes) : Prop :=
  ∀ id record, s.store.lookup id = some record →
    ∃ synced, s'.store.lookup id = some { record with synced := synced }

instance : Std.Refl KeepsPayloads := ⟨fun _ _ record h => ⟨record.synced, h⟩⟩

instance : IsTrans StorageNodes KeepsPayloads :=
  ⟨fun _ _ _ h h' id record hid => by
    obtain ⟨synced, hid'⟩ := h id record hid
    obtain ⟨synced', hid''⟩ := h' id _ hid'
    exact ⟨synced', hid''⟩⟩

variable {s : StorageNodes}

theorem keepsPayloads_of_store {s' : StorageNodes} (h : s'.store = s.store) : KeepsPayloads s s' :=
  fun _ record hid => ⟨record.synced, h ▸ hid⟩

theorem keepsPayloads_insert {id : Nat} {record : SegmentRecord}
    (h : ∀ old, s.store.lookup id = some old → record = { old with synced := record.synced }) :
    KeepsPayloads s { s with store := s.store.insert id record } := by
  intro id' old hold
  by_cases heq : id' = id
  · subst heq
    refine ⟨record.synced, ?_⟩
    rw [← h old hold]
    exact AList.lookup_insert _
  · refine ⟨old.synced, ?_⟩
    rw [AList.lookup_insert_ne heq]
    exact hold

theorem keepsReady_insert {id : Nat} {entry : CatalogEntry}
    (h : ∀ old, s.catalog.lookup id = some old → old.Ready → entry.Ready) :
    s.KeepsReady { s with catalog := s.catalog.insert id entry } := by
  rintro other ⟨old, hold, hready⟩
  by_cases heq : other = id
  · subst heq
    exact ⟨entry, AList.lookup_insert _, h old hold hready⟩
  · exact ⟨old, (AList.lookup_insert_ne heq).trans hold, hready⟩

end StorageNodes

section

open StorageNodes

variable {crc} {s : StorageNodes} {segmentId : Nat}

theorem writeSegment_leaves (blockSize : Nat) (bytes : List UInt8) (mode : PayloadIntegrity) :
    Along (Both KeepsReady KeepsPayloads) (writeSegment crc blockSize bytes mode) s
      fun receipt s' => s'.Ready receipt.descriptor.segmentId := by
  have hsame : ∀ t : StorageNodes, KeepsReady t t := fun t => refl t
  have hpayloads : ∀ {t : StorageNodes} {catalog}, KeepsPayloads t { t with catalog } :=
    keepsPayloads_of_store rfl
  refine Along.check fun _ _ => Moves.seq ?_ fun storageNode s1 _ => ?_
  · exact Along.get (Along.check fun _ _ => Along.check fun _ _ =>
      Along.step run_set ⟨hsame _, keepsPayloads_of_store rfl⟩ (Along.pure trivial))
  refine Moves.seq ?_ fun segmentId s2 _ => Along.check fun _ _ => ?_
  · exact Along.get (Along.check fun _ _ =>
      Along.step run_set ⟨hsame _, keepsPayloads_of_store rfl⟩ (Along.pure trivial))
  refine Moves.seq ?_ fun _ s3 _ => ?_
  · refine Along.check fun _ _ => Along.get (Along.check fun _ hnew => ?_)
    refine ⟨⟨keepsReady_insert fun old hold => ?_, hpayloads⟩, trivial⟩
    rw [not_not.1 (failIf_eq_ok.1 hnew)] at hold
    cases hold
  refine Moves.seq ?_ fun _ s4 _ => ?_
  · refine Along.get (Along.check fun entry hentry => Along.check fun _ hstate => ?_)
    refine ⟨⟨keepsReady_insert fun old hold hready => absurd hready ?_, hpayloads⟩, trivial⟩
    cases (orFail_eq_ok.1 hentry).symm.trans hold
    have hearly := failIf_eq_ok.1 hstate
    rw [CatalogEntry.Ready]
    grind
  refine Moves.seq ?_ fun descriptor s5 _ => ?_
  · refine Along.check2 fun _ _ => Along.get (Along.check fun _ hnone => ?_)
    refine Along.step run_set ⟨hsame _, keepsPayloads_insert fun old hold => ?_⟩ (Along.pure trivial)
    exact absurd (by rw [hold]; exact Option.some_ne_none old) (failIf_eq_ok.1 hnone)
  refine Moves.seq ?_ fun _ s6 _ => ?_
  · refine Along.get (Along.check fun record hrecord => ?_)
    refine ⟨⟨hsame _, keepsPayloads_insert fun old hold => ?_⟩, trivial⟩
    cases (orFail_eq_ok.1 hrecord).symm.trans hold
    rfl
  refine Along.bind (P := fun _ t => t.Ready descriptor.segmentId) ?_ fun _ _ _ hready =>
    Along.pure hready
  refine Along.get (Along.check3 fun _ _ _ => ?_)
  exact Along.check fun _ _ => ⟨⟨keepsReady_insert fun _ _ _ => .inl rfl, hpayloads⟩,
    _, AList.lookup_insert _, .inl rfl⟩

theorem markSegmentReferenced_keepsPayloads : Moves KeepsPayloads (markSegmentReferenced segmentId) s :=
  Along.get (Along.check2 fun _ _ => ⟨keepsPayloads_of_store rfl, trivial⟩)

end

end

end CowStore.Local
