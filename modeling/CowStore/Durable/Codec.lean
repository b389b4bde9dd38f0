import CowStore.Lib.Codec
import CowStore.Object.Run

/-!
# The durable encoding of visible publishes

Words are big-endian, identifiers take sixteen bytes, versions, sizes and sequence
numbers eight.  A vector is its length and its elements, and a decoder refuses
lengths above `maxDurableCollectionLen` whatever the buffer holds.
-/

namespace CowStore.Durable

open Lib Object

def maxDurableCollectionLen : Nat := 1000000

def durableCodecError (reason : String) : StorageError :=
  .corrupt ("durable codec failed: " ++ reason)

def endOfBuffer : StorageError := durableCodecError "unexpected end of durable buffer"

def putU8 (v : Nat) : List UInt8 := beBytes 1 v
def putU64 (v : Nat) : List UInt8 := beBytes 8 v
def putU128 (v : Nat) : List UInt8 := beBytes 16 v

def getU8 : Decoder StorageError Nat := beWord endOfBuffer 1
def getU64 : Decoder StorageError Nat := beWord endOfBuffer 8
def getU128 : Decoder StorageError Nat := beWord endOfBuffer 16

variable {v : Nat}

theorem decodes_u8 (h : v < 256) : Decodes getU8 (putU8 v) v :=
  decodes_beWord _ (by simpa using h)

theorem decodes_u64 (h : v < u64Bound) : Decodes getU64 (putU64 v) v :=
  decodes_beWord _ (by simpa [u64Bound] using h)

theorem decodes_u128 (h : v < u128Bound) : Decodes getU128 (putU128 v) v :=
  decodes_beWord _ (by simpa [u128Bound] using h)

@[simp] theorem length_putU8 (v : Nat) : (putU8 v).length = 1 := length_beBytes 1 v
@[simp] theorem length_putU64 (v : Nat) : (putU64 v).length = 8 := length_beBytes 8 v
@[simp] theorem length_putU128 (v : Nat) : (putU128 v).length = 16 := length_beBytes 16 v

/-- `Vec<T>::encode`. -/
def putVec {α : Type} (put : α → List UInt8) (as : List α) : List UInt8 :=
  putU64 as.length ++ as.flatMap put

/-- `Vec<T>::decode`. -/
def getVec {α : Type} (get : Decoder StorageError α) : Decoder StorageError (List α) := do
  let len ← getU64
  if len > maxDurableCollectionLen then
    throw (durableCodecError "vector length exceeds durable limit")
  replicateM get len

theorem decodes_vec {α : Type} {get : Decoder StorageError α} {put : α → List UInt8}
    {as : List α} (hlen : as.length ≤ maxDurableCollectionLen)
    (h : ∀ a ∈ as, Decodes get (put a) a) : Decodes (getVec get) (putVec put as) as := by
  intro rest
  have hword : as.length < u64Bound := lt_of_le_of_lt hlen (by decide)
  rw [getVec, putVec, List.append_assoc, (decodes_u64 hword).run_bind,
    if_neg (Nat.not_lt.mpr hlen)]
  exact decodes_replicateM h rest

/-! ## Integrity, ranges, extents -/

def putIntegrity : SegmentPayloadIntegrity → List UInt8
  | .crc32c checksum => putU8 1 ++ putU64 checksum
  | .unchecked => putU8 2

def getIntegrity : Decoder StorageError SegmentPayloadIntegrity := do
  match ← getU8 with
  | 1 => return .crc32c (← getU64)
  | 2 => return .unchecked
  | _ => throw (durableCodecError "invalid segment payload integrity tag")

/-- The machine types of the fields of an integrity value. -/
def IntegrityFits : SegmentPayloadIntegrity → Prop
  | .crc32c checksum => checksum < u64Bound
  | .unchecked => True

theorem decodes_integrity {i : SegmentPayloadIntegrity} (h : IntegrityFits i) :
    Decodes getIntegrity (putIntegrity i) i := by
  intro rest
  cases i with
  | crc32c checksum =>
    rw [getIntegrity, putIntegrity, List.append_assoc,
      (decodes_u8 (v := 1) (by decide)).run_bind]
    exact (decodes_u64 h).run_bind _ rest
  | unchecked =>
    rw [getIntegrity, putIntegrity, (decodes_u8 (v := 2) (by decide)).run_bind]
    rfl

def putRunRange (r : AppendLogRunRange) : List UInt8 :=
  putU128 r.runId ++ (putU128 r.storageNode ++ (putU128 r.streamId ++ (putU64 r.writerEpoch ++
    (putU128 r.keyspaceId ++ (putU128 r.fileId ++ (putU64 r.fileOffsetStart ++
    (putU64 r.payloadLen ++ (putU64 r.logId ++ (putU64 r.logPayloadOffset ++
    putIntegrity r.integrity)))))))))

def getRunRange : Decoder StorageError AppendLogRunRange := do
  let runId ← getU128
  let storageNode ← getU128
  let streamId ← getU128
  let writerEpoch ← getU64
  let keyspaceId ← getU128
  let fileId ← getU128
  let fileOffsetStart ← getU64
  let payloadLen ← getU64
  let logId ← getU64
  let logPayloadOffset ← getU64
  let integrity ← getIntegrity
  return { runId, storageNode, streamId, writerEpoch, keyspaceId, fileId, fileOffsetStart,
           payloadLen, logId, logPayloadOffset, integrity }

structure RunRangeFits (r : AppendLogRunRange) : Prop where
  runId : r.runId < u128Bound
  storageNode : r.storageNode < u128Bound
  streamId : r.streamId < u128Bound
  writerEpoch : r.writerEpoch < u64Bound
  keyspaceId : r.keyspaceId < u128Bound
  fileId : r.fileId < u128Bound
  fileOffsetStart : r.fileOffsetStart < u64Bound
  payloadLen : r.payloadLen < u64Bound
  logId : r.logId < u64Bound
  logPayloadOffset : r.logPayloadOffset < u64Bound
  integrity : IntegrityFits r.integrity

theorem decodes_runRange {r : AppendLogRunRange} (h : RunRangeFits r) :
    Decodes getRunRange (putRunRange r) r := by
  intro rest
  simp only [getRunRange, putRunRange, List.append_assoc]
  rw [(decodes_u128 h.runId).run_bind, (decodes_u128 h.storageNode).run_bind,
    (decodes_u128 h.streamId).run_bind, (decodes_u64 h.writerEpoch).run_bind,
    (decodes_u128 h.keyspaceId).run_bind, (decodes_u128 h.fileId).run_bind,
    (decodes_u64 h.fileOffsetStart).run_bind, (decodes_u64 h.payloadLen).run_bind,
    (decodes_u64 h.logId).run_bind, (decodes_u64 h.logPayloadOffset).run_bind,
    (decodes_integrity h.integrity).run_bind]
  rfl

def putExtent (e : RunBackedFileExtent) : List UInt8 :=
  putU64 e.fileOffsetStart ++ (putU64 e.payloadLen ++ putRunRange e.run)

def getExtent : Decoder StorageError RunBackedFileExtent := do
  let fileOffsetStart ← getU64
  let payloadLen ← getU64
  let run ← getRunRange
  return { fileOffsetStart, payloadLen, run }

structure ExtentFits (e : RunBackedFileExtent) : Prop where
  fileOffsetStart : e.fileOffsetStart < u64Bound
  payloadLen : e.payloadLen < u64Bound
  run : RunRangeFits e.run

theorem decodes_extent {e : RunBackedFileExtent} (h : ExtentFits e) : Decodes getExtent (putExtent e) e := by
  intro rest
  simp only [getExtent, putExtent, List.append_assoc]
  rw [(decodes_u64 h.fileOffsetStart).run_bind, (decodes_u64 h.payloadLen).run_bind,
    (decodes_runRange h.run).run_bind]
  rfl

theorem length_putExtent_ge (e : RunBackedFileExtent) : 137 ≤ (putExtent e).length := by
  have hint : 1 ≤ (putIntegrity e.run.integrity).length := by
    cases e.run.integrity <;> simp [putIntegrity]
  simp only [putExtent, putRunRange, List.length_append, length_putU64, length_putU128]
  omega

/-! ## The record -/

def putVisiblePublish (r : AppendVisiblePublish) : List UInt8 :=
  putU8 1 ++ (putU128 r.recordId ++ (putU64 r.commitSeq ++ (putU128 r.keyspaceId ++
    (putU128 r.fileId ++ (putU64 r.baseWriterEpoch ++ (putU64 r.writerEpoch ++
    (putU64 r.baseFileVersion ++ (putU64 r.newFileVersion ++ (putU64 r.oldSize ++
    (putU64 r.newSize ++ (putU64 r.publishThrough ++ putVec putExtent r.runExtents)))))))))))

def getVisiblePublish : Decoder StorageError AppendVisiblePublish := do
  match ← getU8 with
  | 1 =>
    let recordId ← getU128
    let commitSeq ← getU64
    let keyspaceId ← getU128
    let fileId ← getU128
    let baseWriterEpoch ← getU64
    let writerEpoch ← getU64
    let baseFileVersion ← getU64
    let newFileVersion ← getU64
    let oldSize ← getU64
    let newSize ← getU64
    let publishThrough ← getU64
    let runExtents ← getVec getExtent
    return { recordId, commitSeq, keyspaceId, fileId, baseWriterEpoch, writerEpoch,
             baseFileVersion, newFileVersion, oldSize, newSize, publishThrough, runExtents }
  | _ => throw (durableCodecError "invalid append visible publish version")

structure VisiblePublishFits (r : AppendVisiblePublish) : Prop where
  recordId : r.recordId < u128Bound
  commitSeq : r.commitSeq < u64Bound
  keyspaceId : r.keyspaceId < u128Bound
  fileId : r.fileId < u128Bound
  baseWriterEpoch : r.baseWriterEpoch < u64Bound
  writerEpoch : r.writerEpoch < u64Bound
  baseFileVersion : r.baseFileVersion < u64Bound
  newFileVersion : r.newFileVersion < u64Bound
  oldSize : r.oldSize < u64Bound
  newSize : r.newSize < u64Bound
  publishThrough : r.publishThrough < u64Bound
  runExtents : ∀ e ∈ r.runExtents, ExtentFits e

theorem decodes_visiblePublish {r : AppendVisiblePublish} (h : VisiblePublishFits r)
    (hlen : r.runExtents.length ≤ maxDurableCollectionLen) :
    Decodes getVisiblePublish (putVisiblePublish r) r := by
  intro rest
  simp only [getVisiblePublish, putVisiblePublish, List.append_assoc]
  rw [(decodes_u8 (v := 1) (by decide)).run_bind]
  simp only
  rw [(decodes_u128 h.recordId).run_bind, (decodes_u64 h.commitSeq).run_bind,
    (decodes_u128 h.keyspaceId).run_bind, (decodes_u128 h.fileId).run_bind,
    (decodes_u64 h.baseWriterEpoch).run_bind, (decodes_u64 h.writerEpoch).run_bind,
    (decodes_u64 h.baseFileVersion).run_bind, (decodes_u64 h.newFileVersion).run_bind,
    (decodes_u64 h.oldSize).run_bind, (decodes_u64 h.newSize).run_bind,
    (decodes_u64 h.publishThrough).run_bind,
    (decodes_vec hlen fun e he => decodes_extent (h.runExtents e he)).run_bind]
  rfl

theorem length_flatMap_ge {α : Type} (put : α → List UInt8) (n : Nat) (as : List α)
    (h : ∀ a ∈ as, n ≤ (put a).length) : n * as.length ≤ (as.flatMap put).length := by
  induction as with
  | nil => simp
  | cons a as ih =>
    have ha := h a List.mem_cons_self
    have := ih fun b hb => h b (List.mem_cons_of_mem a hb)
    simp only [List.flatMap_cons, List.length_append, List.length_cons, Nat.mul_succ]
    omega

theorem length_putVisiblePublish (r : AppendVisiblePublish) :
    (putVisiblePublish r).length = 121 + (r.runExtents.flatMap putExtent).length := by
  simp only [putVisiblePublish, putVec, List.length_append, length_putU8, length_putU64,
    length_putU128]
  omega

/-- `encode_row` of a batch of records. -/
def putBatch (rs : List AppendVisiblePublish) : List UInt8 := putVec putVisiblePublish rs

/-- `decode_row` of a batch: the whole buffer has to be consumed. -/
def decodeBatch (bs : List UInt8) : Result (List AppendVisiblePublish) := do
  let (rs, rest) ← (getVec getVisiblePublish).run bs
  if rest ≠ [] then
    throw (durableCodecError "trailing bytes in durable buffer")
  return rs

/-- A payload that fits a journal frame is too short for a collection above the
decoder's limit, so whatever was framed decodes. -/
theorem decodeBatch_putBatch {rs : List AppendVisiblePublish}
    (hfit : ∀ r ∈ rs, VisiblePublishFits r) (hlen : (putBatch rs).length ≤ 64 * 1024 * 1024) :
    decodeBatch (putBatch rs) = .ok rs := by
  have hsum : (rs.flatMap putVisiblePublish).length ≤ 64 * 1024 * 1024 := by
    simp only [putBatch, putVec, List.length_append] at hlen
    omega
  have hmem : ∀ r ∈ rs, (putVisiblePublish r).length ≤ (rs.flatMap putVisiblePublish).length := by
    intro r hr
    obtain ⟨as, bs, rfl⟩ := List.append_of_mem hr
    simp only [List.flatMap_append, List.flatMap_cons, List.length_append]
    omega
  have hextents : ∀ r ∈ rs, r.runExtents.length ≤ maxDurableCollectionLen := by
    intro r hr
    have h1 := hmem r hr
    have h2 := length_flatMap_ge putExtent 137 r.runExtents fun e _ => length_putExtent_ge e
    rw [length_putVisiblePublish] at h1
    simp only [maxDurableCollectionLen]
    omega
  have hcount : rs.length ≤ maxDurableCollectionLen := by
    have h2 := length_flatMap_ge putVisiblePublish 121 rs fun r _ => by
      rw [length_putVisiblePublish]; omega
    simp only [maxDurableCollectionLen]
    omega
  have hdec := decodes_vec hcount fun r hr =>
    decodes_visiblePublish (hfit r hr) (hextents r hr)
  have hrun : (getVec getVisiblePublish).run (putBatch rs) = .ok (rs, []) := by
    have := hdec []
    rwa [List.append_nil] at this
  simp [decodeBatch, hrun, bind, Except.bind, pure, Except.pure]

end CowStore.Durable
