import CowStore.Base

/-!
# Append-log runs and visible publishes

A run is a piece of an append log that holds the bytes of one appended range of a
file.  A run-backed extent places (part of) a run in a file, and a visible publish
is the journal record of one append publish: the file versions it leads from and to,
and the extents that cover the bytes it adds.
-/

namespace CowStore.Object

open Lib

/-- How the bytes of a segment or of a run are protected. -/
inductive SegmentPayloadIntegrity
  | crc32c (checksum : Nat)
  | unchecked
  deriving DecidableEq, Repr

structure AppendLogRunRange where
  runId : Nat
  storageNode : Nat
  streamId : Nat
  writerEpoch : Nat
  keyspaceId : Nat
  fileId : Nat
  fileOffsetStart : Nat
  payloadLen : Nat
  logId : Nat
  logPayloadOffset : Nat
  integrity : SegmentPayloadIntegrity
  deriving DecidableEq, Repr

namespace AppendLogRunRange

def fileOffsetEnd (r : AppendLogRunRange) : Result Nat :=
  checkedAdd r.fileOffsetStart r.payloadLen (.invalidArgument "append run file range overflows")

def logPayloadEnd (r : AppendLogRunRange) : Result Nat :=
  checkedAdd r.logPayloadOffset r.payloadLen (.invalidArgument "append run log range overflows")

def validate (r : AppendLogRunRange) : Result Unit := do
  failIf (r.payloadLen = 0) (.invalidArgument "append log run range must contain bytes")
  let _ ← r.fileOffsetEnd
  let _ ← r.logPayloadEnd
  return ()

end AppendLogRunRange

structure AppendLogRun extends AppendLogRunRange where
  logRecordBytes : Nat
  deriving DecidableEq, Repr

namespace AppendLogRun

def validate (r : AppendLogRun) : Result Unit := do
  failIf (r.payloadLen = 0) (.invalidArgument "append log run must contain bytes")
  let _ ← r.fileOffsetEnd
  let _ ← r.logPayloadEnd
  failIf (r.logRecordBytes < r.payloadLen)
    (.invalidArgument "append log record must cover payload bytes")

def fullRange (r : AppendLogRun) : AppendLogRunRange := r.toAppendLogRunRange

end AppendLogRun

structure RunBackedFileExtent where
  fileOffsetStart : Nat
  payloadLen : Nat
  run : AppendLogRunRange
  deriving DecidableEq, Repr

def RunBackedFileExtent.validate (e : RunBackedFileExtent) : Result Unit := do
  e.run.validate
  failIf (e.payloadLen = 0) (.invalidArgument "run-backed file extent must contain bytes")
  failIf (e.fileOffsetStart ≠ e.run.fileOffsetStart ∨ e.payloadLen ≠ e.run.payloadLen)
    (.invalidArgument "run-backed file extent range must match run range")

theorem AppendLogRunRange.validate_eq_ok {r : AppendLogRunRange} {u : Unit} :
    r.validate = .ok u ↔ 0 < r.payloadLen ∧ r.fileOffsetStart + r.payloadLen < u64Bound ∧
      r.logPayloadOffset + r.payloadLen < u64Bound := by
  simp only [AppendLogRunRange.validate, bind_eq_ok, failIf_eq_ok, AppendLogRunRange.fileOffsetEnd,
    AppendLogRunRange.logPayloadEnd]
  constructor
  · rintro ⟨-, hpos, n, hn, m, hm, -⟩
    exact ⟨Nat.pos_of_ne_zero hpos, (checkedAdd_eq_ok hn).2, (checkedAdd_eq_ok hm).2⟩
  · rintro ⟨hpos, hf, hl⟩
    exact ⟨(), Nat.ne_of_gt hpos, _, checkedAdd_of_lt hf, _, checkedAdd_of_lt hl, rfl⟩

theorem RunBackedFileExtent.validate_eq_ok {e : RunBackedFileExtent} {u : Unit} :
    e.validate = .ok u ↔ e.run.validate = .ok () ∧ e.fileOffsetStart = e.run.fileOffsetStart ∧
      e.payloadLen = e.run.payloadLen := by
  simp only [RunBackedFileExtent.validate, bind_eq_ok, failIf_eq_ok]
  constructor
  · rintro ⟨⟨⟩, hr, -, -, hne⟩
    rw [not_or, not_not, not_not] at hne
    exact ⟨hr, hne⟩
  · rintro ⟨hr, hs, hl⟩
    have hpos := (AppendLogRunRange.validate_eq_ok.1 hr).1
    exact ⟨(), hr, (), by omega, by omega⟩

/-- File-scoped durable record of one visible append publish. -/
structure AppendVisiblePublish where
  recordId : Nat
  commitSeq : Nat
  keyspaceId : Nat
  fileId : Nat
  baseWriterEpoch : Nat
  writerEpoch : Nat
  baseFileVersion : Nat
  newFileVersion : Nat
  oldSize : Nat
  newSize : Nat
  publishThrough : Nat
  runExtents : List RunBackedFileExtent
  deriving DecidableEq, Repr

namespace AppendVisiblePublish

/-- The loop of `validate` over the extents; `next` is where the next one has to
start. -/
def validateExtents (r : AppendVisiblePublish) : Nat → List RunBackedFileExtent → Result Nat
  | next, [] => return next
  | next, e :: rest => do
    e.validate
    if e.fileOffsetStart ≠ next then
      throw (.invalidArgument "append visible publish extents must be contiguous")
    if e.run.keyspaceId ≠ r.keyspaceId ∨ e.run.fileId ≠ r.fileId ∨
        e.run.writerEpoch ≠ r.writerEpoch then
      throw (.invalidArgument
        "append visible publish extent belongs to a different file lineage")
    let next ← checkedAdd next e.payloadLen
      (.invalidArgument "append visible publish extent range overflows")
    if next > r.newSize then
      throw (.invalidArgument "append visible publish extents exceed new file size")
    validateExtents r next rest

def validate (r : AppendVisiblePublish) : Result Unit := do
  if r.commitSeq = 0 then
    throw (.invalidArgument "append visible publish commit sequence must be nonzero")
  if r.newSize ≤ r.oldSize then
    throw (.invalidArgument "append visible publish must advance file size")
  if r.writerEpoch < r.baseWriterEpoch then
    throw (.invalidArgument "append visible publish writer epoch must not precede base epoch")
  if r.publishThrough ≠ r.newSize then
    throw (.invalidArgument "append visible publish target must match new file size")
  let expected ← checkedAdd r.baseFileVersion 1
    (.invalidArgument "append visible publish file version overflows")
  if r.newFileVersion ≠ expected then
    throw (.invalidArgument "append visible publish must advance file version once")
  if r.runExtents.isEmpty then
    throw (.invalidArgument "append visible publish must include run extents")
  let covered ← r.validateExtents r.oldSize r.runExtents
  if covered ≠ r.newSize then
    throw (.invalidArgument "append visible publish extents do not cover published suffix")

def validateForReconstructedHead (r : AppendVisiblePublish) (keyspaceId fileId fileVersion size
    latestCommit : Nat) : Result Unit := do
  r.validate
  if r.keyspaceId ≠ keyspaceId ∨ r.fileId ≠ fileId ∨ r.baseFileVersion ≠ fileVersion ∨
      r.oldSize ≠ size then
    throw (.invalidArgument
      "append visible publish record does not match reconstructed file head")
  if r.commitSeq ≤ latestCommit then
    throw (.invalidArgument
      "append visible publish commit sequence does not advance reconstructed file head")

end AppendVisiblePublish

end CowStore.Object
