import CowStore.Local.Config
import CowStore.Local.Segments

/-!
# Append streams

A stream appends to one file.  Its accepted bytes stand in an append log, in runs that
are recorded in the order of their offsets; a publish makes a prefix of them part of the
file.
-/

namespace CowStore.Local

open Lib Object StorageError

inductive AppendStreamStatus
  | active
  | released
  | fenced
  | aborted
  deriving DecidableEq, Repr

/-- What the holder of a stream knows of it. -/
structure AppendStream where
  keyspaceId : Nat
  fileId : Nat
  streamId : Nat
  writerEpoch : Nat
  baseVersion : Nat
  visibleBaseSize : Nat
  deriving DecidableEq, Repr

structure AppendTicket where
  keyspaceId : Nat
  fileId : Nat
  streamId : Nat
  ticketId : Nat
  writerEpoch : Nat
  range : ByteRange
  deriving DecidableEq, Repr

structure AppendPublishTicket where
  keyspaceId : Nat
  fileId : Nat
  streamId : Nat
  ticketId : Nat
  writerEpoch : Nat
  publishThrough : Nat
  deriving DecidableEq, Repr

structure AppendPublishCommit where
  keyspaceId : Nat
  fileId : Nat
  range : ByteRange
  version : Nat
  commitSeq : Nat
  durability : WriteDurability
  deriving DecidableEq, Repr

structure AppendPublishTicketRecord where
  ticket : AppendPublishTicket
  completed : Option AppendPublishCommit
  deriving DecidableEq, Repr

inductive AppendPublishTicketStatus
  | pending (stream : AppendStream)
  | completed (commit : AppendPublishCommit)
  deriving DecidableEq, Repr

/-- The mark of a publish that is prepared and not yet applied. -/
structure AppendPublishInFlight where
  ticketId : Nat
  streamId : Nat
  commitSeq : Nat
  writerEpoch : Nat
  keyspaceId : Nat
  fileId : Nat
  publishThrough : Nat
  oldRoot : Nat
  oldSize : Nat
  deriving DecidableEq, Repr

/-! ## Records of runs -/

structure AppendStreamRunRecord where
  ticketId : Nat
  offset : Nat
  len : Nat
  run : AppendLogRun
  deriving DecidableEq, Repr

def maxStreamDataLogSyncGroupBytes : Nat := 32 * 1024 * 1024

/-- The integrity of two payloads, one after the other; `combine` is `crc32c_combine`. -/
def combineSegmentPayloadIntegrity (combine : Nat → Nat → Nat → Nat)
    (left right : SegmentPayloadIntegrity) (rightLen : Nat) : SegmentPayloadIntegrity :=
  match left, right with
  | .crc32c l, .crc32c r => .crc32c (combine l r rightLen)
  | _, _ => .unchecked

namespace AppendStreamRunRecord

def endExclusive (record : AppendStreamRunRecord) : Result Nat :=
  checkedAdd record.offset record.len (invalidArgument "append record end overflows")

/-- The bytes of a record from `start` to `stop`; a proper part is not verified. -/
def slice (record : AppendStreamRunRecord) (start stop : Nat) :
    Result (Option AppendStreamRunRecord) :=
  if start ≥ stop then
    .ok none
  else do
    let recordEnd ← record.endExclusive
    failIf (start < record.offset ∨ stop > recordEnd)
      (invalidArgument "append stream record slice exceeds source record")
    let delta := start - record.offset
    let len := stop - start
    let logPayloadOffset ← checkedAdd record.run.logPayloadOffset delta
      (invalidArgument "append run offset overflows")
    let run : AppendLogRun := { record.run with
      fileOffsetStart := start
      payloadLen := len
      logPayloadOffset := logPayloadOffset
      logRecordBytes := len
      integrity := if start = record.offset ∧ stop = recordEnd then record.run.integrity
        else .unchecked }
    run.validate
    return some ⟨record.ticketId, start, len, run⟩

/-- One record for two, where the second goes on in the file and in the log where the
first ends. -/
def coalesceWith (combine : Nat → Nat → Nat → Nat) (record next : AppendStreamRunRecord) :
    Result (Option AppendStreamRunRecord) := do
  let recordEnd ← record.endExclusive
  if recordEnd ≠ next.offset ∨ record.run.logRecordBytes ≠ record.run.payloadLen ∨
      next.run.logRecordBytes ≠ next.run.payloadLen ∨
      record.run.storageNode ≠ next.run.storageNode ∨ record.run.streamId ≠ next.run.streamId ∨
      record.run.writerEpoch ≠ next.run.writerEpoch ∨ record.run.keyspaceId ≠ next.run.keyspaceId ∨
      record.run.fileId ≠ next.run.fileId ∨ record.run.logId ≠ next.run.logId ∨
      record.run.fileOffsetStart ≠ record.offset ∨ next.run.fileOffsetStart ≠ next.offset ∨
      record.run.logPayloadOffset + record.run.payloadLen ≥ u64Bound ∨
      record.run.logPayloadOffset + record.run.payloadLen ≠ next.run.logPayloadOffset then
    return none
  else
    let len ← checkedAdd record.len next.len (invalidArgument "append run length overflows")
    if len > maxStreamDataLogSyncGroupBytes then
      return none
    else
      let run : AppendLogRun := { record.run with
        payloadLen := len
        logRecordBytes := len
        integrity := combineSegmentPayloadIntegrity combine record.run.integrity next.run.integrity
          next.len }
      run.validate
      return some ⟨record.ticketId, record.offset, len, run⟩

def extent (record : AppendStreamRunRecord) : Result RunBackedFileExtent := do
  let extent : RunBackedFileExtent := ⟨record.offset, record.len, record.run.fullRange⟩
  extent.validate
  return extent

end AppendStreamRunRecord

def retainRecords (publishThrough : Nat) (records : List AppendStreamRunRecord) :
    Result (List AppendStreamRunRecord) := do
  let kept ← records.mapM fun record => do
    let recordEnd ← record.endExclusive
    if recordEnd ≤ publishThrough then
      return none
    else if record.offset < publishThrough then
      record.slice publishThrough recordEnd
    else
      return some record
  return kept.reduceOption

/-! ## The state of a stream -/

structure AppendStreamState where
  keyspaceId : Nat
  fileId : Nat
  streamId : Nat
  baseWriterEpoch : Nat
  writerEpoch : Nat
  baseVersion : Nat
  visibleBaseSize : Nat
  acceptedTail : Nat
  durableThrough : Nat
  publishedThrough : Nat
  status : AppendStreamStatus
  records : List AppendStreamRunRecord
  deriving DecidableEq, Repr

def staleAppendStream : StorageError := conflict "stale append stream"

def stalePublishTicket : StorageError := conflict "stale append publish ticket"

def publishInFlightForFile : StorageError := conflict "append publish already in flight for file"

def contiguousTail : Nat → List AppendStreamRunRecord → Result Nat
  | expected, [] => .ok expected
  | expected, record :: records => do
    let stop ← record.endExclusive
    if stop ≤ expected then
      contiguousTail expected records
    else if record.offset > expected then
      return expected
    else
      contiguousTail stop records

def selectRecords (stop : Nat) : Nat → List AppendStreamRunRecord → Result (List AppendStreamRunRecord)
  | _, [] => .error (conflict "append-run publish requires contiguous durable records")
  | expected, record :: records => do
    let recordEnd ← record.endExclusive
    if recordEnd ≤ expected then
      selectRecords stop expected records
    else if record.offset > expected then
      throw (conflict "append-run publish requires contiguous durable records")
    else
      match ← record.slice expected (min recordEnd stop) with
      | none =>
        if expected = stop then return [] else selectRecords stop expected records
      | some piece =>
        let next ← piece.endExclusive
        if next = stop then
          return [piece]
        else
          let rest ← selectRecords stop next records
          return piece :: rest

namespace AppendStreamState

def publicStream (state : AppendStreamState) : AppendStream :=
  ⟨state.keyspaceId, state.fileId, state.streamId, state.writerEpoch, state.baseVersion,
    state.visibleBaseSize⟩

def validateToken (state : AppendStreamState) (stream : AppendStream) : Result Unit :=
  failIf (state.publicStream ≠ stream ∨ state.status ≠ .active) staleAppendStream

def contiguousRecordTailFrom (state : AppendStreamState) (start : Nat) : Result Nat :=
  contiguousTail start state.records

def publishRecords (state : AppendStreamState) (start stop : Nat) :
    Result (List AppendStreamRunRecord) := do
  failIf (start ≥ stop) (invalidArgument "append stream publish range must not be empty")
  selectRecords stop start state.records

end AppendStreamState

/-! ## Identifiers of streams and tickets -/

structure AppendStreamAllocator where
  incarnation : Nat
  nextCounter : Nat
  deriving DecidableEq, Repr

def AppendStreamAllocator.nextRaw (allocator : AppendStreamAllocator) :
    Result (Nat × AppendStreamAllocator) := do
  failIf (allocator.nextCounter + 1 ≥ u64Bound) (conflict "append stream counter overflow")
  return (allocator.incarnation * u64Bound + allocator.nextCounter,
    { allocator with nextCounter := allocator.nextCounter + 1 })

end CowStore.Local
