import CowStore.Local.Keyspace

/-!
# Append streams of a file

Opening a stream fences the streams of the file that are active.  Bytes are accepted at
the tail of a stream, and a ticket stands for a publish of a prefix of them.
-/

namespace CowStore.Local

open Lib Object StorageError

namespace MetadataInner

variable (s : MetadataInner)

/-- The stream of a token, which must be its current one. -/
def activeStream (stream : AppendStream) : Result AppendStreamState := do
  let state ← orFail (s.appendStreams.lookup stream.streamId) staleAppendStream
  state.validateToken stream
  return state

def streamsOfFile (keyspaceId fileId : Nat) : List AppendStreamState :=
  s.appendStreams.values.filter fun stream =>
    stream.keyspaceId = keyspaceId ∧ stream.fileId = fileId

def fenceStreams (keyspaceId fileId : Nat) : MetadataInner :=
  { s with
    appendStreams := s.appendStreams.rows.foldl (fun streams row =>
      if row.2.keyspaceId = keyspaceId ∧ row.2.fileId = fileId ∧ row.2.status = .active then
        streams.insert row.1 { row.2 with status := .fenced }
      else streams) s.appendStreams }

end MetadataInner

def insertAppendStream (streamId keyspaceId fileId : Nat) : MetadataOp AppendStream := do
  let s ← get
  failIf (s.appendPublishInFlightForFile keyspaceId fileId) publishInFlightForFile
  let head ← s.getFileHead keyspaceId fileId
  let persistedEpoch := s.fileWriterEpoch keyspaceId fileId
  let streams := s.streamsOfFile keyspaceId fileId
  let replayBaseEpoch := (maxByKey id (streams.map fun stream =>
    if stream.durableThrough > stream.visibleBaseSize then stream.writerEpoch
    else stream.baseWriterEpoch)).getD persistedEpoch
  let currentEpoch := ((streams.filter (·.status = .active)).map (·.writerEpoch)).foldl max
    persistedEpoch
  failIf (currentEpoch + 1 ≥ u64Bound) (conflict "writer epoch overflow")
  let stream : AppendStreamState := ⟨keyspaceId, fileId, streamId, replayBaseEpoch,
    currentEpoch + 1, head.version, head.size, head.size, head.size, head.size, .active, []⟩
  let fenced := s.fenceStreams keyspaceId fileId
  set { fenced with
    fileWriterEpochs := s.fileWriterEpochs.insert (keyspaceId, fileId) (currentEpoch + 1)
    appendStreams := fenced.appendStreams.insert streamId stream }
  return stream.publicStream

def MetadataInner.prepareAppendStreamRange (s : MetadataInner) (stream : AppendStream) (len : Nat) :
    Result ByteRange := do
  failIf (len = 0) (invalidArgument "append payload must not be empty")
  let _ ← s.getFileHead stream.keyspaceId stream.fileId
  let state ← s.activeStream stream
  let _ ← checkedAdd state.acceptedTail len
    (invalidArgument "append stream tail overflows file")
  return ⟨state.acceptedTail, len⟩

/-- The records of a stream with one more, which the last one may take up. -/
def AppendStreamState.pushRecord (combine : Nat → Nat → Nat → Nat) (state : AppendStreamState)
    (record : AppendStreamRunRecord) : Result (List AppendStreamRunRecord) :=
  match state.records.getLast? with
  | none => .ok (state.records ++ [record])
  | some last => do
    let lastEnd ← last.endExclusive
    if lastEnd > state.durableThrough then
      match ← last.coalesceWith combine record with
      | some coalesced => return state.records.dropLast ++ [coalesced]
      | none => return state.records ++ [record]
    else
      return state.records ++ [record]

def recordAppendStreamRun (combine : Nat → Nat → Nat → Nat) (stream : AppendStream)
    (ticketId : Nat) (range : ByteRange) (run : AppendLogRun) : MetadataOp AppendTicket := do
  failIf (range.len = 0) (invalidArgument "append payload must not be empty")
  run.validate
  failIf (run.streamId ≠ stream.streamId ∨ run.writerEpoch ≠ stream.writerEpoch ∨
      run.keyspaceId ≠ stream.keyspaceId ∨ run.fileId ≠ stream.fileId ∨
      run.fileOffsetStart ≠ range.offset ∨ run.payloadLen ≠ range.len)
    (invalidArgument "append run does not match stream record range")
  let s ← get
  let _ ← s.getFileHead stream.keyspaceId stream.fileId
  let state ← s.activeStream stream
  let nextTail ← range.endExclusive
  failIf (range.offset ≠ state.acceptedTail)
    (conflict "append stream record must start at accepted tail")
  let lastEnd ← (match state.records.getLast? with
    | some last => last.endExclusive
    | none => .ok 0 : Result Nat)
  failIf (range.offset < lastEnd) (conflict "append stream records must commit in stream order")
  let records ← state.pushRecord combine ⟨ticketId, range.offset, range.len, run⟩
  set { s with
    appendStreams := s.appendStreams.insert stream.streamId
      { state with records := records, acceptedTail := nextTail } }
  return ⟨stream.keyspaceId, stream.fileId, stream.streamId, ticketId, stream.writerEpoch, range⟩

def markAppendStreamDurable (stream : AppendStream) : MetadataOp Nat := do
  let s ← get
  let state ← s.activeStream stream
  let durableThrough ← state.contiguousRecordTailFrom state.durableThrough
  set { s with
    appendStreams := s.appendStreams.insert stream.streamId { state with durableThrough } }
  return durableThrough

def markAppendStreamDurableThrough (stream : AppendStream) (durableThrough : Nat) :
    MetadataOp Nat := do
  let s ← get
  let state ← s.activeStream stream
  if durableThrough ≤ state.durableThrough then
    return state.durableThrough
  else
    let tail ← state.contiguousRecordTailFrom state.durableThrough
    failIf (durableThrough > tail) (conflict "append stream durable high-water is not valid")
    set { s with
      appendStreams := s.appendStreams.insert stream.streamId { state with durableThrough } }
    return durableThrough

def markAppendStreamPublished (stream : AppendStream) (publishedThrough : Nat) :
    MetadataOp Unit := do
  let s ← get
  let state ← s.activeStream stream
  set { s with
    appendStreams := s.appendStreams.insert stream.streamId { state with publishedThrough } }
  let records ← retainRecords publishedThrough state.records
  set { s with
    appendStreams := s.appendStreams.insert stream.streamId
      { state with publishedThrough, records } }

def endAppendStream (status : AppendStreamStatus) (stream : AppendStream) : MetadataOp Unit := do
  let s ← get
  failIf (s.appendPublishInFlightForStream stream)
    (conflict "append publish already in flight for stream")
  let state ← s.activeStream stream
  set { s with appendStreams := s.appendStreams.insert stream.streamId { state with status } }

def invalidateAppendStreamsForFile (keyspaceId fileId : Nat) : MetadataOp Unit := do
  let s ← get
  failIf (s.appendPublishInFlightForFile keyspaceId fileId) publishInFlightForFile
  set (s.fenceStreams keyspaceId fileId)

/-! ## Publish tickets -/

abbrev AppendPublishTickets := Table Nat AppendPublishTicketRecord

namespace MetadataInner

variable (s : MetadataInner)

/-- The bytes that a publish of the stream may make visible reach through `publishThrough`. -/
def checkPublishThrough (state : AppendStreamState) (publishThrough : Nat) : Result Unit := do
  failIf (publishThrough ≤ state.publishedThrough)
    (invalidArgument "append publish target must advance published stream prefix")
  failIf (publishThrough > state.acceptedTail)
    (conflict "append publish target exceeds accepted stream bytes")
  let tail ← state.contiguousRecordTailFrom state.publishedThrough
  failIf (publishThrough > tail)
    (conflict "append publish target exceeds contiguous stream records")

def checkAppendPublish (stream : AppendStream) (ticketId publishThrough : Nat) :
    Result AppendPublishTicket := do
  let state ← s.activeStream stream
  failIf (s.appendPublishInFlightForFile stream.keyspaceId stream.fileId) publishInFlightForFile
  checkPublishThrough state publishThrough
  return ⟨stream.keyspaceId, stream.fileId, stream.streamId, ticketId, stream.writerEpoch,
    publishThrough⟩

def appendPublishTicketStatus (tickets : AppendPublishTickets) (ticket : AppendPublishTicket) :
    Result AppendPublishTicketStatus := do
  let record ← orFail (tickets.lookup ticket.ticketId) stalePublishTicket
  failIf (record.ticket ≠ ticket) stalePublishTicket
  match record.completed with
  | some commit => return .completed commit
  | none =>
    let state ← orFail (s.appendStreams.lookup ticket.streamId) stalePublishTicket
    failIf (state.keyspaceId ≠ ticket.keyspaceId ∨ state.fileId ≠ ticket.fileId ∨
      state.streamId ≠ ticket.streamId ∨ state.writerEpoch ≠ ticket.writerEpoch ∨
      state.status ≠ .active ∨ ticket.publishThrough ≤ state.publishedThrough ∨
      ticket.publishThrough > state.acceptedTail) stalePublishTicket
    let tail ← state.contiguousRecordTailFrom state.publishedThrough
    failIf (ticket.publishThrough > tail) stalePublishTicket
    failIf (s.appendPublishInFlightForFile ticket.keyspaceId ticket.fileId) publishInFlightForFile
    return .pending state.publicStream

def appendStreamPublishRecords (stream : AppendStream) (start stop : Nat) :
    Result (List AppendStreamRunRecord) := do
  let state ← s.activeStream stream
  failIf (start ≠ state.publishedThrough)
    (conflict "append publish start no longer matches stream high-water")
  checkPublishThrough state stop
  state.publishRecords start stop

end MetadataInner

def pendingAppendPublishTickets (tickets : AppendPublishTickets) : List AppendPublishTicket :=
  (tickets.values.filter (·.completed = none)).map (·.ticket)

def completeAppendPublishTicket (tickets : AppendPublishTickets) (ticket : AppendPublishTicket)
    (commit : AppendPublishCommit) : Result AppendPublishTickets := do
  let record ← orFail (tickets.lookup ticket.ticketId) stalePublishTicket
  failIf (record.ticket ≠ ticket) stalePublishTicket
  return tickets.insert ticket.ticketId { record with completed := some commit }

end CowStore.Local
