import CowStore.Lib.Run
import Mathlib.Data.Fin.VecNotation
import Mathlib.Data.Fintype.Basic

/-!
# The locks of the durable coordinator

Four kinds of call meet on three shared objects: the metadata persist gate (a
read/write lock), the persist lock (a mutex) and the persist coordinator's
in-flight flag, which is a field that its waiters follow through a condition
variable.  A party is one thread inside one call, and `PC` lists the program
points between which it can be descheduled.  `PC.next` is the control flow of the
calls, `PC.holdsFlag` and its siblings say which guards are alive at a point, and
`step` moves one party, taking what the new point holds and the old one does not.

The gate's fairness is the operating system's choice, so it is the parameter
`writerFirst`: under it a reader also waits while a writer is queued.

What a party waits for outside these objects (payload prestaging by writers, the
coalescing timer of a batch leader) ends by itself and has no program point of its
own beyond the one it happens at.
-/

namespace CowStore.Durable

inductive Caller
  /-- `persist_until`. -/
  | persistUntil
  /-- `persist_block_deltas_until`, the flush of a block device. -/
  | blockFlush
  /-- `persist_now`, called by creates, forks, releases and at the end of a GC. -/
  | persistNow
  /-- `persist_now` inside `fold_compact_deltas_before_gc`. -/
  | fold
  /-- `persist_pending_compact_deltas_until` inside the publish loop. -/
  | drain
  /-- `persist_now` inside the publish loop. -/
  | replan
  deriving DecidableEq, Repr

/-- How the closure of `persist_append_publish_ticket_batch` ended. -/
inductive BatchStep
  | published
  | needsFullPersist
  | failed
  deriving DecidableEq, Repr

/-- Program points of the calls.  A number is the generation (or the count of
notifications) the party saw when it began to wait. -/
inductive PC
  /-- `wait_append_publish` before its lane's leader has been decided. -/
  | laneEnter
  /-- Leader of the lane, gathering the batch. -/
  | coalesce
  /-- At `read_lock(metadata_persist_gate)`. -/
  | gateRead
  /-- Planning the tickets of the batch. -/
  | planning
  /-- Head of the loop of `begin_ordered_append_publish_persist`. -/
  | beginOrdered
  /-- Its wait on the coordinator's condition variable. -/
  | beginWait (generation : Nat)
  /-- Syncing pending payload. -/
  | payloadSync
  /-- At `lock(persist_lock)`, reached when payload was pending. -/
  | journalLock
  /-- Appending to the journal, with or without the persist lock. -/
  | journal (guarded : Bool)
  /-- At `finish_ordered_append_publish_persist`. -/
  | finishOrdered (ok : Bool)
  /-- Leaving the closure. -/
  | readReturn (r : BatchStep)
  /-- After the closure, the gate dropped. -/
  | afterBatch (r : BatchStep)
  /-- About to clear the lane's flag. -/
  | laneClear
  /-- Head of the loop of a persist call. -/
  | enter (c : Caller)
  /-- Waiting there for the flag or a new generation. -/
  | wait (c : Caller) (generation : Nat)
  /-- Waiting there for the next notification. -/
  | nowWait (c : Caller) (notifies : Nat)
  /-- At `write_lock(metadata_persist_gate)`. -/
  | gateWrite (c : Caller)
  /-- Waiting for prestaged block payload. -/
  | prestage (c : Caller)
  /-- At `lock(persist_lock)`. -/
  | persistLock (c : Caller)
  /-- Writing the rows. -/
  | rows (c : Caller)
  /-- Returning from the physical persist. -/
  | writeReturn (c : Caller) (ok : Bool)
  /-- About to clear the in-flight flag. -/
  | clear (c : Caller) (ok : Bool)
  /-- The sweep of `run_metadata_custodian`. -/
  | sweep
  | finished
  deriving DecidableEq, Repr

/-- Calls made inside the publish loop, under the leadership of a lane. -/
def Caller.inBatch : Caller → Bool
  | .drain | .replan => true
  | _ => false

namespace PC

/-- The in-flight flag was set by this party and not cleared yet. -/
def holdsFlag : PC → Bool
  | payloadSync | journalLock | journal _ | finishOrdered _ => true
  | gateWrite _ | prestage _ | persistLock _ | rows _ | writeReturn _ _ | clear _ _ => true
  | _ => false

def holdsRead : PC → Bool
  | planning | beginOrdered | beginWait _ | payloadSync | journalLock | journal _ => true
  | finishOrdered _ | readReturn _ => true
  | _ => false

def holdsWrite : PC → Bool
  | prestage _ | persistLock _ | rows _ | writeReturn _ _ => true
  | _ => false

def holdsLock : PC → Bool
  | journal guarded => guarded
  | rows _ => true
  | _ => false

def holdsLane : PC → Bool
  | coalesce | gateRead | planning | beginOrdered | beginWait _ | payloadSync => true
  | journalLock | journal _ | finishOrdered _ | readReturn _ | afterBatch _ | laneClear => true
  | enter c | wait c _ | nowWait c _ | gateWrite c | prestage c | persistLock c => c.inBatch
  | rows c | writeReturn c _ | clear c _ => c.inBatch
  | _ => false

def queuesWrite : PC → Bool
  | gateWrite _ => true
  | _ => false

def inBegin : PC → Bool
  | beginOrdered | beginWait _ => true
  | _ => false

end PC

/-- The shared objects.  The owner of a guard or of the flag is recorded with it;
the code has only the guard and a boolean. -/
structure Shared (ι Lane : Type) where
  /-- Holders of read guards of the gate. -/
  readers : Finset ι
  /-- Holder of the write guard of the gate. -/
  writer : Option ι
  persistLock : Option ι
  inFlight : Option ι
  generation : Nat
  /-- Generation of the error the last failed round left. -/
  lastError : Option Nat
  /-- Calls of `notify_all` on the coordinator's condition variable. -/
  notifies : Nat
  /-- Leader of each publish lane. -/
  leader : Lane → Option ι

structure LockState (ι Lane : Type) where
  shared : Shared ι Lane
  pc : ι → PC

/-- Where a waiter goes when the required commit turns out to be durable. -/
def Caller.reached : Caller → PC
  | .drain => .gateRead
  | _ => .finished

/-- Where a waiter goes when the round it waited for failed. -/
def Caller.failed : Caller → PC
  | .drain | .replan => .laneClear
  | _ => .finished

/-- Where a party goes after its own round, the flag cleared. -/
def Caller.returned : Caller → Bool → List PC
  | .persistUntil, _ | .blockFlush, _ | .persistNow, _ => [.finished]
  | .fold, ok => [if ok then .sweep else .finished]
  | .drain, true => [.gateRead, .enter .drain]
  | .replan, true => [.gateRead]
  | .drain, false | .replan, false => [.laneClear]

section

variable {ι Lane : Type} [DecidableEq ι] [Fintype ι]

namespace PC

/-- The points that may follow a point.  An empty list is a wait whose condition
does not hold; the conditions of the guards themselves are in `available`. -/
def next (s : Shared ι Lane) (busy : Bool) : PC → List PC
  | laneEnter => if busy then [] else [finished, coalesce]
  | coalesce => [gateRead, laneClear]
  | gateRead => [planning]
  | planning => [afterBatch .needsFullPersist, afterBatch .published, afterBatch .failed,
      beginOrdered]
  | beginOrdered => [if s.inFlight = none then payloadSync else beginWait s.generation]
  | beginWait g =>
      if s.inFlight ≠ none ∧ s.generation = g then []
      else if s.generation ≠ g ∧ s.lastError = some s.generation then [readReturn .failed]
      else [beginOrdered]
  | payloadSync => [journalLock, journal false, finishOrdered false]
  | journalLock => [journal true]
  | journal _ => [finishOrdered true, finishOrdered false]
  | finishOrdered ok => [readReturn (if ok then .published else .failed)]
  | readReturn r => [afterBatch r]
  | afterBatch .needsFullPersist => [enter .drain]
  | afterBatch _ => [laneClear]
  | laneClear => [laneEnter, finished]
  | enter .drain =>
      .gateRead :: (if s.inFlight = none then [enter .replan, gateWrite .drain]
        else [wait .drain s.generation])
  | enter .persistUntil =>
      [finished, if s.inFlight = none then gateWrite .persistUntil
        else wait .persistUntil s.generation]
  | enter .blockFlush =>
      -- with no delta to write the round ends without touching the gate
      finished :: (if s.inFlight = none then [gateWrite .blockFlush, clear .blockFlush true]
        else [wait .blockFlush s.generation])
  | enter c => [if s.inFlight = none then gateWrite c else nowWait c s.notifies]
  | wait c g =>
      if s.inFlight ≠ none ∧ s.generation = g then []
      else c.reached ::
        (if s.generation ≠ g ∧ s.lastError = some s.generation then [c.failed] else [enter c])
  | nowWait c n => if s.notifies = n then [] else [enter c]
  | gateWrite c => [prestage c]
  | prestage c => [persistLock c, writeReturn c false]
  | persistLock c => [rows c]
  | rows c => [writeReturn c true, writeReturn c false]
  | writeReturn c ok => [clear c ok]
  | clear c ok => c.returned ok
  | sweep => [enter .persistNow]
  | finished => []

/-- What leaving a point does to the coordinator's generation, error and
notification fields. -/
def signal (s : Shared ι Lane) : PC → Shared ι Lane
  | finishOrdered ok | clear _ ok =>
      { s with
        generation := s.generation + 1
        lastError := if ok then none else some (s.generation + 1)
        notifies := s.notifies + 1 }
  | afterBatch .failed =>
      { s with
        generation := s.generation + 1
        lastError := some (s.generation + 1)
        notifies := s.notifies + 1 }
  | afterBatch _ => { s with lastError := none, notifies := s.notifies + 1 }
  | _ => s

end PC

/-- The owner of an exclusive object after a party that held it (`had`) moves to a
point where it does or does not (`has`). -/
def handOver (owner : Option ι) (p : ι) (had has : Bool) : Option ι :=
  if has then some p else if had then none else owner

variable [DecidableEq Lane] (writerFirst : Bool) (lane : ι → Lane)

namespace LockState

def available (s : LockState ι Lane) (p : ι) (pc' : PC) : Prop :=
  let pc := s.pc p
  (pc'.holdsFlag = true → pc.holdsFlag = false → s.shared.inFlight = none) ∧
  (pc'.holdsWrite = true → pc.holdsWrite = false →
    s.shared.writer = none ∧ s.shared.readers = ∅) ∧
  (pc'.holdsRead = true → pc.holdsRead = false →
    s.shared.writer = none ∧ (writerFirst = true → ∀ q, (s.pc q).queuesWrite = false)) ∧
  (pc'.holdsLock = true → pc.holdsLock = false → s.shared.persistLock = none) ∧
  (pc'.holdsLane = true → pc.holdsLane = false → s.shared.leader (lane p) = none)

instance (s : LockState ι Lane) (p : ι) (pc' : PC) :
    Decidable (s.available writerFirst lane p pc') := by
  unfold available
  infer_instance

/-- The guards after `p` has gone to `pc'`: taken where the new point holds one,
dropped where only the old one did. -/
def regrip (s : LockState ι Lane) (p : ι) (pc' : PC) : Shared ι Lane :=
  let pc := s.pc p
  { s.shared with
    readers := if pc'.holdsRead then insert p s.shared.readers else s.shared.readers.erase p
    writer := handOver s.shared.writer p pc.holdsWrite pc'.holdsWrite
    persistLock := handOver s.shared.persistLock p pc.holdsLock pc'.holdsLock
    inFlight := handOver s.shared.inFlight p pc.holdsFlag pc'.holdsFlag
    leader := Function.update s.shared.leader (lane p)
      (handOver (s.shared.leader (lane p)) p pc.holdsLane pc'.holdsLane) }

/-- `p` goes to `pc'`: guards change hands, and the old point signals. -/
def move (s : LockState ι Lane) (p : ι) (pc' : PC) : LockState ι Lane :=
  { shared := (s.pc p).signal (s.regrip lane p pc'), pc := Function.update s.pc p pc' }

def step (s : LockState ι Lane) (p : ι) (pc' : PC) : Option (LockState ι Lane) :=
  if pc' ∈ (s.pc p).next s.shared (s.shared.leader (lane p)).isSome ∧
      s.available writerFirst lane p pc' then
    some (s.move lane p pc')
  else none

end LockState
end

end CowStore.Durable
