import CowStore.Base
import CowStore.Lib.Run
import Mathlib.Algebra.Order.BigOperators.Group.List

/-!
# The admission gate of append ingest

An append takes a permit for its bytes and waits on a condition variable while the permits that
are out, together with its own bytes, exceed a limit; when none is out it is let in however
large it is.  Dropping a permit wakes all that wait.  The tasks run in any order, a task may be
woken for no reason, and the lock of the gate is held from one turn of a task to the next.
-/

namespace CowStore.Durable.IngestGate

open Lib

/-- Where a task is in `acquire_with_limit` and in `drop`. -/
inductive Task
  | entering (bytes : Nat)
  | checking (bytes : Nat)
  | asleep (bytes : Nat)
  | woken (bytes : Nat)
  | holding (bytes : Nat)
  | dropping (bytes : Nat)
  | notifying
  | done
  deriving DecidableEq, Repr

def Task.permit : Task → Option Nat
  | holding bytes | dropping bytes => some bytes
  | _ => none

def Task.Inside : Task → Prop
  | checking _ | notifying => True
  | _ => False

def Task.wake : Task → Task
  | asleep bytes => woken bytes
  | task => task

/-- The gate, the task that holds its lock, and all tasks there have been. -/
structure AppendIngestAdmissionGate where
  inFlightBytes : Nat
  lock : Option Nat
  tasks : List Task
  deriving DecidableEq, Repr

def AppendIngestAdmissionGate.default : AppendIngestAdmissionGate := ⟨0, none, []⟩

def MustWait (maxInFlightBytes inFlightBytes bytes : Nat) : Prop :=
  inFlightBytes ≠ 0 ∧ saturatingAdd inFlightBytes bytes > maxInFlightBytes

instance (maxInFlightBytes inFlightBytes bytes : Nat) :
    Decidable (MustWait maxInFlightBytes inFlightBytes bytes) := inferInstanceAs (Decidable (_ ∧ _))

namespace AppendIngestAdmissionGate

def permits (s : AppendIngestAdmissionGate) : List Nat := s.tasks.filterMap Task.permit

def go (maxInFlightBytes : Nat) (s : AppendIngestAdmissionGate) (i : Nat) :
    Task → Option AppendIngestAdmissionGate
  | .entering bytes | .woken bytes =>
    if s.lock = none then some ⟨s.inFlightBytes, some i, s.tasks.set i (.checking bytes)⟩ else none
  | .checking bytes =>
    -- waiting gives the lock back, and so does the return with a permit
    if MustWait maxInFlightBytes s.inFlightBytes bytes then
      some ⟨s.inFlightBytes, none, s.tasks.set i (.asleep bytes)⟩
    else
      some ⟨saturatingAdd s.inFlightBytes bytes, none, s.tasks.set i (.holding bytes)⟩
  | .dropping bytes =>
    if s.lock = none then some ⟨s.inFlightBytes - bytes, some i, s.tasks.set i .notifying⟩ else none
  | .notifying => some ⟨s.inFlightBytes, none, (s.tasks.set i .done).map Task.wake⟩
  | .asleep _ | .holding _ | .done => none

end AppendIngestAdmissionGate

inductive Turn
  /-- A task asks for a permit. -/
  | request (bytes : Nat)
  /-- The permit of task `i` goes out of scope. -/
  | drop (i : Nat)
  /-- Task `i` wakes up for no reason. -/
  | wake (i : Nat)
  | run (i : Nat)
  deriving DecidableEq, Repr

def step (maxInFlightBytes : Nat) (s : AppendIngestAdmissionGate) :
    Turn → Option AppendIngestAdmissionGate
  | .request bytes =>
    if 0 < bytes ∧ bytes < u64Bound then some { s with tasks := s.tasks ++ [.entering bytes] }
    else none
  | .drop i =>
    match s.tasks[i]? with
    | some (.holding bytes) => some { s with tasks := s.tasks.set i (.dropping bytes) }
    | _ => none
  | .wake i =>
    match s.tasks[i]? with
    | some (.asleep bytes) => some { s with tasks := s.tasks.set i (.woken bytes) }
    | _ => none
  | .run i => s.tasks[i]?.bind (s.go maxInFlightBytes i)

/-! ## The invariant -/

def Task.Sized : Task → Prop
  | entering bytes | checking bytes | asleep bytes | woken bytes | holding bytes | dropping bytes =>
    0 < bytes ∧ bytes < u64Bound
  | notifying | done => True

structure Sound (limit : Nat) (s : AppendIngestAdmissionGate) : Prop where
  counted : s.inFlightBytes = s.permits.sum
  bounded : s.inFlightBytes ≤ limit ∨ s.permits.length = 1
  sized : ∀ t ∈ s.tasks, t.Sized
  locked : ∀ i t, s.tasks[i]? = some t → t.Inside → s.lock = some i
  awaited : ∀ bytes, .asleep bytes ∈ s.tasks →
    MustWait limit s.inFlightBytes bytes ∨ .notifying ∈ s.tasks

theorem exists_around {α : Type} {xs : List α} {i : Nat} {a : α} (h : xs[i]? = some a) :
    ∃ pre post, xs = pre ++ a :: post ∧ ∀ b, xs.set i b = pre ++ b :: post := by
  induction xs generalizing i with
  | nil => cases h
  | cons x xs ih =>
    cases i with
    | zero =>
      cases h
      exact ⟨[], xs, rfl, fun _ => rfl⟩
    | succ i =>
      obtain ⟨pre, post, rfl, hset⟩ := ih h
      exact ⟨x :: pre, post, rfl, fun b => congrArg (x :: ·) (hset b)⟩

section

variable {limit i : Nat} {s : AppendIngestAdmissionGate} {t : Task}

variable {bytes : Nat} {t' : Task}

theorem locked_keep (h : Sound limit s) (ht' : ¬ t'.Inside) :
    ∀ j u, (s.tasks.set i t')[j]? = some u → u.Inside → s.lock = some j := by
  intro j u hu hin
  rw [List.getElem?_set] at hu
  split at hu
  · split at hu
    · cases hu
      exact absurd hin ht'
    · cases hu
  · exact h.locked j u hu hin

theorem locked_take (h : Sound limit s) (hfree : s.lock = none) (t' : Task) :
    ∀ j u, (s.tasks.set i t')[j]? = some u → u.Inside → some i = some j := by
  intro j u hu hin
  rw [List.getElem?_set] at hu
  split at hu
  · next heq => rw [heq]
  · cases (h.locked j u hu hin).symm.trans hfree

theorem locked_give (h : Sound limit s) (ht : s.tasks[i]? = some t) (hin : t.Inside)
    (ht' : ¬ t'.Inside) : ∀ (j : Nat) (u : Task), (s.tasks.set i t')[j]? = some u → ¬ u.Inside := by
  intro j u hu huin
  have hi := h.locked i t ht hin
  rw [List.getElem?_set] at hu
  split at hu
  · split at hu
    · cases hu
      exact ht' huin
    · cases hu
  · next hne => exact hne (Option.some.inj (hi.symm.trans (h.locked j u hu huin)))

theorem Sound.move (h : Sound limit s) (ht : s.tasks[i]? = some t) {lock : Option Nat}
    (hpermit : t'.permit = t.permit) (hsized : t.Sized → t'.Sized) (hnot : t ≠ .notifying)
    (hlock : ∀ j u, (s.tasks.set i t')[j]? = some u → u.Inside → lock = some j)
    (hasleep : ∀ bytes, t' = .asleep bytes → MustWait limit s.inFlightBytes bytes) :
    Sound limit ⟨s.inFlightBytes, lock, s.tasks.set i t'⟩ := by
  obtain ⟨pre, post, heq, hset⟩ := exists_around ht
  have hpermits : (s.tasks.set i t').filterMap Task.permit = s.permits := by
    rw [hset, AppendIngestAdmissionGate.permits, heq, List.filterMap_append, List.filterMap_append,
      List.filterMap_cons, List.filterMap_cons, hpermit]
  have hbefore := h.awaited
  have hall := h.sized
  rw [heq] at hbefore hall
  refine ⟨h.counted.trans (congrArg List.sum hpermits.symm), ?_, ?_, hlock, ?_⟩
  · exact h.bounded.imp_right fun hone => (congrArg List.length hpermits).trans hone
  · show ∀ u ∈ s.tasks.set i t', u.Sized
    rw [hset]
    simp only [List.forall_mem_append, List.forall_mem_cons] at hall ⊢
    exact ⟨hall.1, hsized hall.2.1, hall.2.2⟩
  · intro bytes hmem
    show _ ∨ Task.notifying ∈ s.tasks.set i t'
    have hmem : Task.asleep bytes ∈ s.tasks.set i t' := hmem
    rw [hset] at hmem ⊢
    simp only [List.mem_append, List.mem_cons] at hmem hbefore ⊢
    rcases eq_or_ne (Task.asleep bytes) t' with rfl | hne
    · exact .inl (hasleep bytes rfl)
    · refine (hbefore bytes (by tauto)).imp_right ?_
      have hne' : Task.notifying ≠ t := hnot.symm
      tauto

theorem Sound.sized_set (h : Sound limit s) (ht' : t'.Sized) : ∀ u ∈ s.tasks.set i t', u.Sized := by
  intro u hu
  rcases List.mem_or_eq_of_mem_set hu with hu | rfl
  · exact h.sized u hu
  · exact ht'

theorem Sound.permits_eq_nil (h : Sound limit s) (hzero : s.inFlightBytes = 0) : s.permits = [] := by
  rw [List.eq_nil_iff_forall_not_mem]
  intro bytes hmem
  have hle := List.single_le_sum (fun _ _ => Nat.zero_le _) bytes hmem
  obtain ⟨t, ht, hpermit⟩ := List.mem_filterMap.1 hmem
  have hsized := h.sized t ht
  rw [← h.counted, hzero] at hle
  cases t <;> cases hpermit <;> exact absurd hsized.1 (Nat.not_lt.2 hle)

theorem Sound.admit (hlimit : limit < u64Bound - 1) (h : Sound limit s)
    (ht : s.tasks[i]? = some (.checking bytes)) (hlet : ¬ MustWait limit s.inFlightBytes bytes) :
    Sound limit ⟨saturatingAdd s.inFlightBytes bytes, none, s.tasks.set i (.holding bytes)⟩ := by
  obtain ⟨hpos, hlt⟩ : 0 < bytes ∧ bytes < u64Bound := h.sized _ (List.mem_of_getElem? ht)
  have hsum : saturatingAdd s.inFlightBytes bytes = s.inFlightBytes + bytes := by
    unfold MustWait at hlet
    unfold saturatingAdd at hlet ⊢
    omega
  obtain ⟨pre, post, heq, hset⟩ := exists_around ht
  have hold : s.permits = pre.filterMap Task.permit ++ post.filterMap Task.permit := by
    rw [AppendIngestAdmissionGate.permits, heq, List.filterMap_append, List.filterMap_cons]
    rfl
  have hnew : (s.tasks.set i (.holding bytes)).filterMap Task.permit =
      pre.filterMap Task.permit ++ bytes :: post.filterMap Task.permit := by
    rw [hset, List.filterMap_append, List.filterMap_cons]
    rfl
  rw [hsum]
  refine ⟨?_, ?_, h.sized_set ⟨hpos, hlt⟩, ?_, ?_⟩
  · show s.inFlightBytes + bytes = ((s.tasks.set i (.holding bytes)).filterMap Task.permit).sum
    rw [hnew, h.counted, hold, List.sum_append, List.sum_append, List.sum_cons]
    omega
  · by_cases hzero : s.inFlightBytes = 0
    · refine .inr ?_
      have hnil := h.permits_eq_nil hzero
      rw [hold, List.append_eq_nil_iff] at hnil
      show ((s.tasks.set i (.holding bytes)).filterMap Task.permit).length = 1
      rw [hnew, hnil.1, hnil.2]
      rfl
    · refine .inl ?_
      unfold MustWait at hlet
      show s.inFlightBytes + bytes ≤ limit
      omega
  · exact fun j u hu hin => absurd hin (locked_give h ht trivial id j u hu)
  · intro other hmem
    rcases List.mem_or_eq_of_mem_set hmem with hmem | heq
    · refine (h.awaited other hmem).imp ?_ fun hnotify => ?_
      · rintro ⟨hne, hfull⟩
        unfold saturatingAdd at hfull
        refine ⟨by show s.inFlightBytes + bytes ≠ 0; omega, ?_⟩
        show min (s.inFlightBytes + bytes + other) (u64Bound - 1) > limit
        omega
      · show Task.notifying ∈ s.tasks.set i (.holding bytes)
        rw [hset]
        rw [heq] at hnotify
        simpa using hnotify
    · cases heq

theorem Sound.release (h : Sound limit s) (ht : s.tasks[i]? = some (.dropping bytes))
    (hfree : s.lock = none) : Sound limit ⟨s.inFlightBytes - bytes, some i, s.tasks.set i .notifying⟩ := by
  obtain ⟨pre, post, heq, hset⟩ := exists_around ht
  have hold : s.permits = pre.filterMap Task.permit ++ bytes :: post.filterMap Task.permit := by
    rw [AppendIngestAdmissionGate.permits, heq, List.filterMap_append, List.filterMap_cons]
    rfl
  have hnew : (s.tasks.set i .notifying).filterMap Task.permit =
      pre.filterMap Task.permit ++ post.filterMap Task.permit := by
    rw [hset, List.filterMap_append, List.filterMap_cons]
    rfl
  have hcounted := h.counted
  rw [hold, List.sum_append, List.sum_cons] at hcounted
  have hsum : s.inFlightBytes - bytes = ((s.tasks.set i .notifying).filterMap Task.permit).sum := by
    rw [hnew, List.sum_append]
    omega
  refine ⟨hsum, ?_, h.sized_set trivial, locked_take h hfree _, fun _ _ => .inr ?_⟩
  · refine .inl ?_
    show s.inFlightBytes - bytes ≤ limit
    rcases h.bounded with hle | hone
    · omega
    · -- it was the only permit
      rw [hold, List.length_append, List.length_cons] at hone
      rw [hsum, hnew, List.eq_nil_of_length_eq_zero (by omega : (pre.filterMap Task.permit).length = 0),
        List.eq_nil_of_length_eq_zero (by omega : (post.filterMap Task.permit).length = 0)]
      exact Nat.zero_le _
  · show Task.notifying ∈ s.tasks.set i .notifying
    rw [hset]
    simp

theorem permit_wake (t : Task) : t.wake.permit = t.permit := by cases t <;> rfl

theorem not_asleep_wake (t : Task) (bytes : Nat) : t.wake ≠ .asleep bytes := by
  cases t <;> exact nofun

theorem Task.Sized.wake {t : Task} (h : t.Sized) : t.wake.Sized := by cases t <;> exact h

theorem Sound.notify (h : Sound limit s) (ht : s.tasks[i]? = some .notifying) :
    Sound limit ⟨s.inFlightBytes, none, (s.tasks.set i .done).map Task.wake⟩ := by
  obtain ⟨pre, post, heq, hset⟩ := exists_around ht
  have hpermits : ((s.tasks.set i .done).map Task.wake).filterMap Task.permit = s.permits := by
    have hcomp : Task.permit ∘ Task.wake = Task.permit := funext permit_wake
    rw [List.filterMap_map, hcomp, hset, AppendIngestAdmissionGate.permits, heq,
      List.filterMap_append, List.filterMap_append, List.filterMap_cons, List.filterMap_cons]
    rfl
  refine ⟨h.counted.trans (congrArg List.sum hpermits.symm), ?_, ?_, ?_, ?_⟩
  · exact h.bounded.imp_right fun hone => (congrArg List.length hpermits).trans hone
  · intro u hu
    obtain ⟨t, ht, rfl⟩ := List.mem_map.1 hu
    have hdone : Task.done.Sized := trivial
    exact (h.sized_set hdone t ht).wake
  · intro j u hu hin
    have hu : ((s.tasks.set i .done).map Task.wake)[j]? = some u := hu
    rw [List.getElem?_map] at hu
    obtain ⟨t, htj, rfl⟩ := Option.map_eq_some_iff.1 hu
    refine absurd ?_ (locked_give h ht trivial id j t htj)
    cases t <;> exact hin
  · intro bytes hmem
    obtain ⟨t, -, hwake⟩ := List.mem_map.1 hmem
    exact absurd hwake (not_asleep_wake t bytes)

theorem Sound.request (h : Sound limit s) (hbytes : 0 < bytes ∧ bytes < u64Bound) :
    Sound limit { s with tasks := s.tasks ++ [.entering bytes] } := by
  have hpermits : (s.tasks ++ [Task.entering bytes]).filterMap Task.permit = s.permits := by
    rw [List.filterMap_append]
    exact List.append_nil _
  refine ⟨h.counted.trans (congrArg List.sum hpermits.symm), ?_, ?_, ?_, ?_⟩
  · exact h.bounded.imp_right fun hone => (congrArg List.length hpermits).trans hone
  · exact List.forall_mem_append.2 ⟨h.sized, by simpa [Task.Sized] using hbytes⟩
  · intro j u hu hin
    have hu : (s.tasks ++ [Task.entering bytes])[j]? = some u := hu
    rw [List.getElem?_append] at hu
    split at hu
    · exact h.locked j u hu hin
    · cases List.mem_singleton.1 (List.mem_of_getElem? hu)
      exact hin.elim
  · intro other hmem
    rcases List.mem_append.1 hmem with hmem | hmem
    · exact (h.awaited other hmem).imp_right fun hnotify => List.mem_append_left _ hnotify
    · cases List.mem_singleton.1 hmem

theorem Sound.step (hlimit : limit < u64Bound - 1) (h : Sound limit s) {turn : Turn}
    {s' : AppendIngestAdmissionGate} (hstep : step limit s turn = some s') : Sound limit s' := by
  cases turn with
  | request bytes =>
    rw [IngestGate.step] at hstep
    split at hstep
    · next hbytes =>
      cases hstep
      exact h.request hbytes
    · cases hstep
  | drop i =>
    rw [IngestGate.step] at hstep
    split at hstep
    · next bytes ht =>
      cases hstep
      exact h.move ht rfl id nofun (locked_keep h id) nofun
    · cases hstep
  | wake i =>
    rw [IngestGate.step] at hstep
    split at hstep
    · next bytes ht =>
      cases hstep
      exact h.move ht rfl id nofun (locked_keep h id) nofun
    · cases hstep
  | run i =>
    obtain ⟨t, ht, hgo⟩ := Option.bind_eq_some_iff.1 hstep
    cases t with
    | entering bytes | woken bytes =>
      rw [AppendIngestAdmissionGate.go] at hgo
      split at hgo
      · next hfree =>
        cases hgo
        exact h.move ht rfl id nofun (locked_take h hfree _) nofun
      · cases hgo
    | checking bytes =>
      rw [AppendIngestAdmissionGate.go] at hgo
      split at hgo
      · next hwait =>
        cases hgo
        refine h.move ht rfl id nofun
          (fun j u hu hin => absurd hin (locked_give h ht trivial id j u hu)) ?_
        rintro _ ⟨⟩
        exact hwait
      · next hlet =>
        cases hgo
        exact h.admit hlimit ht hlet
    | dropping bytes =>
      rw [AppendIngestAdmissionGate.go] at hgo
      split at hgo
      · next hfree =>
        cases hgo
        exact h.release ht hfree
      · cases hgo
    | notifying =>
      cases hgo
      exact h.notify ht
    | asleep bytes | holding bytes | done => cases hgo

end

/-- In every interleaving the counter is the sum of the permits that are out, it exceeds the
limit only while there is exactly one, and a task is asleep without need only while another one,
which holds the lock, is about to wake it. -/
theorem gate_sound {limit : Nat} (hlimit : limit < u64Bound - 1) (turns : List Turn) :
    (afterTurns (step limit) .default turns).inFlightBytes =
        (afterTurns (step limit) .default turns).permits.sum ∧
      (limit < (afterTurns (step limit) .default turns).inFlightBytes →
        (afterTurns (step limit) .default turns).permits.length = 1) ∧
      ∀ (i : Nat) (bytes : Nat),
        (afterTurns (step limit) .default turns).tasks[i]? = some (.asleep bytes) →
        ¬ MustWait limit (afterTurns (step limit) .default turns).inFlightBytes bytes →
        ∃ j, (afterTurns (step limit) .default turns).tasks[j]? = some .notifying ∧
          (afterTurns (step limit) .default turns).lock = some j := by
  have hsound : Sound limit (afterTurns (step limit) .default turns) := by
    refine afterTurns_invariant ⟨rfl, .inl (Nat.zero_le _), ?_, ?_, ?_⟩
      (fun _ _ _ h hstep => h.step hlimit hstep) turns
    · intro t ht
      cases ht
    · intro i t ht
      cases ht
    · intro bytes ht
      cases ht
  refine ⟨hsound.counted, fun hlt => hsound.bounded.resolve_left (Nat.not_le.2 hlt), ?_⟩
  intro i bytes hi hneed
  have hnotify := (hsound.awaited bytes (List.mem_of_getElem? hi)).resolve_left hneed
  obtain ⟨j, hj⟩ := List.getElem?_of_mem hnotify
  exact ⟨j, hj, hsound.locked j _ hj trivial⟩

/-- A permit above the limit is let in alone.  A second request sleeps; when the permit is given
back, it could be let in, and the task that gives it back is about to wake it. -/
theorem gate_sound_oversized :
    let turns : List Turn := [.request 20, .request 5, .run 0, .run 0, .run 1, .run 1, .drop 0, .run 0]
    let s := afterTurns (step 10) .default turns
    s.tasks = [.notifying, .asleep 5] ∧ ¬ MustWait 10 s.inFlightBytes 5 ∧
      ∃ j, s.tasks[j]? = some .notifying ∧ s.lock = some j := by
  intro turns s
  have htasks : s.tasks = [.notifying, .asleep 5] := by decide
  have hneed : ¬ MustWait 10 s.inFlightBytes 5 := by decide
  exact ⟨htasks, hneed, (gate_sound (by decide) turns).2.2 1 5 (by decide) hneed⟩

end CowStore.Durable.IngestGate
