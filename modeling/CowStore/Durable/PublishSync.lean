import CowStore.Durable.SyncedLog

/-!
# What is synced when a publish is recorded

Streams append to logs that they share.  What a stream has written to a log since it was last
persisted is pending: the lane of the stream keeps how long the log was behind its last run.
Before a publish is recorded in a journal, the logs of its runs are synced as far as they are
pending, or as they are long where nothing is pending any more; runs that are durable
already are not looked at again.  Bytes are durable once a sync in the background has been
seen to cover them, or a persist of the stream has synced them.

The bytes of a stream are counted from its base, and a run that is recorded is the list of
the places of its bytes.
-/

namespace CowStore.Durable

open Lib

structure LogRef where
  storageNode : Nat
  logId : Nat
  deriving DecidableEq, Repr

structure Place where
  log : LogRef
  offset : Nat
  deriving DecidableEq, Repr

/-- A run that is written and not recorded; `merged` once its log is pending. -/
structure WrittenRun where
  log : LogRef
  offset : Nat
  len : Nat
  merged : Bool
  deriving DecidableEq, Repr

def WrittenRun.places (run : WrittenRun) : List Place :=
  (List.range run.len).map fun k => ⟨run.log, run.offset + k⟩

/-- A persist or a publish of a stream that is under way: the bytes that it syncs, and how
far it has the logs synced once it knows. -/
structure SyncTask where
  publishes : Bool
  start : Nat
  stop : Nat
  requests : Option (List (LogRef × Nat))
  deriving DecidableEq, Repr

structure StreamLane where
  places : List Place
  durable : Nat
  published : Nat
  pending : LogRef → Option Nat
  run : Option WrittenRun
  tasks : Nat → Option SyncTask

structure PublishSync where
  logs : LogRef → SyncedLog
  lanes : Nat → StreamLane

inductive LaneAction
  | merge
  | record
  | refuse
  | observe (through : Nat)
  | plan (k : Nat) (publishes : Bool) (stop : Nat)
  | collect (k : Nat) (rows : LogRef → Nat)
  | complete (k : Nat) (forgets : Bool)
  | abandon (k : Nat)

inductive SyncTurn
  | log (ref : LogRef) (action : LogAction)
  | finish (i : Nat) (ref : LogRef)
  | lane (i : Nat) (action : LaneAction)

def StreamLane.opened : StreamLane := ⟨[], 0, 0, fun _ => none, none, fun _ => none⟩

def PublishSync.opened (files : LogRef → List UInt8) (rows : LogRef → Nat) : PublishSync :=
  ⟨fun ref => SyncedLog.opened (files ref) (rows ref), fun _ => .opened⟩

def Answered (logs : LogRef → SyncedLog) (requests : List (LogRef × Nat)) : Prop :=
  ∀ request ∈ requests, request.2 ≤ (logs request.1).synced

instance (logs : LogRef → SyncedLog) (requests : List (LogRef × Nat)) :
    Decidable (Answered logs requests) := inferInstanceAs (Decidable (∀ _ ∈ _, _))

namespace StreamLane

def range (lane : StreamLane) (start stop : Nat) : List Place := (lane.places.take stop).drop start

def setTask (lane : StreamLane) (k : Nat) (task : Option SyncTask) : StreamLane :=
  { lane with tasks := Function.update lane.tasks k task }

def removeLogRefs (lane : StreamLane) (logs : List LogRef) : StreamLane :=
  { lane with pending := fun log => if log ∈ logs then none else lane.pending log }

/-- The manifest of a run joins the one of its log. -/
def merge (lane : StreamLane) (run : WrittenRun) : StreamLane :=
  let total := max ((lane.pending run.log).getD 0) (run.offset + run.len)
  { lane with
    pending := Function.update lane.pending run.log (some total)
    run := some { run with merged := true } }

/-- How far the log of a byte is to be synced: as it is pending, or as it is long. -/
def request (lane : StreamLane) (logs : LogRef → SyncedLog) (rows : LogRef → Nat) (place : Place) :
    LogRef × Nat :=
  (place.log, (lane.pending place.log).getD (max (rows place.log) (logs place.log).file.length))

def step (logs : LogRef → SyncedLog) (lane : StreamLane) : LaneAction → Option StreamLane
  | .merge => lane.run.map lane.merge
  | .record => do
    let run ← lane.run
    if run.merged then some { lane with places := lane.places ++ run.places, run := none } else none
  -- the stream takes no more runs, and the manifest of the log goes
  | .refuse => do
    let run ← lane.run
    some { lane.removeLogRefs [run.log] with run := none }
  -- the bytes are below what is recorded of their logs as synced
  | .observe through =>
    if through ≤ lane.places.length ∧
        ∀ place ∈ lane.range lane.durable through, place.offset < (logs place.log).synced then
      some { lane with durable := max lane.durable through }
    else none
  | .plan k publishes stop =>
    if stop ≤ lane.places.length then
      some (lane.setTask k (some ⟨publishes, min lane.durable stop, stop, none⟩))
    else none
  | .collect k rows => do
    let task ← lane.tasks k
    let requests := (lane.range task.start task.stop).map (lane.request logs rows)
    some (lane.setTask k (some { task with requests := some requests }))
  -- the syncs have returned, and a publish is recorded and applied
  | .complete k forgets => do
    let task ← lane.tasks k
    let requests ← task.requests
    if Answered logs requests then
      let lane := if forgets then lane.removeLogRefs (requests.map Prod.fst) else lane
      some { lane.setTask k none with
        durable := max lane.durable task.stop
        published := if task.publishes then max lane.published task.stop else lane.published }
    else none
  | .abandon k => some (lane.setTask k none)

def extents (lane : StreamLane) (task : SyncTask) : List Place := lane.range lane.published task.stop

end StreamLane

namespace PublishSync

def setLog (s : PublishSync) (ref : LogRef) (log : SyncedLog) : PublishSync :=
  { s with logs := Function.update s.logs ref log }

def setLane (s : PublishSync) (i : Nat) (lane : StreamLane) : PublishSync :=
  { s with lanes := Function.update s.lanes i lane }

def step (s : PublishSync) : SyncTurn → Option PublishSync
  | .log ref action =>
    if action = .reopen then none else ((s.logs ref).step action).map (s.setLog ref)
  -- the last chunk is written, and the run lies where the log ended
  | .finish i ref => do
    let log ← (s.logs ref).endWrite
    let total := (s.logs ref).totalBytes
    if (s.lanes i).run = none then
      some ((s.setLog ref log).setLane i { s.lanes i with
        run := some ⟨ref, total, log.totalBytes - total, false⟩ })
    else none
  | .lane i action => ((s.lanes i).step s.logs action).map (s.setLane i)

def WritesPast (s : PublishSync) : SyncTurn → Prop
  | .log ref action => (s.logs ref).WritesPast action
  | _ => True

instance (s : PublishSync) (a : SyncTurn) : Decidable (s.WritesPast a) := by
  cases a <;> unfold WritesPast <;> infer_instance

end PublishSync

/-! ## Logs only grow -/

namespace SyncedLog

variable {s t : SyncedLog}

/-- What a write that is under way has to write lies behind the log, and is in the file as far as
it is written. -/
structure Writes (s : SyncedLog) (w : RunWrite) : Prop where
  total : s.totalBytes < w.newTotal
  chunks : w.writtenThrough + (w.chunks.map List.length).sum = w.newTotal
  file : w.writtenThrough = s.totalBytes ∨ w.writtenThrough ≤ s.file.length

def Steady (s : SyncedLog) : Prop := ∀ w, s.writer = some w → s.Writes w

structure Grows (s t : SyncedLog) : Prop where
  steady : t.Steady
  file : s.file.length ≤ t.file.length
  synced : s.synced ≤ t.synced
  total : s.totalBytes ≤ t.totalBytes

theorem Steady.grows (h : s.Steady) (hfile : t.file = s.file) (htotal : t.totalBytes = s.totalBytes)
    (hwriter : t.writer = s.writer) (hsynced : s.synced ≤ t.synced) : Grows s t := by
  refine ⟨fun w hw => ?_, hfile ▸ le_rfl, hsynced, htotal.ge⟩
  obtain ⟨hlt, hchunks, hthrough⟩ := h w (hwriter ▸ hw)
  refine ⟨htotal ▸ hlt, hchunks, ?_⟩
  rw [hfile, htotal]
  exact hthrough

theorem le_length_writeAt {file : List LogByte} {offset now : Nat} {bytes : List UInt8} (h : bytes ≠ []) :
    offset + bytes.length ≤ (writeAt file offset bytes now).length := by
  unfold writeAt
  rw [if_neg h]
  simp only [List.length_append, List.length_take, List.length_replicate, List.length_map,
    List.length_drop]
  omega

theorem Writes.writeChunk {w : RunWrite} (h : s.Writes w) {chunk : List UInt8} {chunks : List (List UInt8)}
    (hchunks : w.chunks = chunk :: chunks) (ht : t.file = writeAt s.file w.writtenThrough chunk s.clock)
    (htotal : t.totalBytes = s.totalBytes) (step next : Option Nat) :
    t.Writes ⟨w.newTotal, step, next, w.writtenThrough + chunk.length, chunks⟩ := by
  obtain ⟨hlt, hsum, hfile⟩ := h
  rw [hchunks, List.map_cons, List.sum_cons, ← Nat.add_assoc] at hsum
  refine ⟨htotal ▸ hlt, hsum, ?_⟩
  rw [ht, htotal]
  by_cases hempty : chunk = []
  · subst hempty
    exact hfile
  · exact Or.inr (le_length_writeAt hempty)

theorem Steady.writeChunk (h : s.Steady) (ht : s.writeChunk = some t) : Grows s t := by
  obtain ⟨w, hw, ht⟩ := Option.bind_eq_some_iff.1 ht
  split at ht
  · cases ht
  next chunk chunks hchunks =>
  have hgrows : ∀ {t : SyncedLog} {step next : Option Nat},
      t.file = writeAt s.file w.writtenThrough chunk s.clock → t.totalBytes = s.totalBytes →
      t.synced = s.synced → t.writer = some ⟨w.newTotal, step, next, w.writtenThrough + chunk.length, chunks⟩ →
      Grows s t := by
    intro t step next hfile htotal hsynced hwriter
    refine ⟨fun w' hw' => ?_, hfile ▸ length_writeAt, hsynced.ge, htotal.ge⟩
    cases hwriter.symm.trans hw'
    exact (h w hw).writeChunk hchunks hfile htotal step next
  split at ht
  · dsimp only at ht
    split at ht <;> (cases ht; exact hgrows rfl rfl rfl rfl)
  · cases ht
    exact hgrows rfl rfl rfl rfl

theorem Steady.advanceSync (h : s.Steady) {i : Nat} (ht : s.advanceSync i = some t) : Grows s t := by
  obtain ⟨call, -, ht⟩ := Option.bind_eq_some_iff.1 ht
  cases call with
  | asked bytes snapshot =>
    dsimp only at ht
    split at ht <;> (cases ht; exact h.grows rfl rfl rfl le_rfl)
  | observed len | flushing len since =>
    cases ht
    exact h.grows rfl rfl rfl le_rfl
  | flushed len =>
    cases ht
    exact h.grows rfl rfl rfl (le_max_left _ _)

theorem Steady.endWrite (h : s.Steady) (ht : s.endWrite = some t) :
    Grows s t ∧ s.totalBytes < t.totalBytes ∧ t.totalBytes ≤ t.file.length := by
  obtain ⟨w, hw, ht⟩ := Option.bind_eq_some_iff.1 ht
  obtain ⟨hlt, hsum, hfile⟩ := h w hw
  split at ht
  next hchunks =>
    cases ht
    rw [hchunks, List.map_nil, List.sum_nil, Nat.add_zero] at hsum
    refine ⟨⟨fun w' hw' => ?_, le_rfl, le_rfl, hlt.le⟩, hlt, ?_⟩
    · cases hw'
    · rcases hfile with hfile | hfile
      · exact absurd (hsum.symm.trans hfile) hlt.ne'
      · exact hsum ▸ hfile
  next => cases ht

theorem Steady.step (h : s.Steady) {a : LogAction} (ha : a ≠ .reopen) (ht : s.step a = some t) : Grows s t := by
  cases a with
  | beginWrite chunks step =>
    unfold SyncedLog.step SyncedLog.beginWrite at ht
    dsimp only at ht
    split at ht <;> cases ht
    next hguard =>
    refine ⟨fun w hw => ?_, le_rfl, le_rfl, le_rfl⟩
    cases hw
    refine ⟨?_, rfl, Or.inl rfl⟩
    show s.totalBytes < s.totalBytes + _
    omega
  | writeChunk => exact h.writeChunk ht
  | failWrite written =>
    obtain ⟨w, -, ht⟩ := Option.bind_eq_some_iff.1 ht
    cases ht
    refine ⟨fun w' hw' => ?_, length_writeAt, le_rfl, le_rfl⟩
    cases hw'
  | endWrite => exact (h.endWrite ht).1
  | takeRequest =>
    obtain ⟨bytes, -, ht⟩ := Option.bind_eq_some_iff.1 ht
    cases ht
    exact h.grows rfl rfl rfl le_rfl
  | advanceSync i => exact h.advanceSync ht
  | requestSync bytes | startSync bytes | failSync i =>
    cases ht
    exact h.grows rfl rfl rfl le_rfl
  | reopen => exact (ha rfl).elim

end SyncedLog

/-! ## What a lane relies on -/

/-- The first `n` bytes of the log are those of writes that have ended. -/
def Ended (log : SyncedLog) (n : Nat) : Prop := n ≤ log.file.length ∧ n ≤ log.totalBytes

def Asked (requests : List (LogRef × Nat)) (place : Place) : Prop :=
  ∃ bytes, (place.log, bytes) ∈ requests ∧ place.offset < bytes

structure StreamLane.Holds (logs : LogRef → SyncedLog) (lane : StreamLane) (place : Place) : Prop where
  ended : Ended (logs place.log) (place.offset + 1)
  pending : ∀ total, lane.pending place.log = some total → place.offset < total

structure WrittenRun.Fits (logs : LogRef → SyncedLog) (lane : StreamLane) (run : WrittenRun) : Prop where
  ended : Ended (logs run.log) (run.offset + run.len)
  last : ∀ place ∈ lane.places, place.log = run.log → place.offset < run.offset + run.len
  pending : run.merged → ∀ total, lane.pending run.log = some total → run.offset + run.len ≤ total

structure SyncTask.Fits (lane : StreamLane) (task : SyncTask) : Prop where
  start : task.start ≤ lane.durable
  stop : task.stop ≤ lane.places.length
  asked : ∀ requests, task.requests = some requests →
    ∀ place ∈ lane.range task.start task.stop, Asked requests place

structure StreamLane.Fits (logs : LogRef → SyncedLog) (lane : StreamLane) : Prop where
  places : ∀ place ∈ lane.places, lane.Holds logs place
  run : ∀ run, lane.run = some run → run.Fits logs lane
  durable : ∀ place ∈ lane.places.take lane.durable, place.offset < (logs place.log).synced
  durable_le : lane.durable ≤ lane.places.length
  tasks : ∀ k task, lane.tasks k = some task → task.Fits lane

theorem Ended.mono {log log' : SyncedLog} {n : Nat} (h : Ended log n) (hgrows : log.Grows log') : Ended log' n :=
  ⟨h.1.trans hgrows.file, h.2.trans hgrows.total⟩

theorem SyncTask.Fits.of_eq {lane lane' : StreamLane} {task : SyncTask} (h : task.Fits lane)
    (hplaces : lane'.places = lane.places) (hdurable : lane.durable ≤ lane'.durable) : task.Fits lane' := by
  refine ⟨h.start.trans hdurable, hplaces ▸ h.stop, fun requests hrequests place hplace => ?_⟩
  refine h.asked requests hrequests place ?_
  unfold StreamLane.range at hplace ⊢
  rw [← hplaces]
  exact hplace

namespace StreamLane

variable {logs logs' : LogRef → SyncedLog} {lane lane' : StreamLane}

variable {place : Place} {run : WrittenRun}

theorem mem_take_or_range (start : Nat) {stop : Nat} (h : place ∈ lane.places.take stop) :
    place ∈ lane.places.take start ∨ place ∈ lane.range start stop := by
  rw [← List.take_append_drop start (lane.places.take stop), List.take_take] at h
  refine (List.mem_append.1 h).imp_left fun h => ?_
  exact (List.take_subset_take_left _ (min_le_left _ _)) h

theorem mem_of_mem_range {start stop : Nat} (h : place ∈ lane.range start stop) :
    place ∈ lane.places := List.mem_of_mem_take (List.mem_of_mem_drop h)

theorem Fits.mono (h : lane.Fits logs) (hgrows : ∀ ref, (logs ref).Grows (logs' ref)) : lane.Fits logs' where
  places place hplace := ⟨(h.places place hplace).ended.mono (hgrows _), (h.places place hplace).pending⟩
  run run hrun := ⟨(h.run run hrun).ended.mono (hgrows _), (h.run run hrun).last, (h.run run hrun).pending⟩
  durable place hplace := (h.durable place hplace).trans_le (hgrows _).synced
  durable_le := h.durable_le
  tasks := h.tasks

theorem Fits.frame (h : lane.Fits logs) {pending : LogRef → Option Nat} {run? : Option WrittenRun}
    {tasks : Nat → Option SyncTask}
    (hpending : ∀ log total, pending log = some total → lane.pending log = some total)
    (hrun : ∀ run, run? = some run → lane.run = some run)
    (htasks : ∀ k task, tasks k = some task → task.Fits lane) :
    { lane with pending, run := run?, tasks }.Fits logs where
  places place hplace :=
    ⟨(h.places place hplace).ended, fun total ht => (h.places place hplace).pending total (hpending _ _ ht)⟩
  run run hr := ⟨(h.run run (hrun run hr)).ended, (h.run run (hrun run hr)).last,
    fun hmerged total ht => (h.run run (hrun run hr)).pending hmerged total (hpending _ _ ht)⟩
  durable := h.durable
  durable_le := h.durable_le
  tasks k task htask := (htasks k task htask).of_eq rfl le_rfl

theorem Fits.setTask (h : lane.Fits logs) {k : Nat} {task : Option SyncTask}
    (htask : ∀ t, task = some t → t.Fits lane) : (lane.setTask k task).Fits logs := by
  refine h.frame (fun _ _ => id) (fun _ => id) fun j t ht => ?_
  obtain ⟨-, ht⟩ | ⟨-, ht⟩ := update_eq ht
  · exact htask t ht
  · exact h.tasks j t ht

theorem Fits.clearTask (h : lane.Fits logs) (k : Nat) : (lane.setTask k none).Fits logs := by
  refine h.setTask fun t ht => ?_
  cases ht

theorem removeLogRefs_pending {refs : List LogRef} {log : LogRef} {total : Nat}
    (h : (lane.removeLogRefs refs).pending log = some total) : lane.pending log = some total := by
  obtain ⟨-, h⟩ := Option.ite_none_left_eq_some.1 h
  exact h

theorem Fits.removeLogRefs (h : lane.Fits logs) (refs : List LogRef) : (lane.removeLogRefs refs).Fits logs :=
  h.frame (fun _ _ => removeLogRefs_pending) (fun _ => id) h.tasks

theorem Fits.dropRun (h : lane.Fits logs) : { lane with run := none }.Fits logs :=
  h.frame (fun _ _ => id) nofun h.tasks

theorem Fits.mark (h : lane.Fits logs) {through : Nat} (published : Nat) (hle : through ≤ lane.places.length)
    (hsynced : ∀ place ∈ lane.places.take through, place.offset < (logs place.log).synced) :
    { lane with durable := max lane.durable through, published := published }.Fits logs where
  places place hplace := ⟨(h.places place hplace).ended, (h.places place hplace).pending⟩
  run run hrun := ⟨(h.run run hrun).ended, (h.run run hrun).last, (h.run run hrun).pending⟩
  durable place hplace := by
    rcases max_choice lane.durable through with hmax | hmax
    · refine h.durable place ?_
      rw [← hmax]
      exact hplace
    · refine hsynced place ?_
      rw [← hmax]
      exact hplace
  durable_le := max_le h.durable_le hle
  tasks k task htask := (h.tasks k task htask).of_eq rfl (le_max_left _ _)

/-- Once its requests are answered, everything before the end of a task is synced: what is
not asked for is durable. -/
theorem Fits.synced_of_answered (h : lane.Fits logs) {task : SyncTask} (htask : task.Fits lane)
    {requests : List (LogRef × Nat)} (hrequests : task.requests = some requests)
    (hanswered : Answered logs requests) (hplace : place ∈ lane.places.take task.stop) :
    place.offset < (logs place.log).synced := by
  rcases mem_take_or_range task.start hplace with hplace | hplace
  · exact h.durable place (List.take_subset_take_left _ htask.start hplace)
  · obtain ⟨bytes, hmem, hlt⟩ := htask.asked requests hrequests place hplace
    exact hlt.trans_le (hanswered _ hmem)

theorem Holds.asked (h : lane.Holds logs place) (rows : LogRef → Nat) :
    place.offset < (lane.request logs rows place).2 := by
  show place.offset < (lane.pending place.log).getD _
  cases hpending : lane.pending place.log with
  | none => exact (Nat.lt_of_succ_le h.ended.1).trans_le (le_max_right _ _)
  | some total => exact h.pending total hpending

theorem merge_pending {log : LogRef} {total : Nat} (h : (lane.merge run).pending log = some total) :
    log = run.log ∧ run.offset + run.len ≤ total ∨ lane.pending log = some total := by
  obtain ⟨hlog, ⟨⟩⟩ | ⟨-, h⟩ := update_eq h
  · exact Or.inl ⟨hlog, le_max_right _ _⟩
  · exact Or.inr h

theorem Fits.merge (h : lane.Fits logs) (hrun : lane.run = some run) :
    (lane.merge run).Fits logs where
  places place hplace := by
    refine ⟨(h.places place hplace).ended, fun total htotal => ?_⟩
    rcases merge_pending htotal with ⟨hlog, hle⟩ | htotal
    -- the run lies behind everything that the stream has in the log
    · exact ((h.run run hrun).last place hplace hlog).trans_le hle
    · exact (h.places place hplace).pending total htotal
  run run' hrun' := by
    cases hrun'
    refine ⟨(h.run run hrun).ended, (h.run run hrun).last, fun _ total htotal => ?_⟩
    have htotal : Function.update lane.pending run.log _ run.log = some total := htotal
    rw [Function.update_self] at htotal
    cases htotal
    exact le_max_right _ _
  durable := h.durable
  durable_le := h.durable_le
  tasks k task htask := (h.tasks k task htask).of_eq rfl le_rfl

theorem Fits.record (h : lane.Fits logs) (hrun : lane.run = some run) (hmerged : run.merged) :
    { lane with places := lane.places ++ run.places, run := none }.Fits logs where
  places place hplace := by
    rcases List.mem_append.1 hplace with hplace | hplace
    · exact ⟨(h.places place hplace).ended, (h.places place hplace).pending⟩
    · obtain ⟨hended, -, hpending⟩ := h.run run hrun
      obtain ⟨k, hk, rfl⟩ := List.mem_map.1 hplace
      have hlt : run.offset + k < run.offset + run.len := Nat.add_lt_add_left (List.mem_range.1 hk) _
      exact ⟨⟨hlt.trans_le hended.1, hlt.trans_le hended.2⟩,
        fun total htotal => hlt.trans_le (hpending hmerged total htotal)⟩
  run run' hrun' := by cases hrun'
  durable place hplace := by
    have hplace : place ∈ (lane.places ++ run.places).take lane.durable := hplace
    rw [List.take_append_of_le_length h.durable_le] at hplace
    exact h.durable place hplace
  durable_le := by
    show lane.durable ≤ (lane.places ++ run.places).length
    rw [List.length_append]
    exact Nat.le_add_right_of_le h.durable_le
  tasks k task htask := by
    obtain ⟨hstart, hstop, hasked⟩ := h.tasks k task htask
    refine ⟨hstart, ?_, fun requests hrequests place hplace => hasked requests hrequests place ?_⟩
    · show task.stop ≤ (lane.places ++ run.places).length
      rw [List.length_append]
      exact Nat.le_add_right_of_le hstop
    · have hplace : place ∈ ((lane.places ++ run.places).take task.stop).drop task.start := hplace
      rw [List.take_append_of_le_length hstop] at hplace
      exact hplace

theorem Fits.step (h : lane.Fits logs) {a : LaneAction} (ha : lane.step logs a = some lane') :
    lane'.Fits logs := by
  cases a with
  | merge =>
    obtain ⟨run, hrun, rfl⟩ := Option.map_eq_some_iff.1 ha
    exact h.merge hrun
  | record =>
    obtain ⟨run, hrun, ha⟩ := Option.bind_eq_some_iff.1 ha
    obtain ⟨hmerged, ha⟩ := Option.ite_none_right_eq_some.1 ha
    cases ha
    exact h.record hrun hmerged
  | refuse =>
    obtain ⟨run, hrun, ha⟩ := Option.bind_eq_some_iff.1 ha
    cases ha
    exact (h.removeLogRefs [run.log]).dropRun
  | observe through =>
    obtain ⟨⟨hle, hsynced⟩, ha⟩ := Option.ite_none_right_eq_some.1 ha
    cases ha
    refine h.mark lane.published hle fun place hplace => ?_
    rcases mem_take_or_range lane.durable hplace with hplace | hplace
    · exact h.durable place hplace
    · exact hsynced place hplace
  | plan k publishes stop =>
    obtain ⟨hle, ha⟩ := Option.ite_none_right_eq_some.1 ha
    cases ha
    refine h.setTask fun t ht => ?_
    cases ht
    refine ⟨min_le_left _ _, hle, fun requests hrequests => ?_⟩
    cases hrequests
  | collect k rows =>
    obtain ⟨task, htask, ha⟩ := Option.bind_eq_some_iff.1 ha
    cases ha
    refine h.setTask fun t ht => ?_
    cases ht
    obtain ⟨hstart, hstop, -⟩ := h.tasks k task htask
    refine ⟨hstart, hstop, fun requests hrequests place hplace => ?_⟩
    cases hrequests
    exact ⟨_, List.mem_map_of_mem hplace, (h.places place (mem_of_mem_range hplace)).asked rows⟩
  | complete k forgets =>
    obtain ⟨task, htask, ha⟩ := Option.bind_eq_some_iff.1 ha
    obtain ⟨requests, hrequests, ha⟩ := Option.bind_eq_some_iff.1 ha
    obtain ⟨hanswered, ha⟩ := Option.ite_none_right_eq_some.1 ha
    have hfits := h.tasks k task htask
    have hsynced : ∀ place ∈ lane.places.take task.stop, place.offset < (logs place.log).synced :=
      fun place hplace => h.synced_of_answered hfits hrequests hanswered hplace
    cases ha
    cases forgets with
    | false => exact (h.clearTask k).mark _ hfits.stop hsynced
    | true => exact ((h.removeLogRefs _).clearTask k).mark _ hfits.stop hsynced
  | abandon k =>
    cases ha
    exact h.clearTask k

theorem fits_opened : opened.Fits logs where
  places := nofun
  run := nofun
  durable := nofun
  durable_le := le_rfl
  tasks := nofun

end StreamLane

/-! ## Runs -/

namespace PublishSync

variable {s t : PublishSync}

structure Fits (s : PublishSync) : Prop where
  logs : ∀ ref, (s.logs ref).Fits
  steady : ∀ ref, (s.logs ref).Steady
  lanes : ∀ i, (s.lanes i).Fits s.logs

theorem Fits.setLog (h : s.Fits) {ref : LogRef} {log : SyncedLog} (hlog : log.Fits)
    (hgrows : (s.logs ref).Grows log) : (s.setLog ref log).Fits := by
  have hall : ∀ ref', (s.logs ref').Grows (Function.update s.logs ref log ref') ∧
      (Function.update s.logs ref log ref').Fits := by
    refine (Function.forall_update_iff s.logs fun ref' l => (s.logs ref').Grows l ∧ l.Fits).2
      ⟨⟨hgrows, hlog⟩, fun ref' _ => ⟨(h.steady ref').grows rfl rfl rfl le_rfl, h.logs ref'⟩⟩
  exact ⟨fun ref' => (hall ref').2, fun ref' => (hall ref').1.steady, fun i => (h.lanes i).mono fun ref' => (hall ref').1⟩

theorem Fits.setLane (h : s.Fits) {i : Nat} {lane : StreamLane} (hlane : lane.Fits s.logs) :
    (s.setLane i lane).Fits := by
  refine ⟨h.logs, h.steady, ?_⟩
  exact (Function.forall_update_iff s.lanes fun _ l => l.Fits s.logs).2 ⟨hlane, fun j _ => h.lanes j⟩

/-- A run that has just been written lies behind everything that its stream has in the log. -/
theorem Fits.finish (h : s.Fits) {i : Nat} {ref : LogRef} {log : SyncedLog}
    (hlog : (s.logs ref).endWrite = some log) :
    ((s.setLog ref log).setLane i { s.lanes i with
      run := some ⟨ref, (s.logs ref).totalBytes, log.totalBytes - (s.logs ref).totalBytes, false⟩ }).Fits := by
  obtain ⟨hgrows, hlt, hfile⟩ := (h.steady ref).endWrite hlog
  have hfits : log.Fits := (h.logs ref).step (a := .endWrite) trivial hlog
  have hset := h.setLog hfits hgrows
  refine hset.setLane ⟨fun place hplace => ?_, fun run hrun => ?_, (hset.lanes i).durable, (hset.lanes i).durable_le,
    fun k task htask => ((h.lanes i).tasks k task htask).of_eq rfl le_rfl⟩
  · exact ⟨((hset.lanes i).places place hplace).ended, ((hset.lanes i).places place hplace).pending⟩
  · cases hrun
    have hstop : (s.logs ref).totalBytes + (log.totalBytes - (s.logs ref).totalBytes) = log.totalBytes := by omega
    have hself : (s.setLog ref log).logs ref = log := by
      show Function.update s.logs ref log ref = log
      rw [Function.update_self]
    refine ⟨?_, fun place hplace hplog => ?_, fun hmerged => ?_⟩
    · dsimp only
      rw [hstop, hself]
      exact ⟨hfile, le_rfl⟩
    · have hbefore := ((h.lanes i).places place hplace).ended.2
      rw [hplog] at hbefore
      dsimp only at hbefore ⊢
      omega
    · cases hmerged

theorem Fits.step (h : s.Fits) {a : SyncTurn} (hok : s.WritesPast a) (ht : s.step a = some t) : t.Fits := by
  cases a with
  | log ref action =>
    obtain ⟨hreopen, ht⟩ := Option.ite_none_left_eq_some.1 ht
    obtain ⟨log, hlog, rfl⟩ := Option.map_eq_some_iff.1 ht
    exact h.setLog ((h.logs ref).step hok hlog) ((h.steady ref).step hreopen hlog)
  | finish i ref =>
    obtain ⟨log, hlog, ht⟩ := Option.bind_eq_some_iff.1 ht
    obtain ⟨-, ht⟩ := Option.ite_none_right_eq_some.1 ht
    cases ht
    exact h.finish hlog
  | lane i action =>
    obtain ⟨lane, hlane, rfl⟩ := Option.map_eq_some_iff.1 ht
    exact h.setLane ((h.lanes i).step hlane)

theorem fits_opened (files : LogRef → List UInt8) (rows : LogRef → Nat) : (opened files rows).Fits where
  logs ref := SyncedLog.fits_opened (files ref) (rows ref)
  steady := nofun
  lanes _ := StreamLane.fits_opened

/-- The byte is there, and was written before a flush of its log that completed. -/
def Covered (s : PublishSync) (place : Place) : Prop :=
  ∃ c, (s.logs place.log).file[place.offset]? = some c ∧ c.writtenAt < (s.logs place.log).completed

instance (s : PublishSync) (place : Place) : Decidable (s.Covered place) :=
  decidable_of_iff (((s.logs place.log).file[place.offset]?).any fun c =>
    decide (c.writtenAt < (s.logs place.log).completed)) (by
    unfold Covered
    cases (s.logs place.log).file[place.offset]? <;> simp)

/-- The publish is about to be recorded: the syncs that it waited for have returned. -/
def Recordable (s : PublishSync) (i : Nat) (task : SyncTask) : Prop :=
  (∃ k, (s.lanes i).tasks k = some task) ∧ task.publishes = true ∧
    ∃ requests, task.requests = some requests ∧ Answered s.logs requests

/-- In every run whose writes go past what is recorded of their log as synced: when a publish
is recorded, every byte of its run extents was written before a flush that completed. -/
theorem extents_covered (files : LogRef → List UInt8) (rows : LogRef → Nat) (turns : List SyncTurn)
    (h : Admitted step WritesPast (opened files rows) turns) (i : Nat) (task : SyncTask)
    (hready : (afterTurns step (opened files rows) turns).Recordable i task) :
    ∀ place ∈ ((afterTurns step (opened files rows) turns).lanes i).extents task,
      (afterTurns step (opened files rows) turns).Covered place := by
  have hfits := h.invariant (P := Fits) (fits_opened files rows) fun s a t hs hok ht => hs.step hok ht
  obtain ⟨⟨k, htask⟩, -, requests, hrequests, hanswered⟩ := hready
  intro place hplace
  have hlane := hfits.lanes i
  have hlt := hlane.synced_of_answered (hlane.tasks k task htask) hrequests hanswered
    (List.mem_of_mem_drop hplace)
  obtain ⟨hlen, hold⟩ := (hfits.logs place.log).synced
  refine ⟨_, List.getElem?_eq_getElem (hlt.trans_le hlen), hold _ ?_⟩
  exact List.mem_take_iff_getElem.2 ⟨place.offset, lt_min hlt (hlt.trans_le hlen), rfl⟩

/-- A stream records the run that was written last, and goes to publish it. -/
def recordThenPlan (stop : Nat) : List SyncTurn :=
  [.finish 0 ⟨0, 0⟩, .lane 0 .merge, .lane 0 .record, .lane 0 (.plan 0 true stop),
    .lane 0 (.collect 0 fun _ => 0)]

/-- A write fails and its bytes are synced, the next one goes over them, and what it has
written is published. -/
def tornThenPublished : List SyncTurn :=
  [LogAction.beginWrite [[1, 2, 3, 4], [5, 6, 7, 8]] (some 4), .writeChunk, .failWrite 2, .takeRequest,
    .advanceSync 0, .advanceSync 0, .advanceSync 0, .advanceSync 0,
    .beginWrite [[9, 9, 9, 9]] none, .writeChunk].map (.log ⟨0, 0⟩) ++ recordThenPlan 4

theorem extents_torn :
    (afterTurns step (opened (fun _ => []) fun _ => 0) tornThenPublished).Recordable 0
        ⟨true, 0, 4, some (List.replicate 4 (⟨0, 0⟩, 4))⟩ ∧
      (((afterTurns step (opened (fun _ => []) fun _ => 0) tornThenPublished).lanes 0).extents
        ⟨true, 0, 4, some (List.replicate 4 (⟨0, 0⟩, 4))⟩).head? = some ⟨⟨0, 0⟩, 0⟩ ∧
      ¬(afterTurns step (opened (fun _ => []) fun _ => 0) tornThenPublished).Covered ⟨⟨0, 0⟩, 0⟩ := by
  refine ⟨⟨⟨0, ?_⟩, rfl, _, rfl, ?_⟩, ?_, ?_⟩ <;> decide +kernel

/-- A write fails, the next one goes over what it left, and the log is synced for the publish. -/
def tornThenSyncedAgain : List SyncTurn :=
  [LogAction.beginWrite [[1, 2]] none, .failWrite 1, .beginWrite [[3, 4]] none, .writeChunk].map
      (.log ⟨0, 0⟩) ++ recordThenPlan 2 ++
    [LogAction.startSync 2, .advanceSync 0, .advanceSync 0, .advanceSync 0, .advanceSync 0].map (.log ⟨0, 0⟩)

theorem extents_covered_syncedAgain :
    Admitted step WritesPast (opened (fun _ => []) fun _ => 0) tornThenSyncedAgain ∧
      (afterTurns step (opened (fun _ => []) fun _ => 0) tornThenSyncedAgain).Recordable 0
        ⟨true, 0, 2, some (List.replicate 2 (⟨0, 0⟩, 2))⟩ ∧
      (afterTurns step (opened (fun _ => []) fun _ => 0) tornThenSyncedAgain).Covered ⟨⟨0, 0⟩, 1⟩ := by
  have hrun : Admitted step WritesPast (opened (fun _ => []) fun _ => 0) tornThenSyncedAgain := by
    decide +kernel
  have hready : (afterTurns step (opened (fun _ => []) fun _ => 0) tornThenSyncedAgain).Recordable 0
      ⟨true, 0, 2, some (List.replicate 2 (⟨0, 0⟩, 2))⟩ := by
    refine ⟨⟨0, ?_⟩, rfl, _, rfl, ?_⟩ <;> decide +kernel
  refine ⟨hrun, hready, extents_covered (fun _ => []) (fun _ => 0) tornThenSyncedAgain hrun 0 _ hready _ ?_⟩
  decide +kernel

end PublishSync

end CowStore.Durable
