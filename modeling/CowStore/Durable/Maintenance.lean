import CowStore.Base
import Mathlib.Data.Prod.Lex
import Mathlib.Data.List.Sort
import Mathlib.Data.List.Rotate
import Mathlib.Data.List.TakeWhile

/-!
# The maintenance scheduler

A step looks at the sealed data logs, takes those that are worth compacting, in the order of
their references and from the one after the cursor on, and selects what fits in its copy budget.
The last log it selects is the next cursor.
-/

namespace CowStore.Durable.Maintenance

open Lib StorageError

/-! ## Policies -/

structure DurableDataLogPolicy where
  targetDataLogBytes : Nat
  fileSyncFanout : Nat
  minReclaimableRatioPpm : Nat
  minReclaimableBytes : Nat
  maxCompactionCopyBytes : Nat
  deriving DecidableEq, Repr

def DurableDataLogPolicy.default : DurableDataLogPolicy where
  targetDataLogBytes := 64 * 1024 * 1024
  fileSyncFanout := 4
  minReclaimableRatioPpm := 500000
  minReclaimableBytes := 4 * 1024 * 1024
  maxCompactionCopyBytes := 64 * 1024 * 1024

def DurableDataLogPolicy.validate (p : DurableDataLogPolicy) : Result Unit := do
  failIf (p.targetDataLogBytes = 0)
    (invalidArgument "target_data_log_bytes must be greater than zero")
  failIf (p.fileSyncFanout = 0) (invalidArgument "file_sync_fanout must be greater than zero")
  failIf (p.minReclaimableRatioPpm > 1000000)
    (invalidArgument "min_reclaimable_ratio_ppm must be <= 1_000_000")
  failIf (p.maxCompactionCopyBytes = 0)
    (invalidArgument "max_compaction_copy_bytes must be greater than zero")

structure MaintenancePolicy where
  dataLogPolicy : DurableDataLogPolicy
  dirtyLowWatermarkBytes : Nat
  dirtyHighWatermarkBytes : Nat
  maxSealedLogs : Nat
  maxReclaimableDebtBytes : Nat
  compactionCopyBudgetPerTick : Nat
  maxSqliteWalBytes : Nat
  maxLogsScannedPerTick : Nat
  maxConcurrentCompactionJobs : Nat
  deriving DecidableEq, Repr

def MaintenancePolicy.default : MaintenancePolicy where
  dataLogPolicy := .default
  dirtyLowWatermarkBytes := 16 * 1024 * 1024
  dirtyHighWatermarkBytes := 128 * 1024 * 1024
  maxSealedLogs := 128
  maxReclaimableDebtBytes := 512 * 1024 * 1024
  compactionCopyBudgetPerTick := 32 * 1024 * 1024
  maxSqliteWalBytes := 128 * 1024 * 1024
  maxLogsScannedPerTick := 16
  maxConcurrentCompactionJobs := 1

def MaintenancePolicy.validate (p : MaintenancePolicy) : Result Unit := do
  p.dataLogPolicy.validate
  failIf (p.dirtyLowWatermarkBytes > p.dirtyHighWatermarkBytes)
    (invalidArgument "dirty_low_watermark_bytes must be <= dirty_high_watermark_bytes")
  failIf (p.maxSealedLogs = 0) (invalidArgument "max_sealed_logs must be greater than zero")
  failIf (p.maxReclaimableDebtBytes = 0)
    (invalidArgument "max_reclaimable_debt_bytes must be greater than zero")
  failIf (p.compactionCopyBudgetPerTick = 0)
    (invalidArgument "compaction_copy_budget_per_tick must be greater than zero")
  failIf (p.maxSqliteWalBytes = 0)
    (invalidArgument "max_sqlite_wal_bytes must be greater than zero")
  failIf (p.maxLogsScannedPerTick = 0)
    (invalidArgument "max_logs_scanned_per_tick must be greater than zero")
  failIf (p.maxConcurrentCompactionJobs ≠ 1)
    (unsupported "local maintenance supports exactly one compaction executor")

/-! ## Observations and plans -/

structure DurableDataLogRef where
  storageNode : Nat
  logId : Nat
  deriving DecidableEq, Repr

def DurableDataLogRef.key (r : DurableDataLogRef) : Nat ×ₗ Nat := toLex (r.storageNode, r.logId)

theorem DurableDataLogRef.key_injective : Function.Injective DurableDataLogRef.key := by
  rintro ⟨n, l⟩ ⟨n', l'⟩ h
  cases h
  rfl

instance : LinearOrder DurableDataLogRef :=
  LinearOrder.lift' DurableDataLogRef.key DurableDataLogRef.key_injective

structure MaintenanceDataLogObservation where
  logRef : DurableDataLogRef
  totalBytes : Nat
  liveBytes : Nat
  deadBytes : Nat
  deriving DecidableEq, Repr

structure MaintenanceNodeObservation where
  sealedLogCount : Nat
  dirtyBytes : Nat
  reclaimableBytes : Nat
  logs : List MaintenanceDataLogObservation
  deriving DecidableEq, Repr

structure MaintenanceObservation where
  nodes : List MaintenanceNodeObservation
  sqliteWalBytes : Nat
  compactionCursor : Option DurableDataLogRef
  deriving DecidableEq, Repr

inductive WriteAdmission
  | accept
  | acceptAndSchedule
  | throttle (reason : String)
  | reject (reason : String)
  deriving DecidableEq, Repr

def WriteAdmission.unavailableReason : WriteAdmission → Option String
  | throttle reason | reject reason => some reason
  | accept | acceptAndSchedule => none

structure MaintenanceSkippedLog where
  logRef : DurableDataLogRef
  reason : String
  deriving DecidableEq, Repr

structure MaintenanceDiagnostics where
  dirtyBytes : Nat
  reclaimableBytes : Nat
  sealedLogCount : Nat
  sqliteWalBytes : Nat
  selectedLogs : List DurableDataLogRef
  skippedLogs : List MaintenanceSkippedLog
  throttleReason : Option String
  deriving DecidableEq, Repr

inductive MaintenanceCommand
  | compactDataLogs (logs : List DurableDataLogRef)
  deriving DecidableEq, Repr

structure MaintenanceTickPlan where
  admission : WriteAdmission
  commands : List MaintenanceCommand
  diagnostics : MaintenanceDiagnostics
  nextCursor : Option DurableDataLogRef
  deriving DecidableEq, Repr

/-! ## The step -/

/-- Dead bytes per million bytes of a log. -/
def reclaimableRatio (deadBytes totalBytes : Nat) : Nat :=
  min (deadBytes * 1000000) (u64Bound - 1) / totalBytes

namespace MaintenancePolicy

variable (policy : MaintenancePolicy)

def logIsCompactionCandidate (log : MaintenanceDataLogObservation) : Bool :=
  if log.totalBytes = 0 then false
  else if log.liveBytes = 0 ∧ log.deadBytes ≠ 0 then true
  else log.deadBytes ≥ policy.dataLogPolicy.minReclaimableBytes ∧
    reclaimableRatio log.deadBytes log.totalBytes ≥ policy.dataLogPolicy.minReclaimableRatioPpm

/-- The sums over the nodes, and the logs that are no candidates. -/
def survey (observation : MaintenanceObservation) : MaintenanceDiagnostics where
  dirtyBytes := (observation.nodes.map (·.dirtyBytes)).foldl saturatingAdd 0
  reclaimableBytes := (observation.nodes.map (·.reclaimableBytes)).foldl saturatingAdd 0
  sealedLogCount := (observation.nodes.map (·.sealedLogCount)).foldl saturatingAdd 0
  sqliteWalBytes := observation.sqliteWalBytes
  selectedLogs := []
  skippedLogs := ((observation.nodes.flatMap (·.logs)).filter
    fun log => !policy.logIsCompactionCandidate log).map
    fun log => ⟨log.logRef, "below_reclaim_threshold"⟩
  throttleReason := none

def admission (diagnostics : MaintenanceDiagnostics) : WriteAdmission :=
  if diagnostics.reclaimableBytes > policy.maxReclaimableDebtBytes then
    .reject "maintenance reclaimable debt exceeds hard limit"
  else if diagnostics.dirtyBytes ≥ policy.dirtyHighWatermarkBytes then
    .throttle "maintenance dirty bytes above high watermark"
  else if diagnostics.sealedLogCount > policy.maxSealedLogs then
    .throttle "maintenance sealed log count above limit"
  else if diagnostics.sqliteWalBytes > policy.maxSqliteWalBytes then
    .throttle "maintenance SQLite WAL above limit"
  else if diagnostics.dirtyBytes ≥ policy.dirtyLowWatermarkBytes then .acceptAndSchedule
  else .accept

def candidates (observation : MaintenanceObservation) : List MaintenanceDataLogObservation :=
  ((observation.nodes.flatMap (·.logs)).filter policy.logIsCompactionCandidate).insertionSort
    fun a b => a.logRef ≤ b.logRef

end MaintenancePolicy

def fromCursor (cursor : Option DurableDataLogRef) (logs : List MaintenanceDataLogObservation) :
    List MaintenanceDataLogObservation :=
  match cursor with
  | none => logs
  | some cursor =>
    match logs.findIdx? fun log => cursor < log.logRef with
    | none => logs
    | some index => logs.rotate index

/-- The loop over the scanned logs: those that fit in what is left of the budget, and the rest. -/
def selectLogs : Nat → List MaintenanceDataLogObservation →
    List MaintenanceDataLogObservation × List MaintenanceSkippedLog
  | _, [] => ([], [])
  | copyBudget, log :: logs =>
    if log.liveBytes > copyBudget then
      let later := selectLogs copyBudget logs
      (later.1, ⟨log.logRef, "copy_budget_exhausted"⟩ :: later.2)
    else
      let later := selectLogs (copyBudget - log.liveBytes) logs
      (log :: later.1, later.2)

namespace MaintenancePolicy

variable (policy : MaintenancePolicy)

def scanned (observation : MaintenanceObservation) : List MaintenanceDataLogObservation :=
  (fromCursor observation.compactionCursor (policy.candidates observation)).take
    policy.maxLogsScannedPerTick

/-- `MaintenanceScheduler::step`. -/
def step (observation : MaintenanceObservation) : MaintenanceTickPlan :=
  let diagnostics := policy.survey observation
  let admission := policy.admission diagnostics
  let (logs, skipped) := selectLogs policy.compactionCopyBudgetPerTick (policy.scanned observation)
  let selected := logs.map (·.logRef)
  let commands := if selected = [] then [] else [.compactDataLogs selected]
  { admission := if admission = .accept ∧ commands ≠ [] then .acceptAndSchedule else admission
    commands := commands
    diagnostics := { diagnostics with
      selectedLogs := selected
      skippedLogs := diagnostics.skippedLogs ++ skipped
      throttleReason := admission.unavailableReason }
    nextCursor := selected.getLast?.or observation.compactionCursor }

end MaintenancePolicy

/-! ## What a step selects -/

section

variable {logs u v : List MaintenanceDataLogObservation} {log x : MaintenanceDataLogObservation}
  {copyBudget : Nat}

theorem selectLogs_sublist (copyBudget : Nat) (logs : List MaintenanceDataLogObservation) :
    (selectLogs copyBudget logs).1.Sublist logs := by
  induction logs generalizing copyBudget with
  | nil => exact List.Sublist.refl []
  | cons log logs ih =>
    rw [selectLogs]
    split
    · exact (ih copyBudget).cons log
    · exact (ih (copyBudget - log.liveBytes)).cons_cons log

theorem selectLogs_sum_le (copyBudget : Nat) (logs : List MaintenanceDataLogObservation) :
    ((selectLogs copyBudget logs).1.map (·.liveBytes)).sum ≤ copyBudget := by
  induction logs generalizing copyBudget with
  | nil => exact Nat.zero_le copyBudget
  | cons log logs ih =>
    rw [selectLogs]
    split
    · exact ih copyBudget
    · have hle := ih (copyBudget - log.liveBytes)
      rw [List.map_cons, List.sum_cons]
      omega

theorem selectLogs_ne_nil (hlog : log ∈ logs) (hfits : log.liveBytes ≤ copyBudget) :
    (selectLogs copyBudget logs).1 ≠ [] := by
  induction logs with
  | nil => cases hlog
  | cons first logs ih =>
    rw [selectLogs]
    split
    · next hlarge =>
      rcases List.mem_cons.1 hlog with rfl | hlog
      · omega
      · exact ih hlog
    · exact List.cons_ne_nil _ _

/-! ## Turns of the cursor -/

theorem fromCursor_eq_append (cursor : Option DurableDataLogRef) (logs : List MaintenanceDataLogObservation) :
    ∃ u v, logs = u ++ v ∧ fromCursor cursor logs = v ++ u := by
  cases cursor with
  | none => exact ⟨[], logs, rfl, (List.append_nil logs).symm⟩
  | some cursor =>
    cases hindex : logs.findIdx? fun log => cursor < log.logRef with
    | none =>
      refine ⟨[], logs, rfl, ?_⟩
      simp only [fromCursor, hindex, List.append_nil]
    | some index =>
      refine ⟨logs.take index, logs.drop index, (List.take_append_drop index logs).symm, ?_⟩
      simp only [fromCursor, hindex]
      obtain ⟨hlt, -⟩ := List.findIdx?_eq_some_iff_getElem.1 hindex
      exact List.rotate_eq_drop_append_take hlt.le

end

/-! ## Runs of the scheduler -/

def MaintenanceObservation.Distinct (observation : MaintenanceObservation) : Prop :=
  ((observation.nodes.flatMap (·.logs)).map (·.logRef)).Nodup

theorem eq_takeWhile_append {α : Type} (p : α → Bool) {l : List α} {y : α} (hy : y ∈ l)
    (hp : p y = false) : ∃ x v, l = l.takeWhile p ++ x :: v ∧ p x = false := by
  cases hdrop : l.dropWhile p with
  | nil =>
    have htrue := List.dropWhile_eq_nil_iff.1 hdrop y hy
    rw [hp] at htrue
    cases htrue
  | cons x v =>
    refine ⟨x, v, ?_, ?_⟩
    · rw [← hdrop, List.takeWhile_append_dropWhile]
    · have hhead := List.head_dropWhile_not p (l := l) (by rw [hdrop]; exact List.cons_ne_nil x v)
      simpa only [hdrop, List.head_cons] using hhead

namespace MaintenancePolicy

variable (policy : MaintenancePolicy) (observation : MaintenanceObservation)

def next : MaintenanceObservation :=
  { observation with compactionCursor := (policy.step observation).nextCursor }

/-- If a candidate fits in the budget, one of the scanned logs does, and none that would fit in the
whole budget and stands before the last selected one is left out. -/
def Serves : Prop :=
  ∀ log ∈ policy.candidates observation, log.liveBytes ≤ policy.compactionCopyBudgetPerTick →
    (∃ other ∈ policy.scanned observation,
      other.liveBytes ≤ policy.compactionCopyBudgetPerTick) ∧
    (log ∈ (policy.scanned observation).takeWhile
        (fun other => some other.logRef ≠ (policy.step observation).nextCursor) →
      log.logRef ∈ (policy.step observation).diagnostics.selectedLogs)

variable {policy observation}

variable {log : MaintenanceDataLogObservation}

theorem mem_fromCursor {cursor : Option DurableDataLogRef}
    {logs : List MaintenanceDataLogObservation} : log ∈ fromCursor cursor logs ↔ log ∈ logs := by
  obtain ⟨u, v, rfl, h⟩ := fromCursor_eq_append cursor logs
  rw [h, List.mem_append, List.mem_append, or_comm]

/-- A log that the step does not select stands behind the last log that it does. -/
theorem Serves.split (h : policy.Serves observation) (hlog : log ∈ policy.candidates observation)
    (hfits : log.liveBytes ≤ policy.compactionCopyBudgetPerTick)
    (hnot : log.logRef ∉ (policy.step observation).diagnostics.selectedLogs) :
    ∃ u x v, fromCursor observation.compactionCursor (policy.candidates observation) = u ++ x :: v ∧
      log ∈ v ∧ log ∉ u ++ [x] ∧ (policy.step observation).nextCursor = some x.logRef := by
  obtain ⟨⟨other, hother, hotherFits⟩, hbefore⟩ := h log hlog hfits
  set selected := (policy.step observation).diagnostics.selectedLogs
  have hne : selected ≠ [] := fun hnil =>
    selectLogs_ne_nil hother hotherFits (List.map_eq_nil_iff.1 hnil)
  obtain ⟨last, hlast⟩ : ∃ last, selected.getLast? = some last :=
    ⟨_, List.getLast?_eq_some_getLast hne⟩
  have hcursor : (policy.step observation).nextCursor = some last := by
    show selected.getLast?.or observation.compactionCursor = some last
    rw [hlast]
    rfl
  have hmem : last ∈ selected := List.mem_of_getLast? hlast
  rw [hcursor] at hbefore ⊢
  -- the last selected log has been scanned
  obtain ⟨y, hy, rfl⟩ : ∃ y ∈ policy.scanned observation, y.logRef = last := by
    obtain ⟨y, hy, hyl⟩ := List.mem_map.1 hmem
    exact ⟨y, (selectLogs_sublist _ _).subset hy, hyl⟩
  obtain ⟨x, v, hsplit, hx⟩ := eq_takeWhile_append
    (fun other : MaintenanceDataLogObservation => decide (some other.logRef ≠ some y.logRef)) hy
    (by simp)
  set u := (policy.scanned observation).takeWhile
    fun other => decide (some other.logRef ≠ some y.logRef)
  have hxy : x.logRef = y.logRef := by simpa using hx
  have hnotu : log ∉ u ++ [x] := by
    intro hin
    rcases List.mem_append.1 hin with hin | hin
    · exact hnot (hbefore hin)
    · rw [List.mem_singleton.1 hin, hxy] at hnot
      exact hnot hmem
  have hall : fromCursor observation.compactionCursor (policy.candidates observation) =
      u ++ x :: (v ++ (fromCursor observation.compactionCursor
        (policy.candidates observation)).drop policy.maxLogsScannedPerTick) := by
    rw [← List.cons_append, ← List.append_assoc, ← hsplit]
    exact (List.take_append_drop _ _).symm
  refine ⟨u, x, _, hall, ?_, hnotu, by rw [hxy]⟩
  have hin : log ∈ fromCursor observation.compactionCursor (policy.candidates observation) :=
    mem_fromCursor.2 hlog
  rw [hall] at hin
  rcases List.mem_append.1 hin with hin | hin
  · exact absurd (List.mem_append_left _ hin) hnotu
  · rcases List.mem_cons.1 hin with rfl | hin
    · exact absurd (List.mem_append_right _ List.mem_cons_self) hnotu
    · exact hin

def tenBytes : MaintenancePolicy :=
  { MaintenancePolicy.default with
    dataLogPolicy := { DurableDataLogPolicy.default with
      minReclaimableRatioPpm := 1
      minReclaimableBytes := 1 }
    compactionCopyBudgetPerTick := 10 }

end MaintenancePolicy

end CowStore.Durable.Maintenance
