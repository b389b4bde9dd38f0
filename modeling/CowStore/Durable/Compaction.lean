import CowStore.Durable.Maintenance
import Mathlib.Algebra.Order.BigOperators.Group.List
import Mathlib.Data.List.MinMax

/-!
# Compaction by the maintenance worker

The worker runs ticks until one has nothing to do.  A tick plans what to compact from the rows of
the node catalogs, and the executor compacts the planned logs one by one: a log without live bytes
is deleted, another one after its segments have been appended to the active log of its node.  The
executor has a copy limit of its own, and passes over a log that does not fit.
-/

namespace CowStore.Durable.Maintenance

open Lib StorageError

/-! ## Node catalogs -/

inductive DataLogState
  | active
  | streamActive
  | sealed
  | deleted
  deriving DecidableEq, Repr

structure DataLogRow where
  logRef : DurableDataLogRef
  state : DataLogState
  totalBytes : Nat
  liveBytes : Nat
  deadBytes : Nat
  deriving DecidableEq, Repr

structure SegmentPlacementRow where
  segmentId : Nat
  logRef : DurableDataLogRef
  payloadBytes : Nat
  deriving DecidableEq, Repr

structure NodeCatalogs where
  storageNodes : List Nat
  dataLogs : List DataLogRow
  segmentPlacements : List SegmentPlacementRow
  sqliteWalBytes : Nat
  deriving DecidableEq, Repr

namespace NodeCatalogs

variable (s : NodeCatalogs)

def updateLog (logRef : DurableDataLogRef) (f : DataLogRow → DataLogRow) : NodeCatalogs :=
  { s with dataLogs := s.dataLogs.map fun row => if row.logRef = logRef then f row else row }

def persistDataLogManifest (manifest : DurableDataLogRef × Nat) : NodeCatalogs :=
  if s.dataLogs.any (·.logRef = manifest.1) then
    s.updateLog manifest.1 fun row =>
      { row with state := .active, totalBytes := max row.totalBytes manifest.2 }
  else { s with dataLogs := s.dataLogs ++ [⟨manifest.1, .active, manifest.2, 0, 0⟩] }

def sealDataLogManifest (logRef : DurableDataLogRef) : NodeCatalogs :=
  s.updateLog logRef fun row => if row.state = .deleted then row else { row with state := .sealed }

def otherPlacements (segmentId : Nat) : List SegmentPlacementRow :=
  s.segmentPlacements.filter (·.segmentId ≠ segmentId)

def markPlacementDead (placement : SegmentPlacementRow) : NodeCatalogs :=
  { s.updateLog placement.logRef fun row =>
      { row with
        liveBytes := row.liveBytes - placement.payloadBytes
        deadBytes := row.deadBytes + placement.payloadBytes }
    with segmentPlacements := s.otherPlacements placement.segmentId }

def persistSegmentPlacement (placement : SegmentPlacementRow) : NodeCatalogs :=
  { s.updateLog placement.logRef fun row =>
      { row with liveBytes := row.liveBytes + placement.payloadBytes }
    with segmentPlacements := s.otherPlacements placement.segmentId ++ [placement] }

def maxLogId (storageNode : Nat) : Nat :=
  ((s.dataLogs.filter (·.logRef.storageNode = storageNode)).map (·.logRef.logId)).foldr max 0

def nextDataLogId (storageNode floor : Nat) : Result Nat :=
  checkedAdd (max (s.maxLogId storageNode) floor) 1 (conflict "data-log id overflow")

/-- The log that a node appends to, and how long it is. -/
def activeDataLog (storageNode : Nat) : Result (DurableDataLogRef × Nat) :=
  match (s.dataLogs.filter fun row =>
      row.logRef.storageNode = storageNode ∧ row.state = .active).argmax (·.logRef.logId) with
  | some row => return (row.logRef, row.totalBytes)
  | none => do
    let logId ← s.nextDataLogId storageNode 0
    return (⟨storageNode, logId⟩, 0)

end NodeCatalogs

/-! ## Appending the segments of a log -/

/-- `PendingDataLogAppend`, with the log that is appended to.  A log has a manifest for each of its
records; the last one has its length. -/
structure PendingDataLogAppend where
  active : DurableDataLogRef × Nat
  logs : List (DurableDataLogRef × Nat)
  sealedLogs : List DurableDataLogRef
  placements : List SegmentPlacementRow
  deriving DecidableEq, Repr

def dataLogHeaderLen : Nat := 8 + 2 + 1 + 16 + 8 + 1 + 8

/-- One record.  When the log has records and this one would take it past its target length, the
log is sealed and the next one begun. -/
def appendSegment (target : Nat) (s : NodeCatalogs) (append : PendingDataLogAppend)
    (segment : SegmentPlacementRow) : Result PendingDataLogAppend := do
  let recordLen ← checkedAdd dataLogHeaderLen segment.payloadBytes
    (invalidArgument "data-log record length overflows")
  let after ← checkedAdd append.active.2 recordLen (conflict "data-log size overflow")
  if append.active.2 ≠ 0 ∧ after > target then
    let logId ← s.nextDataLogId append.active.1.storageNode append.active.1.logId
    let logRef : DurableDataLogRef := ⟨append.active.1.storageNode, logId⟩
    return {
      active := (logRef, recordLen)
      logs := append.logs ++ [(logRef, recordLen)]
      sealedLogs := append.sealedLogs ++ [append.active.1]
      placements := append.placements ++ [{ segment with logRef := logRef }] }
  else
    return {
      active := (append.active.1, after)
      logs := append.logs ++ [(append.active.1, after)]
      sealedLogs := append.sealedLogs
      placements := append.placements ++ [{ segment with logRef := append.active.1 }] }

def appendSegments (target : Nat) (s : NodeCatalogs) (storageNode : Nat)
    (segments : List SegmentPlacementRow) : Result PendingDataLogAppend := do
  let active ← s.activeDataLog storageNode
  segments.foldlM (appendSegment target s) ⟨active, [], [], []⟩

/-! ## The executor -/

structure DurableCompactionReport where
  deletedLogs : List DurableDataLogRef
  relocatedLogs : List DurableDataLogRef
  relocatedSegments : List Nat
  bytesCopied : Nat
  bytesDeleted : Nat
  deriving DecidableEq, Repr

def emptyCompactionReport : DurableCompactionReport := ⟨[], [], [], 0, 0⟩

def compactionOverflow : StorageError := conflict "compaction byte count overflow"

/-- The catalogs after the segments of a log have been appended elsewhere. -/
def relocate (s : NodeCatalogs) (log : DurableDataLogRef) (old : List SegmentPlacementRow)
    (appended : PendingDataLogAppend) : NodeCatalogs :=
  let s := appended.logs.foldl NodeCatalogs.persistDataLogManifest s
  let s := appended.sealedLogs.foldl NodeCatalogs.sealDataLogManifest s
  let s := old.foldl NodeCatalogs.markPlacementDead s
  let s := appended.placements.foldl NodeCatalogs.persistSegmentPlacement s
  s.updateLog log fun row =>
    { row with state := .deleted, liveBytes := 0, deadBytes := row.totalBytes }

/-- One round of the loop in `compact_data_log_rows`. -/
def compactDataLogRow (policy : DurableDataLogPolicy)
    (progress : NodeCatalogs × DurableCompactionReport) (log : DataLogRow) :
    Result (NodeCatalogs × DurableCompactionReport) := do
  let (s, report) := progress
  if log.liveBytes = 0 then
    let deleted ← checkedAdd report.bytesDeleted log.totalBytes compactionOverflow
    return (s.updateLog log.logRef fun row => { row with state := .deleted },
      { report with deletedLogs := report.deletedLogs ++ [log.logRef], bytesDeleted := deleted })
  else
    let copied ← checkedAdd report.bytesCopied log.liveBytes compactionOverflow
    if copied > policy.maxCompactionCopyBytes then
      return (s, report)
    else
      let placements := s.segmentPlacements.filter (·.logRef = log.logRef)
      let appended ← appendSegments policy.targetDataLogBytes s log.logRef.storageNode placements
      let copied ← (appended.placements.map (·.payloadBytes)).foldlM
        (fun copied bytes => checkedAdd copied bytes compactionOverflow) report.bytesCopied
      let deleted ← checkedAdd report.bytesDeleted log.totalBytes compactionOverflow
      return (relocate s log.logRef placements appended,
        { report with
          relocatedLogs := report.relocatedLogs ++ [log.logRef]
          relocatedSegments := report.relocatedSegments ++ appended.placements.map (·.segmentId)
          bytesCopied := copied
          bytesDeleted := deleted })

/-- A planned log is compacted if it is still sealed and still worth it. -/
def compactionCandidate (policy : DurableDataLogPolicy) (s : NodeCatalogs)
    (logRef : DurableDataLogRef) : Option DataLogRow :=
  (s.dataLogs.find? fun row => row.logRef = logRef ∧ row.state = .sealed).filter fun row =>
    row.totalBytes ≠ 0 ∧ (row.liveBytes = 0 ∨
      row.deadBytes ≥ policy.minReclaimableBytes ∧
        reclaimableRatio row.deadBytes row.totalBytes ≥ policy.minReclaimableRatioPpm)

def compactDataLogRefs (policy : DurableDataLogPolicy) (s : NodeCatalogs)
    (logs : List DurableDataLogRef) : Result (NodeCatalogs × DurableCompactionReport) := do
  policy.validate
  (logs.filterMap (compactionCandidate policy s)).foldlM (compactDataLogRow policy)
    (s, emptyCompactionReport)

/-! ## Ticks -/

def NodeCatalogs.maintenanceObservation (s : NodeCatalogs) (cursor : Option DurableDataLogRef) :
    MaintenanceObservation where
  nodes := s.storageNodes.map fun storageNode =>
    let logs := s.dataLogs.filter fun row =>
      row.logRef.storageNode = storageNode ∧ row.state = .sealed
    { sealedLogCount := logs.length
      dirtyBytes := (logs.map (·.deadBytes)).foldl saturatingAdd 0
      reclaimableBytes := (logs.map (·.deadBytes)).foldl saturatingAdd 0
      logs := logs.map fun row => ⟨row.logRef, row.totalBytes, row.liveBytes, row.deadBytes⟩ }
  sqliteWalBytes := s.sqliteWalBytes
  compactionCursor := cursor

namespace MaintenancePolicy

variable (policy : MaintenancePolicy)

def tickDataLogPolicy : DurableDataLogPolicy :=
  { policy.dataLogPolicy with
    maxCompactionCopyBytes :=
      min policy.dataLogPolicy.maxCompactionCopyBytes policy.compactionCopyBudgetPerTick }

end MaintenancePolicy

structure Worker where
  catalogs : NodeCatalogs
  cursor : Option DurableDataLogRef
  deriving DecidableEq, Repr

namespace Worker

variable (policy : MaintenancePolicy) (w : Worker)

def plan : MaintenanceTickPlan := policy.step (w.catalogs.maintenanceObservation w.cursor)

def runCommand (catalogs : NodeCatalogs) : MaintenanceCommand → Result NodeCatalogs
  | .compactDataLogs logs => do
    let (catalogs, _) ← compactDataLogRefs policy.tickDataLogPolicy catalogs logs
    return catalogs

/-- `run_maintenance_tick_parts`, of which the worker only sees whether there were commands. -/
def tick : Result Worker := do
  policy.validate
  let catalogs ← (w.plan policy).commands.foldlM (runCommand policy) w.catalogs
  return ⟨catalogs, (w.plan policy).nextCursor⟩

/-- The worker after a pass, if the pass asks for another one. -/
def again : Option Worker :=
  if (w.plan policy).commands = [] then none else (w.tick policy).toOption

/-- The worker after some passes, unless it has stopped before. -/
def passes : Nat → Option Worker
  | 0 => some w
  | n + 1 => (passes n).bind (again policy)

end Worker

/-! ## Dead bytes -/

def DataLogRow.deadLeft (row : DataLogRow) : Nat := if row.state = .deleted then 0 else row.deadBytes

namespace NodeCatalogs

def Distinct (s : NodeCatalogs) : Prop := (s.dataLogs.map (·.logRef)).Nodup

/-- The dead bytes of the logs that are still there, but for one log. -/
def workBut (s : NodeCatalogs) (logRef : DurableDataLogRef) : Nat :=
  (s.dataLogs.map fun row => if row.logRef = logRef then 0 else row.deadLeft).sum

def work (s : NodeCatalogs) : Nat := (s.dataLogs.map DataLogRow.deadLeft).sum

/-- `s'` may have more logs than `s`, but no other dead bytes, the log apart. -/
structure Keeps (logRef : DurableDataLogRef) (s s' : NodeCatalogs) : Prop where
  distinct : s.Distinct → s'.Distinct
  work_eq : s'.workBut logRef = s.workBut logRef

variable {s s' : NodeCatalogs} {logRef : DurableDataLogRef}

theorem Keeps.refl (logRef : DurableDataLogRef) (s : NodeCatalogs) : Keeps logRef s s := ⟨id, rfl⟩

theorem Keeps.trans {s'' : NodeCatalogs} (h : Keeps logRef s s') (h' : Keeps logRef s' s'') :
    Keeps logRef s s'' := ⟨h'.distinct ∘ h.distinct, h'.work_eq.trans h.work_eq⟩

theorem keeps_foldl {α : Type} {f : NodeCatalogs → α → NodeCatalogs} (xs : List α)
    (h : ∀ s, ∀ x ∈ xs, Keeps logRef s (f s x)) (s : NodeCatalogs) : Keeps logRef s (xs.foldl f s) := by
  induction xs generalizing s with
  | nil => exact .refl logRef s
  | cons x xs ih =>
    exact (h s x List.mem_cons_self).trans
      (ih (fun s y hy => h s y (List.mem_cons_of_mem x hy)) (f s x))

theorem workBut_le_work (s : NodeCatalogs) (logRef : DurableDataLogRef) : s.workBut logRef ≤ s.work := by
  refine List.sum_le_sum fun row _ => ?_
  split
  · exact Nat.zero_le _
  · exact le_rfl

theorem workBut_lt_work {row : DataLogRow} (hrow : row ∈ s.dataLogs) (hdead : 0 < row.deadLeft) :
    s.workBut row.logRef < s.work := by
  refine List.sum_lt_sum _ _ (fun other _ => ?_) ⟨row, hrow, by rwa [if_pos rfl]⟩
  split
  · exact Nat.zero_le _
  · exact le_rfl

theorem work_eq_workBut (h : ∀ row ∈ s.dataLogs, row.logRef = logRef → row.deadLeft = 0) :
    s.work = s.workBut logRef := by
  refine congrArg List.sum (List.map_congr_left fun row hrow => ?_)
  split
  · next heq => exact h row hrow heq
  · rfl

theorem keeps_updateLog {updated : DurableDataLogRef} {f : DataLogRow → DataLogRow}
    (href : ∀ row, (f row).logRef = row.logRef)
    (h : updated ≠ logRef → ∀ row ∈ s.dataLogs, row.logRef = updated →
      (f row).deadLeft = row.deadLeft) : Keeps logRef s (s.updateLog updated f) := by
  constructor
  · intro hs
    rw [Distinct, updateLog, List.map_map]
    refine (congrArg List.Nodup (List.map_congr_left fun row _ => ?_)).mpr hs
    rw [Function.comp_apply]
    split
    · exact href row
    · rfl
  · rw [workBut, workBut, updateLog, List.map_map]
    refine congrArg List.sum (List.map_congr_left fun row hrow => ?_)
    rw [Function.comp_apply]
    by_cases heq : row.logRef = updated
    · rw [if_pos heq, href, heq]
      by_cases hlog : updated = logRef
      · rw [if_pos hlog, if_pos hlog]
      · rw [if_neg hlog, if_neg hlog, h hlog row hrow heq]
    · rw [if_neg heq]

theorem keeps_sealDataLogManifest (s : NodeCatalogs) (logRef sealed : DurableDataLogRef) :
    Keeps logRef s (s.sealDataLogManifest sealed) := by
  refine keeps_updateLog (fun row => ?_) fun _ row _ _ => ?_
  · split
    · rfl
    · rfl
  · split
    · rfl
    · next hstate => simp [DataLogRow.deadLeft, hstate]

theorem keeps_persistSegmentPlacement (s : NodeCatalogs) (logRef : DurableDataLogRef)
    (placement : SegmentPlacementRow) : Keeps logRef s (s.persistSegmentPlacement placement) := by
  have hkeeps : Keeps logRef s (s.updateLog placement.logRef fun row =>
      { row with liveBytes := row.liveBytes + placement.payloadBytes }) :=
    keeps_updateLog (fun _ => rfl) fun _ _ _ _ => rfl
  exact ⟨hkeeps.distinct, hkeeps.work_eq⟩

theorem keeps_markPlacementDead (s : NodeCatalogs) {placement : SegmentPlacementRow}
    (hlog : placement.logRef = logRef) : Keeps logRef s (s.markPlacementDead placement) := by
  have hkeeps : Keeps logRef s (s.updateLog placement.logRef fun row =>
      { row with
        liveBytes := row.liveBytes - placement.payloadBytes
        deadBytes := row.deadBytes + placement.payloadBytes }) :=
    keeps_updateLog (fun _ => rfl) fun hne => absurd hlog hne
  exact ⟨hkeeps.distinct, hkeeps.work_eq⟩

/-- No row of the log says that it is deleted. -/
def Usable (s : NodeCatalogs) (logRef : DurableDataLogRef) : Prop :=
  ∀ row ∈ s.dataLogs, row.logRef = logRef → row.state ≠ .deleted

theorem keeps_persistDataLogManifest {manifest : DurableDataLogRef × Nat} (h : s.Usable manifest.1) :
    Keeps logRef s (s.persistDataLogManifest manifest) := by
  rw [persistDataLogManifest]
  split
  · refine keeps_updateLog (fun _ => rfl) fun _ row hrow heq => ?_
    simp [DataLogRow.deadLeft, h row hrow heq]
  · next hnew =>
    constructor
    · intro hs
      rw [Distinct, List.map_append]
      refine List.nodup_append.2 ⟨hs, List.nodup_singleton _, fun ref href ref' href' => ?_⟩
      obtain ⟨row, hrow, rfl⟩ := List.mem_map.1 href
      rw [List.map_singleton, List.mem_singleton] at href'
      intro heq
      exact hnew (List.any_eq_true.2 ⟨row, hrow, decide_eq_true (heq.trans href')⟩)
    · rw [workBut, workBut, List.map_append, List.sum_append]
      simp [DataLogRow.deadLeft]

theorem Usable.persistDataLogManifest (h : s.Usable logRef) (manifest : DurableDataLogRef × Nat) :
    (s.persistDataLogManifest manifest).Usable logRef := by
  rw [NodeCatalogs.persistDataLogManifest]
  split
  · intro row hrow heq
    obtain ⟨old, hold, rfl⟩ := List.mem_map.1 hrow
    by_cases hupdated : old.logRef = manifest.1
    · rw [if_pos hupdated]
      exact DataLogState.noConfusion
    · rw [if_neg hupdated] at heq ⊢
      exact h old hold heq
  · intro row hrow heq
    rcases List.mem_append.1 hrow with hrow | hrow
    · exact h row hrow heq
    · rw [List.mem_singleton.1 hrow]
      exact DataLogState.noConfusion

theorem keeps_persistDataLogManifests (manifests : List (DurableDataLogRef × Nat))
    (h : ∀ manifest ∈ manifests, s.Usable manifest.1) :
    Keeps logRef s (manifests.foldl NodeCatalogs.persistDataLogManifest s) := by
  induction manifests generalizing s with
  | nil => exact .refl logRef s
  | cons manifest manifests ih =>
    obtain ⟨hfirst, hrest⟩ := List.forall_mem_cons.1 h
    exact (keeps_persistDataLogManifest hfirst).trans
      (ih fun other hother => (hrest other hother).persistDataLogManifest manifest)

end NodeCatalogs

/-! ## What a pass does -/

section

open NodeCatalogs

variable {s : NodeCatalogs} {policy : DurableDataLogPolicy} {log : DataLogRow}

theorem le_maxLogId {row : DataLogRow} (hrow : row ∈ s.dataLogs) :
    row.logRef.logId ≤ s.maxLogId row.logRef.storageNode := by
  have hmem : row.logRef.logId ∈ (s.dataLogs.filter
      (·.logRef.storageNode = row.logRef.storageNode)).map (·.logRef.logId) :=
    List.mem_map_of_mem (List.mem_filter.2 ⟨hrow, decide_eq_true rfl⟩)
  rw [maxLogId]
  generalize (s.dataLogs.filter (·.logRef.storageNode = row.logRef.storageNode)).map
    (·.logRef.logId) = ids at hmem
  induction ids with
  | nil => cases hmem
  | cons id ids ih =>
    rcases List.mem_cons.1 hmem with hmem | hmem
    · exact hmem ▸ le_max_left _ _
    · exact (ih hmem).trans (le_max_right _ _)

variable {storageNode : Nat} {progress : NodeCatalogs × DurableCompactionReport}

theorem usable_nextDataLogId {floor logId : Nat}
    (h : s.nextDataLogId storageNode floor = .ok logId) : s.Usable ⟨storageNode, logId⟩ := by
  obtain ⟨rfl, -⟩ := checkedAdd_eq_ok h
  intro row hrow heq
  have hle := le_maxLogId hrow
  rw [heq] at hle
  dsimp only at hle
  omega

theorem usable_activeDataLog (hs : s.Distinct) {active : DurableDataLogRef × Nat}
    (h : s.activeDataLog storageNode = .ok active) : s.Usable active.1 := by
  rw [activeDataLog] at h
  split at h
  · next row hrow =>
    cases h
    obtain ⟨hmem, hactive⟩ := List.mem_filter.1 (List.argmax_mem hrow)
    have hstate : row.state = .active := (of_decide_eq_true hactive).2
    intro other hother heq
    rw [List.inj_on_of_nodup_map hs hother hmem heq, hstate]
    exact DataLogState.noConfusion
  · obtain ⟨logId, hlogId, h⟩ := bind_eq_ok.1 h
    cases h
    exact usable_nextDataLogId hlogId

structure PendingDataLogAppend.Usable (s : NodeCatalogs) (append : PendingDataLogAppend) : Prop where
  active : s.Usable append.active.1
  logs : ∀ manifest ∈ append.logs, s.Usable manifest.1

theorem usable_appendSegments (hs : s.Distinct) {target : Nat} {segments : List SegmentPlacementRow}
    {appended : PendingDataLogAppend}
    (h : appendSegments target s storageNode segments = .ok appended) : appended.Usable s := by
  obtain ⟨active, hactive, h⟩ := bind_eq_ok.1 h
  refine foldlM_invariant (PendingDataLogAppend.Usable s) h
    ⟨usable_activeDataLog hs hactive, by simp⟩ fun append segment append' _ happend h => ?_
  obtain ⟨recordLen, -, after, -, h⟩ := bind2_eq_ok.1 h
  split at h
  · obtain ⟨logId, hlogId, h⟩ := bind_eq_ok.1 h
    cases h
    have hnew := usable_nextDataLogId hlogId
    exact ⟨hnew, List.forall_mem_append.2 ⟨happend.logs, List.forall_mem_singleton.2 hnew⟩⟩
  · cases h
    exact ⟨happend.active,
      List.forall_mem_append.2 ⟨happend.logs, List.forall_mem_singleton.2 happend.active⟩⟩

theorem work_of_deleted {log : DurableDataLogRef} {f : DataLogRow → DataLogRow} {s' : NodeCatalogs}
    (hkeeps : Keeps log s s') (hlog : ∀ row, (f row).logRef = row.logRef)
    (hstate : ∀ row, (f row).state = .deleted) :
    Keeps log s (s'.updateLog log f) ∧ (s'.updateLog log f).work = s.workBut log := by
  have hall := hkeeps.trans (keeps_updateLog hlog fun hne => absurd rfl hne)
  refine ⟨hall, (work_eq_workBut fun row hrow heq => ?_).trans hall.work_eq⟩
  obtain ⟨old, -, rfl⟩ := List.mem_map.1 hrow
  by_cases hold : old.logRef = log
  · rw [if_pos hold, DataLogRow.deadLeft, if_pos (hstate old)]
  · rw [if_neg hold] at heq
    exact absurd heq hold

/-- A log is passed over, or the dead bytes of the others are all that is left. -/
theorem compactDataLogRow_cases (hs : s.Distinct) {report : DurableCompactionReport}
    (h : compactDataLogRow policy (s, report) log = .ok progress) : (progress.1 = s ∧ log.liveBytes ≠ 0 ∧
      policy.maxCompactionCopyBytes < report.bytesCopied + log.liveBytes) ∨
    (Keeps log.logRef s progress.1 ∧ progress.1.work = s.workBut log.logRef) := by
  rw [compactDataLogRow] at h
  dsimp only at h
  split at h
  · obtain ⟨deleted, -, h⟩ := bind_eq_ok.1 h
    cases h
    exact .inr (work_of_deleted (.refl _ _) (fun _ => rfl) fun _ => rfl)
  · next hlive =>
    obtain ⟨-, h⟩ := bind_checkedAdd h
    split at h
    · next hover =>
      cases h
      exact .inl ⟨rfl, hlive, hover⟩
    · obtain ⟨appended, happended, copied, -, deleted, -, h⟩ := bind3_eq_ok.1 h
      cases h
      refine .inr (work_of_deleted ?_ (fun _ => rfl) fun _ => rfl)
      have husable := usable_appendSegments hs happended
      refine (keeps_persistDataLogManifests appended.logs husable.logs).trans ?_
      refine (keeps_foldl appended.sealedLogs (fun s ref _ => keeps_sealDataLogManifest s _ ref) _).trans ?_
      refine (keeps_foldl _ (fun s placement hplacement => ?_) _).trans
        (keeps_foldl appended.placements (fun s placement _ => keeps_persistSegmentPlacement s _ placement) _)
      exact keeps_markPlacementDead s (of_decide_eq_true (List.mem_filter.1 hplacement).2)

theorem compactDataLogRows_le {rows : List DataLogRow} (hs : s.Distinct) {report : DurableCompactionReport}
    (h : rows.foldlM (compactDataLogRow policy) (s, report) = .ok progress) :
    progress.1.Distinct ∧ progress.1.work ≤ s.work := by
  refine foldlM_invariant
    (fun progress : NodeCatalogs × DurableCompactionReport =>
      progress.1.Distinct ∧ progress.1.work ≤ s.work) h ⟨hs, le_rfl⟩ ?_
  rintro ⟨s1, report1⟩ row progress1 - ⟨hs1, hle⟩ hrow
  rcases compactDataLogRow_cases hs1 hrow with ⟨heq, -⟩ | ⟨hkeeps, hwork⟩
  · rw [heq]
    exact ⟨hs1, hle⟩
  · rw [hwork]
    exact ⟨hkeeps.distinct hs1, (workBut_le_work s1 row.logRef).trans hle⟩

theorem compactDataLogRows_lt {rows : List DataLogRow} (hs : s.Distinct) (hlog : log ∈ s.dataLogs)
    (hdead : 0 < log.deadLeft) (hfits : log.liveBytes ≤ policy.maxCompactionCopyBytes)
    (h : (log :: rows).foldlM (compactDataLogRow policy) (s, emptyCompactionReport) = .ok progress) :
    progress.1.work < s.work := by
  rw [List.foldlM_cons] at h
  obtain ⟨⟨s1, report1⟩, hfirst, hrest⟩ := bind_eq_ok.1 h
  rcases compactDataLogRow_cases hs hfirst with ⟨-, -, hover⟩ | ⟨hkeeps, hwork⟩
  · have hzero : emptyCompactionReport.bytesCopied = 0 := rfl
    omega
  · have hle := (compactDataLogRows_le (hkeeps.distinct hs) hrest).2
    exact (hle.trans_eq hwork).trans_lt (workBut_lt_work hlog hdead)

end

/-! ## The worker stops -/

namespace Worker

open NodeCatalogs

variable {policy : MaintenancePolicy} {w w' : Worker}

def planned (policy : MaintenancePolicy) (w : Worker) : List MaintenanceDataLogObservation :=
  (selectLogs policy.compactionCopyBudgetPerTick
    (policy.scanned (w.catalogs.maintenanceObservation w.cursor))).1

/-- The first log that the pass plans to compact has dead bytes, and its live bytes are within the
executor's own limit. -/
def Reclaims (policy : MaintenancePolicy) (w : Worker) : Prop :=
  ∃ log logs, w.planned policy = log :: logs ∧ 0 < log.deadBytes ∧
    log.liveBytes ≤ policy.dataLogPolicy.maxCompactionCopyBytes

theorem commands_eq (policy : MaintenancePolicy) (w : Worker) : (w.plan policy).commands =
    if (w.planned policy).map (·.logRef) = [] then []
    else [.compactDataLogs ((w.planned policy).map (·.logRef))] := rfl

theorem mem_planned {log : MaintenanceDataLogObservation} (h : log ∈ w.planned policy) :
    policy.logIsCompactionCandidate log = true ∧ ∃ row ∈ w.catalogs.dataLogs, row.state = .sealed ∧
      log = ⟨row.logRef, row.totalBytes, row.liveBytes, row.deadBytes⟩ := by
  have hscanned := (selectLogs_sublist _ _).subset h
  have hcandidate := MaintenancePolicy.mem_fromCursor.1 (List.mem_of_mem_take hscanned)
  have hfilter := (List.perm_insertionSort _ _).mem_iff.1 hcandidate
  obtain ⟨hlog, hcandidate⟩ := List.mem_filter.1 hfilter
  obtain ⟨node, hnode, hlog⟩ := List.mem_flatMap.1 hlog
  obtain ⟨storageNode, -, rfl⟩ := List.mem_map.1 hnode
  obtain ⟨row, hrow, rfl⟩ := List.mem_map.1 hlog
  obtain ⟨hrow, hsealed⟩ := List.mem_filter.1 hrow
  exact ⟨hcandidate, row, hrow, (of_decide_eq_true hsealed).2, rfl⟩

theorem compactionCandidate_of_planned (hw : w.catalogs.Distinct) {row : DataLogRow}
    (hrow : row ∈ w.catalogs.dataLogs) (hsealed : row.state = .sealed)
    (hcandidate : policy.logIsCompactionCandidate
      ⟨row.logRef, row.totalBytes, row.liveBytes, row.deadBytes⟩ = true) :
    compactionCandidate policy.tickDataLogPolicy w.catalogs row.logRef = some row := by
  have hfind : (w.catalogs.dataLogs.find? fun other =>
      other.logRef = row.logRef ∧ other.state = .sealed) = some row := by
    cases hfound : w.catalogs.dataLogs.find? fun other =>
        other.logRef = row.logRef ∧ other.state = .sealed with
    | none =>
      have hnone := List.find?_eq_none.1 hfound row hrow
      simp [hsealed] at hnone
    | some other =>
      have hother := List.find?_some hfound
      have href : other.logRef = row.logRef := (of_decide_eq_true hother).1
      rw [List.inj_on_of_nodup_map hw (List.mem_of_find?_eq_some hfound) hrow href]
  rw [compactionCandidate, hfind]
  refine Option.filter_some_pos ?_
  rw [MaintenancePolicy.logIsCompactionCandidate] at hcandidate
  split at hcandidate
  · cases hcandidate
  · next htotal =>
    refine decide_eq_true ⟨htotal, ?_⟩
    split at hcandidate
    · next hlive => exact .inl hlive.1
    · exact .inr (of_decide_eq_true hcandidate)

/-- A pass that asks for another one, and reclaims something. -/
theorem again_lt (hw : w.catalogs.Distinct) (h : w.again policy = some w') (hreclaims : w.Reclaims policy) :
    w'.catalogs.Distinct ∧ w'.catalogs.work < w.catalogs.work := by
  obtain ⟨log, logs, hplanned, hdead, hlive⟩ := hreclaims
  have hmem : log ∈ w.planned policy := hplanned ▸ List.mem_cons_self
  obtain ⟨hcandidate, row, hrow, hsealed, rfl⟩ := mem_planned hmem
  have hbudget : row.liveBytes ≤ policy.compactionCopyBudgetPerTick := by
    have hsum := selectLogs_sum_le policy.compactionCopyBudgetPerTick
      (policy.scanned (w.catalogs.maintenanceObservation w.cursor))
    exact (List.le_sum_of_mem (List.mem_map_of_mem hmem)).trans hsum
  have hcommands := commands_eq policy w
  rw [hplanned, List.map_cons, if_neg (List.cons_ne_nil _ _)] at hcommands
  rw [again, hcommands, if_neg (List.cons_ne_nil _ _)] at h
  cases htick : w.tick policy with
  | error e =>
    rw [htick] at h
    cases h
  | ok next =>
    rw [htick] at h
    cases h
    obtain ⟨⟨⟩, -, catalogs, hrun, htick⟩ := bind2_eq_ok.1 htick
    cases htick
    rw [hcommands, List.foldlM_cons] at hrun
    obtain ⟨catalogs', hcommand, hrun⟩ := bind_eq_ok.1 hrun
    cases hrun
    obtain ⟨progress, hcompact, hcommand⟩ := bind_eq_ok.1 hcommand
    cases hcommand
    obtain ⟨⟨⟩, -, hcompact⟩ := bind_eq_ok.1 hcompact
    rw [List.filterMap_cons_some (compactionCandidate_of_planned hw hrow hsealed hcandidate)]
      at hcompact
    refine ⟨(compactDataLogRows_le hw hcompact).1, ?_⟩
    refine compactDataLogRows_lt hw hrow ?_ (le_min hlive hbudget) hcompact
    rw [DataLogRow.deadLeft, if_neg (by rw [hsealed]; exact DataLogState.noConfusion)]
    exact hdead

/-- With a positive threshold, and an executor that copies what the scheduler plans, every pass
reclaims something. -/
theorem reclaims_of_policy
    (hcopy : policy.compactionCopyBudgetPerTick ≤ policy.dataLogPolicy.maxCompactionCopyBytes)
    (hthreshold : 0 < policy.dataLogPolicy.minReclaimableBytes ∨
      0 < policy.dataLogPolicy.minReclaimableRatioPpm)
    (hcommands : (w.plan policy).commands ≠ []) : w.Reclaims policy := by
  rw [commands_eq] at hcommands
  cases hplanned : w.planned policy with
  | nil =>
    rw [hplanned] at hcommands
    exact absurd rfl hcommands
  | cons log logs =>
    have hmem : log ∈ w.planned policy := hplanned ▸ List.mem_cons_self
    refine ⟨log, logs, hplanned, ?_, ?_⟩
    · obtain ⟨hcandidate, -⟩ := mem_planned hmem
      rw [MaintenancePolicy.logIsCompactionCandidate] at hcandidate
      split at hcandidate
      · cases hcandidate
      · split at hcandidate
        · next hlive => exact Nat.pos_of_ne_zero hlive.2
        · obtain ⟨hbytes, hratio⟩ := of_decide_eq_true hcandidate
          refine hthreshold.elim (fun hmin => hmin.trans_le hbytes) fun hmin => ?_
          by_contra hzero
          have hdead : log.deadBytes = 0 := by omega
          rw [hdead, reclaimableRatio, Nat.zero_mul, Nat.zero_min, Nat.zero_div] at hratio
          omega
    · have hsum := selectLogs_sum_le policy.compactionCopyBudgetPerTick
        (policy.scanned (w.catalogs.maintenanceObservation w.cursor))
      exact ((List.le_sum_of_mem (List.mem_map_of_mem hmem)).trans hsum).trans hcopy

end Worker

/-- A pass that asks for another one has reduced what there is to reclaim when the first log that it
plans to compact has dead bytes and is within the executor's limit.  When all passes are like that,
the worker stops: there are no more passes than dead bytes, and one. -/
theorem worker_quiesces (policy : MaintenancePolicy) (w : Worker) (hw : w.catalogs.Distinct) :
    (∀ w', w.again policy = some w' → w.Reclaims policy →
      w'.catalogs.work < w.catalogs.work) ∧
    ((∀ n w', w.passes policy n = some w' → (w'.plan policy).commands ≠ [] → w'.Reclaims policy) →
      w.passes policy (w.catalogs.work + 1) = none) := by
  refine ⟨fun w' h hreclaims => (Worker.again_lt hw h hreclaims).2, fun hall => ?_⟩
  have hpasses : ∀ n w', w.passes policy n = some w' →
      w'.catalogs.Distinct ∧ w'.catalogs.work + n ≤ w.catalogs.work := by
    intro n
    induction n with
    | zero =>
      intro w' h
      cases h
      exact ⟨hw, le_rfl⟩
    | succ n ih =>
      intro w' h
      obtain ⟨w1, h1, hagain⟩ := Option.bind_eq_some_iff.1 h
      obtain ⟨hw1, hle⟩ := ih w1 h1
      have hcommands : (w1.plan policy).commands ≠ [] := by
        intro hnil
        rw [Worker.again, if_pos hnil] at hagain
        cases hagain
      obtain ⟨hw', hlt⟩ := Worker.again_lt hw1 hagain (hall n w1 h1 hcommands)
      exact ⟨hw', by omega⟩
  cases hlast : w.passes policy (w.catalogs.work + 1) with
  | none => rfl
  | some w' =>
    obtain ⟨-, hle⟩ := hpasses _ w' hlast
    omega

def oneLog : Worker where
  catalogs := {
    storageNodes := [1]
    dataLogs := [⟨⟨1, 1⟩, .sealed, 4, 3, 1⟩]
    segmentPlacements := [⟨7, ⟨1, 1⟩, 3⟩]
    sqliteWalBytes := 0 }
  cursor := some ⟨1, 1⟩

theorem worker_quiesces_one_log : oneLog.passes MaintenancePolicy.tenBytes 2 = none := by
  have hdistinct : oneLog.catalogs.Distinct := by
    rw [NodeCatalogs.Distinct]
    decide
  exact (worker_quiesces MaintenancePolicy.tenBytes oneLog hdistinct).2 fun n w' _ hcommands =>
    Worker.reclaims_of_policy (by decide) (by decide) hcommands

def twoBytes : MaintenancePolicy :=
  { MaintenancePolicy.tenBytes with
    dataLogPolicy := { MaintenancePolicy.tenBytes.dataLogPolicy with maxCompactionCopyBytes := 2 } }

/-- The scheduler plans to compact the log in every pass, the executor passes over it, and the
worker never stops. -/
theorem worker_spins : twoBytes.validate = .ok () ∧ oneLog.catalogs.Distinct ∧
    ∀ n, oneLog.passes twoBytes n = some oneLog := by
  refine ⟨by decide, ?_, fun n => ?_⟩
  · rw [NodeCatalogs.Distinct]
    decide
  · have hagain : oneLog.again twoBytes = some oneLog := by decide +kernel
    induction n with
    | zero => rfl
    | succ n ih =>
      rw [Worker.passes, ih]
      exact hagain

end CowStore.Durable.Maintenance
