import CowStore.Durable.Compaction
import CowStore.Lib.Run

/-!
# Sealing of data logs

The segments of a block write are appended when it is acknowledged, those of a file write when it
is flushed.  A log that is full is sealed and the next one begun; until its placements are
published, the seal is kept with them.  A flush publishes the logs that its own segments are in,
so that the seal of a log is lost when all that is in it has been published before.

The model is the share of one storage node.
-/

namespace CowStore.Durable.Maintenance

open Lib

/-- What the coordinator keeps of its appends until they are published. -/
structure Pending where
  placements : List SegmentPlacementRow
  logs : List (DurableDataLogRef × Nat)
  sealedLogs : List DurableDataLogRef

namespace Pending

def empty : Pending := ⟨[], [], []⟩

variable (p : Pending)

def activeLogForNode : Option (DurableDataLogRef × Nat) :=
  (p.logs.filter (·.1 ∉ p.sealedLogs)).argmax fun log => toLex (log.1.logId, log.2)

def pruneUnreferencedLogs : Pending :=
  { p with
    logs := p.logs.filter (·.1 ∈ p.placements.map (·.logRef))
    sealedLogs := p.sealedLogs.filter (· ∈ p.placements.map (·.logRef)) }

def retainCurrentPlacements (segmentIds : List Nat) : Pending :=
  { p with placements := p.placements.filter (·.segmentId ∈ segmentIds) }.pruneUnreferencedLogs

def removeSegments (segmentIds : List Nat) : Pending :=
  { p with placements := p.placements.filter (·.segmentId ∉ segmentIds) }.pruneUnreferencedLogs

def merge (other : PendingDataLogAppend) : Pending where
  placements := p.placements ++ other.placements
  logs := p.logs ++ other.logs
  sealedLogs := p.sealedLogs ++ other.sealedLogs.filter (· ∉ p.sealedLogs)

def append (target node : Nat) (s : NodeCatalogs) (segments : List SegmentPlacementRow) :
    Result Pending := do
  if segments = [] then return p
  let active ← (p.activeLogForNode.map .ok).getD (s.activeDataLog node)
  let appended ← segments.foldlM (appendSegment target s) ⟨active, [], [], []⟩
  return p.merge appended

def publish (s : NodeCatalogs) : NodeCatalogs :=
  let s := p.logs.foldl NodeCatalogs.persistDataLogManifest s
  let s := p.sealedLogs.foldl NodeCatalogs.sealDataLogManifest s
  p.placements.foldl NodeCatalogs.persistSegmentPlacement s

end Pending

structure NodeLogs where
  catalogs : NodeCatalogs
  pending : Pending

inductive LogTurn
  /-- A block write is acknowledged. -/
  | write (segments : List SegmentPlacementRow)
  /-- The commits with these segments are persisted; the new ones are in no log yet. -/
  | flush (segmentIds : List Nat) (newSegments : List SegmentPlacementRow)

namespace NodeLogs

variable (target node : Nat) (s : NodeLogs)

def step : LogTurn → Option NodeLogs
  | .write segments =>
    match s.pending.append target node s.catalogs segments with
    | .ok pending => some { s with pending }
    | .error _ => none
  | .flush segmentIds newSegments =>
    match (s.pending.retainCurrentPlacements segmentIds).append target node s.catalogs
      newSegments with
    | .ok selected => some ⟨selected.publish s.catalogs, s.pending.removeSegments segmentIds⟩
    | .error _ => none

/-- A flush takes all that is pending, and something is pending in every log that is to be sealed. -/
def Complete : LogTurn → Prop
  | .write _ => True
  | .flush segmentIds _ => (∀ p ∈ s.pending.placements, p.segmentId ∈ segmentIds) ∧
      ∀ ref ∈ s.pending.sealedLogs, ref ∈ s.pending.placements.map (·.logRef)

end NodeLogs

namespace NodeCatalogs

variable {s : NodeCatalogs} {P : DurableDataLogRef → Prop}

def EveryActive (s : NodeCatalogs) (P : DurableDataLogRef → Prop) : Prop :=
  ∀ row ∈ s.dataLogs, row.state = .active → P row.logRef

def OneActive (s : NodeCatalogs) (node : Nat) : Prop :=
  ∃ active, s.EveryActive fun ref => ref.storageNode = node → ref = active

theorem EveryActive.persist (h : s.EveryActive P) {logs : List (DurableDataLogRef × Nat)}
    (hlogs : ∀ log ∈ logs, P log.1) : (logs.foldl persistDataLogManifest s).EveryActive P := by
  refine List.foldlRecOn (motive := (EveryActive · P)) logs _ h fun s h log hlog => ?_
  rw [persistDataLogManifest]
  split
  · refine List.forall_mem_map.2 fun row hrow => ?_
    split
    · next heq => exact fun _ => heq ▸ hlogs log hlog
    · exact h row hrow
  · exact List.forall_mem_append.2 ⟨h, List.forall_mem_singleton.2 fun _ => hlogs log hlog⟩

theorem EveryActive.seal (h : s.EveryActive P) (refs : List DurableDataLogRef) :
    (refs.foldl sealDataLogManifest s).EveryActive fun ref => P ref ∧ ref ∉ refs := by
  induction refs generalizing s P with
  | nil => exact fun row hrow hstate => ⟨h row hrow hstate, List.not_mem_nil⟩
  | cons log refs ih =>
    have hfirst : (s.sealDataLogManifest log).EveryActive fun ref => P ref ∧ ref ≠ log := by
      refine List.forall_mem_map.2 fun row hrow => ?_
      split
      · dsimp only
        split <;> simp [*]
      · next hne => exact fun hstate => ⟨h row hrow hstate, hne⟩
    intro row hrow hstate
    obtain ⟨⟨hP, hne⟩, hnot⟩ := ih hfirst row hrow hstate
    exact ⟨hP, List.not_mem_cons_of_ne_of_not_mem hne hnot⟩

theorem EveryActive.place (h : s.EveryActive P) (placements : List SegmentPlacementRow) :
    (placements.foldl persistSegmentPlacement s).EveryActive P := by
  refine List.foldlRecOn (motive := (EveryActive · P)) placements _ h fun s h placement _ => ?_
  refine List.forall_mem_map.2 fun row hrow => ?_
  split <;> exact h row hrow

end NodeCatalogs

open NodeCatalogs

variable {target node : Nat} {s : NodeCatalogs} {p p' : Pending}
  {active ref : DurableDataLogRef} {appended appended' : PendingDataLogAppend} {segment : SegmentPlacementRow}

@[grind =] theorem Pending.mem_sealedLogs_merge :
    ref ∈ (p.merge appended).sealedLogs ↔ ref ∈ p.sealedLogs ∨ ref ∈ appended.sealedLogs := by
  by_cases h : ref ∈ p.sealedLogs <;> simp [merge, h]

/-- Every log but the one that is written to is sealed or to be sealed. -/
structure Tracks (node : Nat) (s : NodeCatalogs) (p : Pending) (active : DurableDataLogRef) :
    Prop where
  logs : ∀ log ∈ p.logs, log.1 = active ∨ log.1 ∈ p.sealedLogs
  rows : s.EveryActive fun ref => ref.storageNode = node → ref = active ∨ ref ∈ p.sealedLogs
  older : ∀ ref ∈ p.sealedLogs, ref.logId < active.logId
  written : p.sealedLogs ≠ [] → active ∈ p.logs.map Prod.fst ∧ active ∈ p.placements.map (·.logRef)

theorem tracks_empty (h : s.OneActive node) : ∃ active, Tracks node s .empty active := by
  obtain ⟨active, h⟩ := h
  exact ⟨active, nofun, fun row hrow hstate hnode => .inl (h row hrow hstate hnode), nofun, absurd rfl⟩

theorem Tracks.appendSegment (h : Tracks node s (p.merge appended) appended.active.1)
    (hsegment : appendSegment target s appended segment = .ok appended') :
    Tracks node s (p.merge appended') appended'.active.1 := by
  obtain ⟨hlogs, hrows, holder, -⟩ := h
  obtain ⟨recordLen, -, after, -, hsegment⟩ := bind2_eq_ok.1 hsegment
  split at hsegment
  · obtain ⟨-, hsegment⟩ := bind_checkedAdd hsegment
    cases hsegment
    have hnew := Nat.lt_succ_of_le (le_max_right (s.maxLogId appended.active.1.storageNode)
      appended.active.1.logId)
    refine ⟨?_, fun row hrow hstate hnode => ?_, ?_, ?_⟩
    · grind [Pending.merge]
    · grind [hrows row hrow hstate hnode]
    · grind
    · simp [Pending.merge]
  · cases hsegment
    refine ⟨?_, hrows, holder, ?_⟩
    · grind [Pending.merge]
    · simp [Pending.merge]

theorem Tracks.activeLog (h : Tracks node s p active) {first : DurableDataLogRef × Nat}
    (hfirst : (p.activeLogForNode.map .ok).getD (s.activeDataLog node) = .ok first) :
    Tracks node s p first.1 := by
  cases hlog : p.activeLogForNode with
  | some log =>
    rw [hlog] at hfirst
    cases hfirst
    obtain ⟨hmem, hnot⟩ := List.mem_filter.1 (List.argmax_mem hlog)
    exact (h.logs first hmem).resolve_right (of_decide_eq_true hnot) ▸ h
  | none =>
    have hnone := List.filter_eq_nil_iff.1 (List.argmax_eq_none.1 hlog)
    have hsealed : p.sealedLogs = [] := by
      by_contra hne
      obtain ⟨log, hmem, rfl⟩ := List.mem_map.1 (h.written hne).1
      exact hnone log hmem (decide_eq_true fun hmem => (h.older _ hmem).false)
    rw [hlog, Option.map_none, Option.getD_none, activeDataLog] at hfirst
    split at hfirst
    · next row hrow =>
      cases hfirst
      obtain ⟨hmem, hactive⟩ := List.mem_filter.1 (List.argmax_mem hrow)
      obtain ⟨hnode, hstate⟩ := of_decide_eq_true hactive
      exact (h.rows row hmem hstate hnode).resolve_right (by simp [hsealed]) ▸ h
    · next hrow =>
      have hnorow := List.filter_eq_nil_iff.1 (List.argmax_eq_none.1 hrow)
      refine ⟨fun log hlog => ?_, fun row hmem hstate hnode => ?_, ?_, absurd hsealed⟩
      · simpa [hsealed] using hnone log hlog
      · exact (hnorow row hmem (decide_eq_true ⟨hnode, hstate⟩)).elim
      · simp [hsealed]

theorem Tracks.append (h : Tracks node s p active) {segments : List SegmentPlacementRow}
    (happend : p.append target node s segments = .ok p') : ∃ active, Tracks node s p' active := by
  rw [Pending.append] at happend
  split at happend
  · cases happend
    exact ⟨active, h⟩
  · obtain ⟨first, hfirst, appended, hsegments, happend⟩ := bind2_eq_ok.1 happend
    cases happend
    refine ⟨_, foldlM_invariant (fun appended => Tracks node s (p.merge appended) appended.active.1)
      hsegments ?_ fun _ _ _ _ htracks hsegment => htracks.appendSegment hsegment⟩
    simpa [Pending.merge] using h.activeLog hfirst

theorem Tracks.prune (h : Tracks node s p active)
    (hsealed : ∀ ref ∈ p.sealedLogs, ref ∈ p.placements.map (·.logRef)) :
    Tracks node s p.pruneUnreferencedLogs active := by
  have heq : p.pruneUnreferencedLogs.sealedLogs = p.sealedLogs :=
    List.filter_eq_self.2 fun ref href => decide_eq_true (hsealed ref href)
  constructor <;> rw [heq]
  · exact fun log hlog => h.logs log (List.mem_filter.1 hlog).1
  · exact h.rows
  · exact h.older
  · intro hne
    obtain ⟨hlog, hplaced⟩ := h.written hne
    obtain ⟨log, hmem, rfl⟩ := List.mem_map.1 hlog
    exact ⟨List.mem_map_of_mem (List.mem_filter.2 ⟨hmem, decide_eq_true hplaced⟩), hplaced⟩

theorem Tracks.publish (h : Tracks node s p active) : (p.publish s).OneActive node := by
  have hrows := ((h.rows.persist fun log hlog _ => h.logs log hlog).seal p.sealedLogs).place p.placements
  refine ⟨active, fun row hrow hstate hnode => ?_⟩
  obtain ⟨hP, hnot⟩ := hrows row hrow hstate
  exact (hP hnode).resolve_right hnot

variable {n n' : NodeLogs} {segmentIds : List Nat} {newSegments : List SegmentPlacementRow}

theorem Tracks.flush (h : Tracks node n.catalogs n.pending active)
    (hcomplete : n.Complete (.flush segmentIds newSegments))
    (hflush : n.step target node (.flush segmentIds newSegments) = some n') :
    n'.catalogs.OneActive node ∧ n'.pending = .empty := by
  obtain ⟨hids, hsealed⟩ := hcomplete
  have hall : n.pending.placements.filter (·.segmentId ∈ segmentIds) = n.pending.placements :=
    List.filter_eq_self.2 fun p hp => decide_eq_true (hids p hp)
  rw [NodeLogs.step, Pending.retainCurrentPlacements, hall] at hflush
  split at hflush
  · next selected hselected =>
    cases hflush
    obtain ⟨active, htracks⟩ := (h.prune hsealed).append hselected
    refine ⟨htracks.publish, ?_⟩
    have hnone : n.pending.placements.filter (·.segmentId ∉ segmentIds) = [] := by simpa using hids
    rw [Pending.removeSegments, hnone]
    simp [Pending.pruneUnreferencedLogs, Pending.empty]
  · cases hflush

theorem Tracks.step (h : Tracks node n.catalogs n.pending active) {a : LogTurn}
    (hcomplete : n.Complete a) (hstep : n.step target node a = some n') :
    ∃ active, Tracks node n'.catalogs n'.pending active := by
  cases a with
  | write segments =>
    rw [NodeLogs.step] at hstep
    split at hstep <;> cases hstep
    next hpending => exact h.append hpending
  | flush segmentIds newSegments =>
    obtain ⟨hone, hempty⟩ := h.flush hcomplete hstep
    rw [hempty]
    exact tracks_empty hone

/-- When every flush takes all that is pending, and something is pending in every log that is to
be sealed, a flush leaves at most one log of the node active. -/
theorem oneActive_of_flush {target node : Nat} {s : NodeCatalogs} (hs : s.OneActive node)
    {n n' : NodeLogs} (hn : Reached (· = ⟨s, .empty⟩) (fun n a n' => n.step target node a = some n')
      NodeLogs.Complete n) {segmentIds : List Nat} {newSegments : List SegmentPlacementRow}
    (hcomplete : n.Complete (.flush segmentIds newSegments))
    (hflush : n.step target node (.flush segmentIds newSegments) = some n') :
    n'.catalogs.OneActive node := by
  obtain ⟨active, htracks⟩ := hn.invariant (fun n => ∃ active, Tracks node n.catalogs n.pending active)
    (fun n hn => hn ▸ tracks_empty hs) fun n a n' ⟨_, htracks⟩ hok hstep => htracks.step hok hstep
  exact (htracks.flush hcomplete hflush).1

def noLogs : NodeLogs := ⟨⟨[1], [], [], 0⟩, .empty⟩

def sixtyBytes (segmentId : Nat) : SegmentPlacementRow := ⟨segmentId, ⟨1, 0⟩, 60⟩

def rolled : NodeLogs :=
  afterTurns (NodeLogs.step 100 1) noLogs [.write [sixtyBytes 7], .write [sixtyBytes 8]]

theorem oneActive_of_flush_rolled :
    ∃ n, rolled.step 100 1 (.flush [7, 8] []) = some n ∧ n.catalogs.OneActive 1 := by
  have hreached : Reached (· = noLogs) (fun n a n' => n.step 100 1 a = some n') NodeLogs.Complete rolled :=
    .next (a := LogTurn.write [sixtyBytes 8])
      (.next (a := LogTurn.write [sixtyBytes 7]) (.start rfl) trivial rfl) trivial rfl
  have hcomplete : rolled.Complete (.flush [7, 8] []) := by
    unfold NodeLogs.Complete
    decide
  exact ⟨_, rfl, oneActive_of_flush (s := noLogs.catalogs) ⟨⟨1, 0⟩, nofun⟩ hreached hcomplete rfl⟩

/-- The second write seals the log of the first, of which nothing is pending any more. -/
theorem flush_loses_seal : ¬ (afterTurns (NodeLogs.step 100 1) noLogs
    [.write [sixtyBytes 7], .flush [7] [], .write [sixtyBytes 8], .flush [8] []]).catalogs.OneActive 1 := by
  rintro ⟨active, h⟩
  have hfirst := h ⟨⟨1, 1⟩, .active, 104, 60, 0⟩ (by decide) rfl rfl
  cases h ⟨⟨1, 2⟩, .active, 104, 60, 0⟩ (by decide) rfl rfl
  cases hfirst

end CowStore.Durable.Maintenance
