import CowStore.Object.Node

/-!
# Editing the runs of a leaf

Runs are replaced as entries are: cut around the range, sorted together with the
replacement, and joined where one goes on in its log where the other ends.
-/

namespace CowStore.Tree

open Lib Object

def canCoalesceWith (r next : AppendLogRunRange) : Result Bool :=
  if r.runId = next.runId ∧ r.storageNode = next.storageNode ∧ r.streamId = next.streamId ∧
      r.writerEpoch = next.writerEpoch ∧ r.keyspaceId = next.keyspaceId ∧
      r.fileId = next.fileId ∧ r.logId = next.logId ∧ r.integrity = next.integrity then do
    let fileEnd ← r.fileOffsetEnd
    if fileEnd = next.fileOffsetStart then
      let logEnd ← r.logPayloadEnd
      return decide (logEnd = next.logPayloadOffset)
    else
      return false
  else
    return false

/-- The run that continues `previous` by `range`, where it does. -/
def joinRunRanges (previous range : AppendLogRunRange) : Result (Option AppendLogRunRange) := do
  range.validate
  let previousEnd ← previous.fileOffsetEnd
  failIf (range.fileOffsetStart < previousEnd)
    (.invalidArgument "append run ranges must not overlap")
  if ← canCoalesceWith previous range then
    let payloadLen ← checkedAdd previous.payloadLen range.payloadLen
      (.invalidArgument "append run coalesced length overflows")
    return some { previous with payloadLen }
  else
    return none

/-- The key by which runs are sorted, compared lexicographically. -/
def runRangeKey (r : AppendLogRunRange) : List Nat :=
  [r.fileOffsetStart, r.storageNode, r.logId, r.logPayloadOffset, r.runId]

def coalesceAppendLogRunRanges (ranges : List AppendLogRunRange) :
    Result (List AppendLogRunRange) :=
  match ranges.insertionSort (fun a b => runRangeKey a ≤ runRangeKey b) with
  | [] => return []
  | first :: rest => do
    first.validate
    coalesceFrom joinRunRanges first rest

def runExtentEnd (extent : RunBackedFileExtent) : Result Nat :=
  checkedAdd extent.fileOffsetStart extent.payloadLen
    (.invalidArgument "run-backed extent end overflows")

def sliceRunExtent (extent : RunBackedFileExtent) (start stop : Nat) :
    Result (Option RunBackedFileExtent) := do
  if start ≥ stop then
    return none
  else
    let extentEnd ← runExtentEnd extent
    failIf (start < extent.fileOffsetStart ∨ stop > extentEnd)
      (.invalidArgument "run-backed extent slice exceeds source extent")
    let logPayloadOffset ← checkedAdd extent.run.logPayloadOffset (start - extent.fileOffsetStart)
      (.invalidArgument "append run offset overflows")
    -- a checksum covers the whole run only
    let integrity := if start = extent.fileOffsetStart ∧ stop = extentEnd then
        extent.run.integrity
      else .unchecked
    return some ⟨start, stop - start, { extent.run with
      fileOffsetStart := start, payloadLen := stop - start, logPayloadOffset, integrity }⟩

def cutRunExtent (start stop : Nat) (extent : RunBackedFileExtent) :
    Result (List RunBackedFileExtent) := do
  extent.validate
  let extentEnd ← runExtentEnd extent
  if extent.fileOffsetStart < stop ∧ start < extentEnd then
    let left ← (if extent.fileOffsetStart < start then
        sliceRunExtent extent extent.fileOffsetStart (min start extentEnd)
      else .ok none : Result (Option RunBackedFileExtent))
    let right ← (if stop < extentEnd then
        sliceRunExtent extent (max stop extent.fileOffsetStart) extentEnd
      else .ok none : Result (Option RunBackedFileExtent))
    return left.toList ++ right.toList
  else
    return [extent]

def extentOfRun (run : AppendLogRunRange) : Result RunBackedFileExtent := do
  let extent : RunBackedFileExtent := ⟨run.fileOffsetStart, run.payloadLen, run⟩
  extent.validate
  return extent

def replaceRunBackedFileExtents (extents : List RunBackedFileExtent) (range : ByteRange)
    (replacements : List RunBackedFileExtent) : Result (List RunBackedFileExtent) := do
  let stop ← range.endExclusive
  let kept ← extents.mapM (cutRunExtent range.offset stop)
  let ranges ← coalesceAppendLogRunRanges ((kept.flatten ++ replacements).map (·.run))
  ranges.mapM extentOfRun

structure RunContinues (a b : AppendLogRunRange) : Prop where
  node : a.storageNode = b.storageNode
  log : a.logId = b.logId
  file : a.fileOffsetStart + a.payloadLen = b.fileOffsetStart
  offset : a.logPayloadOffset + a.payloadLen = b.logPayloadOffset

variable {a b m : AppendLogRunRange} {kept : List (List RunBackedFileExtent)}
  {rs : List AppendLogRunRange} {es : List RunBackedFileExtent} {start stop : Nat}
  {e : RunBackedFileExtent}

theorem joinRunRanges_eq_some (h : joinRunRanges a b = .ok (some m)) :
    RunContinues a b ∧ m = { a with payloadLen := a.payloadLen + b.payloadLen } := by
  simp only [joinRunRanges, bind_eq_ok] at h
  obtain ⟨-, -, -, -, -, -, can, hcan, h⟩ := h
  cases can with
  | false => cases h
  | true =>
    obtain ⟨-, h⟩ := bind_checkedAdd h
    cases h
    unfold canCoalesceWith at hcan
    split at hcan
    · next heq =>
      obtain ⟨-, hnode, -, -, -, -, hlog, -⟩ := heq
      obtain ⟨-, hcan⟩ := bind_checkedAdd hcan
      split at hcan
      · next hend =>
        obtain ⟨-, hcan⟩ := bind_checkedAdd hcan
        exact ⟨⟨hnode, hlog, hend, by simpa using hcan⟩, rfl⟩
      · cases hcan
    · cases hcan

theorem joins_of_joinRunRanges (h : joinRunRanges a b = .ok (some m)) : Joins a.span b.span m.span := by
  obtain ⟨⟨hnode, hlog, hend, hpos⟩, rfl⟩ := joinRunRanges_eq_some h
  refine ⟨hend, rfl, ?_, fun i _ _ => rfl, fun i hi _ => ?_⟩
  · show a.fileOffsetStart + (a.payloadLen + b.payloadLen) = b.fileOffsetStart + b.payloadLen
    omega
  · have hi' : b.fileOffsetStart ≤ i := hi
    show (a.storageNode, a.logId, a.logPayloadOffset + (i - a.fileOffsetStart)) =
      (b.storageNode, b.logId, b.logPayloadOffset + (i - b.fileOffsetStart))
    rw [hnode, hlog, ← hpos, show a.logPayloadOffset + (i - a.fileOffsetStart) =
      a.logPayloadOffset + a.payloadLen + (i - b.fileOffsetStart) by omega]

theorem shows_coalesceAppendLogRunRanges {out : List AppendLogRunRange}
    (h : coalesceAppendLogRunRanges rs = .ok out) {b : Nat} {v : Nat × Nat × Nat} :
    Shows (out.map AppendLogRunRange.span) b v ↔ Shows (rs.map AppendLogRunRange.span) b v := by
  have hperm := (List.perm_insertionSort (fun a b => runRangeKey a ≤ runRangeKey b) rs).map
    AppendLogRunRange.span
  rw [← shows_perm hperm]
  unfold coalesceAppendLogRunRanges at h
  split at h
  · next hnil =>
    cases h
    rw [hnil]
  · next first rest hcons =>
    obtain ⟨-, -, h⟩ := bind_eq_ok.1 h
    rw [hcons]
    exact shows_coalesceFrom (fun _ _ _ => joins_of_joinRunRanges) h

theorem start_le_of_runRangeKey_le (h : runRangeKey a ≤ runRangeKey b) : a.span.start ≤ b.span.start := by
  rcases le_iff_lt_or_eq.1 h with hlt | heq
  · exact List.head_le_of_lt hlt
  · exact (List.cons.inj heq).1.le

theorem ordered_coalesceAppendLogRunRanges {out : List AppendLogRunRange}
    (h : coalesceAppendLogRunRanges rs = .ok out)
    (ho : Ordered ((rs.insertionSort (fun a b => runRangeKey a ≤ runRangeKey b)).map
      AppendLogRunRange.span)) : Ordered (out.map AppendLogRunRange.span) := by
  unfold coalesceAppendLogRunRanges at h
  split at h
  · next hnil =>
    cases h
    rwa [hnil] at ho
  · next first rest hcons =>
    obtain ⟨-, -, h⟩ := bind_eq_ok.1 h
    rw [hcons] at ho
    exact (ordered_coalesceFrom (fun _ _ _ => joins_of_joinRunRanges) h ho).1

theorem sliceRunExtent_eq_ok {o : Option RunBackedFileExtent}
    (h : sliceRunExtent e start stop = .ok o) (hlt : start < stop) :
    ∃ p, o = some p ∧ p.span.start = start ∧ p.span.stop = stop ∧
      (∀ i, p.span.start ≤ i → p.span.val i = e.span.val i) ∧ p.run.span = p.span := by
  unfold sliceRunExtent at h
  rw [if_neg (by omega)] at h
  obtain ⟨extentEnd, hend, ⟨⟩, hin, h⟩ := bind2_eq_ok.1 h
  obtain ⟨-, h⟩ := bind_checkedAdd h
  rw [failIf_eq_ok] at hin
  cases h
  refine ⟨_, rfl, rfl, ?_, ?_, rfl⟩
  · show start + (stop - start) = stop
    omega
  · intro i hi
    have hi' : start ≤ i := hi
    show (e.run.storageNode, e.run.logId,
        e.run.logPayloadOffset + (start - e.fileOffsetStart) + (i - start)) =
      (e.run.storageNode, e.run.logId, e.run.logPayloadOffset + (i - e.fileOffsetStart))
    rw [show e.run.logPayloadOffset + (start - e.fileOffsetStart) + (i - start) =
      e.run.logPayloadOffset + (i - e.fileOffsetStart) by omega]

theorem sliceRunExtent_ite {c : Prop} [Decidable c] {o : Option RunBackedFileExtent}
    (h : (if c then sliceRunExtent e start stop else .ok none) = .ok o) (hlt : c → start < stop) :
    ∃ p, o = (if c then some p else none) ∧ (c → p.span.start = start ∧ p.span.stop = stop ∧
      (∀ i, p.span.start ≤ i → p.span.val i = e.span.val i) ∧ p.run.span = p.span) := by
  by_cases hc : c
  · rw [if_pos hc] at h
    obtain ⟨p, rfl, hp⟩ := sliceRunExtent_eq_ok h (hlt hc)
    exact ⟨p, (if_pos hc).symm, fun _ => hp⟩
  · rw [if_neg hc] at h
    cases h
    exact ⟨e, (if_neg hc).symm, fun h => absurd h hc⟩

theorem cuts_of_cutRunExtent {out : List RunBackedFileExtent}
    (h : cutRunExtent start stop e = .ok out) (hle : start ≤ stop) :
    Cuts start stop e.span (out.map RunBackedFileExtent.span) ∧ ∀ p ∈ out, p.run.span = p.span := by
  unfold cutRunExtent at h
  obtain ⟨⟨⟩, hval, h⟩ := bind_eq_ok.1 h
  obtain ⟨-, h⟩ := bind_checkedAdd h
  have hpos : 0 < e.payloadLen := by
    obtain ⟨hrun, -, hl⟩ := RunBackedFileExtent.validate_eq_ok.1 hval
    rw [hl]
    exact (AppendLogRunRange.validate_eq_ok.1 hrun).1
  have hstop : e.span.stop = e.fileOffsetStart + e.payloadLen := rfl
  split at h
  · next hmeets =>
    obtain ⟨left, hleft, right, hright, h⟩ := bind2_eq_ok.1 h
    cases h
    obtain ⟨l, rfl, hl⟩ := sliceRunExtent_ite hleft fun hlt =>
      lt_min hlt (Nat.lt_add_of_pos_right hpos)
    obtain ⟨r, rfl, hr⟩ := sliceRunExtent_ite hright fun hlt =>
      max_lt hlt (Nat.lt_add_of_pos_right hpos)
    constructor
    · refine cast ?_ (cuts_of_trim (l := l.span) (r := r.span) (hstop ▸ hmeets.2) hmeets.1 hle
        (fun hlt => ?_) fun hlt => ?_)
      · rw [List.map_append]
        congr 2
        · show (if e.fileOffsetStart < start then _ else _) = _
          split <;> rfl
        · show (if stop < e.fileOffsetStart + e.payloadLen then _ else _) = _
          split <;> rfl
      · obtain ⟨h1, h2, h3, -⟩ := hl hlt
        exact ⟨h1, by omega, fun i hi _ => h3 i hi⟩
      · obtain ⟨h1, h2, h3, -⟩ := hr hlt
        exact ⟨by omega, h2, fun i hi _ => h3 i hi⟩
    · intro p hp
      obtain hp | hp := List.mem_append.1 hp
      · obtain ⟨hlt, hp⟩ := Option.ite_none_right_eq_some.1 (Option.mem_toList.1 hp)
        cases hp
        exact (hl hlt).2.2.2
      · obtain ⟨hlt, hp⟩ := Option.ite_none_right_eq_some.1 (Option.mem_toList.1 hp)
        cases hp
        exact (hr hlt).2.2.2
  · next hmeets =>
    cases h
    refine ⟨cuts_of_apart ?_ hpos, ?_⟩
    · rw [hstop]
      show _ ≤ start ∨ stop ≤ e.fileOffsetStart
      omega
    · intro p hp
      rw [List.mem_singleton] at hp
      subst hp
      exact (RunBackedFileExtent.span_of_validate hval).symm

theorem cuts_of_mapM_cutRunExtent (h : es.mapM (cutRunExtent start stop) = .ok kept)
    (hle : start ≤ stop) : List.Forall₂ (Cuts start stop) (es.map RunBackedFileExtent.span)
        (kept.map (List.map RunBackedFileExtent.span)) ∧ ∀ p ∈ kept.flatten, p.run.span = p.span := by
  rw [mapM_eq_ok] at h
  constructor
  · rw [List.forall₂_map_left_iff, List.forall₂_map_right_iff]
    exact h.imp fun e ps hp => (cuts_of_cutRunExtent hp hle).1
  · intro p hp
    obtain ⟨ps, hps, hp⟩ := List.mem_flatten.1 hp
    obtain ⟨e, -, he⟩ := forall₂_mem_right h hps
    exact (cuts_of_cutRunExtent he hle).2 p hp

theorem span_of_mapM_extentOfRun {ranges : List AppendLogRunRange}
    {out : List RunBackedFileExtent} (h : ranges.mapM extentOfRun = .ok out) :
    out.map RunBackedFileExtent.span = ranges.map AppendLogRunRange.span ∧
      ∀ e ∈ out, e.validate = .ok () := by
  rw [mapM_eq_ok] at h
  constructor
  · rw [← List.forall₂_eq_eq_eq, List.forall₂_map_left_iff, List.forall₂_map_right_iff]
    refine h.flip.imp fun e r he => ?_
    obtain ⟨⟨⟩, -, he⟩ := bind_eq_ok.1 he
    cases he
    rfl
  · intro e he
    obtain ⟨r, -, hr⟩ := forall₂_mem_right h he
    obtain ⟨⟨⟩, hval, hr⟩ := bind_eq_ok.1 hr
    cases hr
    exact hval

theorem spans_of_cuts {rs : List RunBackedFileExtent}
    (hkept : es.mapM (cutRunExtent start stop) = .ok kept) (hle : start ≤ stop)
    (hrs : ∀ r ∈ rs, r.run.span = r.span) : ((kept.flatten ++ rs).map (·.run)).map AppendLogRunRange.span =
      (kept.map (List.map RunBackedFileExtent.span)).flatten ++ rs.map RunBackedFileExtent.span := by
  rw [List.map_map, ← List.map_flatten, ← List.map_append]
  refine List.map_congr_left fun p hp => ?_
  rcases List.mem_append.1 hp with hp | hp
  · exact (cuts_of_mapM_cutRunExtent hkept hle).2 p hp
  · exact hrs p hp

theorem ordered_of_cutRuns {rs : List RunBackedFileExtent}
    (hkept : es.mapM (cutRunExtent start stop) = .ok kept) (hle : start ≤ stop)
    (hrs : ∀ r ∈ rs, r.run.span = r.span) (hes : Ordered (es.map RunBackedFileExtent.span))
    (hnew : (rs.map RunBackedFileExtent.span).Pairwise Span.Apart)
    (hin : ∀ r ∈ rs, start ≤ r.span.start ∧ r.span.stop ≤ stop ∧ 0 < r.span.len) :
    Ordered ((((kept.flatten ++ rs).map (·.run)).insertionSort
      (fun a b => runRangeKey a ≤ runRangeKey b)).map AppendLogRunRange.span) := by
  refine ordered_of_cuts (rs.map RunBackedFileExtent.span) (cuts_of_mapM_cutRunExtent hkept hle).1
    hes.apart hnew ?_ ?_ ?_
  · intro s hs
    obtain ⟨r, hr, rfl⟩ := List.mem_map.1 hs
    exact hin r hr
  · rw [← spans_of_cuts hkept hle hrs]
    exact (List.perm_insertionSort _ _).map _
  · rw [List.pairwise_map]
    refine (List.pairwise_insertionSort _ _).imp fun hab => ?_
    exact start_le_of_runRangeKey_le hab

section

variable {es rs out : List RunBackedFileExtent} {range : ByteRange}
  (h : replaceRunBackedFileExtents es range rs = .ok out)
include h

theorem exists_of_replaceRunBackedFileExtents :
    ∃ (kept : List (List RunBackedFileExtent)) (ranges : List AppendLogRunRange),
      es.mapM (cutRunExtent range.offset range.stop) = .ok kept ∧
      coalesceAppendLogRunRanges ((kept.flatten ++ rs).map (·.run)) = .ok ranges ∧
      out.map RunBackedFileExtent.span = ranges.map AppendLogRunRange.span ∧
      ∀ e ∈ out, e.validate = .ok () := by
  simp only [replaceRunBackedFileExtents, bind_eq_ok, ByteRange.endExclusive_eq_ok] at h
  obtain ⟨stop, ⟨-, rfl⟩, kept, hkept, ranges, hranges, hout⟩ := h
  obtain ⟨hspans, hval⟩ := span_of_mapM_extentOfRun hout
  exact ⟨kept, ranges, hkept, hranges, hspans, hval⟩

variable (hrs : ∀ r ∈ rs, r.run.span = r.span)
include hrs

/-- Replacing runs overwrites the bytes of the range. -/
theorem shows_replaceRunBackedFileExtents {b : Nat} {v : Nat × Nat × Nat} :
    Shows (out.map RunBackedFileExtent.span) b v ↔ Shows (rs.map RunBackedFileExtent.span) b v ∨
      Shows (es.map RunBackedFileExtent.span) b v ∧ (b < range.offset ∨ range.stop ≤ b) := by
  obtain ⟨kept, ranges, hkept, hranges, hspans, -⟩ := exists_of_replaceRunBackedFileExtents h
  have hle : range.offset ≤ range.stop := Nat.le_add_right _ _
  rw [hspans, shows_coalesceAppendLogRunRanges hranges, spans_of_cuts hkept hle hrs, shows_append,
    shows_flatten_cuts (cuts_of_mapM_cutRunExtent hkept hle).1, or_comm]

theorem ordered_replaceRunBackedFileExtents (hes : Ordered (es.map RunBackedFileExtent.span))
    (hnew : (rs.map RunBackedFileExtent.span).Pairwise Span.Apart)
    (hin : ∀ r ∈ rs, range.offset ≤ r.span.start ∧ r.span.stop ≤ range.stop ∧ 0 < r.span.len) :
    Ordered (out.map RunBackedFileExtent.span) := by
  obtain ⟨kept, ranges, hkept, hranges, hspans, -⟩ := exists_of_replaceRunBackedFileExtents h
  rw [hspans]
  exact ordered_coalesceAppendLogRunRanges hranges
    (ordered_of_cutRuns hkept (Nat.le_add_right _ _) hrs hes hnew hin)

end

/-! ## The outcome of a replacement of runs -/

theorem exists_joinRunRanges (ha : a.validate = .ok ()) (hb : b.validate = .ok ())
    (hab : a.span.stop ≤ b.span.start) : ∃ o, joinRunRanges a b = .ok o := by
  obtain ⟨-, hfile, hlog⟩ := AppendLogRunRange.validate_eq_ok.1 ha
  obtain ⟨-, hfile', -⟩ := AppendLogRunRange.validate_eq_ok.1 hb
  have hab : a.fileOffsetStart + a.payloadLen ≤ b.fileOffsetStart := hab
  have hend : a.fileOffsetEnd = .ok (a.fileOffsetStart + a.payloadLen) := checkedAdd_of_lt hfile
  obtain ⟨can, hcan⟩ : ∃ can, canCoalesceWith a b = .ok can := by
    rw [canCoalesceWith, hend]
    split
    · rw [ok_bind]
      split
      · rw [AppendLogRunRange.logPayloadEnd, checkedAdd_of_lt hlog, ok_bind]
        exact ⟨_, rfl⟩
      · exact ⟨_, rfl⟩
    · exact ⟨_, rfl⟩
  rw [joinRunRanges, hb, ok_bind, hend, ok_bind, (failIf_eq_ok (u := ())).2 (Nat.not_lt.2 hab), ok_bind,
    hcan, ok_bind]
  cases can with
  | false => exact ⟨_, rfl⟩
  | true =>
    rw [if_pos rfl, checkedAdd_of_lt (by omega), ok_bind]
    exact ⟨_, rfl⟩

theorem valid_of_joinRunRanges (h : joinRunRanges a b = .ok (some m)) (ha : a.validate = .ok ())
    (hb : b.validate = .ok ()) : m.validate = .ok () := by
  obtain ⟨hend, rfl⟩ := joinRunRanges_eq_some h
  obtain ⟨hpos, -, -⟩ := AppendLogRunRange.validate_eq_ok.1 ha
  obtain ⟨-, hfile, hlog⟩ := AppendLogRunRange.validate_eq_ok.1 hb
  have h1 := hend.file
  have h2 := hend.offset
  refine AppendLogRunRange.validate_eq_ok.2 ⟨Nat.add_pos_left hpos _, ?_, ?_⟩
  · show a.fileOffsetStart + (a.payloadLen + b.payloadLen) < u64Bound
    omega
  · show a.logPayloadOffset + (a.payloadLen + b.payloadLen) < u64Bound
    omega

theorem exists_coalesceAppendLogRunRanges (hrs : ∀ r ∈ rs, r.validate = .ok ())
    (ho : Ordered ((rs.insertionSort (fun a b => runRangeKey a ≤ runRangeKey b)).map
      AppendLogRunRange.span)) :
    ∃ out, coalesceAppendLogRunRanges rs = .ok out ∧ ∀ r ∈ out, r.validate = .ok () := by
  have hmem : ∀ r ∈ rs.insertionSort (fun a b => runRangeKey a ≤ runRangeKey b), r.validate = .ok () :=
    fun r hr => hrs r ((List.perm_insertionSort _ rs).mem_iff.1 hr)
  rw [coalesceAppendLogRunRanges]
  cases hsort : rs.insertionSort (fun a b => runRangeKey a ≤ runRangeKey b) with
  | nil => exact ⟨[], rfl, by simp⟩
  | cons first rest =>
    rw [hsort] at hmem ho
    obtain ⟨out, hout⟩ := exists_coalesceFrom
      (P := fun r : AppendLogRunRange => r.validate = .ok ()) (R := fun a b => a.span.stop ≤ b.span.start)
      (fun a b => exists_joinRunRanges) (fun a b m h ha hb => ⟨valid_of_joinRunRanges h ha hb,
        fun c hc => (joins_of_joinRunRanges h).stop_eq.trans_le hc⟩) hmem (List.pairwise_map.1 ho.1)
    obtain ⟨hfirst, hrest⟩ := List.forall_mem_cons.1 hmem
    refine ⟨out, ?_, forall_coalesceFrom (fun a b m => valid_of_joinRunRanges) hout hfirst hrest⟩
    show (first.validate >>= fun _ => coalesceFrom joinRunRanges first rest) = _
    rw [hfirst, ok_bind, hout]

theorem exists_sliceRunExtent (he : e.validate = .ok ()) (hstart : e.span.start ≤ start)
    (hlt : start < stop) (hstop : stop ≤ e.span.stop) :
    ∃ p, sliceRunExtent e start stop = .ok (some p) ∧ p.run.validate = .ok () := by
  obtain ⟨hrun, h1, h2⟩ := RunBackedFileExtent.validate_eq_ok.1 he
  obtain ⟨-, hfile, hlog⟩ := AppendLogRunRange.validate_eq_ok.1 hrun
  have hstart : e.fileOffsetStart ≤ start := hstart
  have hstop : stop ≤ e.fileOffsetStart + e.payloadLen := hstop
  rw [sliceRunExtent, if_neg (by omega), runExtentEnd, checkedAdd_of_lt (by omega), ok_bind,
    (failIf_eq_ok (u := ())).2 (by omega), ok_bind, checkedAdd_of_lt (by omega), ok_bind]
  refine ⟨_, rfl, AppendLogRunRange.validate_eq_ok.2 ⟨Nat.sub_pos_of_lt hlt, ?_, ?_⟩⟩
  · show start + (stop - start) < u64Bound
    omega
  · show e.run.logPayloadOffset + (start - e.fileOffsetStart) + (stop - start) < u64Bound
    omega

theorem exists_part (he : e.validate = .ok ()) (c : Prop) [Decidable c] (start stop : Nat)
    (h : c → e.span.start ≤ start ∧ start < stop ∧ stop ≤ e.span.stop) :
    ∃ o, (if c then sliceRunExtent e start stop else .ok none) = .ok o ∧
      ∀ p ∈ o.toList, p.run.validate = .ok () := by
  split
  · next hc =>
    obtain ⟨h1, h2, h3⟩ := h hc
    obtain ⟨p, hp, hval⟩ := exists_sliceRunExtent he h1 h2 h3
    exact ⟨some p, hp, by simpa using hval⟩
  · exact ⟨none, rfl, by simp⟩

theorem exists_cutRunExtent (he : e.validate = .ok ()) (start stop : Nat) :
    ∃ out, cutRunExtent start stop e = .ok out ∧ ∀ p ∈ out, p.run.validate = .ok () := by
  obtain ⟨hrun, h1, h2⟩ := RunBackedFileExtent.validate_eq_ok.1 he
  obtain ⟨hpos, hfile, -⟩ := AppendLogRunRange.validate_eq_ok.1 hrun
  have hstop : e.span.stop = e.fileOffsetStart + e.payloadLen := rfl
  have hstart : e.span.start = e.fileOffsetStart := rfl
  rw [cutRunExtent, he, ok_bind, runExtentEnd, checkedAdd_of_lt (by omega), ok_bind]
  split
  · next hmeets =>
    obtain ⟨left, hleft, hlval⟩ := exists_part he (e.fileOffsetStart < start) e.fileOffsetStart
      (min start (e.fileOffsetStart + e.payloadLen)) (by omega)
    obtain ⟨right, hright, hrval⟩ := exists_part he (stop < e.fileOffsetStart + e.payloadLen)
      (max stop e.fileOffsetStart) (e.fileOffsetStart + e.payloadLen) (by omega)
    rw [hleft, ok_bind, hright, ok_bind]
    exact ⟨_, rfl, List.forall_mem_append.2 ⟨hlval, hrval⟩⟩
  · exact ⟨[e], rfl, by simpa using hrun⟩

/-- A replacement of valid runs by valid runs inside of the range succeeds. -/
theorem exists_replaceRunBackedFileExtents {rs : List RunBackedFileExtent} {range : ByteRange}
    (hrange : range.stop < u64Bound) (hes : Ordered (es.map RunBackedFileExtent.span))
    (hval : ∀ e ∈ es, e.validate = .ok ()) (hrs : (rs.map RunBackedFileExtent.span).Pairwise Span.Apart)
    (hrval : ∀ r ∈ rs, r.validate = .ok ()) (hspan : ∀ r ∈ rs, r.run.span = r.span)
    (hinside : ∀ r ∈ rs, range.offset ≤ r.span.start ∧ r.span.stop ≤ range.stop ∧ 0 < r.span.len) :
    ∃ out, replaceRunBackedFileExtents es range rs = .ok out := by
  obtain ⟨kept, hkept⟩ := exists_mapM fun e he =>
    (exists_cutRunExtent (hval e he) range.offset range.stop).imp fun _ h => h.1
  have hruns : ∀ r ∈ (kept.flatten ++ rs).map (·.run), r.validate = .ok () := by
    intro r hr
    obtain ⟨p, hp, rfl⟩ := List.mem_map.1 hr
    rcases List.mem_append.1 hp with hp | hp
    · obtain ⟨ps, hps, hp⟩ := List.mem_flatten.1 hp
      obtain ⟨e, he, hcut⟩ := forall₂_mem_right (mapM_eq_ok.1 hkept) hps
      obtain ⟨ps', hcut', hvalid⟩ := exists_cutRunExtent (hval e he) range.offset range.stop
      cases hcut.symm.trans hcut'
      exact hvalid p hp
    · exact (RunBackedFileExtent.validate_eq_ok.1 (hrval p hp)).1
  obtain ⟨ranges, hranges, hrvalid⟩ := exists_coalesceAppendLogRunRanges hruns
    (ordered_of_cutRuns hkept (Nat.le_add_right _ _) hspan hes hrs hinside)
  have hextent : ∀ r ∈ ranges, ∃ e, extentOfRun r = .ok e := fun r hr => by
    rw [extentOfRun, (RunBackedFileExtent.validate_eq_ok (u := ())).2 ⟨hrvalid r hr, rfl, rfl⟩]
    exact ⟨_, rfl⟩
  obtain ⟨out, hout⟩ := exists_mapM hextent
  refine ⟨out, ?_⟩
  rw [replaceRunBackedFileExtents, ByteRange.endExclusive_eq_ok.2 ⟨hrange, rfl⟩, ok_bind, hkept, ok_bind,
    hranges, ok_bind, hout]

/-- A replacement of runs by runs inside of the range succeeds.  The outcome passes the check of
run extents, so it is in order without overlaps, and it maps the bytes of the range as the
replacement does and the others as before. -/
theorem replaceRunBackedFileExtents_overwrites {es rs : List RunBackedFileExtent} {range : ByteRange}
    (hrange : range.stop < u64Bound) (hes : validateRunBackedFileExtents es = .ok ())
    (hrs : (rs.map RunBackedFileExtent.span).Pairwise Span.Apart)
    (hrval : ∀ r ∈ rs, r.validate = .ok ())
    (hin : ∀ r ∈ rs, range.offset ≤ r.span.start ∧ r.span.stop ≤ range.stop) :
    ∃ out, replaceRunBackedFileExtents es range rs = .ok out ∧
      validateRunBackedFileExtents out = .ok () ∧
      ∀ b, valueAt (out.map RunBackedFileExtent.span) b =
        if range.offset ≤ b ∧ b < range.stop then valueAt (rs.map RunBackedFileExtent.span) b
        else valueAt (es.map RunBackedFileExtent.span) b := by
  obtain ⟨hes, hval⟩ := validateRunBackedFileExtents_eq_ok.1 hes
  have hspan : ∀ r ∈ rs, r.run.span = r.span := fun r hr =>
    (RunBackedFileExtent.span_of_validate (hrval r hr)).symm
  have hpos : ∀ r ∈ rs, 0 < r.span.len := fun r hr => (r.bounds_of_validate (hrval r hr)).1
  have hinside : ∀ r ∈ rs, range.offset ≤ r.span.start ∧ r.span.stop ≤ range.stop ∧ 0 < r.span.len :=
    fun r hr => ⟨(hin r hr).1, (hin r hr).2, hpos r hr⟩
  obtain ⟨out, hreplace⟩ := exists_replaceRunBackedFileExtents hrange hes hval hrs hrval hspan hinside
  have hordered := ordered_replaceRunBackedFileExtents hreplace hspan hes hrs hinside
  obtain ⟨-, -, -, -, -, hvalid⟩ := exists_of_replaceRunBackedFileExtents hreplace
  refine ⟨out, hreplace, validateRunBackedFileExtents_eq_ok.2 ⟨hordered, hvalid⟩, fun b => ?_⟩
  have hshows := fun v => shows_replaceRunBackedFileExtents hreplace hspan (b := b) (v := v)
  by_cases hb : range.offset ≤ b ∧ b < range.stop
  · rw [if_pos hb]
    exact valueAt_congr hordered.apart fun v => (hshows v).trans (or_iff_left (by omega))
  · rw [if_neg hb]
    refine valueAt_congr hordered.apart fun v => (hshows v).trans ?_
    rw [or_iff_right]
    · exact and_iff_left (by omega)
    · rintro ⟨_, hs, h1, h2, -⟩
      obtain ⟨r, hr, rfl⟩ := List.mem_map.1 hs
      obtain ⟨h3, h4⟩ := hin r hr
      omega

/-- The middle of a run of twelve bytes gives way to a run of another log. -/
theorem replaceRunBackedFileExtents_overwrites_middle :
    let old : AppendLogRunRange := ⟨1, 0, 0, 0, 0, 7, 4, 12, 3, 100, .unchecked⟩
    let new : AppendLogRunRange := ⟨2, 0, 0, 0, 0, 7, 8, 2, 9, 50, .unchecked⟩
    ∃ out, replaceRunBackedFileExtents [⟨4, 12, old⟩] ⟨8, 4⟩ [⟨8, 2, new⟩] = .ok out ∧
      validateRunBackedFileExtents out = .ok () ∧
      ∀ b, valueAt (out.map RunBackedFileExtent.span) b =
        if 8 ≤ b ∧ b < 12 then valueAt [RunBackedFileExtent.span ⟨8, 2, new⟩] b
        else valueAt [RunBackedFileExtent.span ⟨4, 12, old⟩] b := by
  intro old new
  exact replaceRunBackedFileExtents_overwrites (by decide) (by decide)
    (List.pairwise_singleton _ _) (by decide) (by decide)

end CowStore.Tree
