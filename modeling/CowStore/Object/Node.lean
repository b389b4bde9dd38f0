import CowStore.Lib.Spans
import CowStore.Object.Range
import CowStore.Object.Run

/-!
# Metadata nodes

A metadata node covers a range of blocks.  An internal node splits the range among its
children; a leaf maps blocks of the range to blocks of segments, and, for native files,
byte ranges to byte ranges of append logs.  `validate` is what every node has passed
before it is stored, so the lemmas below say what a stored node looks like: the ranges
of the children tile the node, and the entries and the runs of a leaf are in order.
-/

namespace CowStore.Object

open Lib

structure SegmentDescriptor where
  segmentId : Nat
  blocks : Nat
  bytes : Nat
  integrity : SegmentPayloadIntegrity
  deriving DecidableEq, Repr

structure LeafEntry where
  logicalStart : Nat
  blocks : Nat
  segmentId : Nat
  segmentOffset : Nat
  deriving DecidableEq, Repr

namespace LeafEntry

def logicalRange (e : LeafEntry) : BlockRange := ⟨e.logicalStart, e.blocks⟩

def segmentEndExclusive (e : LeafEntry) : Result Nat :=
  checkedAdd e.segmentOffset e.blocks (.invalidArgument "segment slice overflows u64")

def validateAgainst (e : LeafEntry) (covered : BlockRange) (descriptor : SegmentDescriptor) :
    Result Unit := do
  e.logicalRange.validateNonEmpty
  let inside ← covered.containsRange e.logicalRange
  failIf (¬ inside) (.invalidArgument "leaf entry is outside node covered range")
  failIf (e.segmentId ≠ descriptor.segmentId)
    (.invalidArgument "leaf entry segment_id does not match descriptor")
  let segmentEnd ← e.segmentEndExclusive
  failIf (segmentEnd > descriptor.blocks)
    (.invalidArgument "leaf entry segment slice exceeds segment bounds")

def span (e : LeafEntry) : Span (Nat × Nat) :=
  ⟨e.logicalStart, e.blocks, fun i => (e.segmentId, e.segmentOffset + (i - e.logicalStart))⟩

@[simp] theorem span_start (e : LeafEntry) : e.span.start = e.logicalStart := rfl
@[simp] theorem span_len (e : LeafEntry) : e.span.len = e.blocks := rfl

theorem span_stop (e : LeafEntry) : e.span.stop = e.logicalRange.stop := rfl

theorem validateAgainst_eq_ok {e : LeafEntry} {covered : BlockRange} {d : SegmentDescriptor}
    {u : Unit} : e.validateAgainst covered d = .ok u ↔
      (covered.Fits ∧ covered.Covers e.logicalRange ∧ e.logicalRange.Fits ∧ 0 < e.blocks) ∧
        e.segmentId = d.segmentId ∧ e.segmentOffset + e.blocks ≤ d.blocks ∧
        e.segmentOffset + e.blocks < u64Bound := by
  simp only [validateAgainst, bind_eq_ok, BlockRange.validateNonEmpty_eq_ok,
    BlockRange.containsRange_eq_ok, failIf_eq_ok]
  constructor
  · rintro ⟨-, ⟨hf, hb⟩, inside, ⟨⟨hc, -⟩, rfl⟩, -, hin, -, hid, n, hn, hle⟩
    obtain ⟨rfl, hlt⟩ := checkedAdd_eq_ok hn
    exact ⟨⟨hc, by simpa using hin, hf, hb⟩, by simpa using hid, by omega, hlt⟩
  · rintro ⟨⟨hc, hin, hf, hb⟩, hid, hle, hlt⟩
    exact ⟨(), ⟨hf, hb⟩, _, ⟨⟨hc, hf⟩, rfl⟩, (), by simpa using hin, (), by simpa using hid, _,
      checkedAdd_of_lt hlt, by omega⟩

end LeafEntry

structure MetadataChild where
  range : BlockRange
  nodeId : Nat
  deriving DecidableEq, Repr

inductive MetadataNodeKind
  | internal (children : List MetadataChild)
  | leaf (entries : List LeafEntry) (runExtents : List RunBackedFileExtent)
  deriving DecidableEq, Repr

structure MetadataNode where
  nodeId : Nat
  coveredRange : BlockRange
  kind : MetadataNodeKind
  deriving DecidableEq, Repr

/-! ## Validation -/

/-- Where a child may start: right after the one before, or at the parent's start. -/
def validateChildStart (previous : Option BlockRange) (nextExpectedStart : Nat)
    (child : BlockRange) : Result Unit :=
  match previous with
  | some previous => do
    failIf (child.start < previous.start)
      (.invalidArgument "metadata child ranges must be sorted")
    let previousEnd ← previous.endExclusive
    failIf (child.start < previousEnd)
      (.invalidArgument "metadata child ranges must not overlap")
    failIf (child.start > previousEnd)
      (.invalidArgument "metadata child ranges must cover the parent without gaps")
  | none =>
    failIf (child.start ≠ nextExpectedStart)
      (.invalidArgument "first metadata child must start at the parent start")

/-- The loop of `validateChildRanges`: the range before, and where the next has to start. -/
def validateChildRangesFrom (covered : BlockRange) :
    Option BlockRange → Nat → List BlockRange → Result Nat
  | _, nextExpectedStart, [] => return nextExpectedStart
  | previous, nextExpectedStart, child :: rest => do
    child.validateNonEmpty
    let inside ← covered.containsRange child
    failIf (¬ inside) (.invalidArgument "metadata child range is outside node covered range")
    validateChildStart previous nextExpectedStart child
    let nextExpectedStart ← child.endExclusive
    validateChildRangesFrom covered (some child) nextExpectedStart rest

def validateChildRanges (covered : BlockRange) (children : List BlockRange) : Result Unit := do
  failIf (children = []) (.invalidArgument "internal metadata node must have children")
  let nextExpectedStart ← validateChildRangesFrom covered none covered.start children
  let coveredEnd ← covered.endExclusive
  failIf (nextExpectedStart ≠ coveredEnd)
    (.invalidArgument "metadata child ranges must end at the parent end")

/-- Where an entry may start: not before the end of the one before. -/
def validateEntryStart (previous : Option BlockRange) (start : Nat) : Result Unit :=
  match previous with
  | some previous => do
    failIf (start < previous.start) (.invalidArgument "leaf entries must be sorted")
    let previousEnd ← previous.endExclusive
    failIf (start < previousEnd) (.invalidArgument "leaf entries must not overlap")
  | none => return ()

/-- The loop of `validateLeafEntries`: the range of the entry before. -/
def validateLeafEntriesFrom (covered : BlockRange) (segments : List SegmentDescriptor) :
    Option BlockRange → List LeafEntry → Result Unit
  | _, [] => return ()
  | previous, entry :: rest => do
    let descriptor ← orFail (segments.find? (·.segmentId = entry.segmentId))
      (.invalidArgument "leaf entry references missing segment")
    entry.validateAgainst covered descriptor
    validateEntryStart previous entry.logicalStart
    validateLeafEntriesFrom covered segments (some entry.logicalRange) rest

def validateLeafEntries (covered : BlockRange) (entries : List LeafEntry)
    (segments : List SegmentDescriptor) : Result Unit :=
  validateLeafEntriesFrom covered segments none entries

/-- Where a run extent may start: not before the end of the one before. -/
def validateExtentStart (previousEnd : Option Nat) (start : Nat) : Result Unit :=
  match previousEnd with
  | some previousEnd =>
    failIf (start < previousEnd) (.invalidArgument "run-backed file extents must not overlap")
  | none => return ()

/-- The loop of `validateRunBackedFileExtents`: the end of the extent before. -/
def validateRunBackedFileExtentsFrom : Option Nat → List RunBackedFileExtent → Result Unit
  | _, [] => return ()
  | previousEnd, extent :: rest => do
    extent.validate
    validateExtentStart previousEnd extent.fileOffsetStart
    let stop ← checkedAdd extent.fileOffsetStart extent.payloadLen
      (.invalidArgument "run-backed file extent range overflows")
    validateRunBackedFileExtentsFrom (some stop) rest

def validateRunBackedFileExtents (extents : List RunBackedFileExtent) : Result Unit :=
  validateRunBackedFileExtentsFrom none extents

def MetadataNode.validate (node : MetadataNode) (segments : List SegmentDescriptor) :
    Result Unit := do
  node.coveredRange.validateNonEmpty
  match node.kind with
  | .internal children => validateChildRanges node.coveredRange (children.map (·.range))
  | .leaf entries runExtents => do
    validateLeafEntries node.coveredRange entries segments
    validateRunBackedFileExtents runExtents

/-! ## What a validated node looks like -/

/-- The ranges follow each other without a gap from a given start to `stop`. -/
def Tiles (stop : Nat) : Nat → List BlockRange → Prop
  | start, [] => start = stop
  | start, r :: rs => r.start = start ∧ 0 < r.blocks ∧ Tiles stop r.stop rs

variable {covered : BlockRange} {rs : List BlockRange} {count start stop : Nat}
  {previous : Option BlockRange} {u : Unit}

theorem Tiles.le (h : Tiles stop start rs) : start ≤ stop := by
  induction rs generalizing start with
  | nil => exact Nat.le_of_eq h
  | cons r rs ih =>
    obtain ⟨rfl, -, h⟩ := h
    exact (Nat.le_add_right r.start r.blocks).trans (ih h)

theorem Tiles.mem (h : Tiles stop start rs) {r : BlockRange} (hr : r ∈ rs) :
    start ≤ r.start ∧ r.stop ≤ stop := by
  induction rs generalizing start with
  | nil => cases hr
  | cons x rs ih =>
    obtain ⟨rfl, -, h⟩ := h
    rcases List.mem_cons.1 hr with rfl | hr
    · exact ⟨le_rfl, h.le⟩
    · obtain ⟨h1, h2⟩ := ih h hr
      exact ⟨(Nat.le_add_right x.start x.blocks).trans h1, h2⟩

theorem Tiles.exists_mem (h : Tiles stop start rs) {i : Nat} (hi : start ≤ i) (hi' : i < stop) :
    ∃ r ∈ rs, r.start ≤ i ∧ i < r.stop := by
  induction rs generalizing start with
  | nil =>
    have heq : start = stop := h
    omega
  | cons x rs ih =>
    obtain ⟨rfl, -, h⟩ := h
    rcases Nat.lt_or_ge i x.stop with hlt | hge
    · exact ⟨x, List.mem_cons_self, hi, hlt⟩
    · obtain ⟨r, hr, hin⟩ := ih h hge
      exact ⟨r, List.mem_cons_of_mem x hr, hin⟩

theorem Tiles.append {mid : Nat} {rs' : List BlockRange} (h : Tiles mid start rs)
    (h' : Tiles stop mid rs') : Tiles stop start (rs ++ rs') := by
  induction rs generalizing start with
  | nil =>
    cases h
    exact h'
  | cons r rs ih =>
    obtain ⟨hr, hpos, h⟩ := h
    exact ⟨hr, hpos, ih h⟩

theorem tiles_of_bounds (bound : Nat → Nat) (first n : Nat)
    (h : ∀ k ∈ List.range' first n, 0 < bound (k + 1) - bound k) : Tiles (bound (first + n)) (bound first)
      ((List.range' first n).map fun k => ⟨bound k, bound (k + 1) - bound k⟩) := by
  induction n generalizing first with
  | zero => rfl
  | succ n ih =>
    rw [List.range'_succ] at h ⊢
    obtain ⟨hfirst, hrest⟩ := List.forall_mem_cons.1 h
    refine ⟨rfl, hfirst, ?_⟩
    have hstop : (⟨bound first, bound (first + 1) - bound first⟩ : BlockRange).stop =
        bound (first + 1) := by
      show bound first + (bound (first + 1) - bound first) = _
      omega
    rw [hstop]
    have htiles := ih (first + 1) hrest
    rwa [Nat.add_right_comm] at htiles

/-- Where share `index` of `blocks` blocks starts when they are split among `count` shares. -/
def shareStart (blocks count index : Nat) : Nat := blocks * index / count

theorem shareStart_lt {blocks : Nat} (hcount : 0 < count) (h : count ≤ blocks) (index : Nat) :
    shareStart blocks count index < shareStart blocks count (index + 1) := by
  have hadd : (blocks * index + count) / count = blocks * index / count + 1 :=
    Nat.add_div_right _ hcount
  have hle : (blocks * index + count) / count ≤ blocks * (index + 1) / count :=
    Nat.div_le_div_right (by rw [Nat.mul_succ]; omega)
  show blocks * index / count < blocks * (index + 1) / count
  omega

theorem shareStart_succ_le (blocks : Nat) (hcount : 2 ≤ count) (index : Nat) :
    shareStart blocks count (index + 1) ≤ shareStart blocks count index + (blocks + 1) / 2 := by
  have hpos : 0 < count := by omega
  have hdiv := Nat.lt_div_mul_add (a := blocks * index) hpos
  have hhalf := Nat.mul_le_mul_left ((blocks + 1) / 2) hcount
  show blocks * (index + 1) / count ≤ blocks * index / count + (blocks + 1) / 2
  rw [← Nat.lt_succ_iff, Nat.div_lt_iff_lt_mul hpos, Nat.mul_succ, Nat.succ_mul, Nat.add_mul]
  omega

def shareRanges (range : BlockRange) (count : Nat) : List BlockRange :=
  (List.range count).map fun index =>
    ⟨range.start + shareStart range.blocks count index,
      shareStart range.blocks count (index + 1) - shareStart range.blocks count index⟩

theorem tiles_shareRanges (range : BlockRange) (hcount : 0 < count) (h : count ≤ range.blocks) :
    Tiles range.stop range.start (shareRanges range count) := by
  have hbounds := tiles_of_bounds (fun index => range.start + shareStart range.blocks count index)
    0 count fun index _ => by
      have hlt := shareStart_lt hcount h index
      show 0 < _ + _ - _
      omega
  have hstop : range.start + shareStart range.blocks count (0 + count) = range.stop := by
    rw [Nat.zero_add, shareStart, Nat.mul_div_cancel _ hcount]
    rfl
  have hstart : range.start + shareStart range.blocks count 0 = range.start := by
    simp [shareStart]
  simp only [hstop, hstart, Nat.add_sub_add_left, ← List.range_eq_range'] at hbounds
  exact hbounds

theorem validateChildStart_eq_ok {next : Nat} {r : BlockRange}
    (hprev : ∀ p, previous = some p → p.Fits ∧ next = p.stop) :
    validateChildStart previous next r = .ok u ↔ r.start = next := by
  cases previous with
  | none => simp [validateChildStart]
  | some p =>
    obtain ⟨hf, rfl⟩ := hprev p rfl
    have hle : p.start ≤ p.stop := Nat.le_add_right _ _
    simp only [validateChildStart, bind_eq_ok, failIf_eq_ok, BlockRange.endExclusive_eq_ok]
    constructor
    · rintro ⟨-, h1, n, ⟨-, rfl⟩, -, h2, h3⟩
      omega
    · intro h
      exact ⟨(), by omega, _, ⟨hf, rfl⟩, (), by omega, by omega⟩

theorem validateChildRangesFrom_eq_ok {next n : Nat} (hcov : covered.Fits)
    (hnext : covered.start ≤ next) (hn : n ≤ covered.stop)
    (hprev : ∀ p, previous = some p → p.Fits ∧ next = p.stop) :
    validateChildRangesFrom covered previous next rs = .ok n ↔ Tiles n next rs := by
  induction rs generalizing previous next with
  | nil => simp [validateChildRangesFrom, Tiles]
  | cons r rs ih =>
    simp only [validateChildRangesFrom, bind_eq_ok, BlockRange.validateNonEmpty_eq_ok,
      BlockRange.containsRange_eq_ok, failIf_eq_ok, validateChildStart_eq_ok hprev,
      BlockRange.endExclusive_eq_ok, Tiles]
    constructor
    · rintro ⟨-, ⟨hf, hb⟩, inside, ⟨-, rfl⟩, -, hin, -, hs, m, ⟨-, rfl⟩, h⟩
      have hle : r.start ≤ r.stop := Nat.le_add_right _ _
      refine ⟨hs, hb, (ih (by omega) ?_).1 h⟩
      rintro p ⟨rfl⟩
      exact ⟨hf, rfl⟩
    · rintro ⟨hs, hb, h⟩
      have hle : r.start ≤ r.stop := Nat.le_add_right _ _
      have hstop : r.stop ≤ covered.stop := h.le.trans hn
      have hf : r.Fits := lt_of_le_of_lt hstop hcov
      have hcovers : covered.Covers r := ⟨by omega, hstop⟩
      refine ⟨(), ⟨hf, hb⟩, _, ⟨⟨hcov, hf⟩, rfl⟩, (), by simpa using hcovers, (), hs, _,
        ⟨hf, rfl⟩, (ih (by omega) ?_).2 h⟩
      rintro p ⟨rfl⟩
      exact ⟨hf, rfl⟩

theorem validateChildRanges_eq_ok (hcov : covered.Fits) :
    validateChildRanges covered rs = .ok u ↔ rs ≠ [] ∧ Tiles covered.stop covered.start rs := by
  have hfrom : validateChildRangesFrom covered none covered.start rs = .ok covered.stop ↔
      Tiles covered.stop covered.start rs :=
    validateChildRangesFrom_eq_ok hcov le_rfl le_rfl (by simp)
  simp only [validateChildRanges, bind_eq_ok, failIf_eq_ok, BlockRange.endExclusive_eq_ok, ← hfrom]
  constructor
  · rintro ⟨-, hne, n, hn, m, ⟨-, rfl⟩, heq⟩
    rw [not_not] at heq
    exact ⟨hne, heq ▸ hn⟩
  · rintro ⟨hne, h⟩
    exact ⟨(), hne, _, h, _, ⟨hcov, rfl⟩, by simp⟩

def EntryFits (covered : BlockRange) (segments : List SegmentDescriptor) (e : LeafEntry) : Prop :=
  ∃ d, segments.find? (·.segmentId = e.segmentId) = some d ∧
    e.validateAgainst covered d = .ok ()

theorem validateEntryStart_eq_ok (hprev : ∀ p, previous = some p → p.Fits) :
    validateEntryStart previous start = .ok u ↔ ∀ p, previous = some p → p.stop ≤ start := by
  cases previous with
  | none => simp [validateEntryStart]
  | some p =>
    have hf := hprev p rfl
    have hle : p.start ≤ p.stop := Nat.le_add_right _ _
    simp only [validateEntryStart, bind_eq_ok, failIf_eq_ok, BlockRange.endExclusive_eq_ok,
      Option.some.injEq, forall_eq']
    constructor
    · rintro ⟨-, h1, n, ⟨-, rfl⟩, h2⟩
      omega
    · intro h
      exact ⟨(), by omega, _, ⟨hf, rfl⟩, by omega⟩

theorem validateLeafEntriesFrom_eq_ok {segments : List SegmentDescriptor} {es : List LeafEntry}
    (hprev : ∀ p, previous = some p → p.Fits) : validateLeafEntriesFrom covered segments previous es = .ok u ↔
      (Ordered (es.map LeafEntry.span) ∧ ∀ e ∈ es, EntryFits covered segments e) ∧
        ∀ p, previous = some p → ∀ e ∈ es, p.stop ≤ e.logicalStart := by
  induction es generalizing previous with
  | nil => simp [validateLeafEntriesFrom, Ordered]
  | cons e es ih =>
    simp only [validateLeafEntriesFrom, bind_eq_ok, orFail_eq_ok, validateEntryStart_eq_ok hprev]
    constructor
    · rintro ⟨d, hd, ⟨⟩, hv, -, hstart, h⟩
      obtain ⟨⟨-, -, hef, hb⟩, -⟩ := LeafEntry.validateAgainst_eq_ok.1 hv
      have hself : ∀ p, some e.logicalRange = some p → p.Fits := by
        rintro p ⟨rfl⟩
        exact hef
      obtain ⟨⟨ho, hall⟩, hafter⟩ := (ih hself).1 h
      have hle : e.logicalStart ≤ e.logicalRange.stop := Nat.le_add_right _ _
      refine ⟨⟨ordered_cons.2 ⟨hb, fun s hs => ?_, ho⟩, ?_⟩, ?_⟩
      · obtain ⟨e', he', rfl⟩ := List.mem_map.1 hs
        exact hafter _ rfl e' he'
      · exact List.forall_mem_cons.2 ⟨⟨d, hd, hv⟩, hall⟩
      · intro p hp e' he'
        rcases List.mem_cons.1 he' with rfl | he'
        · exact hstart p hp
        · exact (hstart p hp).trans (hle.trans (hafter _ rfl e' he'))
    · rintro ⟨⟨ho, hall⟩, hafter⟩
      obtain ⟨d, hd, hv⟩ := hall e List.mem_cons_self
      obtain ⟨⟨-, -, hef, -⟩, -⟩ := LeafEntry.validateAgainst_eq_ok.1 hv
      have hself : ∀ p, some e.logicalRange = some p → p.Fits := by
        rintro p ⟨rfl⟩
        exact hef
      refine ⟨d, hd, (), hv, (), fun p hp => hafter p hp e List.mem_cons_self, (ih hself).2 ?_⟩
      obtain ⟨-, hnext, ho⟩ := ordered_cons.1 ho
      refine ⟨⟨ho, (List.forall_mem_cons.1 hall).2⟩, ?_⟩
      rintro p ⟨rfl⟩ e' he'
      exact hnext e'.span (List.mem_map_of_mem he')

theorem validateLeafEntries_eq_ok {segments : List SegmentDescriptor} {es : List LeafEntry} :
    validateLeafEntries covered es segments = .ok u ↔
      Ordered (es.map LeafEntry.span) ∧ ∀ e ∈ es, EntryFits covered segments e := by
  rw [validateLeafEntries, validateLeafEntriesFrom_eq_ok (by simp)]
  simp

/-- A run as a map from bytes of the file to bytes of append logs. -/
def AppendLogRunRange.span (r : AppendLogRunRange) : Span (Nat × Nat × Nat) :=
  ⟨r.fileOffsetStart, r.payloadLen, fun b =>
    (r.storageNode, r.logId, r.logPayloadOffset + (b - r.fileOffsetStart))⟩

def RunBackedFileExtent.span (e : RunBackedFileExtent) : Span (Nat × Nat × Nat) :=
  ⟨e.fileOffsetStart, e.payloadLen, fun b =>
    (e.run.storageNode, e.run.logId, e.run.logPayloadOffset + (b - e.fileOffsetStart))⟩

theorem RunBackedFileExtent.span_of_validate {e : RunBackedFileExtent} (h : e.validate = .ok u) :
    e.span = e.run.span := by
  obtain ⟨-, hs, hl⟩ := RunBackedFileExtent.validate_eq_ok.1 h
  rw [RunBackedFileExtent.span, AppendLogRunRange.span, hs, hl]

theorem RunBackedFileExtent.bounds_of_validate {e : RunBackedFileExtent} (h : e.validate = .ok u) :
    0 < e.payloadLen ∧ e.fileOffsetStart + e.payloadLen < u64Bound := by
  obtain ⟨hrun, hs, hl⟩ := RunBackedFileExtent.validate_eq_ok.1 h
  obtain ⟨hpos, hlt, -⟩ := AppendLogRunRange.validate_eq_ok.1 hrun
  rw [hs, hl]
  exact ⟨hpos, hlt⟩

theorem validateExtentStart_eq_ok {previous : Option Nat} :
    validateExtentStart previous start = .ok u ↔ ∀ p, previous = some p → p ≤ start := by
  cases previous with
  | none => simp [validateExtentStart]
  | some p => simp [validateExtentStart, failIf_eq_ok]

theorem validateRunBackedFileExtentsFrom_eq_ok {previous : Option Nat}
    {es : List RunBackedFileExtent} : validateRunBackedFileExtentsFrom previous es = .ok u ↔
      (Ordered (es.map RunBackedFileExtent.span) ∧ ∀ e ∈ es, e.validate = .ok ()) ∧
        ∀ p, previous = some p → ∀ e ∈ es, p ≤ e.fileOffsetStart := by
  induction es generalizing previous with
  | nil => simp [validateRunBackedFileExtentsFrom, Ordered]
  | cons e es ih =>
    simp only [validateRunBackedFileExtentsFrom, bind_eq_ok, validateExtentStart_eq_ok, ih]
    constructor
    · rintro ⟨⟨⟩, hv, -, hstart, stop, hstop, ⟨ho, hall⟩, hafter⟩
      obtain ⟨rfl, -⟩ := checkedAdd_eq_ok hstop
      refine ⟨⟨ordered_cons.2 ⟨(e.bounds_of_validate hv).1, fun s hs => ?_, ho⟩,
        List.forall_mem_cons.2 ⟨hv, hall⟩⟩, fun p hp => List.forall_mem_cons.2 ⟨hstart p hp, ?_⟩⟩
      · obtain ⟨e', he', rfl⟩ := List.mem_map.1 hs
        exact hafter _ rfl e' he'
      · intro e' he'
        exact (hstart p hp).trans ((Nat.le_add_right _ _).trans (hafter _ rfl e' he'))
    · rintro ⟨⟨ho, hall⟩, hafter⟩
      obtain ⟨-, hnext, ho⟩ := ordered_cons.1 ho
      obtain ⟨hv, hall⟩ := List.forall_mem_cons.1 hall
      refine ⟨(), hv, (), fun p hp => hafter p hp e List.mem_cons_self, _,
        checkedAdd_of_lt (e.bounds_of_validate hv).2, ⟨ho, hall⟩, ?_⟩
      rintro p ⟨rfl⟩ e' he'
      exact hnext e'.span (List.mem_map_of_mem he')

theorem validateRunBackedFileExtents_eq_ok {es : List RunBackedFileExtent} :
    validateRunBackedFileExtents es = .ok u ↔
      Ordered (es.map RunBackedFileExtent.span) ∧ ∀ e ∈ es, e.validate = .ok () := by
  rw [validateRunBackedFileExtents, validateRunBackedFileExtentsFrom_eq_ok]
  simp

end CowStore.Object
