import CowStore.Tree.Leaf
import CowStore.Tree.Runs

/-!
# Edits of block ranges

An edit replaces a range of blocks by blocks of a segment, or by nothing.  Applied to the
contents of a leaf, a list of edits is an overlay of its block map, and hides the runs on
the bytes of the edited blocks.
-/

namespace CowStore.Tree

open Lib Object

structure SegmentReplacement where
  segmentId : Nat
  segmentBase : Nat
  deriving DecidableEq, Repr

structure TreeRangeEdit where
  range : BlockRange
  replacement : Option SegmentReplacement
  deriving DecidableEq, Repr

def blockRangeToByteRange (range : BlockRange) (blockSize : Nat) : Result ByteRange := do
  let offset ← checkedMul range.start blockSize
    (.invalidArgument "block range byte offset overflows")
  let len ← checkedMul range.blocks blockSize
    (.invalidArgument "block range byte length overflows")
  return ⟨offset, len⟩

def byteRangeIntersection (a b : ByteRange) : Result (Option ByteRange) := do
  let aEnd ← a.endExclusive
  let bEnd ← b.endExclusive
  let start := max a.offset b.offset
  let stop := min aEnd bEnd
  return if start ≥ stop then none else some ⟨start, stop - start⟩

theorem byteRangeIntersection_eq_ok {a b : ByteRange} {o : Option ByteRange} :
    byteRangeIntersection a b = .ok o ↔ (a.stop < u64Bound ∧ b.stop < u64Bound) ∧
      o = if max a.offset b.offset ≥ min a.stop b.stop then none
        else some ⟨max a.offset b.offset, min a.stop b.stop - max a.offset b.offset⟩ := by
  simp only [byteRangeIntersection, bind_eq_ok, ByteRange.endExclusive_eq_ok]
  constructor
  · rintro ⟨_, ⟨ha, rfl⟩, _, ⟨hb, rfl⟩, h⟩
    exact ⟨⟨ha, hb⟩, (Except.ok.inj h).symm⟩
  · rintro ⟨⟨ha, hb⟩, rfl⟩
    exact ⟨_, ⟨ha, rfl⟩, _, ⟨hb, rfl⟩, rfl⟩

/-! ## Editing a leaf -/

abbrev LeafContents := List LeafEntry × List RunBackedFileExtent

/-- The entry by which an edit replaces the blocks of `overlap`. -/
def TreeRangeEdit.entryFor (edit : TreeRangeEdit) (overlap : BlockRange) : Option LeafEntry :=
  edit.replacement.map fun replacement =>
    ⟨overlap.start, overlap.blocks, replacement.segmentId,
      overlap.start - replacement.segmentBase⟩

def applyEdit (blockSize : Nat) (covered : BlockRange) (contents : LeafContents)
    (edit : TreeRangeEdit) : Result LeafContents := do
  match ← covered.intersection edit.range with
  | none => return contents
  | some overlap =>
    let entries ← replaceLeafEntries contents.1 covered overlap (edit.entryFor overlap)
    let overlapBytes ← blockRangeToByteRange overlap blockSize
    let runs ← replaceRunBackedFileExtents contents.2 overlapBytes []
    return (entries, runs)

def applyEdits (blockSize : Nat) (covered : BlockRange) (contents : LeafContents)
    (edits : List TreeRangeEdit) : Result LeafContents :=
  edits.foldlM (applyEdit blockSize covered) contents

def TreeRangeEdit.Hits (edit : TreeRangeEdit) (i : Nat) : Prop :=
  edit.range.start ≤ i ∧ i < edit.range.stop

instance (edit : TreeRangeEdit) (i : Nat) : Decidable (edit.Hits i) :=
  inferInstanceAs (Decidable (_ ∧ _))

def TreeRangeEdit.Apart (a b : TreeRangeEdit) : Prop := ∀ i, a.Hits i → ¬ b.Hits i

def TreeRangeEdit.cell (edit : TreeRangeEdit) (i : Nat) : Option (Nat × Nat) :=
  edit.replacement.map fun replacement => (replacement.segmentId, i - replacement.segmentBase)

/-- The block map `cells` after the edits, one after the other. -/
def overlay (edits : List TreeRangeEdit) (cells : Nat → Option (Nat × Nat)) (i : Nat) :
    Option (Nat × Nat) :=
  edits.foldl (fun cell edit => if edit.Hits i then edit.cell i else cell) (cells i)

def touched (edits : List TreeRangeEdit) (i : Nat) : Bool := edits.any (fun e => e.Hits i)

theorem overlay_cons (edit : TreeRangeEdit) (edits : List TreeRangeEdit)
    (cells : Nat → Option (Nat × Nat)) (i : Nat) :
    overlay (edit :: edits) cells i =
      overlay edits (fun i => if edit.Hits i then edit.cell i else cells i) i := rfl

variable {edits : List TreeRangeEdit} {i : Nat}

theorem overlay_filter {p : TreeRangeEdit → Bool} (h : ∀ e ∈ edits, e.Hits i → p e)
    (cells : Nat → Option (Nat × Nat)) : overlay (edits.filter p) cells i = overlay edits cells i := by
  induction edits generalizing cells with
  | nil => rfl
  | cons e edits ih =>
    have ih := ih (fun e he => h e (List.mem_cons_of_mem _ he))
    by_cases hp : p e
    · rw [List.filter_cons_of_pos hp, overlay_cons, overlay_cons, ih]
    · have hnot : ¬ e.Hits i := fun hh => hp (h e List.mem_cons_self hh)
      rw [List.filter_cons_of_neg hp, ih]
      show _ = List.foldl _ (if e.Hits i then e.cell i else cells i) edits
      rw [if_neg hnot]
      rfl

theorem overlay_of_miss (h : ∀ e ∈ edits, ¬ e.Hits i) (cells : Nat → Option (Nat × Nat)) :
    overlay edits cells i = cells i := by
  induction edits generalizing cells with
  | nil => rfl
  | cons e edits ih =>
    rw [overlay_cons, ih fun x hx => h x (List.mem_cons_of_mem e hx),
      if_neg (h e List.mem_cons_self)]

/-- Where edits stand apart, the one that reaches a block decides it. -/
theorem overlay_of_hit {e : TreeRangeEdit} (hapart : edits.Pairwise TreeRangeEdit.Apart)
    (he : e ∈ edits) (hit : e.Hits i) (cells : Nat → Option (Nat × Nat)) :
    overlay edits cells i = e.cell i := by
  induction edits generalizing cells with
  | nil => cases he
  | cons x edits ih =>
    obtain ⟨hx, hapart⟩ := List.pairwise_cons.1 hapart
    rw [overlay_cons]
    rcases List.mem_cons.1 he with rfl | he
    · rw [overlay_of_miss fun y hy => hx y hy i hit, if_pos hit]
    · exact ih hapart he _

theorem touched_filter {p : TreeRangeEdit → Bool} (h : ∀ e ∈ edits, e.Hits i → p e) :
    touched (edits.filter p) i = touched edits i := by
  rw [touched, touched, List.any_filter, Bool.eq_iff_iff, List.any_eq_true, List.any_eq_true]
  constructor
  · rintro ⟨e, he, hb⟩
    exact ⟨e, he, (Bool.and_eq_true_iff.1 hb).2⟩
  · rintro ⟨e, he, hb⟩
    exact ⟨e, he, Bool.and_eq_true_iff.2 ⟨h e he (of_decide_eq_true hb), hb⟩⟩

theorem blockRangeToByteRange_eq_ok {r : BlockRange} {bs : Nat} {b : ByteRange}
    (h : blockRangeToByteRange r bs = .ok b) : b.offset = r.start * bs ∧ b.stop = r.stop * bs := by
  simp only [blockRangeToByteRange, bind_eq_ok] at h
  obtain ⟨offset, ho, len, hl, h⟩ := h
  obtain ⟨rfl, -⟩ := checkedMul_eq_ok ho
  obtain ⟨rfl, -⟩ := checkedMul_eq_ok hl
  cases h
  exact ⟨rfl, (Nat.add_mul _ _ _).symm⟩

theorem byte_outside_iff {bs : Nat} (hbs : 0 < bs) {r : BlockRange} {b : Nat} :
    (b < r.start * bs ∨ r.stop * bs ≤ b) ↔ ¬ (r.start ≤ b / bs ∧ b / bs < r.stop) := by
  rw [Nat.le_div_iff_mul_le hbs, Nat.div_lt_iff_lt_mul hbs]
  omega

section

variable {bs : Nat} {covered : BlockRange}

/-- The entries and the runs are in order, and every run is one that passes its check. -/
structure ContentsOk (contents : LeafContents) : Prop where
  entries : Ordered (contents.1.map LeafEntry.span)
  runs : Ordered (contents.2.map RunBackedFileExtent.span)
  valid : ∀ r ∈ contents.2, r.validate = .ok ()

structure EditsTo (bs : Nat) (covered : BlockRange) (edits : List TreeRangeEdit)
    (c c' : LeafContents) : Prop where
  ok : ContentsOk c'
  cell : ∀ i, covered.start ≤ i → i < covered.stop →
    valueAt (c'.1.map LeafEntry.span) i = overlay edits (valueAt (c.1.map LeafEntry.span)) i
  run : ∀ b, covered.start ≤ b / bs → b / bs < covered.stop →
    valueAt (c'.2.map RunBackedFileExtent.span) b =
      if touched edits (b / bs) then none else valueAt (c.2.map RunBackedFileExtent.span) b
  runs_of : ∀ b v, Shows (c'.2.map RunBackedFileExtent.span) b v →
    Shows (c.2.map RunBackedFileExtent.span) b v

variable {i : Nat} {edit : TreeRangeEdit}

theorem hits_iff_of_meet {covered : BlockRange} (edit : TreeRangeEdit) (hi : covered.start ≤ i)
    (hi' : i < covered.stop) :
    edit.Hits i ↔ (covered.meet edit.range).start ≤ i ∧ i < (covered.meet edit.range).stop := by
  show _ ↔ max covered.start edit.range.start ≤ i ∧ i < max covered.start edit.range.start +
    (min covered.stop edit.range.stop - max covered.start edit.range.start)
  unfold TreeRangeEdit.Hits
  omega

theorem not_hits_of_not_meets {covered : BlockRange} (h : ¬ covered.Meets edit.range)
    (hi : covered.start ≤ i) (hi' : i < covered.stop) : ¬ edit.Hits i := by
  rintro ⟨h1, h2⟩
  unfold BlockRange.Meets BlockRange.stop at h
  unfold BlockRange.stop at hi' h2
  omega

theorem shows_entryFor {overlap : BlockRange} {v : Nat × Nat}
    (hbase : ∀ r, edit.replacement = some r → r.segmentBase ≤ overlap.start) :
    Shows ((edit.entryFor overlap).toList.map LeafEntry.span) i v ↔
      (overlap.start ≤ i ∧ i < overlap.stop) ∧ edit.cell i = some v := by
  unfold TreeRangeEdit.entryFor TreeRangeEdit.cell
  cases hrep : edit.replacement with
  | none => simp
  | some r =>
    have hle := hbase r hrep
    have hat : ∀ w, (⟨overlap.start, overlap.blocks, r.segmentId,
        overlap.start - r.segmentBase⟩ : LeafEntry).span.At i w ↔
        (overlap.start ≤ i ∧ i < overlap.stop) ∧ (r.segmentId, i - r.segmentBase) = w := by
      intro w
      show overlap.start ≤ i ∧ i < overlap.stop ∧
        (r.segmentId, overlap.start - r.segmentBase + (i - overlap.start)) = w ↔ _
      rw [and_assoc]
      refine and_congr_right fun hi => and_congr_right fun _ => ?_
      rw [show overlap.start - r.segmentBase + (i - overlap.start) = i - r.segmentBase by omega]
    simpa [Shows] using hat v

theorem applyEdit_spec (hbs : 0 < bs) {c c' : LeafContents}
    (h : applyEdit bs covered c edit = .ok c') (hc : ContentsOk c)
    (hbase : ∀ r, edit.replacement = some r → r.segmentBase ≤ edit.range.start) :
    EditsTo bs covered [edit] c c' := by
  unfold applyEdit at h
  obtain ⟨o, ho, h⟩ := bind_eq_ok.1 h
  obtain ⟨-, rfl⟩ := BlockRange.intersection_eq_ok.1 ho
  by_cases hm : covered.Meets edit.range
  · rw [if_pos hm] at h
    obtain ⟨entries, hentries, bytes, hbytes, runs, hruns, h⟩ := bind3_eq_ok.1 h
    cases h
    obtain ⟨hoff, hstop⟩ := blockRangeToByteRange_eq_ok hbytes
    have hbase' : ∀ r, edit.replacement = some r →
        r.segmentBase ≤ (covered.meet edit.range).start :=
      fun r hr => (hbase r hr).trans (le_max_right _ _)
    have hpos : ∀ e ∈ c.1, 0 < e.blocks :=
      fun e he => hc.entries.2 e.span (List.mem_map_of_mem he)
    have hentriesOk : Ordered (entries.map LeafEntry.span) := by
      refine ordered_replaceLeafEntries hentries hc.entries fun e he => ?_
      obtain ⟨r, -, rfl⟩ := Option.map_eq_some_iff.1 he
      rfl
    have hrunsOk : Ordered (runs.map RunBackedFileExtent.span) :=
      ordered_replaceRunBackedFileExtents hruns (by simp) hc.runs (by simp) (by simp)
    have hrunsShow := fun b v =>
      shows_replaceRunBackedFileExtents hruns (by simp) (b := b) (v := v)
    obtain ⟨-, -, -, -, -, hvalid⟩ := exists_of_replaceRunBackedFileExtents hruns
    refine ⟨⟨hentriesOk, hrunsOk, hvalid⟩, fun i hi hi' => ?_, fun b hb hb' => ?_,
      fun b v hv => ?_⟩
    · show valueAt (entries.map LeafEntry.span) i = if edit.Hits i then edit.cell i else _
      have hshow := fun v => shows_replaceLeafEntries hentries hpos (i := i) (v := v)
      have hhit := hits_iff_of_meet edit hi hi'
      split
      · next hh =>
        cases hcell : edit.cell i with
        | none =>
          refine valueAt_eq_none.2 fun v hv => ?_
          rw [hshow, shows_entryFor hbase', hcell] at hv
          rcases hv with ⟨-, hv⟩ | ⟨-, hv⟩
          · cases hv
          · have := hhit.1 hh
            omega
        | some w =>
          rw [valueAt_eq_some hentriesOk.apart, hshow, shows_entryFor hbase']
          exact .inl ⟨hhit.1 hh, hcell⟩
      · next hh =>
        refine valueAt_congr hentriesOk.apart fun v => ?_
        rw [hshow, shows_entryFor hbase', ← hhit]
        have : i < (covered.meet edit.range).start ∨ (covered.meet edit.range).stop ≤ i := by
          rw [hhit] at hh
          omega
        tauto
    · have hhit := hits_iff_of_meet edit hb hb'
      have hout := byte_outside_iff hbs (r := covered.meet edit.range) (b := b)
      rw [← hhit, ← hoff, ← hstop] at hout
      have htouch : touched [edit] (b / bs) = decide (edit.Hits (b / bs)) := by simp [touched]
      rw [htouch]
      by_cases hh : edit.Hits (b / bs)
      · rw [if_pos (decide_eq_true hh)]
        refine valueAt_eq_none.2 fun v hv => ?_
        rw [hrunsShow, hout] at hv
        simp [hh] at hv
      · rw [if_neg (by simpa using hh)]
        refine valueAt_congr hrunsOk.apart fun v => ?_
        rw [hrunsShow, hout]
        simp [hh]
    · rw [hrunsShow] at hv
      simp only [List.map_nil, shows_nil, false_or] at hv
      exact hv.1
  · rw [if_neg hm] at h
    cases h
    refine ⟨hc, fun i hi hi' => ?_, fun b hb hb' => ?_, fun b v h => h⟩
    · show _ = if edit.Hits i then edit.cell i else _
      rw [if_neg (not_hits_of_not_meets hm hi hi')]
    · have hn := not_hits_of_not_meets hm hb hb'
      simp [touched, hn]

/-- The segment that replaces a range holds the range from its base on. -/
def BasesOk (edits : List TreeRangeEdit) : Prop :=
  ∀ edit ∈ edits, ∀ r, edit.replacement = some r → r.segmentBase ≤ edit.range.start

theorem applyEdits_spec (hbs : 0 < bs) {c c' : LeafContents} {edits : List TreeRangeEdit}
    (h : applyEdits bs covered c edits = .ok c') (hc : ContentsOk c) (hbase : BasesOk edits) :
    EditsTo bs covered edits c c' := by
  induction edits generalizing c with
  | nil =>
    cases h
    exact ⟨hc, fun _ _ _ => rfl, fun _ _ _ => rfl, fun _ _ h => h⟩
  | cons edit edits ih =>
    rw [applyEdits, List.foldlM_cons, bind_eq_ok] at h
    obtain ⟨c1, h1, h⟩ := h
    have hone := applyEdit_spec hbs h1 hc (hbase edit List.mem_cons_self)
    have hrest := ih h hone.ok (fun e he => hbase e (List.mem_cons_of_mem edit he))
    refine ⟨hrest.ok, fun i hi hi' => ?_, fun b hb hb' => ?_,
      fun b v hv => hone.runs_of b v (hrest.runs_of b v hv)⟩
    · rw [hrest.cell i hi hi']
      unfold overlay
      rw [hone.cell i hi hi']
      rfl
    · rw [hrest.run b hb hb', hone.run b hb hb']
      have hor : touched (edit :: edits) (b / bs) =
          (touched [edit] (b / bs) || touched edits (b / bs)) := by simp [touched]
      rcases Bool.eq_false_or_eq_true (touched edits (b / bs)) with ht | ht <;> simp [ht, hor]

end

end CowStore.Tree
