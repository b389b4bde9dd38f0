import CowStore.Tree.Replace

/-!
# Orders of edits

Edits of a valid tree that stand apart succeed, on every way the store has for them: one
by one in any order, or all at once.  The block maps and the run maps of the trees that
they end in are the same.
-/

namespace CowStore.Tree

open Lib Object

/-- The segment is known and has the block. -/
def Backed (desc : Nat → Result SegmentDescriptor) (v : Nat × Nat) : Prop :=
  ∃ d, desc v.1 = .ok d ∧ d.segmentId = v.1 ∧ v.2 < d.blocks ∧ d.blocks < u64Bound

/-- A tree as the store builds it, over known segments and bytes that a `u64` counts. -/
structure MappingTree.Valid (bs : Nat) (desc : Nat → Result SegmentDescriptor) (t : MappingTree) :
    Prop where
  shaped : t.Shaped bs
  backed : ∀ i v, t.cell i = some v → Backed desc v
  bytes : t.range.stop * bs < u64Bound

/-- The edit of a range that is not empty, by a segment that holds the range from its base on. -/
structure EditOk (desc : Nat → Result SegmentDescriptor) (edit : TreeRangeEdit) : Prop where
  range : edit.range.Fits ∧ 0 < edit.range.blocks
  base : ∀ r, edit.replacement = some r → r.segmentBase ≤ edit.range.start
  backed : ∀ i v, edit.Hits i → edit.cell i = some v → Backed desc v

/-- The edits one after the other, each on the tree of the one before. -/
def replaceOneByOne (bs : Nat) (catalog : Nat → Result SegmentDescriptor)
    (receipts : List SegmentDescriptor) (rootId : Nat) (edits : List TreeRangeEdit) : NodeOp Nat :=
  edits.foldlM (fun rootId edit => do
    let result ← replaceTreeRangeWithReceipts bs catalog receipts rootId edit
    return result.root) rootId

variable {bs : Nat} {desc : Nat → Result SegmentDescriptor} {edits : List TreeRangeEdit}

/-! ## Leaves -/

/-- What an edit needs of the contents of a leaf, and what it keeps. -/
structure LeafOk (desc : Nat → Result SegmentDescriptor) (r : BlockRange) (c : LeafContents) :
    Prop where
  ok : ContentsOk c
  shows : ∀ i v, Shows (c.1.map LeafEntry.span) i v → (r.start ≤ i ∧ i < r.stop) ∧ Backed desc v

section

variable {r : BlockRange} {c : LeafContents} {edit : TreeRangeEdit}

/-- The segment of an entry holds it, since it has the last block of the entry. -/
theorem exists_descriptor {es : List LeafEntry} {e : LeafEntry} (he : e ∈ es) (hpos : 0 < e.blocks)
    (h : ∀ i v, Shows (es.map LeafEntry.span) i v → Backed desc v) :
    ∃ d, desc e.segmentId = .ok d ∧ d.segmentId = e.segmentId ∧
      e.segmentOffset + e.blocks ≤ d.blocks ∧ d.blocks < u64Bound := by
  have hat : e.span.At (e.logicalStart + (e.blocks - 1))
      (e.segmentId, e.segmentOffset + (e.blocks - 1)) := by
    refine ⟨Nat.le_add_right _ _, Nat.add_lt_add_left (Nat.sub_one_lt_of_lt hpos) _, ?_⟩
    show (e.segmentId, e.segmentOffset + (e.logicalStart + (e.blocks - 1) - e.logicalStart)) = _
    rw [Nat.add_sub_cancel_left]
  obtain ⟨d, hd, hid, hlt, hbound⟩ := h _ _ ⟨e.span, List.mem_map_of_mem he, hat⟩
  have hlt : e.segmentOffset + (e.blocks - 1) < d.blocks := hlt
  exact ⟨d, hd, hid, by omega, hbound⟩

theorem exists_applyEdit (hr : r.Fits) (hbytes : r.stop * bs < u64Bound)
    (hc : LeafOk desc r c) (hedit : EditOk desc edit) :
    ∃ c', applyEdit bs r c edit = .ok c' ∧ LeafOk desc r c' := by
  have hmeet := BlockRange.intersection_eq_ok.2 ⟨⟨hr, hedit.range.1⟩, rfl⟩
  rw [applyEdit, hmeet, ok_bind]
  by_cases hm : r.Meets edit.range
  swap
  · rw [if_neg hm]
    exact ⟨c, rfl, hc⟩
  rw [if_pos hm]
  have hcovers : r.Covers (r.meet edit.range) ∧ edit.range.Covers (r.meet edit.range) ∧
      0 < (r.meet edit.range).blocks := by
    unfold BlockRange.Meets BlockRange.stop at hm
    simp only [BlockRange.Covers, BlockRange.meet, BlockRange.stop]
    omega
  generalize r.meet edit.range = overlap at hcovers ⊢
  obtain ⟨hin, hin', hpos⟩ := hcovers
  have hbase := fun x hx => (hedit.base x hx).trans hin'.1
  have hnew : ∀ i v, Shows ((edit.entryFor overlap).toList.map LeafEntry.span) i v →
      (r.start ≤ i ∧ i < r.stop) ∧ Backed desc v := by
    intro i v hv
    obtain ⟨⟨h1, h2⟩, hcell⟩ := (shows_entryFor hbase).1 hv
    exact ⟨⟨hin.1.trans h1, h2.trans_le hin.2⟩,
      hedit.backed i v ⟨hin'.1.trans h1, h2.trans_le hin'.2⟩ hcell⟩
  have hentry : ∀ e, edit.entryFor overlap = some e → e.logicalRange = overlap := by
    intro e he
    obtain ⟨x, -, rfl⟩ := Option.map_eq_some_iff.1 he
    rfl
  have hcounted : ∀ es : List LeafEntry, (∀ i v, Shows (es.map LeafEntry.span) i v →
      (r.start ≤ i ∧ i < r.stop) ∧ Backed desc v) → Ordered (es.map LeafEntry.span) →
      ∀ e ∈ es, Counted e := by
    intro es hes hord e he
    obtain ⟨d, -, -, hle, hlt⟩ := exists_descriptor he (hord.2 _ (List.mem_map_of_mem he))
      fun i v hv => (hes i v hv).2
    have hlaid := hord.laid fun i v hv => (hes i v hv).1
    exact ⟨Nat.lt_of_le_of_lt (hlaid.inside _ (List.mem_map_of_mem he)).2 hr, hle.trans_lt hlt⟩
  have hordered : Ordered ((edit.entryFor overlap).toList.map LeafEntry.span) := by
    cases he : edit.entryFor overlap with
    | none => exact (Laid.nil 0 0).ordered
    | some e =>
      refine ⟨List.pairwise_singleton _ _, fun s hs => ?_⟩
      rw [List.mem_singleton.1 hs]
      exact (congrArg BlockRange.blocks (hentry e he)).trans_gt hpos
  obtain ⟨entries, hentries⟩ := exists_replaceLeafEntries hr (hcounted c.1 hc.shows hc.ok.entries)
    hpos hin fun e he => hcounted _ hnew hordered e (Option.mem_toList.2 he)
  have hstop : overlap.start * bs + overlap.blocks * bs < u64Bound := by
    rw [← Nat.add_mul]
    exact Nat.lt_of_le_of_lt (Nat.mul_le_mul_right bs hin.2) hbytes
  have hrange : blockRangeToByteRange overlap bs = .ok ⟨overlap.start * bs, overlap.blocks * bs⟩ := by
    rw [blockRangeToByteRange, checkedMul_of_lt (by omega), ok_bind, checkedMul_of_lt (by omega)]
    rfl
  have hruns : ∃ runs, replaceRunBackedFileExtents c.2 ⟨overlap.start * bs, overlap.blocks * bs⟩ [] =
      .ok runs := exists_replaceRunBackedFileExtents hstop hc.ok.runs hc.ok.valid .nil (by simp)
    (by simp) (by simp)
  obtain ⟨runs, hruns⟩ := hruns
  obtain ⟨-, -, -, -, -, hvalid⟩ := exists_of_replaceRunBackedFileExtents hruns
  refine ⟨(entries, runs), ?_, ⟨?_, ?_, hvalid⟩, fun i v hv => ?_⟩
  · simp only [hentries, hrange, ok_bind, hruns]
    rfl
  · exact ordered_replaceLeafEntries hentries hc.ok.entries hentry
  · exact ordered_replaceRunBackedFileExtents hruns (by simp) hc.ok.runs (by simp) (by simp)
  · rcases (shows_replaceLeafEntries hentries fun e he =>
      hc.ok.entries.2 _ (List.mem_map_of_mem he)).1 hv with hv | ⟨hv, -⟩
    · exact hnew i v hv
    · exact hc.shows i v hv

theorem exists_applyEdits (hr : r.Fits) (hbytes : r.stop * bs < u64Bound) (hc : LeafOk desc r c)
    (hedits : ∀ e ∈ edits, EditOk desc e) : ∃ c', applyEdits bs r c edits = .ok c' ∧ LeafOk desc r c' := by
  induction edits generalizing c with
  | nil => exact ⟨c, rfl, hc⟩
  | cons e edits ih =>
    obtain ⟨he, hedits⟩ := List.forall_mem_cons.1 hedits
    obtain ⟨c1, h1, hc1⟩ := exists_applyEdit hr hbytes hc he
    rw [applyEdits, List.foldlM_cons, h1]
    exact ih hc1 hedits

theorem exists_validate (hr : r.Fits ∧ 0 < r.blocks) (hc : LeafOk desc r c) :
    ∃ segments, c.1.mapM (fun entry => desc entry.segmentId) = .ok segments ∧
      MetadataNode.validate ⟨0, r, .leaf c.1 c.2⟩ segments = .ok () := by
  have hlaid := hc.ok.entries.laid fun i v hv => (hc.shows i v hv).1
  have hdesc := fun e (he : e ∈ c.1) => exists_descriptor he
    (hc.ok.entries.2 _ (List.mem_map_of_mem he)) fun i v hv => (hc.shows i v hv).2
  obtain ⟨segments, hsegments⟩ := exists_mapM fun e he => (hdesc e he).imp fun _ h => h.1
  refine ⟨segments, hsegments, ?_⟩
  have hentries : validateLeafEntries r c.1 segments = .ok () := by
    refine validateLeafEntries_eq_ok.2 ⟨hc.ok.entries, fun e he => ?_⟩
    obtain ⟨d, hd, hid, hle, hlt⟩ := hdesc e he
    -- the first descriptor of the segment is the one of the entry
    obtain ⟨d', hd', hde⟩ := forall₂_mem_left (mapM_eq_ok.1 hsegments) he
    cases hd.symm.trans hde
    obtain ⟨x, hx⟩ := Option.isSome_iff_exists.1 (List.find?_isSome
      (p := fun x : SegmentDescriptor => x.segmentId = e.segmentId).2 ⟨d, hd', decide_eq_true hid⟩)
    obtain ⟨y, hy, hyx⟩ := forall₂_mem_right (mapM_eq_ok.1 hsegments) (List.mem_of_find?_eq_some hx)
    obtain ⟨x', hx', hyid, -⟩ := hdesc y hy
    cases hyx.symm.trans hx'
    have hxid := List.find?_some hx
    rw [decide_eq_true_eq] at hxid
    rw [← hyid, hxid] at hyx
    cases hd.symm.trans hyx
    have hinside := hlaid.inside _ (List.mem_map_of_mem he)
    exact ⟨d, hx, LeafEntry.validateAgainst_eq_ok.2 ⟨⟨hr.1, hinside,
      Nat.lt_of_le_of_lt hinside.2 hr.1, hc.ok.entries.2 _ (List.mem_map_of_mem he)⟩, hid.symm, hle,
      hle.trans_lt hlt⟩⟩
  rw [MetadataNode.validate, (BlockRange.validateNonEmpty_eq_ok (u := ())).2 hr, ok_bind]
  simp only [hentries, ok_bind]
  exact validateRunBackedFileExtents_eq_ok.2 ⟨hc.ok.runs, hc.ok.valid⟩

end

/-! ## Trees -/

namespace MappingTree

variable {t : MappingTree}

theorem Valid.child {r : BlockRange} {ts : List MappingTree} (h : (internal r ts).Valid bs desc)
    (ht : t ∈ ts) : t.Valid bs desc := by
  have hshaped := shapedAll_iff.1 h.shaped.2.2 t ht
  refine ⟨hshaped, fun i v hv => h.backed i v ?_, ?_⟩
  · exact (h.shaped.cell_child ht (hshaped.laid.1.shows (shows_of_valueAt hv))).trans hv
  · have hstop := (h.shaped.2.1.mem (List.mem_map_of_mem ht)).2
    exact (Nat.mul_le_mul_right bs hstop).trans_lt h.bytes

theorem restrictEdits_of_fits {r : BlockRange} (hr : r.Fits) (h : ∀ e ∈ edits, e.range.Fits) :
    ∃ share, restrictEdits r edits = .ok share ∧ ∀ own, share = some own → own ⊆ edits := by
  rw [restrictEdits, filterEach_eq_ok (p := fun edit => decide (r.Meets edit.range)) fun e he =>
    BlockRange.overlaps_of_fits hr (h e he), ok_bind]
  refine ⟨_, rfl, fun own hown => ?_⟩
  split at hown
  · cases hown
  · cases hown
    exact List.filter_subset_self _

theorem exists_editAll {ts : List MappingTree} (hts : ∀ t ∈ ts, t.range.Fits)
    (hall : ∀ t ∈ ts, ∀ own ⊆ edits, ∃ out, t.edit (rangeEdits bs) desc own = .ok out)
    (h : ∀ e ∈ edits, e.range.Fits) : ∃ out, editAll (rangeEdits bs) desc ts edits = .ok out := by
  induction ts with
  | nil => exact ⟨_, rfl⟩
  | cons t ts ih =>
    obtain ⟨ht, hts⟩ := List.forall_mem_cons.1 hts
    obtain ⟨hone, hall⟩ := List.forall_mem_cons.1 hall
    obtain ⟨rest, hrest⟩ := ih hts hall
    obtain ⟨share, hshare, hsub⟩ := restrictEdits_of_fits ht h
    have hshare : (rangeEdits bs).restrict t.range edits = .ok share := hshare
    rw [editAll, hshare, hrest, ok_bind]
    cases share with
    | none => exact ⟨_, rfl⟩
    | some own =>
      obtain ⟨out, hout⟩ := hone own (hsub own rfl)
      exact ⟨_, congrArg (· >>= _) hout⟩

theorem exists_edit (hbs : 0 < bs) (ht : t.Valid bs desc) (hedits : ∀ e ∈ edits, EditOk desc e) :
    ∃ out, t.edit (rangeEdits bs) desc edits = .ok out := by
  induction t generalizing edits with
  | leaf r es rs =>
    obtain ⟨hr, hes, hrs, hval⟩ := ht.shaped
    obtain ⟨share, hshare, hsub⟩ := restrictEdits_of_fits hr.1 fun e he => (hedits e he).range.1
    have hshare : (rangeEdits bs).restrict r edits = .ok share := hshare
    rw [edit, hshare, ok_bind]
    cases share with
    | none => exact ⟨_, rfl⟩
    | some own =>
      have hleaf : LeafOk desc r (es, rs) := ⟨⟨hes.ordered, hrs.ordered, hval⟩, fun i v hv =>
        ⟨hes.shows hv, ht.backed i v ((valueAt_eq_some hes.ordered.apart).2 hv)⟩⟩
      obtain ⟨c, hc, hok⟩ := exists_applyEdits hr.1 ht.bytes hleaf fun e he =>
        hedits e (hsub own rfl he)
      have hc : (rangeEdits bs).apply r own (es, rs) = .ok c := hc
      simp only [hc, ok_bind]
      split
      · exact ⟨_, rfl⟩
      · obtain ⟨segments, hsegments, hvalid⟩ := exists_validate hr hok
        rw [hsegments, ok_bind, hvalid, ok_bind]
        exact ⟨_, rfl⟩
  | internal r ts ih =>
    obtain ⟨hr, htiles, hall⟩ := id ht.shaped
    obtain ⟨share, hshare, hsub⟩ := restrictEdits_of_fits hr.1 fun e he => (hedits e he).range.1
    have hshare : (rangeEdits bs).restrict r edits = .ok share := hshare
    rw [edit, hshare, ok_bind]
    cases share with
    | none => exact ⟨_, rfl⟩
    | some own =>
      have hown : ∀ e ∈ own, EditOk desc e := fun e he => hedits e (hsub own rfl he)
      obtain ⟨⟨ts', changed⟩, hts'⟩ := exists_editAll
        (fun u hu => (ht.child hu).shaped.range_fits.1)
        (fun u hu share hs => ih u hu (ht.child hu) fun e he => hown e (hs he))
        (fun e he => (hown e he).range.1)
      simp only [hts', ok_bind]
      cases changed with
      | false => exact ⟨_, rfl⟩
      | true =>
        have hsound := rangeEdits_sound hbs
        obtain ⟨hforall, -⟩ := editAll_spec hsound (shapedAll_iff.1 hall)
          (fun e he => (hown e he).base) (fun u _ => edit_spec hbs hsound u) hts'
        obtain ⟨-, htiles', -⟩ := (Edited.of_children hbs ht.shaped hforall).shaped
        have hne : ts'.map range ≠ [] := by
          intro hnil
          rw [hnil] at htiles'
          exact absurd htiles' (Nat.ne_of_lt (Nat.lt_add_of_pos_right hr.2))
        rw [if_pos rfl, (BlockRange.validateNonEmpty_eq_ok (u := ())).2 hr, ok_bind,
          (validateChildRanges_eq_ok hr.1 (u := ())).2 ⟨hne, htiles'⟩]
        exact ⟨_, rfl⟩

end MappingTree

section

variable {t t' : MappingTree}

theorem Replaced.valid (h : Replaced bs edits t t') (ht : t.Valid bs desc)
    (hedits : ∀ e ∈ edits, EditOk desc e) : t'.Valid bs desc := by
  refine ⟨h.shaped, fun i v hv => ?_, h.range_eq ▸ ht.bytes⟩
  by_cases hhit : ∃ e ∈ edits, e.Hits i
  · obtain ⟨e, he, hi⟩ := hhit
    exact (hedits e he).backed i v hi ((h.hit e he i hi).symm.trans hv)
  · have hi := h.shaped.laid.1.shows (shows_of_valueAt hv)
    rw [h.range_eq] at hi
    exact ht.backed i v ((h.miss i hi fun e he hei => hhit ⟨e, he, hei⟩).symm.trans hv)

/-- The edits determine the maps of the edited tree. -/
theorem Replaced.maps_eq (hbs : 0 < bs) {u : MappingTree} (h : Replaced bs edits t t')
    (hu : Replaced bs edits t u) : (∀ i, u.cell i = t'.cell i) ∧ ∀ b, u.run b = t'.run b := by
  refine ⟨fun i => ?_, fun b => ?_⟩
  · by_cases hhit : ∃ e ∈ edits, e.Hits i
    · obtain ⟨e, he, hi⟩ := hhit
      rw [h.hit e he i hi, hu.hit e he i hi]
    · by_cases hi : t.Has i
      · rw [h.miss i hi fun e he hei => hhit ⟨e, he, hei⟩,
          hu.miss i hi fun e he hei => hhit ⟨e, he, hei⟩]
      · have hout : i < t.range.start ∨ t.range.stop ≤ i := by
          unfold MappingTree.Has at hi
          omega
        exact ((hu.range_eq ▸ hu.shaped.laid.1).valueAt_eq_none hout).trans
          ((h.range_eq ▸ h.shaped.laid.1).valueAt_eq_none hout).symm
  · by_cases hhit : ∃ e ∈ edits, e.Hits (b / bs)
    · obtain ⟨e, he, hb⟩ := hhit
      rw [h.run_hit e he b hb, hu.run_hit e he b hb]
    · by_cases hb : t.Has (b / bs)
      · rw [h.run_miss b hb fun e he heb => hhit ⟨e, he, heb⟩,
          hu.run_miss b hb fun e he heb => hhit ⟨e, he, heb⟩]
      · have hout := (byte_outside_iff hbs).2 hb
        exact ((hu.range_eq ▸ hu.shaped.laid.2).valueAt_eq_none hout).trans
          ((h.range_eq ▸ h.shaped.laid.2).valueAt_eq_none hout).symm

variable {e : TreeRangeEdit}

theorem edited_cons {u : MappingTree} (h : MappingTree.Edited (rangeEffect bs) bs [e] t u)
    (h' : MappingTree.Edited (rangeEffect bs) bs edits u t') :
    MappingTree.Edited (rangeEffect bs) bs (e :: edits) t t' where
  range_eq := h'.range_eq.trans h.range_eq
  shaped := h'.shaped
  cell_eq i hi := by
    have hi' : u.Has i := by rwa [MappingTree.Has, h.range_eq]
    rw [h'.cell_eq i hi', h.cell_eq i hi]
    rfl
  run_eq b hb := by
    have hb' : u.Has (b / bs) := by rwa [MappingTree.Has, h.range_eq]
    rw [h'.run_eq b hb', h.run_eq b hb]
    by_cases hit : e.Hits (b / bs) <;> by_cases htouched : touched edits (b / bs) = true <;>
      simp_all [rangeEffect, touched]

theorem validateCoverage_of_covers (ht : t.Valid bs desc) (he : EditOk desc e)
    (hin : t.range.Covers e.range) : validateCoverage t.range e = .ok () := by
  rw [validateCoverage, BlockRange.containsRange_eq_ok.2 ⟨⟨ht.shaped.range_fits.1, he.range.1⟩, rfl⟩,
    decide_eq_true hin]
  rfl

theorem exists_replaceRange (hbs : 0 < bs) (ht : t.Valid bs desc) (he : EditOk desc e)
    (hin : t.range.Covers e.range) :
    ∃ out, t.edit (rangeEdits bs) desc [e] = .ok out ∧ t.replaceRanges bs desc [e] = .ok out ∧
      MappingTree.Edited (rangeEffect bs) bs [e] t out.1 ∧ Replaced bs [e] t out.1 := by
  have hedits : ∀ x ∈ [e], EditOk desc x := by simpa using he
  obtain ⟨out, hout⟩ := MappingTree.exists_edit hbs ht hedits
  have hedited := (MappingTree.edit_spec hbs (rangeEdits_sound hbs) t [e] out.1 out.2 ht.shaped
    (fun x hx => (hedits x hx).base) hout).1
  refine ⟨out, hout, ?_, hedited, .of_edited hedited (.refl _) (List.pairwise_singleton _ _)
    (by simpa using hin)⟩
  rw [MappingTree.replaceRanges, (BlockRange.validateNonEmpty_eq_ok (u := ())).2 he.range, ok_bind,
    validateCoverage_of_covers ht he hin, ok_bind, hout]

theorem exists_replaceRanges (hbs : 0 < bs) (ht : t.Valid bs desc)
    (hedits : ∀ e ∈ edits, EditOk desc e) (hin : ∀ e ∈ edits, t.range.Covers e.range)
    (hapart : edits.Pairwise TreeRangeEdit.Apart) :
    ∃ out, t.replaceRanges bs desc edits = .ok out ∧ Replaced bs edits t out.1 := by
  have hout : ∃ out, t.replaceRanges bs desc edits = .ok out := by
    match edits with
    | [] => exact ⟨_, rfl⟩
    | [e] =>
      obtain ⟨out, -, hout, -⟩ := exists_replaceRange hbs ht (hedits e List.mem_cons_self)
        (hin e List.mem_cons_self)
      exact ⟨out, hout⟩
    | e :: e' :: rest =>
      have hperm : (sortEdits (e :: e' :: rest)).Perm (e :: e' :: rest) := List.perm_insertionSort _ _
      have hok := fun x hx => hedits x (hperm.mem_iff.1 hx)
      have hsorted : validateSortedEdits none (sortEdits (e :: e' :: rest)) = .ok () := by
        refine validateSortedEdits_eq_ok.2 ⟨?_, fun x hx => (hok x hx).range, by simp⟩
        refine ((List.pairwise_insertionSort _ _).and (hperm.symm.pairwise hapart
          fun h i hi hi' => h i hi' hi)).imp_of_mem fun {a b} _ hb h => ?_
        by_contra hlt
        exact h.2 b.range.start ⟨h.1, Nat.lt_of_not_le hlt⟩
          ⟨le_rfl, Nat.lt_add_of_pos_right (hok b hb).range.2⟩
      have hcoverage : checkEach (validateCoverage t.range) (sortEdits (e :: e' :: rest)) = .ok () :=
        checkEach_eq_ok.2 fun x hx =>
          validateCoverage_of_covers ht (hok x hx) (hin x (hperm.mem_iff.1 hx))
      simp only [MappingTree.replaceRanges, hsorted, hcoverage, ok_bind]
      exact MappingTree.exists_edit hbs ht hok
  obtain ⟨out, hout⟩ := hout
  exact ⟨out, hout, (replaceRanges_spec hbs ht.shaped (fun e he => (hedits e he).base) hout).1⟩

end

/-! ## Stored trees -/

section

variable {catalog : Nat → Result SegmentDescriptor} {receipts : List SegmentDescriptor}
  {s : NodeStore} {t : MappingTree} {rootId : Nat}

theorem exists_replaceOneByOne (hbs : 0 < bs) (hs : s.Fresh)
    (ht : t.Valid bs (descriptorFor catalog receipts)) (hrep : Rep s.metadataNodes t rootId)
    (hedits : ∀ e ∈ edits, EditOk (descriptorFor catalog receipts) e)
    (hin : ∀ e ∈ edits, t.range.Covers e.range) :
    ∃ root s' t', replaceOneByOne bs catalog receipts rootId edits s = .ok root s' ∧
      Rep s'.metadataNodes t' root ∧ MappingTree.Edited (rangeEffect bs) bs edits t t' := by
  induction edits generalizing s t rootId with
  | nil => exact ⟨rootId, s, t, rfl, hrep, rfl, ht.shaped, fun _ _ => rfl, fun _ _ => rfl⟩
  | cons e edits ih =>
    obtain ⟨he, hedits⟩ := List.forall_mem_cons.1 hedits
    obtain ⟨hein, hin⟩ := List.forall_mem_cons.1 hin
    obtain ⟨out, -, hout, hone, hreplaced⟩ := exists_replaceRange hbs ht he hein
    obtain ⟨result, s1, hrun, hgrow, hstored⟩ :=
      (replaceTreeRangesWithReceipts_follows hs ht.shaped hrep [e]).exists_ok hout
    obtain ⟨root, s', t', hrest, hrep', hedited⟩ := ih (hgrow.fresh hs)
      (hreplaced.valid ht (by simpa using he)) hstored.rep hedits fun x hx =>
        hone.range_eq ▸ hin x hx
    refine ⟨root, s', t', ?_, hrep', edited_cons hone hedited⟩
    have hrun : replaceTreeRangeWithReceipts bs catalog receipts rootId e s = .ok result s1 := hrun
    rw [replaceOneByOne, List.foldlM_cons, bind_assoc, run_bind_ok hrun]
    exact hrest

/-- The program ends in a store with the tree `t`, under the root that it returns. -/
def Ends (x : NodeOp TreeEditResult) (s : NodeStore) (t : MappingTree) : Prop :=
  ∃ result s', x s = .ok result s' ∧ Rep s'.metadataNodes t result.root

/-- Edits of a valid tree that stand apart.  Each has one outcome, by the general edit and, where
it applies, by the single path.  All at once they end in a tree with the edited ranges replaced
and the rest as it was, and one by one, in any order, in a tree of the same maps. -/
theorem replaceTreeRanges_agree {bs : Nat} {catalog : Nat → Result SegmentDescriptor}
    {receipts : List SegmentDescriptor} {s : NodeStore} {t : MappingTree} {rootId : Nat}
    {edits : List TreeRangeEdit} (hbs : 0 < bs) (hs : s.Fresh) (hrep : Rep s.metadataNodes t rootId)
    (ht : t.Valid bs (descriptorFor catalog receipts))
    (hedits : ∀ e ∈ edits, EditOk (descriptorFor catalog receipts) e ∧ t.range.Covers e.range)
    (hapart : edits.Pairwise TreeRangeEdit.Apart) :
    (∀ e ∈ edits, ∃ t', Replaced bs [e] t t' ∧
      Ends (do
        let root ← getMetadataNode rootId
        replaceTreeRangeAt bs catalog receipts root e) s t' ∧
      (tryReplaceTreeRangeSinglePath bs receipts rootId e s = .ok none s ∨
        ∃ result s', tryReplaceTreeRangeSinglePath bs receipts rootId e s = .ok (some result) s' ∧
          Rep s'.metadataNodes t' result.root)) ∧
    ∃ t', Replaced bs edits t t' ∧
      Ends (replaceTreeRangesWithReceipts bs catalog receipts rootId edits) s t' ∧
      ∀ order : List TreeRangeEdit, order.Perm edits → ∃ root s' u,
        replaceOneByOne bs catalog receipts rootId order s = .ok root s' ∧
          Rep s'.metadataNodes u root ∧
          (∀ i, u.cell i = t'.cell i) ∧ ∀ b, u.run b = t'.run b := by
  refine ⟨fun e he => ?_, ?_⟩
  · obtain ⟨hok, hin⟩ := hedits e he
    obtain ⟨⟨t', changed⟩, h, -, -, hreplaced⟩ := exists_replaceRange hbs ht hok hin
    obtain ⟨kind, hlookup⟩ := hrep.lookup
    obtain ⟨result, s', hrun, -, hout⟩ := (replaceTreeRangeAt_follows hs hlookup hrep e).exists_ok h
    refine ⟨t', hreplaced, ⟨result, s', ?_, hout.rep⟩, ?_⟩
    · rw [run_bind_ok (getMetadataNode_run hlookup), hrun]
    · have htry := @tryReplaceTreeRangeSinglePath_attempts bs catalog receipts e t rootId s hs
        ht.shaped hrep hok.range.1
      rw [validateCoverage_of_covers ht hok hin, ok_bind, h, Attempts] at htry
      split at htry
      · next s' heq => exact .inl (htry ▸ heq)
      · next result s' heq =>
        obtain ⟨_, ⟨rfl⟩, -, hout⟩ := htry
        exact .inr ⟨result, s', heq, hout.rep⟩
      · obtain ⟨⟨_, ⟨⟩⟩, -⟩ := htry
  · have hok := fun e he => (hedits e he).1
    have hin := fun e he => (hedits e he).2
    obtain ⟨⟨t', changed⟩, h, hreplaced⟩ := exists_replaceRanges hbs ht hok hin hapart
    obtain ⟨result, s', hrun, -, hout⟩ :=
      (replaceTreeRangesWithReceipts_follows hs ht.shaped hrep edits).exists_ok h
    refine ⟨t', hreplaced, ⟨result, s', hrun, hout.rep⟩, fun order hperm => ?_⟩
    have hin' := fun e he => hin e (hperm.mem_iff.1 he)
    obtain ⟨root, s'', u, hrun, hrep', hu⟩ := exists_replaceOneByOne hbs hs ht hrep
      (fun e he => hok e (hperm.mem_iff.1 he)) hin'
    exact ⟨root, s'', u, hrun, hrep', hreplaced.maps_eq hbs (.of_edited hu hperm
      (hperm.symm.pairwise hapart fun h i hi hi' => h i hi' hi) hin')⟩

/-- Blocks of a segment for one place of an empty leaf, and a hole in another. -/
theorem replaceTreeRanges_agree_leaf :
    let a : TreeRangeEdit := ⟨⟨1, 2⟩, some ⟨7, 0⟩⟩
    let b : TreeRangeEdit := ⟨⟨5, 1⟩, none⟩
    let s : NodeStore := ⟨2, AList.insert 1 ⟨1, ⟨0, 8⟩, .leaf [] []⟩ ∅⟩
    ∃ t', Replaced 4096 [a, b] (.leaf ⟨0, 8⟩ [] []) t' ∧
      Ends (replaceTreeRangesWithReceipts 4096 (fun _ => .error (.corrupt ""))
        [⟨7, 4, 16384, .unchecked⟩] 1 [a, b]) s t' := by
  intro a b s
  have hs : s.Fresh := fun id hid => by
    rw [show s.metadataNodes.lookup id = _ from AList.lookup_insert_ne (Nat.ne_of_gt hid)]
    rfl
  have hrep : Rep s.metadataNodes (.leaf ⟨0, 8⟩ [] []) 1 := AList.lookup_insert _
  have hfits : ∀ n, n < 9 → n < u64Bound := fun n hn => hn.trans (by decide)
  have ha : EditOk (descriptorFor (fun _ => .error (.corrupt "")) [⟨7, 4, 16384, .unchecked⟩]) a := by
    refine ⟨⟨hfits 3 (by decide), by decide⟩, ?_, fun i v hi hv => ?_⟩
    · rintro _ ⟨rfl⟩
      exact Nat.zero_le _
    · cases hv
      exact ⟨_, rfl, rfl, hi.2.trans (by decide), by decide⟩
  have hapart : [a, b].Pairwise TreeRangeEdit.Apart := List.pairwise_pair.2 fun i hi hi' =>
    absurd (hi'.1.trans_lt hi.2) (by decide)
  have hb : EditOk (descriptorFor (fun _ => .error (.corrupt "")) [⟨7, 4, 16384, .unchecked⟩]) b :=
    ⟨⟨hfits 6 (by decide), by decide⟩, by simp [b], by simp [b, TreeRangeEdit.cell]⟩
  have hvalid : (MappingTree.leaf ⟨0, 8⟩ [] []).Valid 4096
      (descriptorFor (fun _ => .error (.corrupt "")) [⟨7, 4, 16384, .unchecked⟩]) :=
    ⟨⟨⟨hfits 8 (by decide), by decide⟩, Laid.nil _ _, Laid.nil _ _, by simp⟩, by simp [MappingTree.cell,
      MappingTree.entries, valueAt], by decide⟩
  obtain ⟨-, t', hreplaced, hends, -⟩ := replaceTreeRanges_agree (by decide) hs hrep hvalid
    (by simpa using ⟨⟨ha, by decide⟩, hb, by decide⟩) hapart
  exact ⟨t', hreplaced, hends⟩

end

end CowStore.Tree
