import CowStore.Tree.Store

/-!
# Replacing block ranges of a stored tree

The edits of one commit, applied to one tree.  A single edit that stays on one path, and
whose new leaf needs only the receipts at hand, goes by a shorter way than the rest; the
theorem of this file is that all ways compute the same edit of the mapping tree.
-/

namespace CowStore.Tree

open Lib Object NodeStore

def findReceipt (receipts : List SegmentDescriptor) (segmentId : Nat) : Option SegmentDescriptor :=
  receipts.reverse.find? (·.segmentId = segmentId)

/-- The descriptor of a segment: from the receipts of the commit, or else from the catalog. -/
def descriptorFor (catalog : Nat → Result SegmentDescriptor) (receipts : List SegmentDescriptor)
    (segmentId : Nat) : Result SegmentDescriptor :=
  match findReceipt receipts segmentId with
  | some descriptor => .ok descriptor
  | none => catalog segmentId

/-- A new node, stored under the lock that gave out its identifier. -/
def storeMetadataNode (coveredRange : BlockRange) (kind : MetadataNodeKind)
    (segments : List SegmentDescriptor) : NodeOp TreeEditResult := do
  let node ← allocateMetadataNode coveredRange kind
  node.validate segments
  insertMetadataNode node
  return ⟨node.nodeId, true⟩

def replaceChild (node : MetadataNode) (children : List MetadataChild) (changedIndex : Nat)
    (child : MetadataChild) (childResult : TreeEditResult) : NodeOp TreeEditResult :=
  if childResult.changed then
    storeMetadataNode node.coveredRange
      (.internal (children.set changedIndex ⟨child.range, childResult.root⟩)) []
  else
    return ⟨node.nodeId, false⟩

def replaceLeaf (bs : Nat) (receipts : List SegmentDescriptor) (edit : TreeRangeEdit)
    (node : MetadataNode) (contents : LeafContents) : NodeOp (Option TreeEditResult) := do
  let edited ← applyEdit bs node.coveredRange contents edit
  if edited = contents then
    return some ⟨node.nodeId, false⟩
  else if edited.2 ≠ [] then
    return none
  else
    match edited.1.mapM (fun entry => findReceipt receipts entry.segmentId) with
    | none => return none
    | some segments =>
      let result ← storeMetadataNode node.coveredRange (.leaf edited.1 edited.2) segments
      return some result

def tryReplaceTreeRangeSinglePathAt (bs : Nat) (receipts : List SegmentDescriptor)
    (edit : TreeRangeEdit) : Nat → MetadataNode → NodeOp (Option TreeEditResult)
  | 0, _ => throw (.corrupt "metadata tree is too deep")
  | fuel + 1, node => do
    if ← node.coveredRange.overlaps edit.range then
      match node.kind with
      | .leaf entries runExtents => replaceLeaf bs receipts edit node (entries, runExtents)
      | .internal children =>
        let overlapping ← (filterEach (fun child => child.1.range.overlaps edit.range)
          children.zipIdx : Result (List (MetadataChild × Nat)))
        match overlapping with
        | [(child, changedIndex)] =>
          let childNode ← getMetadataNode child.nodeId
          match ← tryReplaceTreeRangeSinglePathAt bs receipts edit fuel childNode with
          | none => return none
          | some childResult =>
            let result ← replaceChild node children changedIndex child childResult
            return some result
        | _ => return none
    else
      return some ⟨node.nodeId, false⟩

def validateCoverage (covered : BlockRange) (edit : TreeRangeEdit) : Result Unit := do
  let inside ← covered.containsRange edit.range
  failIf (¬ inside) (.invalidArgument "edit range is outside metadata tree coverage")

def tryReplaceTreeRangeSinglePath (bs : Nat) (receipts : List SegmentDescriptor) (rootId : Nat)
    (edit : TreeRangeEdit) : NodeOp (Option TreeEditResult) := do
  if edit.replacement = none then
    return none
  else if receipts = [] then
    return none
  else
    let root ← getMetadataNode rootId
    validateCoverage root.coveredRange edit
    tryReplaceTreeRangeSinglePathAt bs receipts edit (rootId + 1) root

def replaceTreeRangeAt (bs : Nat) (catalog : Nat → Result SegmentDescriptor)
    (receipts : List SegmentDescriptor) (root : MetadataNode) (edit : TreeRangeEdit) :
    NodeOp TreeEditResult :=
  editAt (rangeEdit bs) (descriptorFor catalog receipts) (root.nodeId + 1) root edit

def replaceTreeRangesAt (bs : Nat) (catalog : Nat → Result SegmentDescriptor)
    (receipts : List SegmentDescriptor) (root : MetadataNode) (edits : List TreeRangeEdit) :
    NodeOp TreeEditResult :=
  editAt (rangeEdits bs) (descriptorFor catalog receipts) (root.nodeId + 1) root edits

def replaceTreeRangeWithReceipts (bs : Nat) (catalog : Nat → Result SegmentDescriptor)
    (receipts : List SegmentDescriptor) (rootId : Nat) (edit : TreeRangeEdit) :
    NodeOp TreeEditResult := do
  edit.range.validateNonEmpty
  match ← tryReplaceTreeRangeSinglePath bs receipts rootId edit with
  | some result => return result
  | none =>
    let root ← getMetadataNode rootId
    validateCoverage root.coveredRange edit
    replaceTreeRangeAt bs catalog receipts root edit

def sortEdits (edits : List TreeRangeEdit) : List TreeRangeEdit :=
  edits.insertionSort (fun a b => a.range.start ≤ b.range.start)

/-- The edits, in order of their starts, do not overlap. -/
def validateSortedEdits : Option Nat → List TreeRangeEdit → Result Unit
  | _, [] => return ()
  | previousEnd, edit :: rest => do
    edit.range.validateNonEmpty
    let stop ← edit.range.endExclusive
    failIf (previousEnd.any (edit.range.start < ·))
      (.invalidArgument "batched tree edits must not overlap")
    validateSortedEdits (some stop) rest

def replaceTreeRangesWithReceipts (bs : Nat) (catalog : Nat → Result SegmentDescriptor)
    (receipts : List SegmentDescriptor) (rootId : Nat) :
    List TreeRangeEdit → NodeOp TreeEditResult
  | [] => return ⟨rootId, false⟩
  | [edit] => replaceTreeRangeWithReceipts bs catalog receipts rootId edit
  | edits => do
    validateSortedEdits none (sortEdits edits)
    let root ← getMetadataNode rootId
    checkEach (validateCoverage root.coveredRange) (sortEdits edits)
    replaceTreeRangesAt bs catalog receipts root (sortEdits edits)

/-! ## The edit of the mapping tree -/

namespace MappingTree

variable (bs : Nat) (desc : Nat → Result SegmentDescriptor)

def replaceRanges (t : MappingTree) : List TreeRangeEdit → Result (MappingTree × Bool)
  | [] => .ok (t, false)
  | [edit] => do
    edit.range.validateNonEmpty
    validateCoverage t.range edit
    t.edit (rangeEdits bs) desc [edit]
  | edits => do
    validateSortedEdits none (sortEdits edits)
    checkEach (validateCoverage t.range) (sortEdits edits)
    t.edit (rangeEdits bs) desc (sortEdits edits)

variable {desc : Nat → Result SegmentDescriptor} {E : Type} {k : TreeEdit E} {e : E}

theorem edit_idle {t : MappingTree} (h : k.restrict t.range e = .ok none) :
    t.edit k desc e = .ok (t, false) := by
  cases t with
  | leaf r es rs =>
    have hr : k.restrict r e = .ok none := h
    rw [edit, hr]
    rfl
  | internal r ts =>
    have hr : k.restrict r e = .ok none := h
    rw [edit, hr]
    rfl

theorem editAll_idle {ts : List MappingTree} (h : ∀ t ∈ ts, k.restrict t.range e = .ok none) :
    editAll k desc ts e = .ok (ts, false) := by
  induction ts with
  | nil => rfl
  | cons t ts ih =>
    rw [editAll, h t List.mem_cons_self, ok_bind, ok_bind,
      ih fun u hu => h u (List.mem_cons_of_mem t hu), ok_bind]
    rfl

theorem editAll_single {pre post : List MappingTree} {t : MappingTree} {own : E}
    (hpre : ∀ u ∈ pre, k.restrict u.range e = .ok none) (hpost : ∀ u ∈ post, k.restrict u.range e = .ok none)
    (ht : k.restrict t.range e = .ok (some own)) : editAll k desc (pre ++ t :: post) e =
      (t.edit k desc (k.pass e own) >>= fun child => .ok (pre ++ child.1 :: post, child.2)) := by
  induction pre with
  | nil =>
    rw [List.nil_append, editAll, ht, ok_bind]
    refine bind_congr fun child => ?_
    rw [editAll_idle hpost, ok_bind, Bool.or_false]
    rfl
  | cons u pre ih =>
    rw [List.cons_append, editAll, hpre u List.mem_cons_self, ok_bind, ok_bind,
      ih fun v hv => hpre v (List.mem_cons_of_mem u hv), bind_assoc]
    refine bind_congr fun child => ?_
    rw [ok_bind, Bool.false_or]
    rfl

end MappingTree

section

variable {bs : Nat} {catalog : Nat → Result SegmentDescriptor} {receipts : List SegmentDescriptor}
  {edit : TreeRangeEdit}

theorem split_of_filter_zipIdx {α : Type} {p : α → Bool} {xs : List α} {n i : Nat} {a : α}
    (h : (xs.zipIdx n).filter (fun x => p x.1) = [(a, i)]) :
    ∃ pre post, xs = pre ++ a :: post ∧ i = n + pre.length ∧ p a = true ∧
      (∀ x ∈ pre, p x = false) ∧ ∀ x ∈ post, p x = false := by
  induction xs generalizing n with
  | nil => cases h
  | cons x xs ih =>
    rw [List.zipIdx_cons, List.filter_cons] at h
    by_cases hx : p x = true
    · rw [if_pos hx] at h
      obtain ⟨hxa, hrest⟩ := List.cons.inj h
      cases hxa
      refine ⟨[], xs, rfl, rfl, hx, by simp, fun y hy => ?_⟩
      obtain ⟨j, hj, rfl⟩ := List.mem_iff_getElem.1 hy
      have := List.filter_eq_nil_iff.1 hrest (xs[j], i + 1 + j)
        (List.mk_add_mem_zipIdx_iff_getElem?.2 (List.getElem?_eq_getElem hj))
      simpa using this
    · rw [if_neg hx] at h
      obtain ⟨pre, post, rfl, rfl, ha, hpre, hpost⟩ := ih h
      refine ⟨x :: pre, post, rfl, by simp; omega, ha, ?_, hpost⟩
      intro y hy
      rcases List.mem_cons.1 hy with rfl | hy
      · simpa using hx
      · exact hpre y hy

variable {r : BlockRange} {t : MappingTree} {rootId : Nat} {s : NodeStore}

theorem restrictEdits_single (hr : r.Fits) (he : edit.range.Fits) :
    restrictEdits r [edit] = .ok (if r.Meets edit.range then some [edit] else none) := by
  rw [restrictEdits, filterEach_eq_ok (p := fun edit => decide (r.Meets edit.range)) (by
    intro e h
    cases List.mem_singleton.1 h
    exact BlockRange.overlaps_of_fits hr he), ok_bind]
  by_cases hm : r.Meets edit.range <;> simp [hm]

theorem storeMetadataNode_run (s : NodeStore) (covered : BlockRange) (kind : MetadataNodeKind)
    (segments : List SegmentDescriptor) :
    storeMetadataNode covered kind segments s = newNode s covered kind segments :=
  newNode_run fun _ => rfl

theorem mapM_descriptorFor {es : List LeafEntry} {segments : List SegmentDescriptor}
    (h : es.mapM (fun entry => findReceipt receipts entry.segmentId) = some segments) :
    es.mapM (fun entry => descriptorFor catalog receipts entry.segmentId) = .ok segments := by
  induction es generalizing segments with
  | nil =>
    cases h
    rfl
  | cons e es ih =>
    rw [List.mapM_cons] at h ⊢
    obtain ⟨d, hd, h⟩ := Option.bind_eq_some_iff.1 h
    obtain ⟨ds, hds, h⟩ := Option.bind_eq_some_iff.1 h
    cases h
    rw [descriptorFor, hd, ih hds]
    rfl

theorem replaceLeaf_attempts (hs : s.Fresh) {es : List LeafEntry} {rs : List RunBackedFileExtent}
    (hr : r.Fits) (hedit : edit.range.Fits) (hmeet : r.Meets edit.range) {id : Nat}
    (hrep : s.metadataNodes.lookup id = some ⟨id, r, .leaf es rs⟩) :
    Attempts Grows ((MappingTree.leaf r es rs).edit (rangeEdits bs) (descriptorFor catalog receipts) [edit])
      (replaceLeaf bs receipts edit ⟨id, r, .leaf es rs⟩ (es, rs)) s (Outcome s id) := by
  have hrestrict : (rangeEdits bs).restrict r [edit] = .ok (some [edit]) :=
    (restrictEdits_single hr hedit).trans (by rw [if_pos hmeet])
  have happly : (rangeEdits bs).apply r [edit] (es, rs) = applyEdit bs r (es, rs) edit :=
    bind_pure _
  rw [MappingTree.edit, hrestrict, ok_bind]
  refine Attempts.lift (fun c hc => ?_) (fun e he => ⟨e, by simp [happly, he]⟩)
  simp only [happly, hc, ok_bind]
  split
  · exact ⟨_, rfl, Std.Refl.refl s, hrep, rfl, fun _ => rfl, fun h => by cases h⟩
  · split
    · exact Attempts.giveUp
    · split
      · exact Attempts.giveUp
      · next segments hseg =>
        rw [mapM_descriptorFor hseg, ok_bind]
        refine Attempts.of_follows ((newNode_follows hs (storeMetadataNode_run ..)).specThen ?_)
        rintro ⟨⟩ _ s' - - ⟨rfl, hnew⟩
        exact ⟨hnew, rfl, fun h => (by cases h), fun _ => le_rfl⟩

/-- A node on the path: one child meets the edit, and the others have no share in it. -/
theorem edit_single_child {desc : Nat → Result SegmentDescriptor} {pre post : List MappingTree}
    (hfits : ∀ u ∈ pre ++ t :: post, u.range.Fits) (hr : r.Fits) (hedit : edit.range.Fits)
    (hmeet : r.Meets edit.range) (ht : t.range.Meets edit.range)
    (hpre : ∀ u ∈ pre, ¬ u.range.Meets edit.range)
    (hpost : ∀ u ∈ post, ¬ u.range.Meets edit.range) :
    (MappingTree.internal r (pre ++ t :: post)).edit (rangeEdits bs) desc [edit] =
      (t.edit (rangeEdits bs) desc [edit] >>= fun child =>
        if child.2 then do
          r.validateNonEmpty
          validateChildRanges r ((pre ++ child.1 :: post).map MappingTree.range)
          .ok (MappingTree.internal r (pre ++ child.1 :: post), true)
        else .ok (MappingTree.internal r (pre ++ t :: post), false)) := by
  have hnone : ∀ u, u.range.Fits → ¬ u.range.Meets edit.range →
      (rangeEdits bs).restrict (MappingTree.range u) [edit] = .ok none := fun u hu hn =>
    (restrictEdits_single hu hedit).trans (by rw [if_neg hn])
  have hsome : ∀ r : BlockRange, r.Fits → r.Meets edit.range →
      (rangeEdits bs).restrict r [edit] = .ok (some [edit]) := fun r hr hm =>
    (restrictEdits_single hr hedit).trans (by rw [if_pos hm])
  have hin : ∀ u, u ∈ pre ∨ u = t ∨ u ∈ post → u.range.Fits := fun u hu =>
    hfits u (by simpa using hu)
  rw [MappingTree.edit, hsome r hr hmeet, ok_bind]
  simp only []
  rw [MappingTree.editAll_single (fun u hu => hnone u (hin u (.inl hu)) (hpre u hu))
    (fun u hu => hnone u (hin u (.inr (.inr hu))) (hpost u hu))
    (hsome t.range (hin t (.inr (.inl rfl))) ht), bind_assoc]
  rfl

theorem replaceChild_follows {s1 : NodeStore} (hs : s.Fresh) {id : Nat} {us vs : List MappingTree}
    {u u' : MappingTree} {pre post : List MetadataChild} {child : MetadataChild} {changed : Bool}
    {result : TreeEditResult}
    (hnode : s.metadataNodes.lookup id = some ⟨id, r, .internal (pre ++ child :: post)⟩)
    (hus : List.Forall₂ (RepChild s.metadataNodes id) us pre) (hu : RepChild s.metadataNodes id u child)
    (hvs : List.Forall₂ (RepChild s.metadataNodes id) vs post) (hgrow : Grows s s1) (hrange : u'.range = u.range)
    (hout : Outcome s child.nodeId (u', changed) result s1) : Follows Grows (if changed then (do
        r.validateNonEmpty
        validateChildRanges r ((us ++ u' :: vs).map MappingTree.range)
        .ok (MappingTree.internal r (us ++ u' :: vs), true))
      else (.ok (MappingTree.internal r (us ++ u :: vs), false) : Result (MappingTree × Bool)))
      (replaceChild ⟨id, r, .internal (pre ++ child :: post)⟩ (pre ++ child :: post) pre.length
        child result) s1 (Outcome s id) := by
  rw [replaceChild, hout.changed]
  cases changed with
  | false =>
    refine Follows.pure ⟨⟨_, hgrow.nodes _ _ hnode, repAll_iff.2 ?_⟩, rfl, fun _ => rfl, nofun⟩
    exact repChildren_mono (List.rel_append hus (.cons hu hvs)) le_rfl hgrow.nodes
  | true =>
    have hid : id < s1.nextMetadataNodeId := (hs.lt hnode).trans_le hgrow.next
    have hset : (pre ++ child :: post).set pre.length ⟨child.range, result.root⟩ =
        pre ++ ⟨child.range, result.root⟩ :: post := by simp
    have hranges : ∀ {ts : List MappingTree} {cs : List MetadataChild},
        List.Forall₂ (RepChild s.metadataNodes id) ts cs → cs.map (·.range) = ts.map MappingTree.range := by
      intro ts cs h
      rw [← List.forall₂_eq_eq_eq, List.forall₂_map_left_iff, List.forall₂_map_right_iff]
      exact h.flip.imp fun _ _ h => h.2.1
    have hstore := newNode_follows (hgrow.fresh hs)
      (storeMetadataNode_run _ r (.internal (pre ++ ⟨child.range, result.root⟩ :: post)) [])
    rw [validate_internal, List.map_append, List.map_cons, hranges hus, hranges hvs, hu.2.1,
      ← hrange, ← List.map_cons, ← List.map_append] at hstore
    rw [if_pos rfl, if_pos rfl, hset, ← bind_assoc, hu.2.1, ← hrange]
    refine hstore.specThen ?_
    rintro ⟨⟩ _ s2 - hgrow2 ⟨rfl, hnew⟩
    refine ⟨⟨_, hnew, repAll_iff.2 ?_⟩, rfl, nofun, fun _ => hgrow.next⟩
    have hnodes := hgrow.nodes.trans hgrow2.nodes
    obtain ⟨_, hlookup⟩ := hout.rep.lookup
    exact List.rel_append (repChildren_mono hus hid.le hnodes) (.cons ⟨(hgrow.fresh hs).lt hlookup,
      rfl, hout.rep.mono hgrow2.nodes⟩ (repChildren_mono hvs hid.le hnodes))

theorem tryReplaceTreeRangeSinglePathAt_attempts (hedit : edit.range.Fits) (fuel : Nat)
    (hs : s.Fresh) (ht : t.Shaped bs) {node : MetadataNode}
    (hlookup : s.metadataNodes.lookup node.nodeId = some node)
    (hrep : Rep s.metadataNodes t node.nodeId) (hfuel : node.nodeId < fuel) :
    Attempts Grows (t.edit (rangeEdits bs) (descriptorFor catalog receipts) [edit])
      (tryReplaceTreeRangeSinglePathAt bs receipts edit fuel node) s (Outcome s node.nodeId) := by
  induction fuel generalizing t node with
  | zero => exact absurd hfuel (Nat.not_lt_zero _)
  | succ fuel ih =>
    obtain ⟨kind, hnode⟩ := hrep.lookup
    obtain ⟨id, covered, kind'⟩ := node
    cases Option.some.inj (hlookup.symm.trans hnode)
    have hfits := ht.range_fits.1
    rw [tryReplaceTreeRangeSinglePathAt]
    simp only [BlockRange.overlaps_of_fits hfits hedit]
    refine Attempts.read (run_lift_ok _) ?_
    by_cases hmeet : t.range.Meets edit.range
    · rw [if_pos (decide_eq_true hmeet)]
      cases t with
      | leaf r es rs =>
        cases Option.some.inj (hnode.symm.trans hrep)
        exact replaceLeaf_attempts hs hfits hedit hmeet hrep
      | internal r ts =>
        obtain ⟨cs, hcs, hall⟩ := hrep
        cases Option.some.inj (hnode.symm.trans hcs)
        have hshaped := MappingTree.shapedAll_iff.1 ht.2.2
        rw [repAll_iff] at hall
        have hchild : ∀ c ∈ cs, c.range.Fits := by
          intro c hc
          obtain ⟨u, hu, -, hrange, -⟩ := forall₂_mem_right hall hc
          rw [hrange]
          exact (hshaped u hu).range_fits.1
        have hfilter : filterEach (fun child : MetadataChild × Nat =>
            child.1.range.overlaps edit.range) cs.zipIdx =
            .ok (cs.zipIdx.filter fun child => decide (child.1.range.Meets edit.range)) :=
          filterEach_eq_ok fun c hc =>
            BlockRange.overlaps_of_fits (hchild _ (List.fst_mem_of_mem_zipIdx hc)) hedit
        simp only [hfilter]
        refine Attempts.read (run_lift_ok _) ?_
        split
        · next child index heq =>
          obtain ⟨pre, post, rfl, rfl, hc, hpre, hpost⟩ := split_of_filter_zipIdx
            (p := fun c : MetadataChild => decide (c.range.Meets edit.range)) heq
          obtain ⟨us, u, vs, rfl, hus, ⟨hlt, hrange, hu⟩, hvs⟩ := forall₂_split_right hall
          have hmem : u ∈ us ++ u :: vs := by simp
          have hus' : ∀ v ∈ us, ¬ v.range.Meets edit.range := by
            intro v hv
            obtain ⟨c, hc, -, hrange, -⟩ := forall₂_mem_left hus hv
            rw [← hrange]
            exact of_decide_eq_false (hpre c hc)
          have hvs' : ∀ v ∈ vs, ¬ v.range.Meets edit.range := by
            intro v hv
            obtain ⟨c, hc, -, hrange, -⟩ := forall₂_mem_left hvs hv
            rw [← hrange]
            exact of_decide_eq_false (hpost c hc)
          have hu' : u.range.Meets edit.range := hrange ▸ of_decide_eq_true hc
          have hr : r.Fits := hfits
          have hm : r.Meets edit.range := hmeet
          rw [edit_single_child (fun v hv => (hshaped v hv).range_fits.1) hr hedit hm hu' hus' hvs']
          obtain ⟨ckind, hclookup⟩ := hu.lookup
          refine Attempts.read (getMetadataNode_run hclookup) ?_
          have hchild := @ih u (hshaped u hmem) ⟨child.nodeId, u.range, ckind⟩ hclookup hu
            (hlt.trans_le (Nat.le_of_lt_succ hfuel))
          rw [Nat.zero_add]
          refine hchild.bind rfl (fun _ => rfl) fun edited result s' hres hgrow hout => ?_
          exact replaceChild_follows hs hcs hus ⟨hlt, hrange, hu⟩ hvs hgrow
            (MappingTree.edit_range hres) hout
        · exact Attempts.giveUp
    · have hidle : (rangeEdits bs).restrict t.range [edit] = .ok none :=
        (restrictEdits_single hfits hedit).trans (by rw [if_neg hmeet])
      rw [if_neg (by simpa using hmeet), MappingTree.edit_idle hidle]
      exact ⟨_, rfl, Std.Refl.refl s, hrep, rfl, fun _ => rfl, nofun⟩

theorem replaceTreeRangesAt_follows (hs : s.Fresh) {kind : MetadataNodeKind}
    (hlookup : s.metadataNodes.lookup rootId = some ⟨rootId, t.range, kind⟩)
    (hrep : Rep s.metadataNodes t rootId) (edits : List TreeRangeEdit) :
    Follows Grows (t.edit (rangeEdits bs) (descriptorFor catalog receipts) edits)
      (replaceTreeRangesAt bs catalog receipts ⟨rootId, t.range, kind⟩ edits) s (Outcome s rootId) :=
  editAt_follows (rootId + 1) s t ⟨rootId, t.range, kind⟩ edits hs hlookup hrep (Nat.lt_succ_self _)

theorem replaceTreeRangeAt_follows (hs : s.Fresh) {kind : MetadataNodeKind}
    (hlookup : s.metadataNodes.lookup rootId = some ⟨rootId, t.range, kind⟩)
    (hrep : Rep s.metadataNodes t rootId) (edit : TreeRangeEdit) :
    Follows Grows (t.edit (rangeEdits bs) (descriptorFor catalog receipts) [edit])
      (replaceTreeRangeAt bs catalog receipts ⟨rootId, t.range, kind⟩ edit) s (Outcome s rootId) := by
  rw [← edit_rangeEdit]
  exact editAt_follows (rootId + 1) s t ⟨rootId, t.range, kind⟩ edit hs hlookup hrep (Nat.lt_succ_self _)

theorem tryReplaceTreeRangeSinglePath_attempts (hs : s.Fresh) (ht : t.Shaped bs)
    (hrep : Rep s.metadataNodes t rootId) (hedit : edit.range.Fits) :
    Attempts Grows (validateCoverage t.range edit >>= fun _ =>
        t.edit (rangeEdits bs) (descriptorFor catalog receipts) [edit])
      (tryReplaceTreeRangeSinglePath bs receipts rootId edit) s (Outcome s rootId) := by
  obtain ⟨kind, hlookup⟩ := hrep.lookup
  rw [tryReplaceTreeRangeSinglePath]
  split
  · exact Attempts.giveUp
  · split
    · exact Attempts.giveUp
    · refine Attempts.read (getMetadataNode_run hlookup) ?_
      refine Attempts.lift (fun _ hc => ?_) (fun e he => ⟨e, by rw [he]; rfl⟩)
      rw [hc, ok_bind]
      exact tryReplaceTreeRangeSinglePathAt_attempts hedit (rootId + 1) hs ht hlookup hrep
        (Nat.lt_succ_self _)

/-- Every way of replacing block ranges is the edit of the mapping tree. -/
theorem replaceTreeRangesWithReceipts_follows (hs : s.Fresh) (ht : t.Shaped bs)
    (hrep : Rep s.metadataNodes t rootId) (edits : List TreeRangeEdit) :
    Follows Grows (t.replaceRanges bs (descriptorFor catalog receipts) edits)
      (replaceTreeRangesWithReceipts bs catalog receipts rootId edits) s (Outcome s rootId) := by
  obtain ⟨kind, hlookup⟩ := hrep.lookup
  match edits with
  | [] => exact Follows.pure ⟨hrep, rfl, fun _ => rfl, nofun⟩
  | [edit] =>
    refine Follows.bind Follows.lift ?_
    rintro ⟨⟩ _ _ hne - ⟨rfl, rfl⟩
    have hedit := (BlockRange.validateNonEmpty_eq_ok.1 hne).1
    refine (tryReplaceTreeRangeSinglePath_attempts hs ht hrep hedit).orElse (fun _ => rfl) ?_
    refine Follows.read (getMetadataNode_run hlookup) ?_
    refine Follows.bind Follows.lift ?_
    rintro ⟨⟩ _ _ - - ⟨rfl, rfl⟩
    exact replaceTreeRangeAt_follows hs hlookup hrep edit
  | e :: e' :: rest =>
    refine Follows.bind Follows.lift ?_
    rintro ⟨⟩ _ _ - - ⟨rfl, rfl⟩
    refine Follows.read (getMetadataNode_run hlookup) ?_
    refine Follows.bind Follows.lift ?_
    rintro ⟨⟩ _ _ - - ⟨rfl, rfl⟩
    exact replaceTreeRangesAt_follows hs hlookup hrep _

end

/-! ## What the edit does to the block map -/

variable {edits : List TreeRangeEdit}

theorem validateSortedEdits_eq_ok {previousEnd : Option Nat} {u : Unit} :
    validateSortedEdits previousEnd edits = .ok u ↔ edits.Pairwise (fun a b => a.range.stop ≤ b.range.start) ∧
        (∀ e ∈ edits, e.range.Fits ∧ 0 < e.range.blocks) ∧
        ∀ p, previousEnd = some p → ∀ e ∈ edits, p ≤ e.range.start := by
  induction edits generalizing previousEnd with
  | nil => simp [validateSortedEdits]
  | cons e edits ih =>
    have hstart : ¬ previousEnd.any (e.range.start < ·) ↔
        ∀ p, previousEnd = some p → p ≤ e.range.start := by
      cases previousEnd <;> simp
    simp only [validateSortedEdits, bind_eq_ok, BlockRange.validateNonEmpty_eq_ok,
      BlockRange.endExclusive_eq_ok, failIf_eq_ok, ih, hstart, List.pairwise_cons, List.forall_mem_cons]
    constructor
    · rintro ⟨-, he, _, ⟨-, rfl⟩, -, hfirst, hpair, hall, hafter⟩
      have hafter := hafter _ rfl
      refine ⟨⟨hafter, hpair⟩, ⟨he, hall⟩, fun p hp => ⟨hfirst p hp, fun x hx => ?_⟩⟩
      exact (hfirst p hp).trans ((Nat.le_add_right _ _).trans (hafter x hx))
    · rintro ⟨⟨hafter, hpair⟩, ⟨he, hall⟩, hprev⟩
      refine ⟨(), he, _, ⟨he.1, rfl⟩, (), fun p hp => (hprev p hp).1, hpair, hall, ?_⟩
      rintro _ ⟨rfl⟩
      exact hafter

theorem validateCoverage_eq_ok {covered : BlockRange} {edit : TreeRangeEdit} {u : Unit}
    (h : validateCoverage covered edit = .ok u) : covered.Covers edit.range := by
  obtain ⟨inside, hin, h⟩ := bind_eq_ok.1 h
  obtain ⟨-, rfl⟩ := BlockRange.containsRange_eq_ok.1 hin
  simpa using failIf_eq_ok.1 h

/-- What the edits of a tree do to its blocks. -/
structure Replaced (bs : Nat) (edits : List TreeRangeEdit) (t t' : MappingTree) : Prop where
  range_eq : t'.range = t.range
  shaped : t'.Shaped bs
  hit : ∀ e ∈ edits, ∀ i, e.Hits i → t'.cell i = e.cell i
  miss : ∀ i, t.Has i → (∀ e ∈ edits, ¬ e.Hits i) → t'.cell i = t.cell i
  run_hit : ∀ e ∈ edits, ∀ b, e.Hits (b / bs) → t'.run b = none
  run_miss : ∀ b, t.Has (b / bs) → (∀ e ∈ edits, ¬ e.Hits (b / bs)) → t'.run b = t.run b
  inside : ∀ e ∈ edits, t.range.Covers e.range

theorem Replaced.of_edited {bs : Nat} {sorted : List TreeRangeEdit} {t t' : MappingTree}
    (h : MappingTree.Edited (rangeEffect bs) bs sorted t t') (hperm : sorted.Perm edits)
    (hapart : sorted.Pairwise TreeRangeEdit.Apart) (hin : ∀ e ∈ sorted, t.range.Covers e.range) :
    Replaced bs edits t t' := by
  have hhas : ∀ e ∈ edits, ∀ i, e.Hits i → t.Has i := fun e he i hit =>
    ⟨(hin e (hperm.mem_iff.2 he)).1.trans hit.1, hit.2.trans_le (hin e (hperm.mem_iff.2 he)).2⟩
  have htouched : ∀ i, touched sorted i = true ↔ ∃ e ∈ edits, e.Hits i := by
    intro i
    simp only [touched, List.any_eq_true, decide_eq_true_eq, hperm.mem_iff]
  refine ⟨h.range_eq, h.shaped, fun e he i hit => ?_, fun i hi hmiss => ?_, fun e he b hit => ?_,
    fun b hb hmiss => ?_, fun e he => hin e (hperm.mem_iff.2 he)⟩
  · rw [h.cell_eq i (hhas e he i hit)]
    exact overlay_of_hit hapart (hperm.mem_iff.2 he) hit _
  · rw [h.cell_eq i hi]
    exact overlay_of_miss (fun e he => hmiss e (hperm.mem_iff.1 he)) _
  · rw [h.run_eq b (hhas e he _ hit)]
    exact if_pos ((htouched _).2 ⟨e, he, hit⟩)
  · rw [h.run_eq b hb]
    refine if_neg fun ht => ?_
    obtain ⟨e, he, hit⟩ := (htouched _).1 ht
    exact hmiss e he hit

theorem replaceRanges_spec {bs : Nat} (hbs : 0 < bs) {desc : Nat → Result SegmentDescriptor}
    {t t' : MappingTree} {changed : Bool} (ht : t.Shaped bs) (hbase : BasesOk edits)
    (h : t.replaceRanges bs desc edits = .ok (t', changed)) :
    Replaced bs edits t t' ∧ (changed = false → t' = t) := by
  have hright : MappingTree.EditsRight (rangeEdits bs) (rangeEffect bs) desc bs t :=
    MappingTree.edit_spec hbs (rangeEdits_sound hbs) t
  match edits with
  | [] =>
    cases h
    refine ⟨?_, fun _ => rfl⟩
    exact Replaced.of_edited ⟨rfl, ht, fun _ _ => rfl, fun _ _ => rfl⟩ (.refl _) .nil (by simp)
  | [edit] =>
    obtain ⟨⟨⟩, -, ⟨⟩, hin, h⟩ := bind2_eq_ok.1 h
    obtain ⟨hedited, hsame⟩ := hright _ t' changed ht hbase h
    refine ⟨Replaced.of_edited hedited (.refl _) (List.pairwise_singleton _ _) ?_, hsame⟩
    intro e he
    cases List.mem_singleton.1 he
    exact validateCoverage_eq_ok hin
  | e :: e' :: rest =>
    have hperm := List.perm_insertionSort (fun a b : TreeRangeEdit => a.range.start ≤ b.range.start)
      (e :: e' :: rest)
    obtain ⟨⟨⟩, hsorted, ⟨⟩, hin, h⟩ := bind2_eq_ok.1 h
    obtain ⟨hedited, hsame⟩ := hright _ t' changed ht
      (fun x hx => hbase x (hperm.mem_iff.1 hx)) h
    refine ⟨Replaced.of_edited hedited hperm ((validateSortedEdits_eq_ok.1 hsorted).1.imp ?_)
      fun x hx => validateCoverage_eq_ok (checkEach_eq_ok.1 hin x hx), hsame⟩
    exact fun h i hi hi' => absurd (hi.2.trans_le (h.trans hi'.1)) (lt_irrefl i)

end CowStore.Tree
