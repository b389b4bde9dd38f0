import CowStore.Tree.Replace
import Mathlib.Data.Nat.Log

/-!
# Empty trees

A new device or file starts as a tree without entries.  A range that is too large for a
leaf is split evenly among at most `metadataFanout` children.
-/

namespace CowStore.Tree

open Lib Object NodeStore

def childRange (range : BlockRange) (childCount childIndex : Nat) : Result BlockRange := do
  let startBlocks ← checkedMul range.blocks childIndex
    (.invalidArgument "child range start overflows")
  let endBlocks ← checkedMul range.blocks (childIndex + 1)
    (.invalidArgument "child range end overflows")
  let childStart ← checkedAdd range.start (startBlocks / childCount)
    (.invalidArgument "child range start overflows")
  return ⟨childStart, endBlocks / childCount - startBlocks / childCount⟩

/-- The root of a new empty tree over `range`; `fuel` bounds the depth. -/
def createEmptyTreeWithin (metadataFanout metadataLeafBlocks : Nat) :
    Nat → BlockRange → NodeOp Nat
  | 0, _ => throw (.corrupt "metadata tree is too deep")
  | fuel + 1, range => do
    range.validateNonEmpty
    if range.blocks ≤ metadataLeafBlocks then
      let node ← storeMetadataNode range (.leaf [] []) []
      return node.root
    else
      let childCount := min metadataFanout range.blocks
      let children ← (List.range childCount).mapM fun childIndex => do
        let childRange ← childRange range childCount childIndex
        let child ← createEmptyTreeWithin metadataFanout metadataLeafBlocks fuel childRange
        return (⟨childRange, child⟩ : MetadataChild)
      let node ← storeMetadataNode range (.internal children) []
      return node.root

/-- Every level has fewer blocks than the one above. -/
def createEmptyTree (metadataFanout metadataLeafBlocks : Nat) (range : BlockRange) : NodeOp Nat :=
  createEmptyTreeWithin metadataFanout metadataLeafBlocks (range.blocks + 1) range

variable {ts : List MappingTree} {childCount childIndex fanout leafBlocks : Nat}

theorem childRange_eq_ok {range child : BlockRange} (h : childRange range childCount childIndex = .ok child) :
    child = ⟨range.start + shareStart range.blocks childCount childIndex,
      shareStart range.blocks childCount (childIndex + 1) -
        shareStart range.blocks childCount childIndex⟩ := by
  obtain ⟨startBlocks, hs, endBlocks, he, childStart, ha, h⟩ := bind3_eq_ok.1 h
  cases h
  obtain ⟨rfl, -⟩ := checkedMul_eq_ok hs
  obtain ⟨rfl, -⟩ := checkedMul_eq_ok he
  obtain ⟨rfl, -⟩ := checkedAdd_eq_ok ha
  rfl

theorem childRange_blocks_le {range child : BlockRange} (hcount : 2 ≤ childCount)
    (h : childRange range childCount childIndex = .ok child) : child.blocks ≤ (range.blocks + 1) / 2 := by
  cases childRange_eq_ok h
  have hle := shareStart_succ_le range.blocks hcount childIndex
  show _ - _ ≤ _
  omega

theorem tiles_childRanges {range : BlockRange} (hcount : 0 < childCount)
    (hblocks : childCount ≤ range.blocks) {children : List BlockRange}
    (h : List.Forall₂ (fun childIndex child => childRange range childCount childIndex = .ok child)
      (List.range childCount) children) : Tiles range.stop range.start children := by
  have heq : children = shareRanges range childCount := by
    rw [← List.forall₂_eq_eq_eq, shareRanges, List.forall₂_map_right_iff]
    exact h.flip.imp fun _ _ h => childRange_eq_ok h
  rw [heq]
  exact tiles_shareRanges range hcount hblocks

/-! ## The recursion ends -/

theorem spares_storeMetadataNode {covered : BlockRange} {kind : MetadataNodeKind}
    {segments : List SegmentDescriptor}
    (h : MetadataNode.validate ⟨0, covered, kind⟩ segments = .ok ()) (e : StorageError) :
    Spares e (storeMetadataNode covered kind segments) := by
  intro s s' hs
  rw [storeMetadataNode_run, newNode, h] at hs
  cases hs

theorem avoids_childRange (range : BlockRange) (childCount childIndex : Nat) (reason : String) :
    Avoids (.corrupt reason) (childRange range childCount childIndex) :=
  avoids_bind (avoids_checkedMul (by simp)) fun _ _ =>
    avoids_bind (avoids_checkedMul (by simp)) fun _ _ =>
      avoids_bind (avoids_checkedAdd (by simp)) fun _ _ => avoids_pure _

theorem childRange_of_mayReturn {range : BlockRange} {create : BlockRange → NodeOp Nat}
    {child : MetadataChild} (h : MayReturn (do
      let childRange ← childRange range childCount childIndex
      let child ← create childRange
      return ⟨childRange, child⟩ : NodeOp MetadataChild) child) :
    childRange range childCount childIndex = .ok child.range := by
  obtain ⟨r, hr, h⟩ := mayReturn_bind h
  obtain ⟨root, -, h⟩ := mayReturn_bind h
  cases mayReturn_pure h
  exact mayReturn_lift hr

/-- The depth bound of `createEmptyTree` is never reached. -/
theorem createEmptyTreeWithin_spares {fuel : Nat} {range : BlockRange} (hfanout : 2 ≤ fanout)
    (hleaf : 1 ≤ leafBlocks) (h : range.blocks < fuel) : Spares (.corrupt "metadata tree is too deep")
      (createEmptyTreeWithin fanout leafBlocks fuel range) := by
  induction fuel generalizing range with
  | zero => exact absurd h (Nat.not_lt_zero _)
  | succ fuel ih =>
    rw [createEmptyTreeWithin]
    refine spares_bind (spares_lift ?_) fun _ hne => ?_
    · exact avoids_bind (avoids_checkedAdd (by simp)) fun _ _ => avoids_failIf (by simp)
    · have hne := mayReturn_lift hne
      have hrange := BlockRange.validateNonEmpty_eq_ok.1 hne
      split
      · refine spares_bind (spares_storeMetadataNode ?_ _) fun _ _ => spares_pure
        show range.validateNonEmpty >>= _ = _
        rw [hne]
        rfl
      · next hlarge =>
        have hcount : 2 ≤ min fanout range.blocks := by omega
        refine spares_bind (spares_mapM fun childIndex _ => ?_) fun children hchildren => ?_
        · refine spares_bind (spares_lift (avoids_childRange _ _ _ _)) fun child hchild => ?_
          have hle := childRange_blocks_le hcount (mayReturn_lift hchild)
          have hlt : child.blocks < fuel := by omega
          exact spares_bind (ih hlt) fun _ _ => spares_pure
        · refine spares_bind (spares_storeMetadataNode ?_ _) fun _ _ => spares_pure
          have htiles := tiles_childRanges (by omega) (Nat.min_le_right _ _)
            (List.forall₂_map_right_iff.2
              ((mayReturn_mapM hchildren).imp fun _ _ h => childRange_of_mayReturn h))
          rw [validate_internal, hne, ok_bind, validateChildRanges_eq_ok hrange.1]
          refine ⟨fun hnil => ?_, htiles⟩
          rw [hnil] at htiles
          have hstart : range.start = range.stop := htiles
          have hstop : range.stop = range.start + range.blocks := rfl
          omega

/-! ## The tree -/

namespace MappingTree

mutual

def leafRanges : MappingTree → List BlockRange
  | leaf r _ _ => [r]
  | internal _ ts => leafRangesAll ts

def leafRangesAll : List MappingTree → List BlockRange
  | [] => []
  | t :: ts => leafRanges t ++ leafRangesAll ts

end

mutual

def levels : MappingTree → Nat
  | leaf _ _ _ => 1
  | internal _ ts => 1 + levelsAll ts

def levelsAll : List MappingTree → Nat
  | [] => 0
  | t :: ts => max (levels t) (levelsAll ts)

end

mutual

/-- Every leaf has a block, and at most `leafBlocks`; every other node has from two to
`fanout` children, and they tile its range. -/
def Bounded (fanout leafBlocks : Nat) : MappingTree → Prop
  | leaf r _ _ => 0 < r.blocks ∧ r.blocks ≤ leafBlocks
  | internal r ts => (2 ≤ ts.length ∧ ts.length ≤ fanout) ∧
      Tiles r.stop r.start (ts.map range) ∧ BoundedAll fanout leafBlocks ts

def BoundedAll (fanout leafBlocks : Nat) : List MappingTree → Prop
  | [] => True
  | t :: ts => Bounded fanout leafBlocks t ∧ BoundedAll fanout leafBlocks ts

end

variable {fanout leafBlocks : Nat}

variable {ts : List MappingTree}

theorem boundedAll_iff : BoundedAll fanout leafBlocks ts ↔ ∀ t ∈ ts, t.Bounded fanout leafBlocks := by
  induction ts with
  | nil => simp [BoundedAll]
  | cons t ts ih => simp [BoundedAll, ih]

theorem levelsAll_le {n : Nat} (h : ∀ t ∈ ts, t.levels ≤ n) : levelsAll ts ≤ n := by
  induction ts with
  | nil => exact Nat.zero_le n
  | cons t ts ih =>
    obtain ⟨ht, hts⟩ := List.forall_mem_cons.1 h
    exact max_le ht (ih hts)

theorem mem_leafRangesAll {r : BlockRange} : r ∈ leafRangesAll ts ↔ ∃ t ∈ ts, r ∈ t.leafRanges := by
  induction ts with
  | nil => simp [leafRangesAll]
  | cons t ts ih => simp [leafRangesAll, ih]

theorem tiles_leafRangesAll {start stop : Nat} (h : Tiles stop start (ts.map range))
    (ht : ∀ t ∈ ts, Tiles t.range.stop t.range.start t.leafRanges) : Tiles stop start (leafRangesAll ts) := by
  induction ts generalizing start with
  | nil => exact h
  | cons t ts ih =>
    obtain ⟨rfl, -, h⟩ := h
    obtain ⟨hself, hrest⟩ := List.forall_mem_cons.1 ht
    exact hself.append (ih h hrest)

/-- The leaves of a bounded tree tile its range, and none is empty or too large. -/
theorem Bounded.leaves {t : MappingTree} (h : t.Bounded fanout leafBlocks) :
    Tiles t.range.stop t.range.start t.leafRanges ∧
      ∀ r ∈ t.leafRanges, 0 < r.blocks ∧ r.blocks ≤ leafBlocks := by
  induction t with
  | leaf r es rs =>
    refine ⟨⟨rfl, h.1, rfl⟩, fun r' hr' => ?_⟩
    cases List.mem_singleton.1 hr'
    exact h
  | internal r ts ih =>
    obtain ⟨-, htiles, hall⟩ := h
    rw [boundedAll_iff] at hall
    refine ⟨tiles_leafRangesAll htiles fun t ht => (ih t ht (hall t ht)).1, fun r' hr' => ?_⟩
    obtain ⟨t, ht, hr'⟩ := mem_leafRangesAll.1 hr'
    exact (ih t ht (hall t ht)).2 r' hr'

end MappingTree

/-- A tree over `range` that maps nothing. -/
structure MappingTree.Empty (bs : Nat) (range : BlockRange) (t : MappingTree) : Prop where
  range_eq : t.range = range
  shaped : t.Shaped bs
  entries : t.entries = []
  runs : t.runs = []

structure MappingTree.Balanced (fanout leafBlocks : Nat) (t : MappingTree) : Prop where
  bounded : t.Bounded fanout leafBlocks
  levels : t.levels ≤ 1 + Nat.clog 2 t.range.blocks

theorem MappingTree.levels_internal {range : BlockRange} (hblocks : 2 ≤ range.blocks)
    (h : ∀ t ∈ ts, t.levels ≤ 1 + Nat.clog 2 t.range.blocks ∧ t.range.blocks ≤ (range.blocks + 1) / 2) :
    (MappingTree.internal range ts).levels ≤ 1 + Nat.clog 2 range.blocks := by
  have hall : levelsAll ts ≤ 1 + Nat.clog 2 ((range.blocks + 1) / 2) := by
    refine levelsAll_le fun t ht => (h t ht).1.trans ?_
    exact Nat.add_le_add_left (Nat.clog_mono_right 2 (h t ht).2) 1
  rw [Nat.clog_of_two_le Nat.one_lt_two hblocks]
  show 1 + levelsAll ts ≤ 1 + (Nat.clog 2 ((range.blocks + 1) / 2) + 1)
  omega

structure NewChild (bs fanout leafBlocks : Nat) (range : BlockRange) (t : MappingTree)
    (childIndex : Nat) : Prop where
  share : childRange range (min fanout range.blocks) childIndex = .ok t.range
  empty : t.Empty bs t.range
  balanced : t.Balanced fanout leafBlocks

theorem newNode_shape {bs : Nat} {range : BlockRange} (hrange : range.Fits ∧ 0 < range.blocks)
    (hcount : 2 ≤ min fanout range.blocks) (h : List.Forall₂ (NewChild bs fanout leafBlocks range) ts
      (List.range (min fanout range.blocks))) : (MappingTree.internal range ts).Empty bs range ∧
      (MappingTree.internal range ts).Balanced fanout leafBlocks := by
  have hall : ∀ t ∈ ts, ∃ childIndex, NewChild bs fanout leafBlocks range t childIndex := fun t ht =>
    (forall₂_mem_left h ht).imp fun _ h => h.2
  have htiles : Tiles range.stop range.start (ts.map MappingTree.range) :=
    tiles_childRanges (by omega) (Nat.min_le_right _ _)
      (List.forall₂_map_right_iff.2 (h.flip.imp fun _ _ h => h.share))
  have hlength : ts.length = min fanout range.blocks := by rw [h.length_eq, List.length_range]
  refine ⟨⟨rfl, ⟨hrange, htiles, MappingTree.shapedAll_iff.2 ?_⟩, ?_, ?_⟩,
    ⟨⟨by omega, by omega⟩, htiles, MappingTree.boundedAll_iff.2 ?_⟩, ?_⟩
  · exact fun t ht => (hall t ht).elim fun _ h => h.empty.shaped
  · refine (MappingTree.entriesAll_eq ts).trans (List.flatMap_eq_nil_iff.2 fun t ht => ?_)
    exact (hall t ht).elim fun _ h => h.empty.entries
  · refine (MappingTree.runsAll_eq ts).trans (List.flatMap_eq_nil_iff.2 fun t ht => ?_)
    exact (hall t ht).elim fun _ h => h.empty.runs
  · exact fun t ht => (hall t ht).elim fun _ h => h.balanced.bounded
  · refine MappingTree.levels_internal (by omega) fun t ht => ?_
    obtain ⟨childIndex, h⟩ := hall t ht
    exact ⟨h.balanced.levels, childRange_blocks_le hcount h.share⟩

theorem createEmptyTreeWithin_along (bs : Nat) (hfanout : 2 ≤ fanout) (hleaf : 1 ≤ leafBlocks)
    (fuel : Nat) {s : NodeStore} (hs : s.Fresh) (range : BlockRange) :
    Along Grows (createEmptyTreeWithin fanout leafBlocks fuel range) s fun id s' =>
      ∃ t, Rep s'.metadataNodes t id ∧ t.Empty bs range ∧ t.Balanced fanout leafBlocks := by
  induction fuel generalizing s range with
  | zero => exact Std.Refl.refl s
  | succ fuel ih =>
    rw [createEmptyTreeWithin]
    refine Along.check fun _ hne => ?_
    have hrange := BlockRange.validateNonEmpty_eq_ok.1 hne
    split
    · next hsmall =>
      refine Along.bind (newNode_follows hs (storeMetadataNode_run ..)).along ?_
      rintro _ s2 - ⟨⟨⟩, -, rfl, hnew⟩
      refine Along.pure ⟨.leaf range [] [], hnew, ⟨rfl, ⟨hrange, Laid.nil _ _, Laid.nil _ _, ?_⟩,
        rfl, rfl⟩, ⟨hrange.2, hsmall⟩, Nat.le_add_right _ _⟩
      simp
    · next hlarge =>
      refine Along.bind (Along.mapM (Q := fun childIndex child s' =>
        ∃ t, NewChild bs fanout leafBlocks range t childIndex ∧ child.range = t.range ∧
          Rep s'.metadataNodes t child.nodeId) ?_ ?_) ?_
      · rintro _ child s2 s3 hgrow ⟨t, hnew, hchild, hrep⟩
        exact ⟨t, hnew, hchild, hrep.mono hgrow.nodes⟩
      · intro childIndex _ s2 hgrow2
        refine Along.check fun child hchild => ?_
        refine Along.bind (ih (hgrow2.fresh hs) child) ?_
        rintro id s3 - ⟨t, hrep, hempty, hbalanced⟩
        cases hempty.range_eq
        exact Along.pure ⟨t, ⟨hchild, hempty, hbalanced⟩, rfl, hrep⟩
      · intro children s2 hgrow2 hchildren
        refine Along.bind (newNode_follows (hgrow2.fresh hs) (storeMetadataNode_run ..)).along ?_
        rintro _ s3 hgrow3 ⟨⟨⟩, -, rfl, hnew⟩
        obtain ⟨ts, hindex, hts⟩ := exists_forall₂_between hchildren
        refine Along.pure ⟨.internal range ts, ⟨children, hnew, repAll_iff.2 ?_⟩,
          newNode_shape hrange (by omega) hindex⟩
        refine hts.imp fun t c h => ⟨?_, h.1, h.2.mono hgrow3.nodes⟩
        obtain ⟨_, hlookup⟩ := h.2.lookup
        exact (hgrow2.fresh hs).lt hlookup

end CowStore.Tree
