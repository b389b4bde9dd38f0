import CowStore.Local.Read
import CowStore.Tree.Store

/-!
# Resolving a read

The extents of a read plan are collected from the leaves that the requested blocks meet:
one for every entry with requested bytes.
-/

namespace CowStore.Local

open Lib Object Tree StorageError

section

variable {ι : Type}

/-- The items of the leaves that `requestedBlocks` meet, each turned into at most one
extent; `fuel` bounds the depth. -/
def collectReadExtents (nodes : NodeStore) (requestedBlocks : BlockRange)
    (items : LeafContents → List ι) (extentOf : ι → Result (Option ReadExtent)) :
    Nat → MetadataNode → Result (List ReadExtent)
  | 0, _ => .error (corrupt "metadata tree is too deep")
  | fuel + 1, node =>
    match node.kind with
    | .internal children => do
      let parts ← children.mapM fun child => do
        if ← child.range.overlaps requestedBlocks then
          let childNode ← nodes.getMetadataNode child.nodeId
          collectReadExtents nodes requestedBlocks items extentOf fuel childNode
        else
          return []
      return parts.flatten
    | .leaf entries runExtents => do
      let parts ← (items (entries, runExtents)).mapM extentOf
      return parts.reduceOption

end

def segmentEntryReadExtent (segments : StorageNodes) (requestedBytes : ByteRange)
    (blockSize : Nat) (entry : LeafEntry) : Result (Option ReadExtent) := do
  let entryStart ← checkedMul entry.logicalStart blockSize
    (invalidArgument "entry byte start overflows")
  let entryLen ← checkedMul entry.blocks blockSize
    (invalidArgument "entry byte length overflows")
  match ← byteRangeIntersection ⟨entryStart, entryLen⟩ requestedBytes with
  | none => return none
  | some overlap =>
    let segmentStart ← checkedMul entry.segmentOffset blockSize
      (invalidArgument "segment byte start overflows")
    let segmentOffset ← checkedAdd segmentStart (overlap.offset - entryStart)
      (invalidArgument "segment read offset overflows")
    let outputOffset ← checkedSub overlap.offset requestedBytes.offset
      (corrupt "read extent precedes requested range")
    let receipt ← segments.receiptForSegment entry.segmentId
    let segmentEnd ← checkedAdd segmentOffset overlap.len
      (invalidArgument "segment read end overflows")
    failIf (segmentEnd > receipt.descriptor.bytes)
      (corrupt "metadata read extent exceeds segment descriptor")
    return some ⟨outputOffset, overlap.len,
      .segment receipt.storageNode entry.segmentId segmentOffset receipt.descriptor.integrity⟩

def collectSegmentReadExtents (nodes : NodeStore) (segments : StorageNodes)
    (requestedBlocks : BlockRange) (requestedBytes : ByteRange) (blockSize : Nat)
    (root : MetadataNode) : Result (List ReadExtent) :=
  collectReadExtents nodes requestedBlocks (·.1)
    (segmentEntryReadExtent segments requestedBytes blockSize) (root.nodeId + 1) root

def blockReadExtents (nodes : NodeStore) (segments : StorageNodes) (requestedBlocks : BlockRange)
    (requestedBytes : ByteRange) (blockSize : Nat) (roots : List Nat) :
    Result (List ReadExtent) := do
  let parts ← roots.mapM fun root => do
    let node ← nodes.getMetadataNode root
    if ← node.coveredRange.overlaps requestedBlocks then
      collectSegmentReadExtents nodes segments requestedBlocks requestedBytes blockSize node
    else
      return []
  return parts.flatten

def readSource (crc : List UInt8 → Nat) (segments : StorageNodes) (logs : AppendRunLogs)
    (verification : ReadVerification) (source : ReadSource) (len : Nat) : Result (List UInt8) :=
  match source with
  | .zero => .ok (List.replicate len 0)
  | .segment storageNode segmentId segmentOffset integrity =>
    segments.readSegmentWithIntegrity crc storageNode segmentId ⟨segmentOffset, len⟩ integrity
      verification
  | .appendRun storageNode logId payloadOffset integrity =>
    readAppendRunSource crc logs storageNode logId ⟨payloadOffset, len⟩ integrity verification

/-! ## The extents of a stored tree -/

section

variable {ι : Type} {nodes : NodeStore} {requested : BlockRange} {items : LeafContents → List ι}
  {extentOf : ι → Result (Option ReadExtent)} {all : MappingTree → List ι}
  {g : ι → Option ReadExtent} {bs : Nat}

theorem mapM_pure_eq {f : ι → Result (Option ReadExtent)} {xs : List ι}
    (h : ∀ x ∈ xs, f x = .ok (g x)) : xs.mapM f = .ok (xs.map g) :=
  mapM_eq_ok.2 (List.forall₂_map_right_iff.2 (List.forall₂_same.2 h))

/-- The items of a tree are turned into extents one by one, since those of a subtree that
is left out have none. -/
theorem collectReadExtents_eq (hleaf : ∀ r es rs, all (.leaf r es rs) = items (es, rs))
    (hinternal : ∀ r ts, all (.internal r ts) = ts.flatMap all) (hreq : requested.Fits)
    (hout : ∀ t, t.Shaped bs → ¬ t.range.Meets requested → ∀ x ∈ all t, g x = none)
    (fuel : Nat) {t : MappingTree} (ht : t.Shaped bs) {node : MetadataNode}
    (hlookup : nodes.metadataNodes.lookup node.nodeId = some node)
    (hrep : Rep nodes.metadataNodes t node.nodeId) (hfuel : node.nodeId < fuel)
    (hext : ∀ x ∈ all t, extentOf x = .ok (g x)) :
    collectReadExtents nodes requested items extentOf fuel node = .ok ((all t).filterMap g) := by
  induction fuel generalizing t node with
  | zero => exact absurd hfuel (Nat.not_lt_zero _)
  | succ fuel ih =>
    cases t with
    | leaf r es rs =>
      have hnode := Option.some.inj (hlookup.symm.trans hrep)
      rw [hleaf] at hext ⊢
      rw [collectReadExtents, hnode]
      simp only [mapM_pure_eq hext, ok_bind, pure_eq_ok]
      exact congrArg Except.ok List.filterMap_map
    | internal r ts =>
      obtain ⟨cs, hcs, hall⟩ := hrep
      have hnode := Option.some.inj (hlookup.symm.trans hcs)
      have hshaped := MappingTree.shapedAll_iff.1 ht.2.2
      rw [hinternal] at hext ⊢
      rw [repAll_iff] at hall
      have hchild : ∀ t ∈ ts, ∀ c : MetadataChild, c.nodeId < node.nodeId ∧ c.range = t.range ∧
          Rep nodes.metadataNodes t c.nodeId → (do
            if ← c.range.overlaps requested then
              let childNode ← nodes.getMetadataNode c.nodeId
              collectReadExtents nodes requested items extentOf fuel childNode
            else return [] : Result (List ReadExtent)) = .ok ((all t).filterMap g) := by
        rintro t ht c ⟨hlt, hrange, hrep⟩
        have hfits := (hshaped t ht).range_fits.1
        rw [hrange, BlockRange.overlaps_of_fits hfits hreq, ok_bind]
        by_cases hmeet : t.range.Meets requested
        · obtain ⟨kind, hc⟩ := hrep.lookup
          rw [if_pos (decide_eq_true hmeet), NodeStore.getMetadataNode, hc]
          exact ih (hshaped t ht) hc hrep (hlt.trans_le (Nat.le_of_lt_succ hfuel))
            fun x hx => hext x (List.mem_flatMap.2 ⟨t, ht, hx⟩)
        · rw [if_neg (by simpa using hmeet), List.filterMap_eq_nil_iff.2
            (hout t (hshaped t ht) hmeet)]
          rfl
      have hparts := mapM_eq_ok.2 (List.forall₂_map_right_iff.2
        (((List.forall₂_and_left ts cs).2 ⟨fun t ht => ht, hall⟩).flip.imp
          fun c t h => hchild t h.1 c h.2))
      rw [collectReadExtents, hnode]
      refine (congrArg (· >>= fun parts => .ok parts.flatten) hparts).trans ?_
      rw [ok_bind, List.filterMap_flatMap]
      rfl

end

/-! ## Entries and their segments -/

section

variable {crc : List UInt8 → Nat} {segments : StorageNodes} {bs : Nat}

variable {e : LeafEntry}

/-- What an entry of a segment adds to a read. -/
def entryExtent (req : ByteRange) (bs : Nat) (e : LeafEntry) (receipt : SegmentWriteReceipt) :
    Option ReadExtent :=
  let lo := max (e.logicalStart * bs) req.offset
  let hi := min ((e.logicalStart + e.blocks) * bs) req.stop
  if lo ≥ hi then none
  else some ⟨lo - req.offset, hi - lo, .segment receipt.storageNode e.segmentId
    (e.segmentOffset * bs + (lo - e.logicalStart * bs)) receipt.descriptor.integrity⟩

theorem segmentEntryReadExtent_spec {req : ByteRange} {receipt : SegmentWriteReceipt}
    {bytes : List UInt8} (he : (e.logicalStart + e.blocks) * bs < u64Bound)
    (hreq : req.stop < u64Bound) (hc : segments.Committed crc e.segmentId receipt bytes)
    (hbytes : (e.segmentOffset + e.blocks) * bs ≤ bytes.length) :
    segmentEntryReadExtent segments req bs e = .ok (entryExtent req bs e receipt) := by
  have hadd : (e.logicalStart + e.blocks) * bs = e.logicalStart * bs + e.blocks * bs :=
    Nat.add_mul _ _ _
  have hadd' : (e.segmentOffset + e.blocks) * bs = e.segmentOffset * bs + e.blocks * bs :=
    Nat.add_mul _ _ _
  have hlen := hc.length_lt
  have hstop : (⟨e.logicalStart * bs, e.blocks * bs⟩ : ByteRange).stop =
      (e.logicalStart + e.blocks) * bs := hadd.symm
  rw [segmentEntryReadExtent, checkedMul_of_lt (by omega), ok_bind, checkedMul_of_lt (by omega),
    ok_bind, byteRangeIntersection_eq_ok.2 ⟨⟨by omega, hreq⟩, rfl⟩, ok_bind, hstop]
  unfold entryExtent
  by_cases hover : max (e.logicalStart * bs) req.offset ≥
      min ((e.logicalStart + e.blocks) * bs) req.stop
  · rw [if_pos hover, if_pos hover]
    rfl
  · rw [if_neg hover, if_neg hover]
    have hin : e.segmentOffset * bs + (max (e.logicalStart * bs) req.offset - e.logicalStart * bs) +
        (min ((e.logicalStart + e.blocks) * bs) req.stop - max (e.logicalStart * bs) req.offset) ≤
        bytes.length := by omega
    simp only []
    rw [checkedMul_of_lt (by omega), ok_bind, checkedAdd_of_lt (by omega), ok_bind,
      checkedSub_of_le (le_max_right _ _), ok_bind, hc.receiptForSegment, ok_bind,
      checkedAdd_of_lt (by omega), ok_bind, failIf, if_neg (by rw [hc.bytes_eq]; omega)]
    rfl

/-- What is behind block `i` holds the bytes that `f` has there. -/
def BlockBacked (crc : List UInt8 → Nat) (segments : StorageNodes) (bs : Nat)
    (cell : Option (Nat × Nat)) (i : Nat) (f : Nat → UInt8) : Prop :=
  match cell with
  | none => ∀ j, j < bs → f (i * bs + j) = 0
  | some (segmentId, k) => ∃ receipt bytes, segments.Committed crc segmentId receipt bytes ∧
      ∀ j, j < bs → bytes[k * bs + j]? = some (f (i * bs + j))

def Backs (crc : List UInt8 → Nat) (segments : StorageNodes) (bs : Nat) (t : MappingTree)
    (f : Nat → UInt8) : Prop :=
  ∀ i, t.Has i → BlockBacked crc segments bs (t.cell i) i f

theorem MappingTree.entry_mem {w : Nat} {t : MappingTree} (ht : t.Shaped w) (he : e ∈ t.entries) :
    (t.range.start ≤ e.logicalStart ∧ e.logicalRange.stop ≤ t.range.stop ∧
      0 < e.blocks) ∧ ∀ i, e.logicalStart ≤ i → i < e.logicalRange.stop →
        t.cell i = some (e.segmentId, e.segmentOffset + (i - e.logicalStart)) := by
  have hlaid := ht.laid.1
  have hmem : e.span ∈ t.entries.map LeafEntry.span := List.mem_map_of_mem he
  refine ⟨⟨(hlaid.inside _ hmem).1, (hlaid.inside _ hmem).2, hlaid.ordered.2 _ hmem⟩, ?_⟩
  intro i hi hi'
  exact (valueAt_eq_some hlaid.ordered.apart).2 ⟨e.span, hmem, hi, hi', rfl⟩

theorem Backs.entry {w : Nat} {t : MappingTree} {f : Nat → UInt8} (hbs : 0 < bs) (ht : t.Shaped w)
    (h : Backs crc segments bs t f) (he : e ∈ t.entries) :
    ∃ receipt bytes, segments.Committed crc e.segmentId receipt bytes ∧
      (e.segmentOffset + e.blocks) * bs ≤ bytes.length ∧
      ∀ x, e.logicalStart * bs ≤ x → x < (e.logicalStart + e.blocks) * bs →
        bytes[e.segmentOffset * bs + (x - e.logicalStart * bs)]? = some (f x) := by
  obtain ⟨⟨hlo, hhi, hpos⟩, hcell⟩ := MappingTree.entry_mem ht he
  have hstop : e.logicalRange.stop = e.logicalStart + e.blocks := rfl
  have hblock : ∀ i, e.logicalStart ≤ i → i < e.logicalRange.stop → ∃ receipt bytes,
      segments.Committed crc e.segmentId receipt bytes ∧ ∀ j, j < bs →
        bytes[(e.segmentOffset + (i - e.logicalStart)) * bs + j]? = some (f (i * bs + j)) := by
    intro i hi hi'
    have hb := h i ⟨hlo.trans hi, hi'.trans_le hhi⟩
    rw [hcell i hi hi'] at hb
    exact hb
  obtain ⟨receipt, bytes, hc, -⟩ := hblock e.logicalStart le_rfl (by omega)
  have hall : ∀ i, e.logicalStart ≤ i → i < e.logicalRange.stop → ∀ j, j < bs →
      bytes[(e.segmentOffset + (i - e.logicalStart)) * bs + j]? = some (f (i * bs + j)) := by
    intro i hi hi'
    obtain ⟨receipt', bytes', hc', hb⟩ := hblock i hi hi'
    rw [(hc.unique hc').2]
    exact hb
  refine ⟨receipt, bytes, hc, ?_, fun x hx hx' => ?_⟩
  · -- the last byte of the last block
    have hlast := hall (e.logicalRange.stop - 1) (by omega) (by omega) (bs - 1) (by omega)
    obtain ⟨hlt, -⟩ := List.getElem?_eq_some_iff.1 hlast
    have hmul : (e.segmentOffset + (e.logicalRange.stop - 1 - e.logicalStart)) * bs + bs =
        (e.segmentOffset + e.blocks) * bs := by
      rw [← Nat.succ_mul]
      congr 1
      omega
    omega
  · have hx1 : e.logicalStart ≤ x / bs := (Nat.le_div_iff_mul_le hbs).2 hx
    have hx2 : x / bs < e.logicalRange.stop := (Nat.div_lt_iff_lt_mul hbs).2 hx'
    have hb := hall (x / bs) hx1 hx2 (x % bs) (Nat.mod_lt _ hbs)
    have hx3 : x / bs * bs + x % bs = x := Nat.div_add_mod' x bs
    have hx4 := Nat.mul_le_mul_right bs hx1
    have hx5 : (e.segmentOffset + (x / bs - e.logicalStart)) * bs + x % bs =
        e.segmentOffset * bs + (x - e.logicalStart * bs) := by
      rw [Nat.add_mul, Nat.sub_mul]
      generalize x / bs * bs = q at *
      omega
    rw [hx3, hx5] at hb
    exact hb

def extentOf (segments : StorageNodes) (req : ByteRange) (bs : Nat) (e : LeafEntry) :
    Option ReadExtent :=
  match segmentEntryReadExtent segments req bs e with
  | .ok extent => extent
  | .error _ => none

theorem extentOf_of_ok {req : ByteRange} {extent : Option ReadExtent}
    (h : segmentEntryReadExtent segments req bs e = .ok extent) : extentOf segments req bs e = extent := by
  unfold extentOf
  rw [h]

theorem extentOf_eq_none {req : ByteRange}
    (h : (e.logicalStart + e.blocks) * bs ≤ req.offset ∨ req.stop ≤ e.logicalStart * bs) :
    extentOf segments req bs e = none := by
  unfold extentOf
  split
  · next extent hext =>
    obtain ⟨start, hs, len, hl, overlap, ho, hext⟩ := bind3_eq_ok.1 hext
    obtain ⟨rfl, -⟩ := checkedMul_eq_ok hs
    obtain ⟨rfl, -⟩ := checkedMul_eq_ok hl
    obtain ⟨-, rfl⟩ := byteRangeIntersection_eq_ok.1 ho
    have hstop : (⟨e.logicalStart * bs, e.blocks * bs⟩ : ByteRange).stop =
        (e.logicalStart + e.blocks) * bs := (Nat.add_mul _ _ _).symm
    have hnone : max (e.logicalStart * bs) req.offset ≥
        min ((e.logicalStart + e.blocks) * bs) req.stop := by omega
    rw [hstop, if_pos hnone] at hext
    cases hext
    rfl
  · rfl

def BlocksOf (bs : Nat) (req : ByteRange) (requested : BlockRange) : Prop :=
  requested.start * bs ≤ req.offset ∧ req.stop ≤ requested.stop * bs

theorem extentOf_eq_none_of_not_meets {w : Nat} {req : ByteRange} {requested : BlockRange}
    (hreq : BlocksOf bs req requested) (hne : 0 < requested.blocks) {t : MappingTree}
    (ht : t.Shaped w) (hmeet : ¬ t.range.Meets requested) (he : e ∈ t.entries) :
    extentOf segments req bs e = none := by
  obtain ⟨⟨hlo, hhi, hpos⟩, -⟩ := MappingTree.entry_mem ht he
  have hfits := ht.range_fits.2
  have hside : t.range.stop ≤ requested.start ∨ requested.stop ≤ t.range.start := by
    unfold BlockRange.Meets at hmeet
    omega
  refine extentOf_eq_none (hside.imp (fun h => ?_) fun h => ?_)
  · exact (Nat.mul_le_mul_right bs (hhi.trans h)).trans hreq.1
  · exact hreq.2.trans (Nat.mul_le_mul_right bs (h.trans hlo))

variable {t : MappingTree} {f : Nat → UInt8} {req : ByteRange} {w : Nat}

theorem Backs.extentOf_eq (hbs : 0 < bs) (ht : t.Shaped w) (h : Backs crc segments bs t f)
    (hfit : t.range.stop * bs < u64Bound) (hreq : req.stop < u64Bound) (he : e ∈ t.entries) :
    segmentEntryReadExtent segments req bs e = .ok (extentOf segments req bs e) ∧
      ∃ receipt bytes, segments.Committed crc e.segmentId receipt bytes ∧
        (∀ x, e.logicalStart * bs ≤ x → x < (e.logicalStart + e.blocks) * bs →
          bytes[e.segmentOffset * bs + (x - e.logicalStart * bs)]? = some (f x)) ∧
        (e.segmentOffset + e.blocks) * bs ≤ bytes.length ∧
        extentOf segments req bs e = entryExtent req bs e receipt := by
  obtain ⟨receipt, bytes, hc, hlen, hval⟩ := h.entry hbs ht he
  obtain ⟨⟨-, hhi, -⟩, -⟩ := MappingTree.entry_mem ht he
  have hlt : (e.logicalStart + e.blocks) * bs < u64Bound :=
    (Nat.mul_le_mul_right bs hhi).trans_lt hfit
  have hspec := segmentEntryReadExtent_spec hlt hreq hc hlen
  have hext := extentOf_of_ok hspec
  exact ⟨hext ▸ hspec, receipt, bytes, hc, hval, hlen, hext⟩

/-- A block read assembles the requested bytes of a tree. -/
theorem Backs.assemble (hbs : 0 < bs) (ht : t.Shaped w) (h : Backs crc segments bs t f)
    (hfit : t.range.stop * bs < u64Bound) (hlo : t.range.start * bs ≤ req.offset)
    (hhi : req.stop ≤ t.range.stop * bs) (logs : AppendRunLogs) (verification : ReadVerification) :
    Yields (ReadPlan.fromNonZeroExtents req.len (t.entries.filterMap (extentOf segments req bs)) >>=
        fun plan => assembleReadPlan (readSource crc segments logs verification) plan req.len)
      req.len (fun p => f (req.offset + p)) (verification = .requireVerified) := by
  have hstop : req.stop = req.offset + req.len := rfl
  have hreq : req.stop < u64Bound := hhi.trans_lt hfit
  have hsome : ∀ e ∈ t.entries, ∀ x, extentOf segments req bs e = some x →
      x.outputOffset = max (e.logicalStart * bs) req.offset - req.offset ∧
      x.outputOffset + x.len = min ((e.logicalStart + e.blocks) * bs) req.stop - req.offset ∧
      0 < x.len ∧ x.source ≠ .zero ∧
      (Reads (readSource crc segments logs verification) (fun p => f (req.offset + p)) x ∨
        verification = .requireVerified ∧ ∃ err,
          readSource crc segments logs verification x.source x.len = .error err) := by
    intro e he x hx
    obtain ⟨-, receipt, bytes, hc, hval, hlen, heq⟩ := h.extentOf_eq hbs ht hfit hreq he
    rw [heq, entryExtent] at hx
    generalize hfrom : max (e.logicalStart * bs) req.offset = lo at hx ⊢
    generalize hto : min ((e.logicalStart + e.blocks) * bs) req.stop = hi at hx ⊢
    split at hx
    · cases hx
    · next hover =>
      cases hx
      refine ⟨rfl, by simp only []; omega, by simp only []; omega, nofun, ?_⟩
      have hadd : (e.segmentOffset + e.blocks) * bs = e.segmentOffset * bs + e.blocks * bs :=
        Nat.add_mul _ _ _
      have hadd' : (e.logicalStart + e.blocks) * bs = e.logicalStart * bs + e.blocks * bs :=
        Nat.add_mul _ _ _
      have hfits : e.segmentOffset * bs + (lo - e.logicalStart * bs) + (hi - lo) ≤ bytes.length := by
        omega
      refine (hc.read verification ⟨_, _⟩ hfits).imp_left fun hread => ?_
      refine ⟨_, hread, length_slice hfits, fun j hj => ?_⟩
      have hj : j < hi - lo := hj
      have hx := hval (lo + j) (by omega) (by omega)
      rw [getElem?_slice, if_pos hj]
      have hpos : e.segmentOffset * bs + (lo - e.logicalStart * bs) + j =
          e.segmentOffset * bs + (lo + j - e.logicalStart * bs) := by omega
      have hout : req.offset + (lo - req.offset + j) = lo + j := by omega
      rw [hpos, hx]
      exact congrArg (fun x => some (f x)) hout.symm
  have hmem : ∀ x ∈ t.entries.filterMap (extentOf segments req bs), ∃ e ∈ t.entries,
      extentOf segments req bs e = some x := fun x hx => List.mem_filterMap.1 hx
  refine assemble_of_extents (f := fun p => f (req.offset + p)) (by omega) ?_ ?_ ?_ ?_
  · -- the entries stand one after the other, and so do their extents
    rw [List.pairwise_map]
    have hpair := List.pairwise_map.1 ht.laid.1.ordered.1
    refine List.Pairwise.filterMap _ ?_ (hpair.imp_of_mem (S := fun a b =>
      a ∈ t.entries ∧ b ∈ t.entries ∧ a.span.stop ≤ b.span.start) fun ha hb h => ⟨ha, hb, h⟩)
    rintro a b ⟨ha, hb, hab⟩ x hx y hy
    obtain ⟨-, hx2, -⟩ := hsome a ha x hx
    obtain ⟨hy1, -⟩ := hsome b hb y hy
    have hmul := Nat.mul_le_mul_right bs hab
    left
    show x.outputOffset + x.len ≤ y.outputOffset
    have hab' : (a.logicalStart + a.blocks) * bs ≤ b.logicalStart * bs := hmul
    omega
  · intro x hx
    obtain ⟨e, he, hx⟩ := hmem x hx
    obtain ⟨-, h2, h3, h4, -⟩ := hsome e he x hx
    exact ⟨h4, h3, by omega⟩
  · intro x hx
    obtain ⟨e, he, hx⟩ := hmem x hx
    exact (hsome e he x hx).2.2.2.2
  · intro p hp hnone
    have hi1 : t.range.start ≤ (req.offset + p) / bs := (Nat.le_div_iff_mul_le hbs).2 (by omega)
    have hi2 : (req.offset + p) / bs < t.range.stop := (Nat.div_lt_iff_lt_mul hbs).2 (by omega)
    have hback := h _ ⟨hi1, hi2⟩
    cases hcell : t.cell ((req.offset + p) / bs) with
    | none =>
      rw [hcell] at hback
      have hz := hback ((req.offset + p) % bs) (Nat.mod_lt _ hbs)
      rw [Nat.div_add_mod'] at hz
      exact hz
    | some v =>
      obtain ⟨_, hs, h1, h2, -⟩ := shows_of_valueAt hcell
      obtain ⟨e, he, rfl⟩ := List.mem_map.1 hs
      have hx1 : e.logicalStart * bs ≤ req.offset + p := (Nat.le_div_iff_mul_le hbs).1 h1
      have hx2 : req.offset + p < (e.logicalStart + e.blocks) * bs :=
        (Nat.div_lt_iff_lt_mul hbs).1 h2
      obtain ⟨-, receipt, bytes, -, -, -, heq⟩ := h.extentOf_eq hbs ht hfit hreq he
      rw [entryExtent, if_neg (by omega)] at heq
      obtain ⟨h3, h4, -⟩ := hsome e he _ heq
      exact absurd ⟨by omega, by omega⟩ (hnone _ (List.mem_filterMap.2 ⟨e, he, heq⟩))

end

end CowStore.Local
