import CowStore.Local.Coordinator

/-!
# What a device holds

The shards of a device stand side by side, as the children of one tree would.  A device
holds an array of bytes when the blocks of this tree do, and then every read of the device
returns a slice of the array.
-/

namespace CowStore.Local

open Lib Object Tree

def deviceTree (logicalBlocks : Nat) (shards : List MappingTree) : MappingTree :=
  .internal ⟨0, logicalBlocks⟩ shards

variable {crc : List UInt8 → Nat} {w n : Nat} {nodes nodes' : NodeStore}
  {segments segments' : StorageNodes}

/-- The shards of a device as its creation has divided them: the borders are those of even
shares, and the computation of none overflows. -/
structure Bordered (logicalBlocks n : Nat) (shards : List MappingTree) : Prop where
  count_pos : 0 < n
  count_le : n ≤ logicalBlocks
  fits : logicalBlocks * n < u64Bound
  ranges : shards.map MappingTree.range = shareRanges ⟨0, logicalBlocks⟩ n

/-- The roots of a device are those of `n` shards whose blocks hold the bytes of `flat`. -/
structure HoldsTree (crc : List UInt8 → Nat) (w n : Nat) (nodes : NodeStore)
    (segments : StorageNodes) (spec : DeviceSpec) (roots : List Nat) (shards : List MappingTree)
    (flat : List UInt8) : Prop where
  rep : List.Forall₂ (fun t id => Rep nodes.metadataNodes t id) shards roots
  shaped : (deviceTree spec.logicalBlocks shards).Shaped w
  backs : Backs crc segments spec.blockSize (deviceTree spec.logicalBlocks shards)
    fun x => flat.getD x 0
  length_eq : flat.length = spec.logicalBlocks * spec.blockSize
  bordered : Bordered spec.logicalBlocks n shards

def Holds (crc : List UInt8 → Nat) (w n : Nat) (nodes : NodeStore) (segments : StorageNodes)
    (spec : DeviceSpec) (roots : List Nat) (flat : List UInt8) : Prop :=
  ∃ shards, HoldsTree crc w n nodes segments spec roots shards flat

theorem Backs.mono {bs : Nat} {t : MappingTree} {f : Nat → UInt8}
    (h : Backs crc segments bs t f) (hgrow : segments.Grows crc segments') : Backs crc segments' bs t f := by
  intro i hi
  have hi := h i hi
  unfold BlockBacked at hi ⊢
  split at hi
  · exact hi
  · obtain ⟨receipt, bytes, hc, hb⟩ := hi
    exact ⟨receipt, bytes, hgrow.committed hc, hb⟩

theorem HoldsTree.mono {spec : DeviceSpec} {roots : List Nat} {shards : List MappingTree}
    {flat : List UInt8} (h : HoldsTree crc w n nodes segments spec roots shards flat)
    (hnodes : Table.Extends nodes.metadataNodes nodes'.metadataNodes)
    (hsegments : segments.Grows crc segments') : HoldsTree crc w n nodes' segments' spec roots shards flat :=
  ⟨h.rep.imp fun _ _ hrep => hrep.mono hnodes, h.shaped, h.backs.mono hsegments, h.length_eq, h.bordered⟩

/-! ## Reading a device -/

section

variable {bs : Nat} {f : Nat → UInt8} {shards : List MappingTree} {roots : List Nat} {n : Nat}

theorem blockReadExtents_eq (hbs : 0 < bs)
    (hrep : List.Forall₂ (fun t id => Rep nodes.metadataNodes t id) shards roots)
    (hshaped : (deviceTree n shards).Shaped w) (hbacks : Backs crc segments bs (deviceTree n shards) f)
    {req : ByteRange} {requested : BlockRange} (hreq : BlocksOf bs req requested)
    (hne : 0 < requested.blocks) (hfits : requested.Fits) (hfit : n * bs < u64Bound)
    (hstop : req.stop < u64Bound) : blockReadExtents nodes segments requested req bs roots =
      .ok ((deviceTree n shards).entries.filterMap (extentOf segments req bs)) := by
  have hall := MappingTree.shapedAll_iff.1 hshaped.2.2
  have hnstop : (deviceTree n shards).range.stop = n := Nat.zero_add n
  have hentries : (deviceTree n shards).entries = shards.flatMap MappingTree.entries :=
    MappingTree.entriesAll_eq shards
  have hshard : ∀ t ∈ shards, ∀ root, Rep nodes.metadataNodes t root → (do
      let node ← nodes.getMetadataNode root
      if ← node.coveredRange.overlaps requested then
        collectSegmentReadExtents nodes segments requested req bs node
      else
        return [] : Result (List ReadExtent)) =
      .ok (t.entries.filterMap (extentOf segments req bs)) := by
    intro t ht root hroot
    obtain ⟨kind, hlookup⟩ := hroot.lookup
    rw [NodeStore.getMetadataNode, hlookup, orFail, ok_bind,
      BlockRange.overlaps_of_fits (hall t ht).range_fits.1 hfits, ok_bind]
    by_cases hmeet : t.range.Meets requested
    · rw [if_pos (decide_eq_true hmeet), collectSegmentReadExtents]
      refine collectReadExtents_eq (fun _ _ _ => rfl)
        (fun _ ts => MappingTree.entriesAll_eq ts) hfits
        (fun u hu hmeet x hx => extentOf_eq_none_of_not_meets hreq hne hu hmeet hx) _ (hall t ht)
        hlookup hroot (Nat.lt_succ_self _) fun x hx => ?_
      refine (hbacks.extentOf_eq hbs hshaped (by rw [hnstop]; exact hfit) hstop ?_).1
      rw [hentries]
      exact List.mem_flatMap.2 ⟨t, ht, hx⟩
    · rw [if_neg (by simpa using hmeet), List.filterMap_eq_nil_iff.2 fun x hx =>
        extentOf_eq_none_of_not_meets hreq hne (hall t ht) hmeet hx]
      rfl
  have hparts := mapM_eq_ok.2 (List.forall₂_map_right_iff.2
    (((List.forall₂_and_left shards roots).2 ⟨fun t ht => ht, hrep⟩).flip.imp
      fun root t h => hshard t h.1 root h.2))
  rw [blockReadExtents]
  refine (congrArg (· >>= fun parts => .ok parts.flatten) hparts).trans ?_
  rw [ok_bind, hentries, List.filterMap_flatMap]
  rfl

/-- Every read of whole blocks returns the bytes of the array, unless only verified
payloads may be read. -/
theorem Holds.read {s : Coordinator} {deviceId : Nat} {head : DeviceHead} {spec : DeviceSpec}
    {flat : List UInt8} (hhead : s.metadata.deviceHeads.lookup deviceId = some head)
    (hspec : s.metadata.deviceSpecs.lookup deviceId = some spec)
    (h : Holds crc w n s.metadata.nodes s.storageNodes spec head.shardRoots flat) {range : ByteRange}
    (hrange : range.validateForDevice spec = .ok ()) (verification : ReadVerification) :
    s.readDeviceWithVerification crc deviceId range range.len verification =
        .ok (slice flat range.offset range.len) ∨ verification = .requireVerified ∧ ∃ err,
        s.readDeviceWithVerification crc deviceId range range.len verification = .error err := by
  obtain ⟨shards, hs⟩ := h
  have hin := ByteRange.inDevice_of_validate hrange
  have hbs := hin.blockSize_pos
  have hgethead : s.metadata.getHead deviceId = .ok head := by
    rw [MetadataInner.getHead, hhead]
    rfl
  have hinfo : s.metadata.deviceInfo deviceId =
      .ok ⟨deviceId, head.generation, spec, head.latestCommit⟩ := by
    rw [MetadataInner.deviceInfo, hgethead, ok_bind, hspec]
    rfl
  rw [Coordinator.readDeviceWithVerification, Coordinator.resolveBlockReadPlan, hinfo, ok_bind,
    hrange, ok_bind]
  have hlen := hs.length_eq
  have hstop : range.stop = range.offset + range.len := rfl
  have hle := hin.stop_le
  by_cases hzero : range.len = 0
  · left
    rw [if_pos hzero, hzero]
    have hnil : slice flat range.offset 0 = [] := by simp [slice]
    rw [hnil]
    rfl
  · rw [if_neg hzero, hgethead, ok_bind]
    have hoff := Nat.div_mul_cancel hin.offset_dvd
    have hblocks := Nat.div_mul_cancel hin.len_dvd
    have hreqstop : (⟨range.offset / spec.blockSize, range.len / spec.blockSize⟩ : BlockRange).stop *
        spec.blockSize = range.stop := by
      show (range.offset / spec.blockSize + range.len / spec.blockSize) * spec.blockSize = _
      rw [Nat.add_mul, hoff, hblocks, hstop]
    have hpos : 0 < range.len / spec.blockSize :=
      Nat.div_pos (Nat.le_of_dvd (Nat.pos_of_ne_zero hzero) hin.len_dvd) hbs
    have hfits : (⟨range.offset / spec.blockSize, range.len / spec.blockSize⟩ : BlockRange).Fits := by
      refine Nat.lt_of_le_of_lt (Nat.le_mul_of_pos_right _ hbs) ?_
      rw [hreqstop]
      exact hle.trans_lt hin.bytes_lt
    rw [blockReadExtents_eq hbs hs.rep hs.shaped hs.backs ⟨hoff.le, hreqstop.ge⟩ hpos hfits
      hin.bytes_lt (hle.trans_lt hin.bytes_lt), ok_bind]
    have hbound : (deviceTree spec.logicalBlocks shards).range.stop = spec.logicalBlocks :=
      Nat.zero_add _
    rcases hs.backs.assemble hbs hs.shaped (by rw [hbound]; exact hin.bytes_lt)
      (by show 0 * _ ≤ _; omega) (by rw [hbound]; exact hle) s.appendRunLogs verification with
      ⟨out, hout, houtlen, hval⟩ | herr
    · left
      rw [hout]
      refine congrArg _ (ext_of_length houtlen (length_slice (by omega)) fun p hp => ?_)
      simp only [hval p hp, getElem?_slice, if_pos hp, List.getD_eq_getElem?_getD]
      rw [List.getElem?_eq_getElem (by omega)]
      rfl
    · exact .inr herr

end

end CowStore.Local
