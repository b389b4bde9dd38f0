import CowStore.Local.Content

/-!
# What a delta does to a device

The entries of a delta are edits of the shards.  They turn the trees of the device into
other trees, whatever identifiers these are stored under, and the array that the device
holds into another array.
-/

namespace CowStore.Local

open Object Tree

namespace BlockDeltaEntry

def edit (entry : BlockDeltaEntry) : TreeRangeEdit :=
  ⟨entry.range, match entry.replacement with
    | .segment segmentId segmentOffset => some ⟨segmentId, entry.range.start - segmentOffset⟩
    | .sparse => none⟩

end BlockDeltaEntry

def shardEdits (entries : List BlockDeltaEntry) (shardId : Nat) : List TreeRangeEdit :=
  (entries.filter (·.shardId = shardId)).map BlockDeltaEntry.edit

theorem basesOk_shardEdits (entries : List BlockDeltaEntry) (shardId : Nat) :
    BasesOk (shardEdits entries shardId) := by
  intro edit hedit r hr
  obtain ⟨entry, -, rfl⟩ := List.mem_map.1 hedit
  unfold BlockDeltaEntry.edit at hr ⊢
  cases hreplace : entry.replacement with
  | segment id offset =>
    simp only [hreplace, Option.some.injEq] at hr
    subst hr
    exact Nat.sub_le _ _
  | sparse =>
    simp only [hreplace] at hr
    cases hr

/-- The entries turn the shards of a device into `shards'`. -/
structure ShardsEdited (w : Nat) (desc : Nat → Result SegmentDescriptor)
    (entries : List BlockDeltaEntry) (shards shards' : List MappingTree) : Prop where
  length_eq : shards'.length = shards.length
  edited : ∀ k (t : MappingTree), shards[k]? = some t → ∃ t' changed, shards'[k]? = some t' ∧
    t.replaceRanges w desc (shardEdits entries k) = .ok (t', changed)

section

variable {crc : List UInt8 → Nat} {w n : Nat} {segments segments' : StorageNodes}
  {desc : Nat → Result SegmentDescriptor} {entries : List BlockDeltaEntry}
  {shards shards' : List MappingTree}

/-- The entries show the bytes of `flat'`, and `flat` and `flat'` differ only on their blocks. -/
structure EntriesShow (crc : List UInt8 → Nat) (segments : StorageNodes) (bs : Nat)
    (shards : List MappingTree) (entries : List BlockDeltaEntry) (flat flat' : List UInt8) : Prop where
  length_eq : flat'.length = flat.length
  hit : ∀ entry ∈ entries, ∀ i, entry.edit.Hits i →
    BlockBacked crc segments bs (entry.edit.cell i) i fun x => flat'.getD x 0
  miss : ∀ k t i, shards[k]? = some t → t.Has i →
    (∀ entry ∈ entries, entry.shardId = k → ¬ entry.edit.Hits i) →
    ∀ j, j < bs → flat'.getD (i * bs + j) 0 = flat.getD (i * bs + j) 0

theorem ranges_of_shardsEdited (hw : 0 < w) (hshaped : ∀ t ∈ shards, t.Shaped w)
    (h : ShardsEdited w desc entries shards shards') :
    shards'.map MappingTree.range = shards.map MappingTree.range ∧ ∀ t' ∈ shards', t'.Shaped w := by
  constructor
  · refine List.ext_getElem? fun k => ?_
    rw [List.getElem?_map, List.getElem?_map]
    cases ht : shards[k]? with
    | none =>
      have hlen := List.getElem?_eq_none_iff.1 ht
      rw [List.getElem?_eq_none (by rw [h.length_eq]; exact hlen)]
    | some t =>
      obtain ⟨t', changed, ht', hedit⟩ := h.edited k t ht
      have hspec := replaceRanges_spec hw (hshaped t (List.mem_of_getElem? ht))
        (basesOk_shardEdits entries k) hedit
      rw [ht', Option.map_some, Option.map_some, hspec.1.range_eq]
  · intro t' hmem
    obtain ⟨k, hk, rfl⟩ := List.getElem_of_mem hmem
    rw [h.length_eq] at hk
    obtain ⟨u, changed, hu, hedit⟩ := h.edited k _ (List.getElem?_eq_getElem hk)
    rw [List.getElem?_eq_getElem (by rw [h.length_eq]; exact hk)] at hu
    cases hu
    exact (replaceRanges_spec hw (hshaped _ (List.getElem_mem hk))
      (basesOk_shardEdits entries k) hedit).1.shaped

theorem cell_deviceTree {n : Nat} (hshaped : (deviceTree n shards).Shaped w) {t : MappingTree}
    (ht : t ∈ shards) {i : Nat} (hi : t.Has i) : (deviceTree n shards).cell i = t.cell i :=
  hshaped.cell_child ht hi

theorem exists_shard {n : Nat} (hshaped : (deviceTree n shards).Shaped w) {i : Nat}
    (hi : (deviceTree n shards).Has i) : ∃ t ∈ shards, t.Has i := by
  obtain ⟨-, htiles, -⟩ := hshaped
  obtain ⟨r, hr, hir⟩ := htiles.exists_mem hi.1 hi.2
  obtain ⟨t, ht, rfl⟩ := List.mem_map.1 hr
  exact ⟨t, ht, hir⟩

theorem HoldsTree.edited (hw : 0 < w) {nodes nodes' : NodeStore} {spec : DeviceSpec}
    {roots roots' : List Nat} {flat flat' : List UInt8}
    (h : HoldsTree crc w n nodes segments spec roots shards flat)
    (hsegments : segments.Grows crc segments') (hedited : ShardsEdited w desc entries shards shards')
    (hshow : EntriesShow crc segments' spec.blockSize shards entries flat flat')
    (hrep : List.Forall₂ (fun t id => Rep nodes'.metadataNodes t id) shards' roots') :
    HoldsTree crc w n nodes' segments' spec roots' shards' flat' := by
  have hold := h.shaped
  have hall := MappingTree.shapedAll_iff.1 hold.2.2
  obtain ⟨hranges, hshaped'⟩ := ranges_of_shardsEdited hw hall hedited
  have hshaped : (deviceTree spec.logicalBlocks shards').Shaped w :=
    ⟨hold.1, hranges ▸ hold.2.1, MappingTree.shapedAll_iff.2 hshaped'⟩
  have hbordered : Bordered spec.logicalBlocks n shards' :=
    { h.bordered with ranges := hranges.trans h.bordered.ranges }
  refine ⟨hrep, hshaped, fun i hi => ?_, hshow.length_eq.trans h.length_eq, hbordered⟩
  obtain ⟨t, ht, hit⟩ := exists_shard hold hi
  obtain ⟨k, hk⟩ := List.getElem?_of_mem ht
  obtain ⟨t', changed, ht', hedit⟩ := hedited.edited k t hk
  obtain ⟨hreplaced, -⟩ := replaceRanges_spec hw (hall t ht) (basesOk_shardEdits entries k) hedit
  have hit' : t'.Has i := by
    unfold MappingTree.Has
    rw [hreplaced.range_eq]
    exact hit
  rw [cell_deviceTree hshaped (List.mem_of_getElem? ht') hit']
  by_cases hhit : ∃ entry ∈ entries, entry.shardId = k ∧ entry.edit.Hits i
  · obtain ⟨entry, hentry, hshard, hentryhit⟩ := hhit
    have hmem : entry.edit ∈ shardEdits entries k :=
      List.mem_map_of_mem (List.mem_filter.2 ⟨hentry, by simpa using hshard⟩)
    rw [hreplaced.hit _ hmem i hentryhit]
    exact hshow.hit entry hentry i hentryhit
  · have hmiss : ∀ entry ∈ entries, entry.shardId = k → ¬ entry.edit.Hits i :=
      fun entry hentry hshard hentryhit => hhit ⟨entry, hentry, hshard, hentryhit⟩
    have hcell : t'.cell i = t.cell i := by
      refine hreplaced.miss i hit fun e he => ?_
      obtain ⟨entry, hentry, rfl⟩ := List.mem_map.1 he
      obtain ⟨hentry, hshard⟩ := List.mem_filter.1 hentry
      exact hmiss entry hentry (by simpa using hshard)
    have hback := h.backs.mono hsegments i hi
    rw [cell_deviceTree hold ht hit] at hback
    have hsame := hshow.miss k t i hk hit hmiss
    rw [hcell]
    unfold BlockBacked at hback ⊢
    cases hc : t.cell i with
    | none =>
      rw [hc] at hback
      intro j hj
      show flat'.getD _ 0 = 0
      rw [hsame j hj]
      exact hback j hj
    | some v =>
      rw [hc] at hback
      obtain ⟨receipt, bytes, hcommitted, hbytes⟩ := hback
      refine ⟨receipt, bytes, hcommitted, fun j hj => ?_⟩
      show _ = some (flat'.getD _ 0)
      rw [hsame j hj]
      exact hbytes j hj

end

end CowStore.Local
