import CowStore.Local.Device

/-!
# The shards of a device

Creating a device divides its blocks among its shards.  The borders are rounded quotients of
products, and a creation in which one of the products overflows fails, so that no device has
more shards than a `u32` counts.  Whatever is done to the device afterwards keeps the ranges of
its roots, and a request is cut at them.
-/

namespace CowStore.Local

open Lib Object Tree StorageError

/-! ## Cutting a range at the borders of others -/

/-- The block of the request `q` that is next to `i`. -/
def clamp (q : BlockRange) (i : Nat) : Nat := max q.start (min i q.stop)

theorem tiles_meets {stop start : Nat} {rs : List BlockRange} (h : Tiles stop start rs)
    (q : BlockRange) : Tiles (clamp q stop) (clamp q start)
      ((rs.filter fun r => decide (r.Meets q)).map (·.meet q)) := by
  have hq : q.stop = q.start + q.blocks := rfl
  induction rs generalizing start with
  | nil =>
    cases h
    rfl
  | cons r rs ih =>
    obtain ⟨rfl, hpos, h⟩ := h
    have hr : r.stop = r.start + r.blocks := rfl
    by_cases hmeet : r.Meets q
    · rw [List.filter_cons_of_pos (by simpa using hmeet), List.map_cons]
      obtain ⟨⟨-, hqpos⟩, hbefore, hafter⟩ := hmeet
      have hstop : (r.meet q).stop = clamp q r.stop := by
        show max r.start q.start + (min r.stop q.stop - max r.start q.start) =
          max q.start (min r.stop q.stop)
        omega
      refine ⟨?_, ?_, hstop ▸ ih h⟩
      · show max r.start q.start = max q.start (min r.start q.stop)
        omega
      · show 0 < min r.stop q.stop - max r.start q.start
        omega
    · rw [List.filter_cons_of_neg (by simpa using hmeet)]
      have hsame : clamp q r.start = clamp q r.stop := by
        unfold BlockRange.Meets at hmeet
        show max q.start (min r.start q.stop) = max q.start (min r.stop q.stop)
        omega
      rw [hsame]
      exact ih h

theorem exists_shardChunks {nodes : NodeStore} {q : BlockRange} (hq : q.Fits)
    {shards : List MappingTree} {roots : List Nat}
    (h : List.Forall₂ (fun t id => Rep nodes.metadataNodes t id) shards roots)
    (hfits : ∀ t ∈ shards, t.range.Fits) (first : Nat) (hcount : first + roots.length ≤ u32Bound) :
    ∃ parts, (roots.zipIdx first).mapM (fun root => shardChunk nodes q root.1 root.2) = .ok parts ∧
      parts.reduceOption.map (·.range) =
        ((shards.map MappingTree.range).filter fun r => decide (r.Meets q)).map (·.meet q) := by
  induction h generalizing first with
  | nil => exact ⟨[], rfl, rfl⟩
  | @cons t root shards roots hrep _ ih =>
    obtain ⟨ht, hshards⟩ := List.forall_mem_cons.1 hfits
    rw [List.length_cons] at hcount
    obtain ⟨parts, hparts, hranges⟩ := ih hshards (first + 1) (by omega)
    obtain ⟨kind, hlookup⟩ := hrep.lookup
    rw [List.zipIdx_cons, List.mapM_cons, hparts, shardChunk, NodeStore.getMetadataNode, hlookup,
      orFail, ok_bind, BlockRange.intersection_of_fits ht hq, List.map_cons]
    by_cases hmeet : t.range.Meets q
    · rw [if_pos hmeet, List.filter_cons_of_pos (by simpa using hmeet), List.map_cons, ← hranges]
      have hindex : failIf (first ≥ u32Bound) (invalidArgument "shard index overflows u32") = .ok () :=
        failIf_eq_ok.2 (by omega)
      simp only [ok_bind, hindex]
      exact ⟨_, rfl, rfl⟩
    · rw [if_neg hmeet, List.filter_cons_of_neg (by simpa using hmeet), ← hranges]
      exact ⟨_, rfl, rfl⟩

/-! ## Devices -/

/-- The blocks of a device are divided among its shards, and its roots cover their shares. -/
structure Divided (n : Nat) (m : MetadataInner) (spec : DeviceSpec) (roots : List Nat) : Prop where
  tiles : Tiles spec.logicalBlocks 0 (shareRanges ⟨0, spec.logicalBlocks⟩ n)
  covered : List.Forall₂ (fun root range => ∃ kind,
    m.nodes.metadataNodes.lookup root = some ⟨root, range, kind⟩) roots
      (shareRanges ⟨0, spec.logicalBlocks⟩ n)

/-- The chunks of a request: in the order of their shards they follow each other from its start
to its end, and each one lies in the share of its shard. -/
structure CutAtShards (n : Nat) (spec : DeviceSpec) (roots : List Nat) (request : BlockRange)
    (chunks : List DeviceWriteChunk) : Prop where
  tiles : Tiles request.stop request.start (chunks.map (·.range))
  sorted : chunks.Pairwise fun a b => a.shardId < b.shardId
  inside : ∀ chunk ∈ chunks, roots[chunk.shardId]? = some chunk.oldRoot ∧
    ∃ share, (shareRanges ⟨0, spec.logicalBlocks⟩ n)[chunk.shardId]? = some share ∧
      share.Covers chunk.range

section

variable {crc : List UInt8 → Nat} {w n : Nat} {nodes : NodeStore} {segments : StorageNodes}
  {spec : DeviceSpec} {roots : List Nat} {shards : List MappingTree} {bytes : List UInt8}

theorem HoldsTree.divided {m : MetadataInner}
    (h : HoldsTree crc w n m.nodes segments spec roots shards bytes) : Divided n m spec roots := by
  obtain ⟨hcount, hle, -, hranges⟩ := h.bordered
  refine ⟨?_, ?_⟩
  · have htiles := tiles_shareRanges ⟨0, spec.logicalBlocks⟩ hcount hle
    have hstop : (⟨0, spec.logicalBlocks⟩ : BlockRange).stop = spec.logicalBlocks := Nat.zero_add _
    rwa [hstop] at htiles
  · rw [← hranges, List.forall₂_map_right_iff]
    exact h.rep.flip.imp fun _ _ hrep => hrep.lookup

/-- A device has no more shards than a `u32` counts: the product of the blocks and the shards,
of which there are not more than blocks, was computed when the device was created. -/
theorem HoldsTree.roots_le (h : HoldsTree crc w n nodes segments spec roots shards bytes) :
    roots.length ≤ u32Bound := by
  obtain ⟨-, hle, hfits, hranges⟩ := h.bordered
  have hlength : roots.length = n := by
    rw [← h.rep.length_eq, ← List.length_map (f := MappingTree.range), hranges, shareRanges,
      List.length_map, List.length_range]
  have hmul := Nat.mul_le_mul_right n hle
  by_contra hgt
  have hsquare := Nat.mul_le_mul (Nat.le_of_not_le hgt) (Nat.le_of_not_le hgt)
  rw [hlength] at hsquare
  have hbound : u32Bound * u32Bound = u64Bound := rfl
  omega

/-- Every request of whole blocks in the device is cut at the borders of the shards. -/
theorem HoldsTree.exists_split {m : MetadataInner} {info : DeviceInfo} {head : DeviceHead}
    (h : HoldsTree crc w n m.nodes segments info.spec head.shardRoots shards bytes)
    (hhead : m.deviceHeads.lookup info.deviceId = some head) {range : ByteRange}
    (hrange : range.validateForDevice info.spec = .ok ()) :
    ∃ chunks, splitDeviceRange m info range = .ok chunks ∧ CutAtShards n info.spec head.shardRoots
        (requestedBlocks info.spec.blockSize range.offset range.len) chunks := by
  have hin := ByteRange.inDevice_of_validate hrange
  obtain ⟨first, hfirst⟩ := hin.offset_dvd
  obtain ⟨count, hcount⟩ := hin.len_dvd
  have hrequest : requestedBlocks info.spec.blockSize range.offset range.len = ⟨first, count⟩ := by
    rw [requestedBlocks, hfirst, hcount, Nat.mul_div_cancel_left _ hin.blockSize_pos,
      Nat.mul_div_cancel_left _ hin.blockSize_pos]
  have hlast : first + count ≤ info.spec.logicalBlocks := by
    refine Nat.le_of_mul_le_mul_left ?_ hin.blockSize_pos
    rw [Nat.mul_add, ← hfirst, ← hcount, Nat.mul_comm info.spec.blockSize]
    exact hin.stop_le
  obtain ⟨⟨hfits, -⟩, hshares, hall⟩ := h.shaped
  rw [MappingTree.shapedAll_iff] at hall
  have hfits : 0 + info.spec.logicalBlocks < u64Bound := hfits
  have hq : (⟨first, count⟩ : BlockRange).Fits := by
    show first + count < u64Bound
    omega
  obtain ⟨parts, hparts, hranges⟩ := exists_shardChunks hq h.rep
    (fun t ht => (hall t ht).range_fits.1) 0 (by simpa using h.roots_le)
  have htiles := tiles_meets hshares ⟨first, count⟩
  have hstart : clamp ⟨first, count⟩ 0 = first := by
    show max first (min 0 (first + count)) = first
    omega
  have hstop : clamp ⟨first, count⟩ (⟨0, info.spec.logicalBlocks⟩ : BlockRange).stop =
      first + count := by
    show max first (min (0 + info.spec.logicalBlocks) (first + count)) = first + count
    omega
  rw [← hranges, hstart, hstop] at htiles
  have hsome : ¬ (parts.reduceOption = [] ∧ range.len ≠ 0) := by
    rintro ⟨hnil, hlen⟩
    rw [hnil] at htiles
    have heq : first = first + count := htiles
    exact hlen (by rw [hcount, show count = 0 by omega, Nat.mul_zero])
  have hsplit : splitDeviceRange m info range = .ok parts.reduceOption := by
    have hrequest' : (⟨range.offset / info.spec.blockSize, range.len / info.spec.blockSize⟩ : BlockRange) =
        ⟨first, count⟩ := hrequest
    rw [splitDeviceRange, hrequest', MetadataInner.getHead, hhead, orFail, ok_bind, hparts, ok_bind,
      (failIf_eq_ok (u := ())).2 hsome]
    rfl
  refine ⟨_, hsplit, by rw [hrequest]; exact htiles, splitDeviceRange_sorted hsplit,
    fun chunk hchunk => ?_⟩
  obtain ⟨t, ht, hroot, hmeet, hcut⟩ :=
    (mem_splitDeviceRange ⟨hhead, h.rep, hall⟩ hsplit chunk).1 hchunk
  refine ⟨hroot, t.range, ?_, ?_⟩
  · rw [← h.bordered.ranges, List.getElem?_map, ht]
    rfl
  · rw [hcut]
    exact BlockRange.covers_meet hmeet

end

section

variable {crc : List UInt8 → Nat} {config : LocalStoreConfig}

theorem createDevice_head (config : LocalStoreConfig) (spec : DeviceSpec) (s : Coordinator) :
    wp (onMetadata (createDevice config spec))
      (fun head s' => s'.metadata.deviceHeads.lookup head.deviceId = some head) (fun _ => True) s := by
  refine wp_zoom.2 ?_
  rw [createDevice]
  refine wp_check trivial fun _ _ => wp_check trivial fun _ _ => wp_check trivial fun _ _ => ?_
  refine wp_step rfl (wp_bind.2 (wp_of_forall (fun roots m => ?_) fun _ => trivial))
  exact wp_check trivial fun _ _ => wp_step rfl (AList.lookup_insert _)

/-- In every state of a run, a creation that succeeds divides the blocks of the device among its
shards; the roots of every device cover the shares of its shards, whatever was done to it; and
every request of whole blocks in a device is cut at the borders of the shares. -/
theorem shards_divided {storageNodes : List Nat} {s : Coordinator}
    (h : Coordinator.withStorageNodes config storageNodes = .ok s) (requests : List DeviceRequest) :
    (∀ spec head s', onMetadata (createDevice config spec) (serveAll crc config s requests).1 =
        .ok head s' → Divided config.shardCount s'.metadata spec head.shardRoots) ∧
    ∀ deviceId info, (serveAll crc config s requests).1.metadata.deviceInfo deviceId = .ok info →
      ∃ head, (serveAll crc config s requests).1.metadata.getHead deviceId = .ok head ∧
        Divided config.shardCount (serveAll crc config s requests).1.metadata info.spec
          head.shardRoots ∧
        ∀ range : ByteRange, range.validateForDevice info.spec = .ok () →
          ∃ chunks, splitDeviceRange (serveAll crc config s requests).1.metadata info range =
              .ok chunks ∧
            CutAtShards config.shardCount info.spec head.shardRoots
              (requestedBlocks info.spec.blockSize range.offset range.len) chunks := by
  obtain ⟨history, hinv⟩ : ∃ history, Inv crc config.blockSize config.shardCount
      (serveAll crc config s requests).1 _ history := serveAll_inv h requests
  refine ⟨fun spec head s' hcreate => ?_, fun deviceId info hinfo => ?_⟩
  · obtain ⟨history', hinv'⟩ := wp_of_ok (createDevice_wp hinv spec) hcreate
    have hhead := wp_of_ok (createDevice_head config spec _) hcreate
    exact ((hinv'.devices head.deviceId _ (if_pos rfl)).holds hhead).2.divided
  · obtain ⟨head, d, hhead, hd, rfl⟩ := hinv.deviceInfo hinfo
    obtain ⟨-, hholds⟩ := (hinv.devices deviceId d hd).holds hhead
    refine ⟨head, orFail_eq_ok.2 hhead, hholds.divided, fun range hrange => ?_⟩
    exact HoldsTree.exists_split hholds hhead hrange

/-- A device of four blocks in two shards, after writes, a fork and a discard: a request of two
blocks across the border of the shards. -/
theorem shards_divided_fork :
    ∃ info chunks, (serveAll (fun _ => 0) smallConfig smallStore forkRequests).1.metadata.deviceInfo 1 =
        .ok info ∧
      splitDeviceRange (serveAll (fun _ => 0) smallConfig smallStore forkRequests).1.metadata info ⟨4, 8⟩ =
        .ok chunks ∧ chunks.map (·.range) = [⟨1, 1⟩, ⟨2, 1⟩] ∧
      ∃ roots, CutAtShards 2 ⟨4, 4⟩ roots ⟨1, 2⟩ chunks := by
  have hinfo : (serveAll (fun _ => 0) smallConfig smallStore forkRequests).1.metadata.deviceInfo 1 =
      .ok ⟨1, 2, ⟨4, 4⟩, 3⟩ := by decide +kernel
  obtain ⟨head, -, -, hsplit⟩ :=
    (shards_divided withStorageNodes_small forkRequests).2 1 _ hinfo
  obtain ⟨chunks, hchunks, hcut⟩ := hsplit ⟨4, 8⟩ (by decide)
  refine ⟨_, chunks, hinfo, hchunks, ?_, head.shardRoots, hcut⟩
  have hranges : (splitDeviceRange (serveAll (fun _ => 0) smallConfig smallStore forkRequests).1.metadata
      ⟨1, 2, ⟨4, 4⟩, 3⟩ ⟨4, 8⟩).map (List.map (·.range)) = .ok [⟨1, 1⟩, ⟨2, 1⟩] := by decide +kernel
  rw [hchunks] at hranges
  exact Except.ok.inj hranges

end

end CowStore.Local
