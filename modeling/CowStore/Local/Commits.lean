import CowStore.Local.Requests

/-!
# Requests that write to a device

A batch and a discard, against the flat devices.  Both edit the trees of the shards and
publish the roots that are new, and both say in a delta what they did to the trees.
-/

namespace CowStore.Local

open Lib Object Tree

variable {crc : List UInt8 → Nat} {config : LocalStoreConfig} {w n : Nat} {s s' : Coordinator}
  {flat : Flat} {history : History} {deviceId : Nat} {d : FlatDevice}

def descriptorIn (segments : StorageNodes) (segmentId : Nat) : Result SegmentDescriptor := do
  let receipt ← segments.receiptForSegment segmentId
  return receipt.descriptor

/-- The entries of a delta turn the shards and the bytes of a device into others. -/
structure DeltaStep (crc : List UInt8 → Nat) (w : Nat) (segments : StorageNodes) (bs : Nat)
    (entries : List BlockDeltaEntry) (shards : List MappingTree) (bytes : List UInt8)
    (shards' : List MappingTree) (bytes' : List UInt8) : Prop where
  edited : ShardsEdited w (descriptorIn segments) entries shards shards'
  shows : EntriesShow crc segments bs shards entries bytes bytes'

structure Wrote (crc : List UInt8 → Nat) (w n : Nat) (s : Coordinator) (flat : Flat)
    (history : History) (deviceId : Nat) (d : FlatDevice) (bytes : List UInt8) (commitSeq : Nat)
    (delta : Option BlockDeltaCommit) (s' : Coordinator) : Prop where
  device : flat.devices deviceId = some d
  segments : s.storageNodes.Grows crc s'.storageNodes
  step : ∃ shards, Inv crc w n s' (flat.setDevice deviceId (d.push commitSeq bytes))
      (history.set deviceId commitSeq shards) ∧
    match delta with
    | none => commitSeq = d.commit ∧ bytes = d.bytes ∧ shards = history deviceId d.commit
    | some delta => (delta.deviceId = deviceId ∧ delta.commitSeq = commitSeq ∧ delta.entries ≠ []) ∧
      ∃ segments, s.storageNodes.Grows crc segments ∧ segments.Grows crc s'.storageNodes ∧
        DeltaStep crc w segments d.spec.blockSize delta.entries (history deviceId d.commit) d.bytes
          shards bytes

/-! ## A device holds one array -/

variable {spec : DeviceSpec} {segments : StorageNodes}

theorem HoldsTree.shards_unique {nodes : NodeStore} {roots : List Nat}
    {shards shards' : List MappingTree} {flat flat' : List UInt8}
    (h : HoldsTree crc w n nodes segments spec roots shards flat)
    (h' : HoldsTree crc w n nodes segments spec roots shards' flat') : shards = shards' := by
  rw [← List.forall₂_eq_eq_eq]
  have hboth : ∀ (us vs : List MappingTree) (ids : List Nat),
      List.Forall₂ (fun t id => Rep nodes.metadataNodes t id) us ids →
      List.Forall₂ (fun t id => Rep nodes.metadataNodes t id) vs ids → List.Forall₂ Eq us vs := by
    intro us vs ids hu
    induction hu generalizing vs with
    | nil =>
      intro hv
      cases hv
      exact .nil
    | cons hut _ ih =>
      intro hv
      cases hv with
      | cons hvt hv => exact .cons (hut.unique hvt) (ih _ hv)
  exact hboth _ _ _ h.rep h'.rep

theorem HoldsTree.unique {nodes : NodeStore} {roots : List Nat} {shards : List MappingTree}
    {flat flat' : List UInt8} (hbs : 0 < spec.blockSize)
    (h : HoldsTree crc w n nodes segments spec roots shards flat)
    (h' : HoldsTree crc w n nodes segments spec roots shards flat') : flat = flat' := by
  refine ext_of_length h.length_eq h'.length_eq fun p hp => ?_
  have hdiv : p / spec.blockSize * spec.blockSize + p % spec.blockSize = p := Nat.div_add_mod' p _
  have hlt : p / spec.blockSize < spec.logicalBlocks :=
    (Nat.div_lt_iff_lt_mul hbs).2 hp
  have hhas : (deviceTree spec.logicalBlocks shards).Has (p / spec.blockSize) :=
    ⟨Nat.zero_le _, by rw [show (deviceTree spec.logicalBlocks shards).range.stop = _ from
      Nat.zero_add _]; exact hlt⟩
  have hmod := Nat.mod_lt p hbs
  have hback := h.backs _ hhas
  have hback' := h'.backs _ hhas
  have hget : ∀ bytes : List UInt8, bytes.length = spec.logicalBlocks * spec.blockSize →
      bytes[p]? = some (bytes.getD p 0) := by
    intro bytes hlen
    rw [List.getD_eq_getElem?_getD, List.getElem?_eq_getElem (by omega)]
    rfl
  rw [hget flat h.length_eq, hget flat' h'.length_eq]
  unfold BlockBacked at hback hback'
  cases hc : (deviceTree spec.logicalBlocks shards).cell (p / spec.blockSize) with
  | none =>
    rw [hc] at hback hback'
    have h1 := hback _ hmod
    have h2 := hback' _ hmod
    rw [hdiv] at h1 h2
    exact congrArg some (h1.trans h2.symm)
  | some v =>
    rw [hc] at hback hback'
    obtain ⟨receipt, bytes, hcommitted, hb⟩ := hback
    obtain ⟨receipt', bytes', hcommitted', hb'⟩ := hback'
    obtain ⟨-, rfl⟩ := hcommitted.unique hcommitted'
    have h1 := hb _ hmod
    have h2 := hb' _ hmod
    rw [hdiv] at h1 h2
    exact h1.symm.trans h2

/-! ## Publishing the edited shards -/

structure EditedAll (w : Nat) (desc : Nat → Result SegmentDescriptor) (nodes : NodeStore)
    (roots : List Nat) (shards : List MappingTree) (edited : List EditedShard) : Prop where
  sorted : edited.Pairwise fun a b => a.shardId < b.shardId
  old : ∀ e ∈ edited, roots[e.shardId]? = some e.oldRoot
  edits : ∀ e ∈ edited, ∃ t t', shards[e.shardId]? = some t ∧ EditsShard w desc nodes t e t'

variable {desc : Nat → Result SegmentDescriptor} {nodes : NodeStore} {roots : List Nat}
  {shards : List MappingTree} {edited : List EditedShard}

/-- The roots of the shards that an edit left as they were need not be set. -/
theorem EditedAll.setAll_changed (h : EditedAll w desc nodes roots shards edited)
    {changed : EditedShard → Bool} (hsame : ∀ e ∈ edited, changed e = false → e.root = e.oldRoot) :
    setAll roots ((edited.filter changed).map fun e => (e.shardId, e.root)) =
      setAll roots (edited.map fun e => (e.shardId, e.root)) := by
  induction edited generalizing roots with
  | nil => rfl
  | cons e edited ih =>
    obtain ⟨hlt, hsorted⟩ := List.pairwise_cons.1 h.sorted
    obtain ⟨hold, holds⟩ := List.forall_mem_cons.1 h.old
    obtain ⟨hsame, hsames⟩ := List.forall_mem_cons.1 hsame
    have hrest : EditedAll w desc nodes (roots.set e.shardId e.root) shards edited := by
      refine ⟨hsorted, fun e' he' => ?_, fun e' he' => h.edits e' (List.mem_cons_of_mem e he')⟩
      rw [List.getElem?_set_ne (hlt e' he').ne]
      exact holds e' he'
    have ih := ih hrest hsames
    rw [List.filter_cons]
    split
    · exact ih
    · next hfalse =>
      have hnoop : roots.set e.shardId e.root = roots := by
        rw [hsame (by simpa using hfalse)]
        obtain ⟨hk, hget⟩ := List.getElem?_eq_some_iff.1 hold
        rw [← hget]
        exact List.set_getElem_self hk
      show _ = setAll (roots.set e.shardId e.root) (edited.map fun e => (e.shardId, e.root))
      rw [hnoop] at ih ⊢
      exact ih

section

variable {head : DeviceHead} {shards' : List MappingTree} {bytes : List UInt8}
  {changed : EditedShard → Bool} (hinv : Inv crc w n s flat history)
  (hd : flat.devices deviceId = some d)
  (hhead : s.metadata.deviceHeads.lookup deviceId = some head)
  (hedited : EditedAll w desc nodes head.shardRoots shards edited)
  (hsame : ∀ e ∈ edited, changed e = false → e.root = e.oldRoot)
  (hholds : HoldsTree crc w n s.metadata.nodes s.storageNodes d.spec
    (setAll head.shardRoots (edited.map fun e => (e.shardId, e.root))) shards' bytes)

include hinv hd hhead hedited hsame hholds

theorem finish_idle (hnone : edited.filter changed = []) :
    Inv crc w n s (flat.setDevice deviceId (d.push d.commit bytes)) (history.set deviceId d.commit shards') ∧
      bytes = d.bytes ∧ shards' = history deviceId d.commit := by
  have hdev := hinv.devices deviceId d hd
  obtain ⟨-, hcurrent⟩ := hdev.holds hhead
  rw [← hedited.setAll_changed hsame, hnone] at hholds
  have hshards := hholds.shards_unique hcurrent
  refine ⟨hinv.idle hd hhead hholds, ?_, hshards⟩
  rw [hshards] at hholds
  exact hholds.unique hdev.blockSize_pos hcurrent

theorem finish_wp : wp (onMetadata (publishShardRoots deviceId
        ((edited.filter changed).map EditedShard.blockUpdate)))
      (fun group s' => s'.storageNodes = s.storageNodes ∧
        Inv crc w n s' (flat.setDevice deviceId (d.push group.commitSeq bytes))
          (history.set deviceId group.commitSeq shards')) (· = s) s := by
  rw [← hedited.setAll_changed hsame] at hholds
  exact wp_mono (publish_wp hinv hd hhead (hedited.sorted.filter _) hholds) (fun _ _ h => h.2)
    fun _ h => h

end

/-! ## The segments of a commit are referenced -/

theorem markReferenced_run {receipts : List SegmentWriteReceipt} (hs : s.storageNodes.Fresh)
    (hready : ∀ r ∈ receipts, s.storageNodes.Ready r.descriptor.segmentId) :
    ∃ out s', receipts.mapM (fun receipt =>
        onSegments (markSegmentReferenced receipt.descriptor.segmentId)) s = .ok out s' ∧
      Coordinator.Grows crc s s' := by
  induction receipts generalizing s with
  | nil => exact ⟨[], s, rfl, refl s⟩
  | cons r receipts ih =>
    obtain ⟨hr, hrs⟩ := List.forall_mem_cons.1 hready
    obtain ⟨segments, hrun, hgrow⟩ : ∃ segments, markSegmentReferenced r.descriptor.segmentId
        s.storageNodes = .ok () segments ∧ s.storageNodes.Grows crc segments :=
      markSegmentReferenced_run hs hr
    have hstep : onSegments (markSegmentReferenced r.descriptor.segmentId) s =
        .ok () { s with storageNodes := segments } := by
      unfold onSegments zoom
      rw [hrun]
    obtain ⟨out, s', hrest, hgrow'⟩ := ih (s := { s with storageNodes := segments })
      (hgrow.fresh hs) fun r hr => hgrow.ready (hrs r hr)
    refine ⟨() :: out, s', ?_, IsTrans.trans _ _ _ (Coordinator.grows_segments hgrow) hgrow'⟩
    rw [List.mapM_cons, run_bind_ok hstep, run_bind_ok hrest]
    rfl

/-! ## Batches -/

section

variable {bs : Nat} {head : DeviceHead} {pending : ShardPending}
  {ws : List CollapsedBlockWrite} {segments : StorageNodes} {packed : List PackedShard}

theorem root_of_pending (hpending : ∀ k root c, Pends pending k root c ↔
      ∃ write ∈ ws, ChunkOf bs head shards write k root c)
    (hne : NoneEmpty pending) {k : Nat} {shard : BlockBatchShardPending} (hrow : (k, shard) ∈ pending.rows) :
    ∃ t, shards[k]? = some t ∧ head.shardRoots[k]? = some shard.oldRoot := by
  have hlookup := Table.mem_rows.1 hrow
  obtain ⟨c, hc⟩ := List.exists_mem_of_ne_nil _ (hne k shard hlookup)
  obtain ⟨write, -, t, ht, hroot, -⟩ := (hpending k shard.oldRoot c).1 ⟨shard, hlookup, rfl, hc⟩
  exact ⟨t, ht, hroot⟩

theorem shardIds_of_packed (hpacked : List.Forall₂ (PacksShard crc segments bs) pending.rows packed)
    (hedited : List.Forall₂ EditsPacked packed edited) : edited.map (·.shardId) = pending.rows.map (·.1) :=
  (map_eq_of_forall₂ (hedited.imp fun _ _ h => h.shardId_eq)).trans
    (map_eq_of_forall₂ (hpacked.imp fun _ _ h => h.1.1))

theorem entries_ne_nil (hne : NoneEmpty pending)
    (hpacked : List.Forall₂ (PacksShard crc segments bs) pending.rows packed)
    (hedited : List.Forall₂ EditsPacked packed edited) {e : EditedShard} (he : e ∈ edited) :
    e.entries ≠ [] := by
  obtain ⟨p, hp, hep⟩ := forall₂_mem_right hedited he
  obtain ⟨⟨k, shard⟩, hrow, -, chunks, hperm, hpack⟩ := forall₂_mem_right hpacked hp
  obtain ⟨edits, heperm, hentries⟩ := hep.entries
  have hchunks := hne k shard (Table.mem_rows.1 hrow)
  rw [hentries, ne_eq, List.map_eq_nil_iff]
  rintro rfl
  have hlen := hpack.placed.length_eq
  rw [← heperm.length_eq, hperm.length_eq] at hlen
  exact hchunks (List.length_eq_zero_iff.1 hlen)

theorem updates_eq (edited : List EditedShard) : edited.filterMap EditedShard.update =
    (edited.filter fun e => e.root ≠ e.oldRoot).map EditedShard.blockUpdate := by
  induction edited with
  | nil => rfl
  | cons e edited ih =>
    by_cases h : e.root = e.oldRoot
    · simp [EditedShard.update, h, ih]
    · simp [EditedShard.update, EditedShard.blockUpdate, h, ih]

end

theorem commitBlockBatch_wp (hinv : Inv crc config.blockSize config.shardCount s flat history) (deviceId : Nat)
    (writes : List BlockBatchWrite) (durability : WriteDurability) :
    wp (commitBlockBatchWithDelta crc config deviceId writes durability) (fun r s' => ∃ d,
      Wrote crc config.blockSize config.shardCount s flat history deviceId d (spliceAll d.bytes (flatWrites writes))
        r.1.commitSeq r.2 s') (fun s' => Inv crc config.blockSize config.shardCount s' flat history) s := by
  rw [commitBlockBatchWithDelta]
  refine wp_step run_get (wp_check hinv fun info hinfo => ?_)
  obtain ⟨head, d, hhead, hd, rfl⟩ := hinv.deviceInfo hinfo
  have hdev := hinv.devices deviceId d hd
  obtain ⟨-, hholds⟩ := hdev.holds hhead
  have hall := MappingTree.shapedAll_iff.1 hholds.shaped.2.2
  refine wp_check hinv fun ws hcollapse => wp_check hinv fun pending hcollect => ?_
  have hcollapses := collapseBlockBatchWrites_spec hcollapse
  have hsharded : Sharded config.blockSize s.metadata deviceId head (history deviceId d.commit) :=
    ⟨hhead, hholds.rep, hall⟩
  obtain ⟨hpends, hnonempty⟩ := collectWrites_spec hsharded hcollect
  have hpending : ∀ k root c, Pends pending k root c ↔ ∃ write ∈ ws,
      ChunkOf d.spec.blockSize head (history deviceId d.commit) write k root c := by
    intro k root c
    rw [hpends]
    exact or_iff_right fun ⟨_, h, _⟩ => by cases h
  have hne : NoneEmpty pending := hnonempty nofun
  have hlen : ∀ row ∈ pending.rows, ∀ c ∈ row.2.chunks,
      c.bytes.length = c.range.blocks * d.spec.blockSize := by
    rintro ⟨k, shard⟩ hrow c hc
    obtain ⟨write, -, hchunk⟩ := (hpending k _ c).1 ⟨shard, Table.mem_rows.1 hrow, rfl, hc⟩
    exact hchunk.length_eq
  refine Along.thenWp (Coordinator.along_onSegments (packShards_along hinv.segments hlen)) ?_
    fun _ h => hinv.grows h
  rintro packed _ hgrow1 ⟨segments, rfl, hsegments, hpacked⟩
  have hinv1 := hinv.grows hgrow1
  have hreceipts : ∀ r ∈ packed.flatMap (·.receipts), segments.Ready r.descriptor.segmentId ∧
      segments.receiptForSegment r.descriptor.segmentId = .ok r := by
    intro r hr
    obtain ⟨p, hp, hr⟩ := List.mem_flatMap.1 hr
    obtain ⟨row, -, -, chunks, -, hpack⟩ := forall₂_mem_right hpacked hp
    obtain ⟨hready, bytes, hcommitted⟩ := hpack.ready r hr
    exact ⟨hready, hcommitted.receiptForSegment⟩
  have hroots : ∀ p ∈ packed, ∃ t, (history deviceId d.commit)[p.shardId]? = some t ∧
      head.shardRoots[p.shardId]? = some p.oldRoot ∧ t.Shaped config.blockSize ∧
      Rep s.metadata.nodes.metadataNodes t p.oldRoot := by
    intro p hp
    obtain ⟨⟨k, shard⟩, hrow, ⟨hid, hold⟩, -⟩ := forall₂_mem_right hpacked hp
    obtain ⟨t, ht, hroot⟩ := root_of_pending hpending hne hrow
    rw [hid, hold]
    obtain ⟨u, hu, hshaped, hrep⟩ := hsharded.rep_of_root hroot
    cases ht.symm.trans hu
    exact ⟨t, ht, hroot, hshaped, hrep⟩
  refine Along.thenWp (editShards_along hinv1.nodes (fun p hp => ?_) fun r hr => (hreceipts r hr).2)
    ?_ fun _ h => hinv1.grows (Coordinator.grows_of_editsNodes h)
  · obtain ⟨t, -, -, hshaped, hrep⟩ := hroots p hp
    exact ⟨t, hshaped, hrep⟩
  intro edited s2 hedits hedited
  have hinv2 := hinv1.grows (Coordinator.grows_of_editsNodes hedits)
  have hhead2 : s2.metadata.deviceHeads.lookup deviceId = some head := by
    rw [hedits.eq]
    exact hhead
  have hfrom : List.Forall₂ EditsPacked packed edited := hedited.imp fun _ _ h => h.1
  have hall2 : EditedAll config.blockSize (descriptorIn segments) s2.metadata.nodes head.shardRoots
      (history deviceId d.commit) edited := by
    refine ⟨?_, fun e he => ?_, fun e he => ?_⟩
    · have hrows := List.pairwise_map.2 pending.rows_pairwise
      rw [← shardIds_of_packed hpacked hfrom, List.pairwise_map] at hrows
      exact hrows
    · obtain ⟨p, hp, hep⟩ := forall₂_mem_right hfrom he
      obtain ⟨t, -, hroot, -⟩ := hroots p hp
      rw [hep.shardId_eq, hep.oldRoot_eq]
      exact hroot
    · obtain ⟨p, hp, hep, u, t', hu, hedit⟩ := forall₂_mem_right hedited he
      obtain ⟨t, ht, -, -, hrep⟩ := hroots p hp
      cases hrep.unique hu
      exact ⟨_, t', by rw [hep.shardId_eq]; exact ht, hedit⟩
  have hshow := entriesShow_of_batch hdev.blockSize_pos hcollapses hholds.length_eq
    hholds.rep.length_eq hpending hpacked hfrom
  obtain ⟨shards', hshards, hrep⟩ := shardsEdited_of_edited hedits.nodes hholds.rep
    (hall2.sorted.imp Nat.ne_of_lt) hall2.edits
  have hsegments2 : s2.storageNodes = segments := hedits.storageNodes
  have hholds2 := hholds.edited hdev.width_pos hsegments hshards hshow hrep
  rw [← hsegments2] at hholds2
  have hsame : ∀ e ∈ edited, decide (e.root ≠ e.oldRoot) = false → e.root = e.oldRoot :=
    fun e _ h => by simpa using h
  dsimp only
  rw [updates_eq]
  split
  · next hnone =>
    have hfilter : (edited.filter fun e => e.root ≠ e.oldRoot) = [] := by
      rcases hnone with hnone | hnone
      · exact List.map_eq_nil_iff.1 hnone
      · refine List.filter_eq_nil_iff.2 fun e he => ?_
        exact absurd (List.flatMap_eq_nil_iff.1 hnone e he) (entries_ne_nil hne hpacked hfrom he)
    obtain ⟨hidle, hbytes, hshards⟩ := finish_idle hinv2 hd hhead2 hall2 hsame hholds2 hfilter
    exact wp_pure.2 ⟨d, hd, hsegments2 ▸ hsegments, shards', hidle, rfl, hbytes, hshards⟩
  · next hsome =>
    rw [wp_bind]
    refine wp_mono (finish_wp hinv2 hd hhead2 hall2 hsame hholds2) ?_ fun _ h => h ▸ hinv2
    rintro group s3 ⟨hsegments3, hinv3⟩
    rw [hsegments2] at hsegments3
    have hready : ∀ r ∈ packed.flatMap (·.receipts), s3.storageNodes.Ready r.descriptor.segmentId := by
      rw [hsegments3]
      exact fun r hr => (hreceipts r hr).1
    obtain ⟨out, s4, hrun, hgrow⟩ : ∃ out s4, _ ∧ Coordinator.Grows crc s3 s4 :=
      markReferenced_run hinv3.segments hready
    refine wp_step hrun (wp_pure.2 ⟨d, hd, ?_, shards', hinv3.grows hgrow, ⟨rfl, rfl, ?_⟩, segments,
      hsegments, hsegments3 ▸ hgrow.segments, hshards, hshow⟩)
    · exact IsTrans.trans _ _ _ hsegments (hsegments3 ▸ hgrow.segments)
    · exact fun h => hsome (.inr h)

/-! ## Discards -/

def Discards (w : Nat) (desc : Nat → Result SegmentDescriptor) (nodes : NodeStore) (t : MappingTree)
    (chunk : DeviceWriteChunk) : Option (RootUpdate × BlockDeltaEntry) → Prop
  | none => ∃ t', t.replaceRanges w desc [⟨chunk.range, none⟩] = .ok (t', false)
  | some part => ∃ root t', part = (.blockShard chunk.shardId chunk.oldRoot root,
      ⟨chunk.shardId, chunk.range, .sparse⟩) ∧ Rep nodes.metadataNodes t' root ∧
      t.replaceRanges w desc [⟨chunk.range, none⟩] = .ok (t', true)

theorem Discards.mono {nodes' : NodeStore} {t : MappingTree} {chunk : DeviceWriteChunk}
    {part : Option (RootUpdate × BlockDeltaEntry)} (h : Discards w desc nodes t chunk part)
    (hgrow : nodes.Grows nodes') : Discards w desc nodes' t chunk part := by
  cases part with
  | none => exact h
  | some part =>
    obtain ⟨root, t', hpart, hrep, hedit⟩ := h
    exact ⟨root, t', hpart, hrep.mono hgrow.nodes, hedit⟩

theorem discardChunk_along (hs : s.metadata.nodes.Fresh) {t : MappingTree}
    (ht : t.Shaped config.blockSize) {chunk : DeviceWriteChunk}
    (hrep : Rep s.metadata.nodes.metadataNodes t chunk.oldRoot) :
    Along EditsNodes (discardChunk config chunk) s fun part s' =>
      Discards config.blockSize (descriptorIn s.storageNodes) s'.metadata.nodes t chunk part := by
  rw [discardChunk]
  refine Along.get ?_
  refine Along.bind (replaceTreeRanges_along hs ht hrep (by simp) [⟨chunk.range, none⟩]) ?_
  rintro result s' - ⟨t', hedit, hrep', -⟩
  refine Along.pure ?_
  split
  · next hchanged =>
    rw [hchanged] at hedit
    exact ⟨result.root, t', rfl, hrep', hedit⟩
  · next hsame =>
    rw [Bool.not_eq_true] at hsame
    rw [hsame] at hedit
    exact ⟨t', hedit⟩

theorem discardChunks_along (hs : s.metadata.nodes.Fresh) {chunks : List DeviceWriteChunk}
    (hchunks : ∀ chunk ∈ chunks, ∃ t, shards[chunk.shardId]? = some t ∧
      t.Shaped config.blockSize ∧ Rep s.metadata.nodes.metadataNodes t chunk.oldRoot) :
    Along EditsNodes (chunks.mapM (discardChunk config)) s fun parts s' =>
      List.Forall₂ (fun chunk part => ∃ t, shards[chunk.shardId]? = some t ∧
        Discards config.blockSize (descriptorIn s.storageNodes) s'.metadata.nodes t chunk part)
        chunks parts := by
  refine Along.mapM (R := EditsNodes) (Q := fun chunk part (s' : Coordinator) => ∃ t,
    shards[chunk.shardId]? = some t ∧ Discards config.blockSize (descriptorIn s.storageNodes)
      s'.metadata.nodes t chunk part) ?_ ?_
  · rintro chunk part s1 s2 hgrow ⟨t, ht, h⟩
    exact ⟨t, ht, h.mono hgrow.nodes⟩
  · intro chunk hchunk s1 hgrow
    obtain ⟨t, ht, hshaped, hrep⟩ := hchunks chunk hchunk
    refine (discardChunk_along (hgrow.nodes.fresh hs) hshaped (hrep.mono hgrow.nodes.nodes)).mono ?_
    intro part s2 _ h
    rw [hgrow.storageNodes] at h
    exact ⟨t, ht, h⟩

def EditedShard.ofDiscard : RootUpdate × BlockDeltaEntry → EditedShard
  | (.blockShard shardId oldRoot newRoot, entry) => ⟨shardId, oldRoot, newRoot, [entry]⟩
  | (_, entry) => ⟨entry.shardId, 0, 0, [entry]⟩

section

variable {chunks : List DeviceWriteChunk}
  {parts : List (Option (RootUpdate × BlockDeltaEntry))}
  (hparts : List.Forall₂ (fun chunk part => ∃ t, shards[chunk.shardId]? = some t ∧
    Discards w desc nodes t chunk part) chunks parts)

include hparts

theorem exists_chunk {part : RootUpdate × BlockDeltaEntry} (hpart : part ∈ parts.reduceOption) :
    ∃ chunk ∈ chunks, ∃ t, shards[chunk.shardId]? = some t ∧ Discards w desc nodes t chunk (some part) :=
  forall₂_mem_right hparts (List.reduceOption_mem_iff.1 hpart)

theorem map_blockUpdate_ofDiscard : (parts.reduceOption.map EditedShard.ofDiscard).map
    EditedShard.blockUpdate = parts.reduceOption.map (·.1) := by
  rw [List.map_map]
  refine List.map_congr_left fun part hpart => ?_
  obtain ⟨chunk, -, t, -, root, t', rfl, -⟩ := exists_chunk hparts hpart
  rfl

theorem flatMap_entries_ofDiscard : (parts.reduceOption.map EditedShard.ofDiscard).flatMap
    (·.entries) = parts.reduceOption.map (·.2) := by
  rw [List.flatMap_map, List.map_eq_flatMap]
  refine List.flatMap_congr fun part hpart => ?_
  obtain ⟨chunk, -, t, -, root, t', rfl, -⟩ := exists_chunk hparts hpart
  rfl

theorem editedAll_ofDiscard (hsorted : chunks.Pairwise fun a b => a.shardId < b.shardId)
    (hroots : ∀ chunk ∈ chunks, roots[chunk.shardId]? = some chunk.oldRoot) :
    EditedAll w desc nodes roots shards (parts.reduceOption.map EditedShard.ofDiscard) := by
  refine ⟨List.pairwise_map.2 (pairwise_reduceOption (f := DeviceWriteChunk.shardId)
    (hparts.imp ?_) hsorted), fun e he => ?_, fun e he => ?_⟩
  · rintro chunk _ ⟨t, -, h⟩ part rfl
    obtain ⟨root, t', rfl, -⟩ := h
    rfl
  · obtain ⟨part, hpart, rfl⟩ := List.mem_map.1 he
    obtain ⟨chunk, hchunk, t, -, root, t', rfl, -⟩ := exists_chunk hparts hpart
    exact hroots chunk hchunk
  · obtain ⟨part, hpart, rfl⟩ := List.mem_map.1 he
    obtain ⟨chunk, hchunk, t, ht, root, t', rfl, hrep, hedit⟩ := exists_chunk hparts hpart
    exact ⟨t, t', ht, hrep, ⟨true, hedit⟩, by simp [EditedShard.ofDiscard]⟩

end

theorem mem_requestedBlocks {bs offset len i j : Nat} (hoffset : bs ∣ offset) (hlen : bs ∣ len)
    (hj : j < bs) : (requestedBlocks bs offset len).start ≤ i ∧ i < (requestedBlocks bs offset len).stop ↔
        offset ≤ i * bs + j ∧ i * bs + j < offset + len := by
  have hbs : 0 < bs := by omega
  have hdiv : (i * bs + j) / bs = i := by
    rw [Nat.mul_comm, Nat.mul_add_div hbs, Nat.div_eq_of_lt hj, Nat.add_zero]
  obtain ⟨a, rfl⟩ := hoffset
  obtain ⟨b, rfl⟩ := hlen
  show bs * a / bs ≤ i ∧ i < bs * a / bs + bs * b / bs ↔ _
  rw [Nat.mul_div_cancel_left a hbs, Nat.mul_div_cancel_left b hbs, ← Nat.mul_add, Nat.mul_comm bs a,
    Nat.mul_comm bs (a + b), ← Nat.le_div_iff_mul_le hbs, ← Nat.div_lt_iff_lt_mul hbs, hdiv]

theorem getD_splice_zeroes {bytes : List UInt8} {offset len p : Nat}
    (hin : offset + len ≤ bytes.length) : (splice bytes offset (List.replicate len 0)).getD p 0 =
      if offset ≤ p ∧ p < offset + len then 0 else bytes.getD p 0 := by
  rw [List.getD_eq_getElem?_getD, List.getD_eq_getElem?_getD,
    getElem?_splice (by rw [List.length_replicate]; exact hin), List.length_replicate]
  split
  · next h =>
    rw [List.getElem?_replicate, if_pos (by omega)]
    rfl
  · rfl

theorem entriesShow_of_discard {nodes' : NodeStore} {bytes : List UInt8} {range : ByteRange}
    (hw : 0 < w) (hin : range.InDevice spec)
    (hholds : HoldsTree crc w n nodes segments spec roots shards bytes)
    {chunks : List DeviceWriteChunk} (hchunks : ∀ chunk, chunk ∈ chunks ↔ ∃ t,
      shards[chunk.shardId]? = some t ∧ roots[chunk.shardId]? = some chunk.oldRoot ∧
      t.range.Meets (requestedBlocks spec.blockSize range.offset range.len) ∧
      chunk.range = t.range.meet (requestedBlocks spec.blockSize range.offset range.len))
    {parts : List (Option (RootUpdate × BlockDeltaEntry))}
    (hparts : List.Forall₂ (fun chunk part => ∃ t, shards[chunk.shardId]? = some t ∧
      Discards w (descriptorIn segments) nodes' t chunk part) chunks parts) :
    EntriesShow crc segments spec.blockSize shards (parts.reduceOption.map (·.2)) bytes
      (splice bytes range.offset (List.replicate range.len 0)) where
  length_eq := by
    refine length_splice ?_
    rw [List.length_replicate, hholds.length_eq]
    exact hin.stop_le
  hit := by
    intro entry hentry i hhit
    obtain ⟨part, hpart, rfl⟩ := List.mem_map.1 hentry
    obtain ⟨chunk, hchunk, t, -, root, t', rfl, -⟩ := exists_chunk hparts hpart
    obtain ⟨u, -, -, hmeet, hrange⟩ := (hchunks chunk).1 hchunk
    intro j hj
    show (splice bytes range.offset (List.replicate range.len 0)).getD _ 0 = 0
    rw [getD_splice_zeroes (hholds.length_eq ▸ hin.stop_le), if_pos]
    refine (mem_requestedBlocks hin.offset_dvd hin.len_dvd hj).1 ?_
    have h1 : chunk.range.start ≤ i := hhit.1
    have h2 : i < chunk.range.stop := hhit.2
    rw [hrange] at h1 h2
    rw [BlockRange.stop_meet hmeet] at h2
    exact ⟨(le_max_right _ _).trans h1, h2.trans_le (min_le_right _ _)⟩
  miss := by
    intro k t i ht hi hmiss j hj
    rw [getD_splice_zeroes (hholds.length_eq ▸ hin.stop_le)]
    split
    · next hpos =>
      -- a block of the range that no entry names was mapped to nothing before
      have hreq := (mem_requestedBlocks hin.offset_dvd hin.len_dvd hj).2 hpos
      have hmeet := BlockRange.meets_of_mem hi hreq
      obtain ⟨hlt, -⟩ := List.getElem?_eq_some_iff.1 ht
      have hroot := List.getElem?_eq_getElem (hholds.rep.length_eq ▸ hlt : k < roots.length)
      obtain ⟨part, hpart, u, hu, hdiscards⟩ := forall₂_mem_left hparts
        ((hchunks ⟨k, _, _⟩).2 ⟨t, ht, hroot, hmeet, rfl⟩)
      cases ht.symm.trans hu
      have hhit : (⟨t.range.meet (requestedBlocks spec.blockSize range.offset range.len), none⟩ :
          TreeRangeEdit).Hits i := by
        refine ⟨max_le hi.1 hreq.1, ?_⟩
        rw [BlockRange.stop_meet hmeet]
        exact lt_min hi.2 hreq.2
      cases part with
      | some part =>
        obtain ⟨root, t', rfl, -⟩ := hdiscards
        exact absurd hhit (hmiss _ (List.mem_map_of_mem (List.reduceOption_mem_iff.2 hpart)) rfl)
      | none =>
        obtain ⟨t', hedit⟩ := hdiscards
        have hall := MappingTree.shapedAll_iff.1 hholds.shaped.2.2
        obtain ⟨hreplaced, hsame⟩ := replaceRanges_spec hw (hall t (List.mem_of_getElem? ht))
          (by simp [BasesOk]) hedit
        have hcell := hreplaced.hit _ List.mem_cons_self i hhit
        have hhas : (deviceTree spec.logicalBlocks shards).Has i := by
          obtain ⟨-, htiles, -⟩ := hholds.shaped
          obtain ⟨h1, h2⟩ := htiles.mem (List.mem_map_of_mem (List.mem_of_getElem? ht))
          exact ⟨h1.trans hi.1, hi.2.trans_le h2⟩
        have hback := hholds.backs i hhas
        rw [cell_deviceTree hholds.shaped (List.mem_of_getElem? ht) hi, ← hsame rfl, hcell] at hback
        exact (hback j hj).symm
    · rfl

theorem discardDevice_wp (hinv : Inv crc config.blockSize config.shardCount s flat history)
    (deviceId offset len : Nat) : wp (discardDeviceWithDelta config deviceId offset len) (fun r s' => ∃ d,
      Wrote crc config.blockSize config.shardCount s flat history deviceId d
        (splice d.bytes offset (List.replicate len 0)) r.1.commitSeq r.2 s')
      (fun s' => Inv crc config.blockSize config.shardCount s' flat history) s := by
  rw [discardDeviceWithDelta]
  refine wp_step run_get (wp_check hinv fun info hinfo => ?_)
  obtain ⟨head, d, hhead, hd, rfl⟩ := hinv.deviceInfo hinfo
  have hdev := hinv.devices deviceId d hd
  obtain ⟨-, hholds⟩ := hdev.holds hhead
  have hall := MappingTree.shapedAll_iff.1 hholds.shaped.2.2
  refine wp_check hinv fun _ hvalid => ?_
  have hin := ByteRange.inDevice_of_validate hvalid
  split
  · next hzero =>
    have hsplice : splice d.bytes offset (List.replicate len 0) = d.bytes := by
      rw [hzero]
      simp [splice]
    refine wp_pure.2 ⟨d, hd, Std.Refl.refl _, history deviceId d.commit, ?_, rfl, hsplice, rfl⟩
    rw [hsplice]
    exact hinv.idle hd hhead hholds
  refine wp_check hinv fun chunks hsplit => ?_
  have hsharded : Sharded config.blockSize s.metadata deviceId head (history deviceId d.commit) :=
    ⟨hhead, hholds.rep, hall⟩
  have hchunks := mem_splitDeviceRange hsharded hsplit
  have hsorted := splitDeviceRange_sorted hsplit
  have hstored : ∀ chunk ∈ chunks, ∃ t, (history deviceId d.commit)[chunk.shardId]? = some t ∧
      t.Shaped config.blockSize ∧ Rep s.metadata.nodes.metadataNodes t chunk.oldRoot := by
    intro chunk hchunk
    obtain ⟨-, -, hroot, -⟩ := (hchunks chunk).1 hchunk
    exact hsharded.rep_of_root hroot
  refine Along.thenWp (discardChunks_along hinv.nodes hstored) ?_
    fun _ h => hinv.grows (Coordinator.grows_of_editsNodes h)
  intro parts s2 hedits hparts
  have hinv2 := hinv.grows (Coordinator.grows_of_editsNodes hedits)
  have hhead2 : s2.metadata.deviceHeads.lookup deviceId = some head := by
    rw [hedits.eq]
    exact hhead
  have hsegments2 : s2.storageNodes = s.storageNodes := hedits.storageNodes
  have hall2 := editedAll_ofDiscard hparts hsorted fun chunk hchunk => by
    obtain ⟨t, -, hroot, -⟩ := (hchunks chunk).1 hchunk
    exact hroot
  have hshow := entriesShow_of_discard hdev.width_pos hin hholds hchunks hparts
  obtain ⟨shards', hshards, hrep⟩ := shardsEdited_of_edited hedits.nodes hholds.rep
    (hall2.sorted.imp Nat.ne_of_lt) hall2.edits
  rw [flatMap_entries_ofDiscard hparts] at hshards
  have hholds2 := hholds.edited hdev.width_pos (Std.Refl.refl _) hshards hshow hrep
  rw [← hsegments2] at hholds2
  have hsame : ∀ e ∈ parts.reduceOption.map EditedShard.ofDiscard, true = false →
    e.root = e.oldRoot := fun _ _ h => by cases h
  dsimp only
  split
  · next hnone =>
    have hfilter : ((parts.reduceOption.map EditedShard.ofDiscard).filter fun _ => true) = [] := by
      rw [hnone]
      rfl
    obtain ⟨hidle, hbytes, hshards⟩ := finish_idle hinv2 hd hhead2 hall2 hsame hholds2 hfilter
    exact wp_pure.2 ⟨d, hd, hsegments2 ▸ Std.Refl.refl _, shards', hidle, rfl, hbytes, hshards⟩
  · next hsome =>
    have hfinish := finish_wp hinv2 hd hhead2 hall2 hsame hholds2
    rw [List.filter_true, map_blockUpdate_ofDiscard hparts] at hfinish
    rw [wp_bind]
    refine wp_mono hfinish ?_ fun _ h => h ▸ hinv2
    rintro group s3 ⟨hsegments3, hinv3⟩
    have hsegments : s.storageNodes.Grows crc s3.storageNodes := by
      rw [hsegments3, hsegments2]
      exact Std.Refl.refl _
    refine wp_pure.2 ⟨d, hd, hsegments, shards', hinv3, ⟨rfl, rfl, ?_⟩, s.storageNodes,
      Std.Refl.refl _, hsegments, hshards, hshow⟩
    exact fun h => hsome (List.map_eq_nil_iff.1 h)

end CowStore.Local
