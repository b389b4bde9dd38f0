import CowStore.Local.Delta
import Mathlib.Data.List.ReduceOption

/-!
# A batch on a device

The steps of a batch, from its collapsed writes to the entries of its delta: every byte
that the writes show stands in a chunk, every chunk in a segment, and every segment behind
the blocks of an entry.
-/

namespace CowStore.Local

open Lib Object Tree

/-! ## Cutting writes at the bounds of the shards -/

def requestedBlocks (bs offset len : Nat) : BlockRange := ⟨offset / bs, len / bs⟩

section

variable {s : MetadataInner} {info : DeviceInfo} {head : DeviceHead} {shards : List MappingTree}
  {w : Nat}

structure Sharded (w : Nat) (s : MetadataInner) (deviceId : Nat) (head : DeviceHead)
    (shards : List MappingTree) : Prop where
  lookup : s.deviceHeads.lookup deviceId = some head
  rep : List.Forall₂ (fun t id => Rep s.nodes.metadataNodes t id) shards head.shardRoots
  shaped : ∀ t ∈ shards, t.Shaped w

variable {root : Nat}

theorem Sharded.rep_of_root {deviceId : Nat} (h : Sharded w s deviceId head shards) {k : Nat}
    (hk : head.shardRoots[k]? = some root) :
    ∃ t, shards[k]? = some t ∧ t.Shaped w ∧ Rep s.nodes.metadataNodes t root := by
  obtain ⟨hlt, rfl⟩ := List.getElem?_eq_some_iff.1 hk
  have hlen := h.rep.length_eq
  refine ⟨_, List.getElem?_eq_getElem (by omega), h.shaped _ (List.getElem_mem _), ?_⟩
  exact List.Forall₂.get h.rep (by omega) hlt

theorem shardChunk_eq_ok {nodes : NodeStore} {requested : BlockRange} {t : MappingTree}
    {shard : Nat} {o : Option DeviceWriteChunk} (hrep : Rep nodes.metadataNodes t root)
    (h : shardChunk nodes requested root shard = .ok o) :
    o = if t.range.Meets requested then some ⟨shard, root, t.range.meet requested⟩ else none := by
  obtain ⟨kind, hlookup⟩ := hrep.lookup
  rw [shardChunk, NodeStore.getMetadataNode, hlookup, orFail, ok_bind] at h
  obtain ⟨overlap, hoverlap, h⟩ := bind_eq_ok.1 h
  obtain ⟨-, rfl⟩ := BlockRange.intersection_eq_ok.1 hoverlap
  by_cases hmeet : t.range.Meets requested
  · rw [if_pos hmeet] at h ⊢
    obtain ⟨⟨⟩, -, h⟩ := bind_eq_ok.1 h
    cases h
    rfl
  · rw [if_neg hmeet] at h ⊢
    cases h
    rfl

theorem mem_splitDeviceRange (h : Sharded w s info.deviceId head shards) {range : ByteRange}
    {chunks : List DeviceWriteChunk} (hsplit : splitDeviceRange s info range = .ok chunks)
    (chunk : DeviceWriteChunk) : chunk ∈ chunks ↔ ∃ t, shards[chunk.shardId]? = some t ∧
      head.shardRoots[chunk.shardId]? = some chunk.oldRoot ∧
      t.range.Meets (requestedBlocks info.spec.blockSize range.offset range.len) ∧
      chunk.range = t.range.meet (requestedBlocks info.spec.blockSize range.offset range.len) := by
  obtain ⟨head', hhead, hsplit⟩ := bind_eq_ok.1 hsplit
  rw [MetadataInner.getHead, h.lookup] at hhead
  cases hhead
  obtain ⟨parts, hparts, ⟨⟩, -, hsplit⟩ := bind2_eq_ok.1 hsplit
  cases hsplit
  have hall := mapM_eq_ok.1 hparts
  rw [List.reduceOption_mem_iff]
  constructor
  · intro hmem
    obtain ⟨⟨root, k⟩, hroot, heq⟩ := forall₂_mem_right hall hmem
    rw [List.mem_zipIdx_iff_getElem?] at hroot
    obtain ⟨t, ht, -, hrep⟩ := h.rep_of_root hroot
    have hchunk := shardChunk_eq_ok hrep heq
    split at hchunk
    · next hmeet =>
      cases hchunk
      exact ⟨t, ht, hroot, hmeet, rfl⟩
    · cases hchunk
  · rintro ⟨t, ht, hroot, hmeet, hrange⟩
    have hidx : (chunk.oldRoot, chunk.shardId) ∈ head.shardRoots.zipIdx :=
      List.mem_zipIdx_iff_getElem?.2 hroot
    obtain ⟨o, ho, heq⟩ := forall₂_mem_left hall hidx
    obtain ⟨t', ht', -, hrep⟩ := h.rep_of_root hroot
    cases ht.symm.trans ht'
    have hchunk := shardChunk_eq_ok hrep heq
    have hmeet' : t.range.Meets
      ⟨range.offset / info.spec.blockSize, range.len / info.spec.blockSize⟩ := hmeet
    rw [if_pos hmeet'] at hchunk
    rw [hchunk] at ho
    convert ho
    cases chunk
    cases hrange
    rfl

theorem pairwise_reduceOption {α β : Type} {f : α → Nat} {g : β → Nat} {xs : List α}
    {os : List (Option β)} (h : List.Forall₂ (fun x o => ∀ y, o = some y → g y = f x) xs os)
    (hxs : xs.Pairwise fun a b => f a < f b) : os.reduceOption.Pairwise fun a b => g a < g b := by
  induction h with
  | nil => exact .nil
  | @cons x o xs os hx hrest ih =>
    obtain ⟨hlt, hxs⟩ := List.pairwise_cons.1 hxs
    cases o with
    | none =>
      rw [List.reduceOption_cons_of_none]
      exact ih hxs
    | some y =>
      rw [List.reduceOption_cons_of_some, List.pairwise_cons]
      refine ⟨fun z hz => ?_, ih hxs⟩
      obtain ⟨x', hx', hz⟩ := forall₂_mem_right hrest (List.reduceOption_mem_iff.1 hz)
      rw [hx y rfl, hz z rfl]
      exact hlt x' hx'

theorem shardId_of_shardChunk {nodes : NodeStore} {requested : BlockRange} {shard : Nat}
    {chunk : DeviceWriteChunk} (h : shardChunk nodes requested root shard = .ok (some chunk)) :
    chunk.shardId = shard := by
  obtain ⟨node, -, overlap, -, h⟩ := bind2_eq_ok.1 h
  cases overlap with
  | none => cases h
  | some range =>
    obtain ⟨⟨⟩, -, h⟩ := bind_eq_ok.1 h
    cases h
    rfl

theorem splitDeviceRange_sorted {range : ByteRange} {chunks : List DeviceWriteChunk}
    (hsplit : splitDeviceRange s info range = .ok chunks) :
    chunks.Pairwise fun a b => a.shardId < b.shardId := by
  obtain ⟨head, -, parts, hparts, ⟨⟩, -, hsplit⟩ := bind3_eq_ok.1 hsplit
  cases hsplit
  refine pairwise_reduceOption (f := Prod.snd) ((mapM_eq_ok.1 hparts).imp ?_) ?_
  · rintro root _ h chunk rfl
    exact shardId_of_shardChunk h
  · rw [← List.pairwise_map (f := Prod.snd), List.zipIdx_map_snd]
    exact List.pairwise_lt_range' 1

end

/-! ## The chunks of a batch -/

section

/-- `piece` is one of the chunks of the shard `k`, whose root was `root`. -/
def Pends (pending : ShardPending) (k root : Nat) (piece : BlockBatchShardChunk) : Prop :=
  ∃ shard, pending.lookup k = some shard ∧ shard.oldRoot = root ∧ piece ∈ shard.chunks

def NoneEmpty (pending : ShardPending) : Prop :=
  ∀ k shard, pending.lookup k = some shard → shard.chunks ≠ []

variable {pending pending' : ShardPending}

/-- The chunks of `new` are pending, too. -/
def Adds (new : Nat → Nat → BlockBatchShardChunk → Prop) (pending pending' : ShardPending) : Prop :=
  (∀ k root c, Pends pending' k root c ↔ Pends pending k root c ∨ new k root c) ∧
    (NoneEmpty pending → NoneEmpty pending')

theorem adds_foldlM {α : Type} {f : ShardPending → α → Result ShardPending}
    {new : α → Nat → Nat → BlockBatchShardChunk → Prop}
    (hf : ∀ pending x pending', f pending x = .ok pending' → Adds (new x) pending pending')
    {xs : List α} (h : xs.foldlM f pending = .ok pending') :
    Adds (fun k root c => ∃ x ∈ xs, new x k root c) pending pending' := by
  induction xs generalizing pending with
  | nil =>
    cases h
    exact ⟨by simp, id⟩
  | cons x xs ih =>
    rw [List.foldlM_cons] at h
    obtain ⟨pending1, h1, h⟩ := bind_eq_ok.1 h
    obtain ⟨hfirst, hne1⟩ := hf _ _ _ h1
    obtain ⟨hrest, hne2⟩ := ih h
    refine ⟨fun k root c => ?_, hne2 ∘ hne1⟩
    simp only [hrest, hfirst, or_assoc, List.exists_mem_cons_iff]

theorem pushChunk_spec {chunk : DeviceWriteChunk} {piece : BlockBatchShardChunk}
    (h : pushChunk pending chunk piece = .ok pending') :
    Adds (fun k root c => k = chunk.shardId ∧ root = chunk.oldRoot ∧ c = piece) pending pending' := by
  have hinsert : ∀ (old new : List BlockBatchShardChunk),
      (∀ shard, pending.lookup chunk.shardId = some shard →
        shard.oldRoot = chunk.oldRoot ∧ shard.chunks = old) →
      (pending.lookup chunk.shardId = none → old = []) → new = old ++ [piece] →
      Adds (fun k root c => k = chunk.shardId ∧ root = chunk.oldRoot ∧ c = piece) pending
        (pending.insert chunk.shardId ⟨chunk.oldRoot, new⟩) := by
    rintro old new hsome hnone rfl
    constructor
    · intro k root c
      by_cases hk : k = chunk.shardId
      · subst hk
        simp only [Pends, AList.lookup_insert, Option.some.injEq, exists_eq_left',
          List.mem_append, List.mem_singleton]
        constructor
        · rintro ⟨rfl, hc | rfl⟩
          · cases hlookup : pending.lookup chunk.shardId with
            | none =>
              rw [hnone hlookup] at hc
              cases hc
            | some shard =>
              obtain ⟨h1, h2⟩ := hsome shard hlookup
              exact .inl ⟨shard, rfl, h1, h2 ▸ hc⟩
          · simp
        · rintro (⟨shard, hlookup, rfl, hc⟩ | ⟨-, rfl, rfl⟩)
          · obtain ⟨h1, h2⟩ := hsome shard hlookup
            exact ⟨h1.symm, .inl (h2 ▸ hc)⟩
          · exact ⟨rfl, .inr rfl⟩
      · simp [Pends, AList.lookup_insert_ne hk, hk]
    · intro hne k shard hlookup
      by_cases hk : k = chunk.shardId
      · subst hk
        rw [AList.lookup_insert] at hlookup
        cases hlookup
        simp
      · rw [AList.lookup_insert_ne hk] at hlookup
        exact hne k shard hlookup
  unfold pushChunk at h
  split at h
  · next hnone =>
    cases h
    exact hinsert [] _ (by simp [hnone]) (fun _ => rfl) rfl
  · next shard hsome =>
    obtain ⟨⟨⟩, hroot, h⟩ := bind_eq_ok.1 h
    cases h
    have hroot : shard.oldRoot = chunk.oldRoot := by simpa using failIf_eq_ok.1 hroot
    rw [hroot]
    refine hinsert shard.chunks _ ?_ (by simp [hsome]) rfl
    rintro shard' hshard'
    cases hsome.symm.trans hshard'
    exact ⟨hroot, rfl⟩

def pieceOf (bs : Nat) (write : CollapsedBlockWrite) (range : BlockRange) : BlockBatchShardChunk :=
  ⟨range, slice write.bytes (range.start * bs - write.offset) (range.blocks * bs), write.tag⟩

/-- The write has all the bytes of the range. -/
def WritesAll (bs : Nat) (write : CollapsedBlockWrite) (range : BlockRange) : Prop :=
  write.offset ≤ range.start * bs ∧ range.stop * bs ≤ write.offset + write.bytes.length

theorem chunkBytes_eq_ok {bs : Nat} {write : CollapsedBlockWrite} {range : BlockRange}
    {piece : BlockBatchShardChunk} (h : chunkBytes bs write range = .ok piece) :
    piece = pieceOf bs write range ∧ WritesAll bs write range := by
  obtain ⟨chunkRange, hrange, h⟩ := bind_eq_ok.1 h
  obtain ⟨offset, hoffset, len, hlen, hrange⟩ := bind2_eq_ok.1 hrange
  cases hrange
  obtain ⟨rfl, -⟩ := checkedMul_eq_ok hoffset
  obtain ⟨rfl, -⟩ := checkedMul_eq_ok hlen
  obtain ⟨chunkOffset, hsub, h⟩ := bind_eq_ok.1 h
  obtain ⟨hle, rfl⟩ := checkedSub_eq_ok hsub
  obtain ⟨-, h⟩ := bind_checkedAdd h
  obtain ⟨⟨⟩, hin, h⟩ := bind_eq_ok.1 h
  cases h
  have hle : write.offset ≤ range.start * bs := hle
  have hin : ¬ range.start * bs - write.offset + range.blocks * bs > write.bytes.length :=
    failIf_eq_ok.1 hin
  have hstop : range.stop * bs = range.start * bs + range.blocks * bs := Nat.add_mul _ _ _
  exact ⟨rfl, hle, by omega⟩

variable {s : MetadataInner} {info : DeviceInfo} {head : DeviceHead} {shards : List MappingTree}
  {w : Nat}

def CollapsedWrite.blocks (bs : Nat) (write : CollapsedBlockWrite) : BlockRange :=
  requestedBlocks bs write.offset write.bytes.length

def ChunkOf (bs : Nat) (head : DeviceHead) (shards : List MappingTree) (write : CollapsedBlockWrite)
    (k root : Nat) (c : BlockBatchShardChunk) : Prop :=
  ∃ t, shards[k]? = some t ∧ head.shardRoots[k]? = some root ∧
    t.range.Meets (CollapsedWrite.blocks bs write) ∧
    c = pieceOf bs write (t.range.meet (CollapsedWrite.blocks bs write)) ∧
    WritesAll bs write (t.range.meet (CollapsedWrite.blocks bs write))

theorem collectWrite_spec (h : Sharded w s info.deviceId head shards) {write : CollapsedBlockWrite}
    (hcollect : collectWrite s info pending write = .ok pending') :
    Adds (ChunkOf info.spec.blockSize head shards write) pending pending' := by
  obtain ⟨⟨⟩, -, chunks, hsplit, hcollect⟩ := bind2_eq_ok.1 hcollect
  have hpush : ∀ pending (chunk : DeviceWriteChunk) pending',
      (chunkBytes info.spec.blockSize write chunk.range >>= pushChunk pending chunk) = .ok pending' →
      Adds (fun k root c => k = chunk.shardId ∧ root = chunk.oldRoot ∧
        c = pieceOf info.spec.blockSize write chunk.range ∧
        WritesAll info.spec.blockSize write chunk.range) pending pending' := by
    intro pending chunk pending' h
    obtain ⟨piece, hpiece, h⟩ := bind_eq_ok.1 h
    obtain ⟨rfl, hall⟩ := chunkBytes_eq_ok hpiece
    simp only [hall, and_true]
    exact pushChunk_spec h
  obtain ⟨hpends, hne⟩ := adds_foldlM hpush hcollect
  refine ⟨fun k root c => ?_, hne⟩
  rw [hpends]
  refine or_congr Iff.rfl ⟨?_, ?_⟩
  · rintro ⟨chunk, hchunk, rfl, rfl, rfl, hall⟩
    obtain ⟨t, ht, hroot, hmeet, hrange⟩ := (mem_splitDeviceRange h hsplit chunk).1 hchunk
    exact ⟨t, ht, hroot, hmeet, hrange ▸ rfl, hrange ▸ hall⟩
  · rintro ⟨t, ht, hroot, hmeet, rfl, hall⟩
    exact ⟨⟨k, root, t.range.meet (CollapsedWrite.blocks info.spec.blockSize write)⟩,
      (mem_splitDeviceRange h hsplit _).2 ⟨t, ht, hroot, hmeet, rfl⟩, rfl, rfl, rfl, hall⟩

theorem collectWrites_spec (h : Sharded w s info.deviceId head shards) {writes : List CollapsedBlockWrite}
    (hcollect : writes.foldlM (collectWrite s info) pending = .ok pending') :
    Adds (fun k root c => ∃ write ∈ writes, ChunkOf info.spec.blockSize head shards write k root c)
      pending pending' :=
  adds_foldlM (fun _ _ _ h1 => collectWrite_spec h h1) hcollect

end

/-! ## Packing -/

section

variable {crc : List UInt8 → Nat} {config : LocalStoreConfig} {bs : Nat}

theorem flatMap_integrityRuns (chunks : List BlockBatchShardChunk) :
    (integrityRuns chunks).flatMap (·.2) = chunks := by
  induction chunks with
  | nil => rfl
  | cons chunk chunks ih =>
    rw [integrityRuns]
    split
    · next hnil =>
      rw [hnil] at ih
      simpa using ih
    · next mode run runs hcons =>
      rw [hcons] at ih
      split <;> simpa using ih

/-- The edit puts the bytes of the chunk in place. -/
def Placed (crc : List UInt8 → Nat) (segments : StorageNodes) (bs : Nat)
    (c : BlockBatchShardChunk) (e : BlockBatchShardEdit) : Prop :=
  e.range = c.range ∧ ∃ bytes,
    segments.Committed crc e.receipt.descriptor.segmentId e.receipt bytes ∧
    ∀ q, q < c.bytes.length → bytes[e.segmentOffset * bs + q]? = c.bytes[q]?

variable {chunks : List BlockBatchShardChunk} {edits : List BlockBatchShardEdit}
  {segments segments' : StorageNodes}

theorem Placed.mono {c : BlockBatchShardChunk} {e : BlockBatchShardEdit}
    (h : Placed crc segments bs c e) (hgrow : segments.Grows crc segments') :
    Placed crc segments' bs c e := by
  obtain ⟨hrange, bytes, hc, hb⟩ := h
  exact ⟨hrange, bytes, hgrow.committed hc, hb⟩

theorem placeChunks_spec {receipt : SegmentWriteReceipt} {offset : Nat} (pre : List UInt8)
    (hpre : pre.length = offset * bs) (hlen : ∀ c ∈ chunks, c.bytes.length = c.range.blocks * bs)
    (h : placeChunks receipt offset chunks = .ok edits) :
    List.Forall₂ (fun c e => e.range = c.range ∧ e.receipt = receipt ∧ ∀ q, q < c.bytes.length →
      (pre ++ chunks.flatMap (·.bytes))[e.segmentOffset * bs + q]? = c.bytes[q]?) chunks edits := by
  induction chunks generalizing offset edits pre with
  | nil =>
    cases h
    exact .nil
  | cons c chunks ih =>
    obtain ⟨-, h⟩ := bind_checkedAdd h
    obtain ⟨rest, hrest, h⟩ := bind_eq_ok.1 h
    cases h
    obtain ⟨hc, hchunks⟩ := List.forall_mem_cons.1 hlen
    have htail := ih (pre ++ c.bytes) (by rw [List.length_append, hpre, hc, Nat.add_mul]) hchunks hrest
    rw [List.append_assoc] at htail
    refine .cons ⟨rfl, rfl, fun q hq => ?_⟩ (by simpa using htail)
    show (pre ++ (c :: chunks).flatMap (·.bytes))[offset * bs + q]? = _
    rw [List.flatMap_cons, List.getElem?_append_right (by omega),
      List.getElem?_append_left (by omega)]
    congr 1
    omega

/-- What is written for one shard, or for one run of its chunks. -/
structure Packed (crc : List UInt8 → Nat) (segments : StorageNodes) (bs : Nat)
    (chunks : List BlockBatchShardChunk) (receipts : List SegmentWriteReceipt)
    (edits : List BlockBatchShardEdit) : Prop where
  placed : List.Forall₂ (Placed crc segments bs) chunks edits
  ready : ∀ r ∈ receipts, segments.Ready r.descriptor.segmentId ∧
    ∃ bytes, segments.Committed crc r.descriptor.segmentId r bytes
  listed : ∀ e ∈ edits, e.receipt ∈ receipts

theorem Packed.mono {receipts : List SegmentWriteReceipt}
    (h : Packed crc segments bs chunks receipts edits) (hgrow : segments.Grows crc segments') :
    Packed crc segments' bs chunks receipts edits :=
  ⟨h.placed.imp fun _ _ hp => hp.mono hgrow, fun r hr => ⟨hgrow.ready (h.ready r hr).1,
    (h.ready r hr).2.imp fun _ hc => hgrow.committed hc⟩, h.listed⟩

theorem Packed.append {chunks' : List BlockBatchShardChunk}
    {receipts receipts' : List SegmentWriteReceipt} {edits' : List BlockBatchShardEdit}
    (h : Packed crc segments bs chunks receipts edits)
    (h' : Packed crc segments bs chunks' receipts' edits') :
    Packed crc segments bs (chunks ++ chunks') (receipts ++ receipts') (edits ++ edits') := by
  refine ⟨List.rel_append h.placed h'.placed, fun r hr => ?_, fun e he => ?_⟩
  · exact (List.mem_append.1 hr).elim (h.ready r) (h'.ready r)
  · exact List.mem_append.2 ((List.mem_append.1 he).imp (h.listed e) (h'.listed e))

variable {s : StorageNodes}

theorem packRun_along (hs : s.Fresh) {run : PayloadIntegrity × List BlockBatchShardChunk}
    (hlen : ∀ c ∈ run.2, c.bytes.length = c.range.blocks * bs) :
    Along (StorageNodes.Grows crc) (packRun crc config bs run) s fun r s' =>
      Packed crc s' bs run.2 [r.1] r.2 := by
  rw [packRun]
  refine Along.check2 fun _ _ => ?_
  refine Along.bind (writeSegment_along hs config.blockSize (run.2.flatMap (·.bytes)) run.1) ?_
  rintro receipt s1 - ⟨hc, -, hready⟩
  refine Along.check fun edits hedits => Along.pure ?_
  have hplaced := placeChunks_spec [] (Nat.zero_mul bs).symm hlen hedits
  refine ⟨hplaced.imp ?_, by simpa using ⟨hready, _, hc⟩, fun e he => ?_⟩
  · rintro c e ⟨hrange, rfl, hbytes⟩
    exact ⟨hrange, _, hc, hbytes⟩
  · obtain ⟨c, -, -, hreceipt, -⟩ := forall₂_mem_right hplaced he
    exact List.mem_singleton.2 hreceipt

theorem packRuns_along (hs : s.Fresh) {runs : List (PayloadIntegrity × List BlockBatchShardChunk)}
    (hlen : ∀ run ∈ runs, ∀ c ∈ run.2, c.bytes.length = c.range.blocks * bs) :
    Along (StorageNodes.Grows crc) (runs.mapM (packRun crc config bs)) s fun rs s' =>
      Packed crc s' bs (runs.flatMap (·.2)) (rs.map (·.1)) (rs.flatMap (·.2)) := by
  have hall := Along.mapM (R := StorageNodes.Grows crc) (f := packRun crc config bs)
    (Q := fun run r s' => Packed crc s' bs run.2 [r.1] r.2) (fun _ _ _ _ hgrow h => h.mono hgrow)
    fun run hrun s' (hgrow : s.Grows crc s') => packRun_along (hgrow.fresh hs) (hlen run hrun)
  refine hall.mono ?_
  clear hall
  intro rs s' _ hrs
  induction hrs with
  | nil => exact ⟨.nil, by simp, by simp⟩
  | cons h _ ih => exact h.append (ih fun run hrun => hlen run (List.mem_cons_of_mem _ hrun))

def PacksShard (crc : List UInt8 → Nat) (segments : StorageNodes) (bs : Nat)
    (row : Nat × BlockBatchShardPending) (shard : PackedShard) : Prop :=
  (shard.shardId = row.1 ∧ shard.oldRoot = row.2.oldRoot) ∧ ∃ chunks,
    chunks.Perm row.2.chunks ∧ Packed crc segments bs chunks shard.receipts shard.edits

theorem PacksShard.mono {row : Nat × BlockBatchShardPending} {shard : PackedShard}
    (h : PacksShard crc segments bs row shard) (hgrow : segments.Grows crc segments') :
    PacksShard crc segments' bs row shard :=
  ⟨h.1, h.2.imp fun _ hp => ⟨hp.1, hp.2.mono hgrow⟩⟩

theorem packShard_along (hs : s.Fresh) {row : Nat × BlockBatchShardPending}
    (hlen : ∀ c ∈ row.2.chunks, c.bytes.length = c.range.blocks * bs) :
    Along (StorageNodes.Grows crc) (packShard crc config bs row) s fun shard s' =>
      PacksShard crc s' bs row shard := by
  rw [packShard]
  have hperm := List.perm_insertionSort
    (fun a b : BlockBatchShardChunk => a.range.start ≤ b.range.start) row.2.chunks
  refine Along.bind (packRuns_along hs ?_) fun rs s1 _ hpacked => Along.pure ⟨⟨rfl, rfl⟩, _, ?_, hpacked⟩
  · intro run hrun c hc
    refine hlen c (hperm.mem_iff.1 ?_)
    rw [← flatMap_integrityRuns (row.2.chunks.insertionSort _)]
    exact List.mem_flatMap.2 ⟨run, hrun, hc⟩
  · rw [flatMap_integrityRuns]
    exact hperm

theorem packShards_along (hs : s.Fresh) {rows : List (Nat × BlockBatchShardPending)}
    (hlen : ∀ row ∈ rows, ∀ c ∈ row.2.chunks, c.bytes.length = c.range.blocks * bs) :
    Along (StorageNodes.Grows crc) (rows.mapM (packShard crc config bs)) s fun packed s' =>
      List.Forall₂ (PacksShard crc s' bs) rows packed :=
  Along.mapM (fun _ _ _ _ hgrow h => h.mono hgrow)
    fun row hrow _ hgrow => packShard_along (hgrow.fresh hs) (hlen row hrow)

end

/-! ## Editing the trees of the shards -/

structure EditsNodes (s s' : Coordinator) : Prop where
  eq : s' = { s with metadata := { s.metadata with nodes := s'.metadata.nodes } }
  nodes : s.metadata.nodes.Grows s'.metadata.nodes

instance : Std.Refl EditsNodes := ⟨fun _ => ⟨rfl, refl _⟩⟩

instance : IsTrans Coordinator EditsNodes := by
  refine ⟨fun s s' s'' h h' => ⟨?_, IsTrans.trans _ _ _ h.nodes h'.nodes⟩⟩
  have h1 := h.eq
  have h2 := h'.eq
  rw [h1] at h2
  exact h2

variable {s : Coordinator}

theorem EditsNodes.storageNodes {s' : Coordinator} (h : EditsNodes s s') :
    s'.storageNodes = s.storageNodes := by rw [h.eq]

theorem EditsNodes.segmentDescriptor {s' : Coordinator} (h : EditsNodes s s') :
    s'.segmentDescriptor = s.segmentDescriptor := by
  funext id
  rw [Coordinator.segmentDescriptor, Coordinator.segmentDescriptor, h.storageNodes]

theorem along_onNodes {α : Type} {x : NodeOp α} {Q : α → NodeStore → Prop}
    (h : Along NodeStore.Grows x s.metadata.nodes Q) :
    Along EditsNodes (onMetadata (onNodes x)) s fun a s' => Q a s'.metadata.nodes :=
  wp_zoom.2 (wp_zoom.2 (wp_mono h (fun _ _ h => ⟨⟨rfl, h.1⟩, h.2⟩) fun _ h => ⟨rfl, h⟩))

theorem descriptorFor_eq {catalog : Nat → Result SegmentDescriptor}
    {receipts : List SegmentDescriptor} (h : ∀ d ∈ receipts, catalog d.segmentId = .ok d) :
    descriptorFor catalog receipts = catalog := by
  funext id
  unfold descriptorFor
  split
  · next d hd =>
    have hmem := List.mem_of_find?_eq_some hd
    have hid : d.segmentId = id := by simpa using List.find?_some hd
    rw [← hid, h d (List.mem_reverse.1 hmem)]
  · rfl

section

variable {s : Coordinator} {config : LocalStoreConfig} {t : MappingTree}

/-- An edit of a stored tree, where the segments of the commit are known to the catalog. -/
theorem replaceTreeRanges_along (hs : s.metadata.nodes.Fresh) (ht : t.Shaped config.blockSize)
    {root : Nat} (hrep : Rep s.metadata.nodes.metadataNodes t root) {receipts : List SegmentDescriptor}
    (hreceipts : ∀ d ∈ receipts, s.segmentDescriptor d.segmentId = .ok d) (edits : List TreeRangeEdit) :
    Along EditsNodes (onMetadata (onNodes (replaceTreeRangesWithReceipts config.blockSize
      s.segmentDescriptor receipts root edits))) s fun result s' => ∃ t',
        t.replaceRanges config.blockSize s.segmentDescriptor edits = .ok (t', result.changed) ∧
        Rep s'.metadata.nodes.metadataNodes t' result.root ∧
        (result.changed = false → result.root = root) := by
  have hfollows : Follows NodeStore.Grows
      (t.replaceRanges config.blockSize (descriptorFor s.segmentDescriptor receipts) edits) _ _ _ :=
    replaceTreeRangesWithReceipts_follows hs ht hrep edits
  rw [descriptorFor_eq hreceipts] at hfollows
  refine (along_onNodes hfollows.along).mono ?_
  rintro result s' - ⟨⟨t', changed⟩, hspec, hout⟩
  have hchanged : result.changed = changed := hout.changed
  exact ⟨t', hchanged ▸ hspec, hout.rep, fun h => hout.same (hchanged ▸ h)⟩

/-- The entries of the edited shard turn the tree `t` into `t'`, stored under the new root. -/
structure EditsShard (w : Nat) (desc : Nat → Result SegmentDescriptor) (nodes : NodeStore)
    (t : MappingTree) (shard : EditedShard) (t' : MappingTree) : Prop where
  rep : Rep nodes.metadataNodes t' shard.root
  edited : ∃ changed,
    t.replaceRanges w desc (shard.entries.map BlockDeltaEntry.edit) = .ok (t', changed)
  shardId_eq : ∀ entry ∈ shard.entries, entry.shardId = shard.shardId

theorem EditsShard.mono {w : Nat} {desc : Nat → Result SegmentDescriptor} {nodes nodes' : NodeStore}
    {t t' : MappingTree} {shard : EditedShard} (h : EditsShard w desc nodes t shard t')
    (hgrow : nodes.Grows nodes') : EditsShard w desc nodes' t shard t' :=
  ⟨h.rep.mono hgrow.nodes, h.edited, h.shardId_eq⟩

theorem treeEdit_eq_ok {edit : BlockBatchShardEdit} {treeEdit : TreeRangeEdit} (shardId : Nat)
    (h : edit.treeEdit = .ok treeEdit) :
    treeEdit = (edit.deltaEntry shardId).edit ∧ edit.segmentOffset ≤ edit.range.start := by
  obtain ⟨base, hbase, h⟩ := bind_eq_ok.1 h
  obtain ⟨hle, rfl⟩ := checkedSub_eq_ok hbase
  cases h
  exact ⟨rfl, hle⟩

/-- How an edited shard comes from what was packed for it. -/
structure EditsPacked (packed : PackedShard) (shard : EditedShard) : Prop where
  shardId_eq : shard.shardId = packed.shardId
  oldRoot_eq : shard.oldRoot = packed.oldRoot
  entries : ∃ edits : List BlockBatchShardEdit, edits.Perm packed.edits ∧
    shard.entries = edits.map (BlockBatchShardEdit.deltaEntry packed.shardId)
  offset_le : ∀ e ∈ packed.edits, e.segmentOffset ≤ e.range.start

theorem editShard_along (hs : s.metadata.nodes.Fresh) (ht : t.Shaped config.blockSize)
    {packed : PackedShard} (hrep : Rep s.metadata.nodes.metadataNodes t packed.oldRoot)
    {receipts : List SegmentWriteReceipt}
    (hreceipts : ∀ r ∈ receipts, s.storageNodes.receiptForSegment r.descriptor.segmentId = .ok r) :
    Along EditsNodes (editShard config receipts packed) s fun shard s' =>
      EditsPacked packed shard ∧ ∃ t', EditsShard config.blockSize s.segmentDescriptor
        s'.metadata.nodes t shard t' := by
  have hdesc : ∀ d ∈ receipts.map (·.descriptor), s.segmentDescriptor d.segmentId = .ok d := by
    intro d hd
    obtain ⟨r, hr, rfl⟩ := List.mem_map.1 hd
    rw [Coordinator.segmentDescriptor, hreceipts r hr]
    rfl
  have hperm := List.perm_insertionSort
    (fun a b : BlockBatchShardEdit => a.range.start ≤ b.range.start) packed.edits
  rw [editShard]
  refine Along.check fun treeEdits hedits => Along.get ?_
  have hall := mapM_eq_ok.1 hedits
  have hmap : treeEdits = ((packed.edits.insertionSort fun a b => a.range.start ≤ b.range.start).map
      (BlockBatchShardEdit.deltaEntry packed.shardId)).map BlockDeltaEntry.edit := by
    rw [List.map_map, ← List.forall₂_eq_eq_eq, List.forall₂_map_right_iff]
    exact hall.flip.imp fun _ _ h => (treeEdit_eq_ok packed.shardId h).1
  refine Along.bind (replaceTreeRanges_along hs ht hrep hdesc treeEdits) ?_
  rintro result s1 - ⟨t', hspec, hrep', -⟩
  refine Along.pure ⟨⟨rfl, rfl, ⟨_, hperm, rfl⟩, fun e he => ?_⟩, t', hrep', ⟨_, hmap ▸ hspec⟩, ?_⟩
  · obtain ⟨treeEdit, -, h⟩ := forall₂_mem_left hall (hperm.mem_iff.2 he)
    exact (treeEdit_eq_ok packed.shardId h).2
  · intro entry hentry
    obtain ⟨e, -, rfl⟩ := List.mem_map.1 hentry
    rfl

theorem editShards_along (hs : s.metadata.nodes.Fresh) {packed : List PackedShard}
    (hshards : ∀ p ∈ packed, ∃ t, t.Shaped config.blockSize ∧ Rep s.metadata.nodes.metadataNodes t p.oldRoot)
    {receipts : List SegmentWriteReceipt}
    (hreceipts : ∀ r ∈ receipts, s.storageNodes.receiptForSegment r.descriptor.segmentId = .ok r) :
    Along EditsNodes (packed.mapM (editShard config receipts)) s fun edited s' =>
      List.Forall₂ (fun p shard => EditsPacked p shard ∧ ∃ t t',
        Rep s.metadata.nodes.metadataNodes t p.oldRoot ∧
        EditsShard config.blockSize s.segmentDescriptor s'.metadata.nodes t shard t') packed edited := by
  refine Along.mapM (Q := fun p shard (s' : Coordinator) => EditsPacked p shard ∧ ∃ t t',
    Rep s.metadata.nodes.metadataNodes t p.oldRoot ∧
    EditsShard config.blockSize s.segmentDescriptor s'.metadata.nodes t shard t') ?_ ?_
  · rintro p shard s1 s2 hgrow ⟨hp, t, t', hrep, hedit⟩
    exact ⟨hp, t, t', hrep, hedit.mono hgrow.nodes⟩
  · intro p hp s1 hgrow
    obtain ⟨t, ht, hrep⟩ := hshards p hp
    refine (editShard_along (hgrow.nodes.fresh hs) ht (hrep.mono hgrow.nodes.nodes) ?_).mono ?_
    · rw [hgrow.storageNodes]
      exact hreceipts
    · rintro shard s2 - ⟨hpacked, t', hedit⟩
      rw [hgrow.segmentDescriptor] at hedit
      exact ⟨hpacked, t, t', hrep, hedit⟩

theorem filter_entries_of_mem {edited : List EditedShard}
    (hdistinct : edited.Pairwise fun a b => a.shardId ≠ b.shardId)
    (hown : ∀ e ∈ edited, ∀ entry ∈ e.entries, entry.shardId = e.shardId) {e : EditedShard}
    (he : e ∈ edited) : (edited.flatMap (·.entries)).filter (·.shardId = e.shardId) = e.entries := by
  induction edited with
  | nil => cases he
  | cons d edited ih =>
    obtain ⟨hd, hrest⟩ := List.pairwise_cons.1 hdistinct
    obtain ⟨hownd, hownrest⟩ := List.forall_mem_cons.1 hown
    rw [List.flatMap_cons, List.filter_append]
    rcases List.mem_cons.1 he with rfl | he
    · rw [List.filter_eq_self.2 fun entry h => decide_eq_true (hownd entry h),
        List.filter_eq_nil_iff.2, List.append_nil]
      intro entry hentry
      obtain ⟨f, hf, hentry⟩ := List.mem_flatMap.1 hentry
      rw [hownrest f hf entry hentry]
      simpa using (hd f hf).symm
    · rw [List.filter_eq_nil_iff.2, List.nil_append]
      · exact ih hrest hownrest he
      · intro entry hentry
        rw [hownd entry hentry]
        simpa using hd e he

theorem shardsEdited_of_edited {w : Nat} {desc : Nat → Result SegmentDescriptor}
    {nodes nodes' : NodeStore} (hgrow : nodes.Grows nodes') {shards : List MappingTree}
    {roots : List Nat} (hrep : List.Forall₂ (fun t id => Rep nodes.metadataNodes t id) shards roots)
    {edited : List EditedShard} (hdistinct : edited.Pairwise fun a b => a.shardId ≠ b.shardId)
    (hedited : ∀ e ∈ edited, ∃ t t', shards[e.shardId]? = some t ∧ EditsShard w desc nodes' t e t') :
    ∃ shards', ShardsEdited w desc (edited.flatMap (·.entries)) shards shards' ∧
      List.Forall₂ (fun t id => Rep nodes'.metadataNodes t id) shards'
        (setAll roots (edited.map fun e => (e.shardId, e.root))) := by
  obtain ⟨news, hnews⟩ : ∃ news : List (Nat × MappingTree), List.Forall₂ (fun new e =>
      new.1 = e.shardId ∧ ∃ t, shards[e.shardId]? = some t ∧ EditsShard w desc nodes' t e new.2)
      news edited := by
    refine exists_forall₂ fun e he => ?_
    obtain ⟨t, t', ht, hedit⟩ := hedited e he
    exact ⟨(e.shardId, t'), rfl, t, ht, hedit⟩
  have hown : ∀ e ∈ edited, ∀ entry ∈ e.entries, entry.shardId = e.shardId := by
    intro e he
    obtain ⟨t, t', -, hedit⟩ := hedited e he
    exact hedit.shardId_eq
  have hkeys : news.map (·.1) = edited.map (·.shardId) := by
    rw [← List.forall₂_eq_eq_eq, List.forall₂_map_left_iff, List.forall₂_map_right_iff]
    exact hnews.imp fun _ _ h => h.1
  have hnewsdistinct : news.Pairwise fun a b => a.1 ≠ b.1 := by
    have := List.pairwise_map.2 hdistinct
    rw [← hkeys, List.pairwise_map] at this
    exact this
  refine ⟨setAll shards news, ⟨length_setAll, fun k t ht => ?_⟩, ?_⟩
  · by_cases hk : ∃ e ∈ edited, e.shardId = k
    · obtain ⟨e, he, rfl⟩ := hk
      obtain ⟨⟨k, t'⟩, hnew, heq, u, hu, hedit⟩ := forall₂_mem_right hnews he
      have heq : k = e.shardId := heq
      subst heq
      cases ht.symm.trans hu
      obtain ⟨changed, hchanged⟩ := hedit.edited
      obtain ⟨hlt, -⟩ := List.getElem?_eq_some_iff.1 ht
      refine ⟨t', changed, getElem?_setAll_of_mem hnewsdistinct hnew hlt, ?_⟩
      rw [shardEdits, filter_entries_of_mem hdistinct hown he]
      exact hchanged
    · refine ⟨t, false, ?_, ?_⟩
      · rw [getElem?_setAll_of_not_mem]
        · exact ht
        · intro new hnew heq
          obtain ⟨e, he, hkey, -⟩ := forall₂_mem_left hnews hnew
          exact hk ⟨e, he, hkey.symm.trans heq⟩
      · have hnil : shardEdits (edited.flatMap (·.entries)) k = [] := by
          rw [shardEdits, List.filter_eq_nil_iff.2]
          · rfl
          · intro entry hentry
            obtain ⟨e, he, hentry⟩ := List.mem_flatMap.1 hentry
            rw [hown e he entry hentry]
            simpa using fun h => hk ⟨e, he, h⟩
        rw [hnil]
        rfl
  · refine forall₂_setAll (hrep.imp fun _ _ h => h.mono hgrow.nodes) ?_
    rw [List.forall₂_map_right_iff]
    refine hnews.imp ?_
    rintro new e ⟨hkey, t, -, hedit⟩
    exact ⟨hkey, hedit.rep⟩

end

/-! ## The array after a batch -/

section

variable {crc : List UInt8 → Nat} {segments : StorageNodes} {bs n : Nat} {head : DeviceHead}
  {shards : List MappingTree} {write : CollapsedBlockWrite} {k root : Nat}
  {c : BlockBatchShardChunk} {flat : List UInt8}

theorem WritesAll.length_slice {range : BlockRange} (h : WritesAll bs write range) :
    (pieceOf bs write range).bytes.length = range.blocks * bs := by
  obtain ⟨h1, h2⟩ := h
  have hstop : range.stop * bs = range.start * bs + range.blocks * bs := Nat.add_mul _ _ _
  exact Lib.length_slice (by omega)

theorem ChunkOf.length_eq (h : ChunkOf bs head shards write k root c) :
    c.bytes.length = c.range.blocks * bs := by
  obtain ⟨t, -, -, -, rfl, hall⟩ := h
  exact hall.length_slice

theorem ChunkOf.bytes_eq (h : ChunkOf bs head shards write k root c) {i j : Nat}
    (hi : c.range.start ≤ i) (hi' : i < c.range.stop) (hj : j < bs) :
    (i - c.range.start) * bs + j < c.bytes.length ∧ write.offset ≤ i * bs + j ∧
      c.bytes[(i - c.range.start) * bs + j]? = write.bytes[i * bs + j - write.offset]? := by
  have hlen := h.length_eq
  obtain ⟨t, -, -, -, rfl, hall, -⟩ := h
  generalize t.range.meet (CollapsedWrite.blocks bs write) = range at *
  have hi : range.start ≤ i := hi
  have hi' : i < range.start + range.blocks := hi'
  have hlen : (pieceOf bs write range).bytes.length = range.blocks * bs := hlen
  show (i - range.start) * bs + j < _ ∧ _
  have hsub : (i - range.start) * bs + range.start * bs = i * bs := by
    rw [← Nat.add_mul, Nat.sub_add_cancel hi]
  have hle : (i - range.start + 1) * bs ≤ range.blocks * bs := by
    exact Nat.mul_le_mul_right bs (by omega)
  rw [Nat.succ_mul] at hle
  have hlt : (i - range.start) * bs + j < range.blocks * bs := by omega
  refine ⟨by rw [hlen]; exact hlt, by omega, ?_⟩
  show (slice write.bytes _ _)[(i - range.start) * bs + j]? = _
  rw [getElem?_slice, if_pos hlt]
  congr 1
  omega

theorem chunkOf_of_meets (haligned : write.Aligned bs) {t : MappingTree}
    (ht : shards[k]? = some t) (hroot : head.shardRoots[k]? = some root)
    (hmeet : t.range.Meets (CollapsedWrite.blocks bs write)) : ChunkOf bs head shards write k root
      (pieceOf bs write (t.range.meet (CollapsedWrite.blocks bs write))) := by
  refine ⟨t, ht, hroot, hmeet, rfl, ?_, ?_⟩
  · calc write.offset = write.offset / bs * bs := (Nat.div_mul_cancel haligned.1).symm
      _ ≤ _ := Nat.mul_le_mul_right bs (le_max_right _ _)
  · have hstop : (t.range.meet (CollapsedWrite.blocks bs write)).stop ≤
        write.offset / bs + write.bytes.length / bs := by
      rw [BlockRange.stop_meet hmeet]
      exact min_le_right _ _
    calc _ ≤ (write.offset / bs + write.bytes.length / bs) * bs := Nat.mul_le_mul_right bs hstop
      _ = write.offset + write.bytes.length := by
        rw [Nat.add_mul, Nat.div_mul_cancel haligned.1, Nat.div_mul_cancel haligned.2]

variable {done : List (Nat × List UInt8)} {ws : List CollapsedBlockWrite}

theorem Collapses.getElem?_of_mem (h : Collapses bs n done ws) (hflat : flat.length = n)
    (hwrite : write ∈ ws) {x : Nat} {v : UInt8} (hx : write.offset ≤ x)
    (hv : write.bytes[x - write.offset]? = some v) : (spliceAll flat done)[x]? = some v := by
  rw [h.shows flat hflat x, (valueAt_eq_some h.collapsed.ordered.apart).2
    ⟨write.span, List.mem_map_of_mem hwrite, CollapsedWrite.at_iff.2 ⟨hx, hv⟩⟩]
  rfl

theorem Collapses.eq_or_mem (h : Collapses bs n done ws) (hbs : 0 < bs) (hflat : flat.length = n)
    {i j : Nat} (hj : j < bs) : (spliceAll flat done).getD (i * bs + j) 0 = flat.getD (i * bs + j) 0 ∨
      ∃ write ∈ ws, write.offset / bs ≤ i ∧ i < write.offset / bs + write.bytes.length / bs := by
  cases hv : valueAt (ws.map CollapsedWrite.span) (i * bs + j) with
  | none =>
    left
    rw [List.getD_eq_getElem?_getD, List.getD_eq_getElem?_getD, h.shows flat hflat, hv]
    rfl
  | some v =>
    right
    obtain ⟨_, hmem, h1, h2, -⟩ := shows_of_valueAt hv
    obtain ⟨write, hwrite, rfl⟩ := List.mem_map.1 hmem
    obtain ⟨hd1, hd2⟩ := h.collapsed.aligned write hwrite
    have h1 : write.offset ≤ i * bs + j := h1
    have h2 : i * bs + j < write.offset + write.bytes.length := h2
    have hdiv : (i * bs + j) / bs = i := by
      rw [Nat.mul_comm, Nat.mul_add_div hbs, Nat.div_eq_of_lt hj, Nat.add_zero]
    refine ⟨write, hwrite, ?_, ?_⟩
    · rw [← hdiv]
      exact Nat.div_le_div_right h1
    · refine Nat.lt_of_mul_lt_mul_right (a := bs) ?_
      rw [Nat.add_mul, Nat.div_mul_cancel hd1, Nat.div_mul_cancel hd2]
      omega

/-- The entries of a batch show what its writes leave. -/
theorem entriesShow_of_batch (hbs : 0 < bs) (hcollapses : Collapses bs n done ws)
    (hflat : flat.length = n) (hlen : shards.length = head.shardRoots.length)
    {pending : ShardPending} (hpending : ∀ k root c, Pends pending k root c ↔
      ∃ write ∈ ws, ChunkOf bs head shards write k root c)
    {packed : List PackedShard} (hpacked : List.Forall₂ (PacksShard crc segments bs) pending.rows packed)
    {edited : List EditedShard} (hedited : List.Forall₂ EditsPacked packed edited) :
    EntriesShow crc segments bs shards (edited.flatMap (·.entries)) flat (spliceAll flat done) where
  length_eq := length_spliceAll (by rw [hflat]; exact hcollapses.inside)
  hit := by
    intro entry hentry i hhit
    obtain ⟨shard, hshard, hentry⟩ := List.mem_flatMap.1 hentry
    obtain ⟨p, hp, hep⟩ := forall₂_mem_right hedited hshard
    obtain ⟨⟨k, pend⟩, hrow, -, chunks, hperm, hpack⟩ := forall₂_mem_right hpacked hp
    obtain ⟨edits, heperm, hentries⟩ := hep.entries
    rw [hentries] at hentry
    obtain ⟨e, he, rfl⟩ := List.mem_map.1 hentry
    have he := heperm.mem_iff.1 he
    have hoffset := hep.offset_le e he
    obtain ⟨c, hc, hrange, bytes, hcommitted, hbytes⟩ := forall₂_mem_right hpack.placed he
    obtain ⟨write, hwrite, hchunk⟩ := (hpending k pend.oldRoot c).1
      ⟨pend, Table.mem_rows.1 hrow, rfl, hperm.mem_iff.1 hc⟩
    have hi : c.range.start ≤ i := hrange ▸ hhit.1
    have hi' : i < c.range.stop := hrange ▸ hhit.2
    refine ⟨e.receipt, bytes, hcommitted, fun j hj => ?_⟩
    obtain ⟨hlt, hle, heq⟩ := hchunk.bytes_eq hi hi' hj
    have hpos : (i - (e.range.start - e.segmentOffset)) * bs + j =
        e.segmentOffset * bs + ((i - c.range.start) * bs + j) := by
      rw [← Nat.add_assoc, ← Nat.add_mul]
      congr 2
      rw [hrange] at hoffset ⊢
      omega
    have hvalue := hbytes _ hlt
    rw [← hpos] at hvalue
    have hsome : c.bytes[(i - c.range.start) * bs + j]? =
        some (c.bytes.get ⟨(i - c.range.start) * bs + j, hlt⟩) := List.getElem?_eq_getElem hlt
    have hflat' := hcollapses.getElem?_of_mem hflat hwrite hle (heq.symm.trans hsome)
    refine hvalue.trans (hsome.trans ?_)
    show _ = some ((spliceAll flat done).getD _ _)
    rw [List.getD_eq_getElem?_getD, hflat']
    rfl
  miss := by
    intro k t i ht hi hmiss j hj
    refine (hcollapses.eq_or_mem hbs hflat hj).resolve_right ?_
    rintro ⟨write, hwrite, h1, h2⟩
    have hmeet : t.range.Meets (CollapsedWrite.blocks bs write) :=
      BlockRange.meets_of_mem hi ⟨h1, h2⟩
    obtain ⟨hlt, -⟩ := List.getElem?_eq_some_iff.1 ht
    have hchunk := chunkOf_of_meets (hcollapses.collapsed.aligned write hwrite) ht
      (List.getElem?_eq_getElem (hlen ▸ hlt : k < head.shardRoots.length)) hmeet
    obtain ⟨pend, hlookup, -, hc⟩ := (hpending _ _ _).2 ⟨write, hwrite, hchunk⟩
    obtain ⟨p, hp, ⟨hid, -⟩, chunks, hperm, hpack⟩ :=
      forall₂_mem_left hpacked (Table.mem_rows.2 hlookup)
    obtain ⟨e, he, hrange, -⟩ := forall₂_mem_left hpack.placed (hperm.mem_iff.2 hc)
    obtain ⟨shard, hshard, hep⟩ := forall₂_mem_left hedited hp
    obtain ⟨edits, heperm, hentries⟩ := hep.entries
    refine hmiss (e.deltaEntry p.shardId) (List.mem_flatMap.2 ⟨shard, hshard, ?_⟩) hid ⟨?_, ?_⟩
    · rw [hentries]
      exact List.mem_map_of_mem (heperm.mem_iff.2 he)
    · show e.range.start ≤ i
      rw [hrange]
      exact max_le hi.1 h1
    · show i < e.range.stop
      rw [hrange]
      show i < (t.range.meet (CollapsedWrite.blocks bs write)).stop
      rw [BlockRange.stop_meet hmeet]
      exact lt_min hi.2 h2

end

end CowStore.Local
