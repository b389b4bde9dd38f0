import CowStore.Local.Segments

/-!
# Collapsing a batch

The writes of a batch may overlap.  They are collapsed into writes that do not: a later
write cuts the earlier ones around it.  What the collapsed writes show is what the batch
leaves when its writes are made one after the other.
-/

namespace CowStore.Local

open Lib Object StorageError

/-- A write of a collapsed batch, with what the kind of the batch keeps beside the bytes. -/
structure CollapsedWrite (M : Type) where
  offset : Nat
  bytes : List UInt8
  tag : M
  deriving DecidableEq, Repr

section

variable {M V : Type}

def CollapsedWrite.stop (w : CollapsedWrite M) : Nat := w.offset + w.bytes.length

def CollapsedWrite.endExclusive (w : CollapsedWrite M) (overflow : StorageError) : Result Nat :=
  checkedAdd w.offset w.bytes.length overflow

/-- What a write from `offset` to `stop` leaves of an earlier one. -/
def cutWrite (overflow : StorageError) (offset stop : Nat) (existing : CollapsedWrite M) :
    Result (List (CollapsedWrite M)) := do
  let existingEnd ← existing.endExclusive overflow
  if existingEnd ≤ offset ∨ existing.offset ≥ stop then
    return [existing]
  else
    return (if existing.offset < offset then
        [⟨existing.offset, existing.bytes.take (offset - existing.offset), existing.tag⟩]
      else []) ++
      (if stop < existingEnd then
        [⟨stop, existing.bytes.drop (stop - existing.offset), existing.tag⟩]
      else [])

def overwrite (overflow : StorageError) (collapsed : List (CollapsedWrite M)) (offset stop : Nat)
    (bytes : List UInt8) (tag : M) : Result (List (CollapsedWrite M)) := do
  let kept ← collapsed.mapM (cutWrite overflow offset stop)
  let next : List (CollapsedWrite M) := kept.flatten ++ [⟨offset, bytes, tag⟩]
  return next.insertionSort fun a b => a.offset ≤ b.offset

/-! ## What the collapsed writes show -/

def CollapsedWrite.span (w : CollapsedWrite M) : Span UInt8 :=
  ⟨w.offset, w.bytes.length, fun i => w.bytes.getD (i - w.offset) 0⟩

/-- The span of a write whose positions show what `f` makes of the byte and of the tag. -/
def CollapsedWrite.spanBy (f : UInt8 → M → V) (w : CollapsedWrite M) : Span V :=
  ⟨w.offset, w.bytes.length, fun i => f (w.bytes.getD (i - w.offset) 0) w.tag⟩

def CollapsedWrite.cells (w : CollapsedWrite M) : Span (UInt8 × M) := w.spanBy Prod.mk

variable {w : CollapsedWrite M} {ws : List (CollapsedWrite M)} {offset stop : Nat}
  {overflow : StorageError}

theorem CollapsedWrite.at_iff {i : Nat} {v : UInt8} :
    w.span.At i v ↔ w.offset ≤ i ∧ w.bytes[i - w.offset]? = some v := by
  have hstop : w.span.stop = w.offset + w.bytes.length := rfl
  constructor
  · rintro ⟨h1, h2, h3⟩
    have h1 : w.offset ≤ i := h1
    refine ⟨h1, ?_⟩
    rw [List.getElem?_eq_getElem (by omega), ← h3]
    show _ = some (w.bytes.getD _ _)
    rw [List.getD_eq_getElem?_getD, List.getElem?_eq_getElem (by omega)]
    rfl
  · rintro ⟨h1, h2⟩
    obtain ⟨hlt, -⟩ := List.getElem?_eq_some_iff.1 h2
    refine ⟨h1, by omega, ?_⟩
    show w.bytes.getD _ _ = v
    rw [List.getD_eq_getElem?_getD, h2]
    rfl

variable {f : UInt8 → M → V}

theorem cuts_of_cutWrite {kept : List (CollapsedWrite M)} (hle : offset ≤ stop)
    (hw : 0 < w.bytes.length) (h : cutWrite overflow offset stop w = .ok kept) :
    Cuts offset stop (w.spanBy f) (kept.map (CollapsedWrite.spanBy f)) := by
  obtain ⟨-, h⟩ := bind_checkedAdd h
  have hstart : (w.spanBy f).start = w.offset := rfl
  have hstop : (w.spanBy f).stop = w.offset + w.bytes.length := rfl
  split at h
  · next hapart =>
    cases h
    exact cuts_of_apart hapart hw
  · next hmeet =>
    cases h
    have hcut := cuts_of_trim (e := w.spanBy f)
      (l := CollapsedWrite.spanBy f ⟨w.offset, w.bytes.take (offset - w.offset), w.tag⟩)
      (r := CollapsedWrite.spanBy f ⟨stop, w.bytes.drop (stop - w.offset), w.tag⟩)
      (by omega) (by omega) hle ?_ ?_
    · rw [hstart, hstop] at hcut
      convert hcut using 1
      rw [List.map_append]
      congr 1 <;> split <;> rfl
    · intro hlt
      refine ⟨rfl, ?_, fun i hi hi' => ?_⟩
      · show w.offset + (w.bytes.take (offset - w.offset)).length = offset
        rw [List.length_take]
        omega
      · have hi : w.offset ≤ i := hi
        have hi' : i < w.offset + (w.bytes.take (offset - w.offset)).length := hi'
        rw [List.length_take] at hi'
        show f ((w.bytes.take (offset - w.offset)).getD (i - w.offset) 0) w.tag = f _ w.tag
        rw [List.getD_eq_getElem?_getD, List.getD_eq_getElem?_getD, List.getElem?_take,
          if_pos (by omega)]
    · intro hlt
      refine ⟨rfl, ?_, fun i hi hi' => ?_⟩
      · show stop + (w.bytes.drop (stop - w.offset)).length = w.offset + w.bytes.length
        rw [List.length_drop]
        omega
      · have hi : stop ≤ i := hi
        show f ((w.bytes.drop (stop - w.offset)).getD (i - stop) 0) w.tag = f _ w.tag
        rw [List.getD_eq_getElem?_getD, List.getD_eq_getElem?_getD, List.getElem?_drop]
        congr 3
        omega

/-- The outcome shows the new write and, outside of it, what was shown before. -/
theorem overwrite_spec {out : List (CollapsedWrite M)} {bytes : List UInt8} {tag : M}
    (hws : Ordered (ws.map (CollapsedWrite.spanBy f))) (hbytes : 0 < bytes.length)
    (h : overwrite overflow ws offset (offset + bytes.length) bytes tag = .ok out) :
    Ordered (out.map (CollapsedWrite.spanBy f)) ∧ ∀ i v, Shows (out.map (CollapsedWrite.spanBy f)) i v ↔
        (CollapsedWrite.spanBy f ⟨offset, bytes, tag⟩).At i v ∨ (i < offset ∨ offset + bytes.length ≤ i) ∧
            Shows (ws.map (CollapsedWrite.spanBy f)) i v := by
  obtain ⟨kept, hkept, h⟩ := bind_eq_ok.1 h
  cases h
  have hle : offset ≤ offset + bytes.length := Nat.le_add_right _ _
  have hpos : ∀ w ∈ ws, 0 < w.bytes.length := fun w hw => hws.2 _ (List.mem_map_of_mem hw)
  have hcuts : List.Forall₂ (Cuts offset (offset + bytes.length))
      (ws.map (CollapsedWrite.spanBy f)) (kept.map (List.map (CollapsedWrite.spanBy f))) := by
    rw [List.forall₂_map_left_iff, List.forall₂_map_right_iff]
    exact ((List.forall₂_and_left _ _).2 ⟨hpos, mapM_eq_ok.1 hkept⟩).imp
      fun w ks hw => cuts_of_cutWrite hle hw.1 hw.2
  let new : CollapsedWrite M := ⟨offset, bytes, tag⟩
  have hsort := List.perm_insertionSort (fun a b : CollapsedWrite M => a.offset ≤ b.offset)
    (kept.flatten ++ [new])
  have hperm := hsort.map (CollapsedWrite.spanBy f)
  rw [List.map_append, List.map_flatten] at hperm
  refine ⟨ordered_of_cuts [new.spanBy f] hcuts hws.apart (List.pairwise_singleton _ _) ?_ hperm ?_,
    ?_⟩
  · intro s hs
    rw [List.mem_singleton.1 hs]
    exact ⟨le_rfl, le_rfl, hbytes⟩
  · rw [List.pairwise_map]
    exact List.pairwise_insertionSort _ _
  · intro i v
    rw [shows_perm hperm, shows_append, shows_flatten_cuts hcuts, or_comm, and_comm,
      List.map_singleton, shows_cons, or_iff_left (shows_nil i v)]

theorem exists_overwrite (hws : ∀ w ∈ ws, w.stop < u64Bound) (overflow : StorageError)
    (offset stop : Nat) (bytes : List UInt8) (tag : M) :
    ∃ out, overwrite overflow ws offset stop bytes tag = .ok out := by
  have hcut : ∀ w ∈ ws, ∃ kept, cutWrite overflow offset stop w = .ok kept := by
    intro w hw
    rw [cutWrite, CollapsedWrite.endExclusive, checkedAdd_of_lt (hws w hw), ok_bind]
    split <;> exact ⟨_, rfl⟩
  obtain ⟨kept, hkept⟩ := exists_mapM hcut
  exact ⟨_, by rw [overwrite, hkept]; rfl⟩

/-- The bounds of every write are multiples of `bs`. -/
def CollapsedWrite.Aligned (bs : Nat) (w : CollapsedWrite M) : Prop :=
  bs ∣ w.offset ∧ bs ∣ w.bytes.length

theorem aligned_of_cutWrite {bs : Nat} {kept : List (CollapsedWrite M)} (hoffset : bs ∣ offset)
    (hstop : bs ∣ stop) (hw : w.Aligned bs) (h : cutWrite overflow offset stop w = .ok kept) :
    ∀ k ∈ kept, k.Aligned bs := by
  obtain ⟨existingEnd, -, h⟩ := bind_eq_ok.1 h
  split at h
  · cases h
    simpa using hw
  · cases h
    intro k hk
    rcases List.mem_append.1 hk with hk | hk <;> split at hk <;>
      simp only [List.mem_singleton, List.not_mem_nil] at hk
    · subst hk
      refine ⟨hw.1, ?_⟩
      rw [List.length_take]
      rcases Nat.le_total (offset - w.offset) w.bytes.length with hle | hle
      · rw [Nat.min_eq_left hle]
        exact Nat.dvd_sub hoffset hw.1
      · rw [Nat.min_eq_right hle]
        exact hw.2
    · subst hk
      refine ⟨hstop, ?_⟩
      rw [List.length_drop]
      exact Nat.dvd_sub hw.2 (Nat.dvd_sub hstop hw.1)

theorem aligned_of_overwrite {bs : Nat} {out : List (CollapsedWrite M)} {bytes : List UInt8}
    {tag : M} (hws : ∀ w ∈ ws, w.Aligned bs) (hoffset : bs ∣ offset) (hstop : bs ∣ stop)
    (hlen : bs ∣ bytes.length) (h : overwrite overflow ws offset stop bytes tag = .ok out) :
    ∀ w ∈ out, w.Aligned bs := by
  obtain ⟨kept, hkept, h⟩ := bind_eq_ok.1 h
  cases h
  intro w hw
  rw [List.mem_insertionSort, List.mem_append, List.mem_flatten, List.mem_singleton] at hw
  rcases hw with ⟨ks, hks, hw⟩ | rfl
  · obtain ⟨u, hu, hcut⟩ := forall₂_mem_right (mapM_eq_ok.1 hkept) hks
    exact aligned_of_cutWrite hoffset hstop (hws u hu) hcut w hw
  · exact ⟨hoffset, hlen⟩

end

/-! ## Batches of block writes -/

structure BlockBatchWrite where
  offset : Nat
  bytes : List UInt8
  payloadIntegrity : PayloadIntegrity
  deriving DecidableEq, Repr

namespace BlockBatchWrite

def byteRange (write : BlockBatchWrite) : Result ByteRange := do
  failIf (write.bytes.length ≥ u64Bound) (invalidArgument "batch write byte length overflows u64")
  return ⟨write.offset, write.bytes.length⟩

def validateForDevice (write : BlockBatchWrite) (spec : DeviceSpec) : Result Unit := do
  let range ← write.byteRange
  failIf (range.len = 0) (invalidArgument "batch write must contain at least one byte")
  range.validateForDevice spec

end BlockBatchWrite

abbrev CollapsedBlockWrite := CollapsedWrite PayloadIntegrity

def blockWriteOverflow : StorageError := invalidArgument "block batch write range overflows"

def joinBlockWrites (last write : CollapsedBlockWrite) : Result (Option CollapsedBlockWrite) := do
  if last.tag = write.tag then
    let stop ← last.endExclusive blockWriteOverflow
    return if stop = write.offset then some ⟨last.offset, last.bytes ++ write.bytes, last.tag⟩ else none
  else
    return none

def insertCollapsedBlockWrite (collapsed : List CollapsedBlockWrite) (offset : Nat)
    (bytes : List UInt8) (payloadIntegrity : PayloadIntegrity) :
    Result (List CollapsedBlockWrite) := do
  let stop ← checkedAdd offset bytes.length (invalidArgument "block batch range overflows")
  let next ← overwrite blockWriteOverflow collapsed offset stop bytes payloadIntegrity
  coalesce joinBlockWrites next

def collapseBlockBatchWrite (spec : DeviceSpec) (maxBatchBytes : Nat)
    (acc : List CollapsedBlockWrite × Nat) (write : BlockBatchWrite) :
    Result (List CollapsedBlockWrite × Nat) := do
  write.validateForDevice spec
  let totalBytes ← checkedAdd acc.2 write.bytes.length
    (invalidArgument "block batch byte length overflows")
  failIf (totalBytes > maxBatchBytes)
    (invalidArgument "block batch exceeds maximum payload bytes")
  let collapsed ← insertCollapsedBlockWrite acc.1 write.offset write.bytes write.payloadIntegrity
  return (collapsed, totalBytes)

def collapseBlockBatchWrites (writes : List BlockBatchWrite) (spec : DeviceSpec)
    (maxBatchBytes : Nat) : Result (List CollapsedBlockWrite) := do
  failIf (writes = []) (invalidArgument "block batch must not be empty")
  let (collapsed, _) ← writes.foldlM (collapseBlockBatchWrite spec maxBatchBytes) ([], 0)
  failIf (collapsed = [])
    (invalidArgument "block batch must contain at least one non-empty write")
  return collapsed

variable {a b m : CollapsedBlockWrite} {spec : DeviceSpec} {writes : List BlockBatchWrite}
  {out ws : List CollapsedBlockWrite} {bytes : List UInt8} {bs maxBytes offset : Nat}
  {mode : PayloadIntegrity}

theorem joinBlockWrites_eq_ok {o : Option CollapsedBlockWrite} :
    joinBlockWrites a b = .ok o ↔ (a.tag = b.tag → a.stop < u64Bound) ∧
      o = if a.tag = b.tag ∧ a.stop = b.offset then some ⟨a.offset, a.bytes ++ b.bytes, a.tag⟩ else none := by
  unfold joinBlockWrites
  by_cases htag : a.tag = b.tag
  · simp only [htag, if_true, true_imp_iff, true_and, bind_eq_ok, pure_eq_ok, Except.ok.injEq]
    constructor
    · rintro ⟨stop, hstop, rfl⟩
      obtain ⟨rfl, hlt⟩ := checkedAdd_eq_ok hstop
      exact ⟨hlt, rfl⟩
    · rintro ⟨hlt, rfl⟩
      exact ⟨a.stop, checkedAdd_of_lt hlt, rfl⟩
  · simp [htag, eq_comm]

theorem joinBlockWrites_eq_some (h : joinBlockWrites a b = .ok (some m)) :
    (a.tag = b.tag ∧ a.stop = b.offset) ∧ m = ⟨a.offset, a.bytes ++ b.bytes, a.tag⟩ := by
  have hm := (joinBlockWrites_eq_ok.1 h).2
  simp only [eq_comm (a := some m), Option.ite_none_right_eq_some, Option.some.injEq] at hm
  exact ⟨hm.1, hm.2.symm⟩

theorem joins_of_joinBlockWrites {f : UInt8 → PayloadIntegrity → V}
    (h : joinBlockWrites a b = .ok (some m)) : Joins (a.spanBy f) (b.spanBy f) (m.spanBy f) := by
  obtain ⟨⟨htag, htouch⟩, rfl⟩ := joinBlockWrites_eq_some h
  have htouch : a.offset + a.bytes.length = b.offset := htouch
  refine ⟨htouch, rfl, ?_, fun i hi hi' => ?_, fun i hi hi' => ?_⟩
  · show a.offset + (a.bytes ++ b.bytes).length = b.offset + b.bytes.length
    rw [List.length_append]
    omega
  · have hi : a.offset ≤ i := hi
    have hi' : i < a.offset + a.bytes.length := hi'
    show f ((a.bytes ++ b.bytes).getD (i - a.offset) 0) a.tag = f _ a.tag
    rw [List.getD_eq_getElem?_getD, List.getD_eq_getElem?_getD,
      List.getElem?_append_left (by omega)]
  · have hi : b.offset ≤ i := hi
    show f ((a.bytes ++ b.bytes).getD (i - a.offset) 0) a.tag = f _ b.tag
    rw [htag, List.getD_eq_getElem?_getD, List.getD_eq_getElem?_getD,
      List.getElem?_append_right (by omega)]
    congr 3
    omega

theorem aligned_of_joinBlockWrites (h : joinBlockWrites a b = .ok (some m)) (ha : a.Aligned bs)
    (hb : b.Aligned bs) : m.Aligned bs := by
  obtain ⟨-, rfl⟩ := joinBlockWrites_eq_some h
  refine ⟨ha.1, ?_⟩
  rw [List.length_append]
  exact Nat.dvd_add ha.2 hb.2

/-- Collapsed writes of a device, and the bytes that they show. -/
structure Collapsed (bs : Nat) (ws : List CollapsedBlockWrite) : Prop where
  ordered : Ordered (ws.map CollapsedWrite.span)
  aligned : ∀ w ∈ ws, w.Aligned bs

theorem insertCollapsedBlockWrite_spec {f : UInt8 → PayloadIntegrity → V}
    (hws : Ordered (ws.map (CollapsedWrite.spanBy f))) (hbytes : 0 < bytes.length)
    (h : insertCollapsedBlockWrite ws offset bytes mode = .ok out) :
    Ordered (out.map (CollapsedWrite.spanBy f)) ∧ ∀ i, valueAt (out.map (CollapsedWrite.spanBy f)) i =
        if offset ≤ i ∧ i < offset + bytes.length then some (f (bytes.getD (i - offset) 0) mode)
        else valueAt (ws.map (CollapsedWrite.spanBy f)) i := by
  obtain ⟨-, h⟩ := bind_checkedAdd h
  obtain ⟨next, hnext, h⟩ := bind_eq_ok.1 h
  obtain ⟨hordered, hshows⟩ := overwrite_spec hws hbytes hnext
  have hjoins : ∀ a b m, joinBlockWrites a b = .ok (some m) →
      Joins (a.spanBy f) (b.spanBy f) (m.spanBy f) := fun _ _ _ => joins_of_joinBlockWrites
  have hout := ordered_coalesce hjoins h hordered
  refine ⟨hout, fun i => valueAt_of_overwrite (s := CollapsedWrite.spanBy f ⟨offset, bytes, mode⟩)
    hout.apart fun v => ?_⟩
  rw [shows_coalesce hjoins h]
  exact hshows i v

theorem aligned_of_insertCollapsedBlockWrite (hws : ∀ w ∈ ws, w.Aligned bs) (hoffset : bs ∣ offset)
    (hlen : bs ∣ bytes.length) (h : insertCollapsedBlockWrite ws offset bytes mode = .ok out) :
    ∀ w ∈ out, w.Aligned bs := by
  obtain ⟨-, h⟩ := bind_checkedAdd h
  obtain ⟨next, hnext, h⟩ := bind_eq_ok.1 h
  have hnext := aligned_of_overwrite hws hoffset (Nat.dvd_add hoffset hlen) hlen hnext
  exact forall_coalesce (fun _ _ _ hm ha hb => aligned_of_joinBlockWrites hm ha hb) h hnext

def flatWrites (writes : List BlockBatchWrite) : List (Nat × List UInt8) :=
  writes.map fun write => (write.offset, write.bytes)

/-- The collapsed writes `ws` show what the writes `done` leave in an array of `n` bytes. -/
structure Collapses (bs n : Nat) (done : List (Nat × List UInt8)) (ws : List CollapsedBlockWrite) :
    Prop where
  collapsed : Collapsed bs ws
  inside : ∀ w ∈ done, w.1 + w.2.length ≤ n
  shows : ∀ flat : List UInt8, flat.length = n → ∀ p,
    (spliceAll flat done)[p]? = (valueAt (ws.map CollapsedWrite.span) p).or flat[p]?

theorem Collapses.nil (bs n : Nat) : Collapses bs n [] [] :=
  ⟨⟨⟨.nil, by simp⟩, by simp⟩, by simp, fun _ _ _ => rfl⟩

theorem Collapses.insert {n : Nat} {done : List (Nat × List UInt8)} (hws : Collapses bs n done ws)
    (hbytes : 0 < bytes.length) (hoffset : bs ∣ offset) (hlen : bs ∣ bytes.length)
    (hin : offset + bytes.length ≤ n)
    (h : insertCollapsedBlockWrite ws offset bytes mode = .ok out) :
    Collapses bs n (done ++ [(offset, bytes)]) out := by
  obtain ⟨hout, hvalue⟩ := insertCollapsedBlockWrite_spec (f := fun b _ => b) hws.collapsed.ordered
    hbytes h
  have haligned := aligned_of_insertCollapsedBlockWrite hws.collapsed.aligned hoffset hlen h
  have hinside : ∀ w ∈ done ++ [(offset, bytes)], w.1 + w.2.length ≤ n := by
    intro w hw
    rcases List.mem_append.1 hw with hw | hw
    · exact hws.inside w hw
    · rw [List.mem_singleton.1 hw]
      exact hin
  refine ⟨⟨hout, haligned⟩, hinside, fun flat hflat p => ?_⟩
  have hold : (spliceAll flat done).length = n :=
    (length_spliceAll (by rw [hflat]; exact hws.inside)).trans hflat
  have hvalue : valueAt (out.map CollapsedWrite.span) p = _ := hvalue p
  rw [spliceAll_append, getElem?_splice (hold.symm ▸ hin), hvalue]
  by_cases hp : offset ≤ p ∧ p < offset + bytes.length
  · have hget : bytes[p - offset]? = some (bytes.getD (p - offset) 0) := by
      rw [List.getD_eq_getElem?_getD, List.getElem?_eq_getElem (by omega)]
      rfl
    rw [if_pos hp, if_pos hp, Option.some_or]
    exact hget
  · rw [if_neg hp, if_neg hp]
    exact hws.shows flat hflat p

theorem collapses_of_foldlM {acc acc' : List CollapsedBlockWrite × Nat}
    {done : List (Nat × List UInt8)}
    (hacc : Collapses spec.blockSize (spec.logicalBlocks * spec.blockSize) done acc.1)
    (h : writes.foldlM (collapseBlockBatchWrite spec maxBytes) acc = .ok acc') :
    Collapses spec.blockSize (spec.logicalBlocks * spec.blockSize) (done ++ flatWrites writes)
      acc'.1 := by
  induction writes generalizing acc done with
  | nil =>
    cases h
    simpa [flatWrites] using hacc
  | cons write writes ih =>
    rw [List.foldlM_cons] at h
    obtain ⟨acc1, hstep, h⟩ := bind_eq_ok.1 h
    obtain ⟨⟨⟩, hvalid, total, -, hstep⟩ := bind2_eq_ok.1 hstep
    obtain ⟨⟨⟩, -, collapsed, hins, hstep⟩ := bind2_eq_ok.1 hstep
    cases hstep
    obtain ⟨range, hrange, hvalid⟩ := bind_eq_ok.1 hvalid
    obtain ⟨⟨⟩, -, hrange⟩ := bind_eq_ok.1 hrange
    cases hrange
    obtain ⟨⟨⟩, hne, hvalid⟩ := bind_eq_ok.1 hvalid
    have hin := ByteRange.inDevice_of_validate hvalid
    have hstep := hacc.insert (Nat.pos_of_ne_zero (failIf_eq_ok.1 hne)) hin.offset_dvd hin.len_dvd
      hin.stop_le hins
    have hrest := ih hstep h
    rwa [List.append_assoc] at hrest

/-- The collapsed writes of a batch show what its writes leave, one after the other. -/
theorem collapseBlockBatchWrites_spec (h : collapseBlockBatchWrites writes spec maxBytes = .ok out) :
    Collapses spec.blockSize (spec.logicalBlocks * spec.blockSize) (flatWrites writes) out := by
  obtain ⟨⟨⟩, -, ⟨collapsed, total⟩, hfold, ⟨⟩, -, h⟩ := bind3_eq_ok.1 h
  cases h
  have h0 := Collapses.nil spec.blockSize (spec.logicalBlocks * spec.blockSize)
  exact collapses_of_foldlM h0 hfold

/-! ## The last write of a position -/

def BlockBatchWrite.cells (write : BlockBatchWrite) : Span (UInt8 × PayloadIntegrity) :=
  CollapsedWrite.cells ⟨write.offset, write.bytes, write.payloadIntegrity⟩

structure BlockBatchWrite.Allowed (spec : DeviceSpec) (write : BlockBatchWrite) : Prop where
  nonempty : 0 < write.bytes.length
  inDevice : ByteRange.InDevice ⟨write.offset, write.bytes.length⟩ spec

theorem BlockBatchWrite.Allowed.stop_lt {write : BlockBatchWrite} (h : write.Allowed spec) :
    write.offset + write.bytes.length < u64Bound :=
  Nat.lt_of_le_of_lt h.inDevice.stop_le h.inDevice.bytes_lt

theorem BlockBatchWrite.validateForDevice_eq_ok {write : BlockBatchWrite} (hspec : spec.validate = .ok ()) :
    write.validateForDevice spec = .ok () ↔ write.Allowed spec := by
  constructor
  · intro h
    obtain ⟨range, hrange, h⟩ := bind_eq_ok.1 h
    obtain ⟨⟨⟩, -, hrange⟩ := bind_eq_ok.1 hrange
    cases hrange
    obtain ⟨⟨⟩, hne, h⟩ := bind_eq_ok.1 h
    exact ⟨Nat.pos_of_ne_zero (failIf_eq_ok.1 hne), ByteRange.inDevice_of_validate h⟩
  · intro h
    have hlen : write.bytes.length < u64Bound := by
      have := h.stop_lt
      omega
    refine bind_eq_ok.2 ⟨_, bind_eq_ok.2 ⟨(), failIf_eq_ok.2 (by omega), rfl⟩, ?_⟩
    refine bind_eq_ok.2 ⟨(), failIf_eq_ok.2 h.nonempty.ne', ?_⟩
    exact ByteRange.validate_of_inDevice hspec h.inDevice

/-- The collapsed writes `ws` are what the writes `done` leave, and no two of them join. -/
structure LeavesCells (spec : DeviceSpec) (done : List BlockBatchWrite)
    (ws : List CollapsedBlockWrite) : Prop where
  ordered : Ordered (ws.map CollapsedWrite.cells)
  aligned : ∀ w ∈ ws, w.Aligned spec.blockSize
  maximal : ws.IsChain fun a b => ¬ (a.tag = b.tag ∧ a.stop = b.offset)
  cells : ∀ p, valueAt (ws.map CollapsedWrite.cells) p = lastAt (done.map BlockBatchWrite.cells) p

theorem LeavesCells.nil (spec : DeviceSpec) : LeavesCells spec [] [] :=
  ⟨⟨.nil, by simp⟩, by simp, .nil, fun _ => rfl⟩

section

variable {spec : DeviceSpec} {done : List BlockBatchWrite} {ws : List CollapsedBlockWrite}

theorem LeavesCells.covers_iff (h : LeavesCells spec done ws) (p : Nat) :
    (∃ w ∈ ws, w.offset ≤ p ∧ p < w.stop) ↔ ∃ w ∈ done, w.offset ≤ p ∧ p < w.offset + w.bytes.length := by
  have hp := congrArg (Option.isSome · = true) (h.cells p)
  simp only [valueAt_isSome, lastAt_isSome, List.mem_map, exists_exists_and_eq_and, eq_iff_iff] at hp
  exact hp

theorem LeavesCells.stop_lt (h : LeavesCells spec done ws)
    (hdone : ∀ w ∈ done, w.Allowed spec) : ∀ w ∈ ws, w.stop < u64Bound := by
  intro w hw
  have hpos : 0 < w.bytes.length := h.ordered.2 _ (List.mem_map_of_mem hw)
  have hstop : w.stop = w.offset + w.bytes.length := rfl
  obtain ⟨d, hd, -, hlt⟩ := (h.covers_iff (w.stop - 1)).1 ⟨w, hw, by omega, by omega⟩
  have := (hdone d hd).stop_lt
  omega

theorem exists_insertCollapsedBlockWrite {offset : Nat} {bytes : List UInt8}
    (hws : ∀ w ∈ ws, w.stop < u64Bound) (hordered : Ordered (ws.map CollapsedWrite.cells))
    (hbytes : 0 < bytes.length) (hnew : offset + bytes.length < u64Bound) (mode : PayloadIntegrity) :
    ∃ out, insertCollapsedBlockWrite ws offset bytes mode = .ok out := by
  obtain ⟨next, hnext⟩ := exists_overwrite hws blockWriteOverflow offset (offset + bytes.length) bytes
    mode
  -- every piece ends where one of the writes has a byte
  have hstop : ∀ w ∈ next, w.stop < u64Bound := by
    obtain ⟨hout, hshows⟩ := overwrite_spec hordered hbytes hnext
    have hlaid : Laid 0 (u64Bound - 1) (next.map CollapsedWrite.cells) := by
      refine hout.laid fun i v hv => ⟨Nat.zero_le i, ?_⟩
      rcases (hshows i v).1 hv with ⟨-, h, -⟩ | ⟨-, s, hs, -, h, -⟩
      · exact h.trans_le (Nat.le_sub_one_of_lt hnew)
      · obtain ⟨w, hw, rfl⟩ := List.mem_map.1 hs
        exact h.trans_le (Nat.le_sub_one_of_lt (hws w hw))
    exact fun w hw => Nat.lt_of_le_sub_one (by decide)
      (hlaid.inside _ (List.mem_map_of_mem hw)).2
  have hjoin : ∀ a b : CollapsedBlockWrite, a.stop < u64Bound → b.stop < u64Bound →
      ∃ o, joinBlockWrites a b = .ok o :=
    fun a b ha _ => ⟨_, joinBlockWrites_eq_ok.2 ⟨fun _ => ha, rfl⟩⟩
  have hkeep : ∀ a b m : CollapsedBlockWrite, joinBlockWrites a b = .ok (some m) →
      a.stop < u64Bound → b.stop < u64Bound → m.stop < u64Bound := by
    intro a b m hm _ hb
    have hstop : m.stop = b.stop := (joins_of_joinBlockWrites (f := Prod.mk) hm).stop_eq
    rwa [hstop]
  obtain ⟨out, hout⟩ := exists_coalesce hjoin hkeep hstop
  exact ⟨out, by rw [insertCollapsedBlockWrite, checkedAdd_of_lt hnew, ok_bind, hnext, ok_bind, hout]⟩

theorem LeavesCells.insert (h : LeavesCells spec done ws) (hdone : ∀ w ∈ done, w.Allowed spec)
    {write : BlockBatchWrite} (hwrite : write.Allowed spec) :
    ∃ out, insertCollapsedBlockWrite ws write.offset write.bytes write.payloadIntegrity = .ok out ∧
      LeavesCells spec (done ++ [write]) out := by
  obtain ⟨out, hout⟩ := exists_insertCollapsedBlockWrite (h.stop_lt hdone) h.ordered hwrite.nonempty
    hwrite.stop_lt write.payloadIntegrity
  obtain ⟨hordered, hvalue⟩ := insertCollapsedBlockWrite_spec h.ordered hwrite.nonempty hout
  refine ⟨out, hout, hordered, ?_, ?_, fun p => ?_⟩
  · exact aligned_of_insertCollapsedBlockWrite h.aligned hwrite.inDevice.offset_dvd
      hwrite.inDevice.len_dvd hout
  · obtain ⟨stop, -, hnext⟩ := bind_eq_ok.1 hout
    obtain ⟨next, -, hjoined⟩ := bind_eq_ok.1 hnext
    refine isChain_coalesce (fun a b hnone => ?_) (fun a b c m hm => ?_) hjoined
    · have hnone := (joinBlockWrites_eq_ok.1 hnone).2
      split at hnone
      · cases hnone
      · assumption
    · obtain ⟨-, rfl⟩ := joinBlockWrites_eq_some hm
      exact id
  · rw [List.map_append, List.map_singleton, lastAt_append_singleton, ← h.cells p]
    exact hvalue p

def batchBytes (writes : List BlockBatchWrite) : Nat := (writes.map (·.bytes.length)).sum

theorem LeavesCells.foldlM {maxBytes total : Nat} {writes : List BlockBatchWrite}
    (h : LeavesCells spec done ws) (hdone : ∀ w ∈ done, w.Allowed spec)
    (hspec : spec.validate = .ok ()) (hmax : maxBytes < u64Bound)
    (hwrites : ∀ w ∈ writes, w.Allowed spec) (htotal : total + batchBytes writes ≤ maxBytes) :
    ∃ out, writes.foldlM (collapseBlockBatchWrite spec maxBytes) (ws, total) =
      .ok (out, total + batchBytes writes) ∧ LeavesCells spec (done ++ writes) out := by
  induction writes generalizing done ws total with
  | nil => exact ⟨ws, rfl, by rwa [List.append_nil]⟩
  | cons write writes ih =>
    obtain ⟨hwrite, hwrites⟩ := List.forall_mem_cons.1 hwrites
    have hbytes : batchBytes (write :: writes) = write.bytes.length + batchBytes writes := rfl
    obtain ⟨next, hnext, hleaves⟩ := h.insert hdone hwrite
    have hstep : collapseBlockBatchWrite spec maxBytes (ws, total) write =
        .ok (next, total + write.bytes.length) := by
      rw [collapseBlockBatchWrite, (BlockBatchWrite.validateForDevice_eq_ok hspec).2 hwrite, ok_bind,
        checkedAdd_of_lt (by omega), ok_bind, failIf, if_neg (by omega), ok_bind, hnext]
      rfl
    have hdone' : ∀ w ∈ done ++ [write], w.Allowed spec :=
      List.forall_mem_append.2 ⟨hdone, by simpa using hwrite⟩
    have htotal : total + write.bytes.length + batchBytes writes ≤ maxBytes := by omega
    obtain ⟨out, hout, hleaves⟩ := ih hleaves hdone' hwrites htotal
    refine ⟨out, ?_, by rwa [List.append_assoc] at hleaves⟩
    rw [List.foldlM_cons, hstep, ok_bind, hout, hbytes, Nat.add_assoc]

theorem allowed_of_foldlM {maxBytes : Nat} {writes : List BlockBatchWrite}
    {acc acc' : List CollapsedBlockWrite × Nat} (hspec : spec.validate = .ok ())
    (h : writes.foldlM (collapseBlockBatchWrite spec maxBytes) acc = .ok acc') (hacc : acc.2 ≤ maxBytes) :
    (∀ w ∈ writes, w.Allowed spec) ∧ acc.2 + batchBytes writes ≤ maxBytes := by
  induction writes generalizing acc with
  | nil => exact ⟨by simp, hacc⟩
  | cons write writes ih =>
    rw [List.foldlM_cons] at h
    obtain ⟨acc1, hstep, h⟩ := bind_eq_ok.1 h
    obtain ⟨⟨⟩, hvalid, hstep⟩ := bind_eq_ok.1 hstep
    obtain ⟨-, hstep⟩ := bind_checkedAdd hstep
    obtain ⟨⟨⟩, hle, collapsed, -, hstep⟩ := bind2_eq_ok.1 hstep
    cases hstep
    obtain ⟨hwrites, hbytes⟩ := ih h (Nat.le_of_not_lt (failIf_eq_ok.1 hle))
    refine ⟨List.forall_mem_cons.2
      ⟨(BlockBatchWrite.validateForDevice_eq_ok hspec).1 hvalid, hwrites⟩, ?_⟩
    rwa [Nat.add_assoc] at hbytes

end

theorem exists_collapseBlockBatchWrites (hspec : spec.validate = .ok ())
    (hmax : maxBytes < u64Bound) (hne : writes ≠ []) (hwrites : ∀ w ∈ writes, w.Allowed spec)
    (hbytes : batchBytes writes ≤ maxBytes) : ∃ out, collapseBlockBatchWrites writes spec maxBytes = .ok out ∧
      LeavesCells spec writes out ∧ out ≠ [] := by
  have htotal : 0 + batchBytes writes ≤ maxBytes := by omega
  obtain ⟨out, hout, hleaves⟩ := (LeavesCells.nil spec).foldlM (by simp) hspec hmax hwrites htotal
  have hsome : out ≠ [] := by
    obtain ⟨w, writes, rfl⟩ := List.exists_cons_of_ne_nil hne
    have hpos := (hwrites w List.mem_cons_self).nonempty
    obtain ⟨u, hu, -⟩ := (hleaves.covers_iff w.offset).2 ⟨w, List.mem_cons_self, le_rfl, by omega⟩
    exact List.ne_nil_of_mem hu
  refine ⟨out, ?_, hleaves, hsome⟩
  rw [collapseBlockBatchWrites, failIf, if_neg hne, ok_bind, hout, ok_bind]
  simp [failIf, hsome]

theorem allowed_of_collapseBlockBatchWrites (hspec : spec.validate = .ok ())
    (h : collapseBlockBatchWrites writes spec maxBytes = .ok out) :
    writes ≠ [] ∧ (∀ w ∈ writes, w.Allowed spec) ∧ batchBytes writes ≤ maxBytes := by
  obtain ⟨⟨⟩, hne, h⟩ := bind_eq_ok.1 h
  obtain ⟨acc, hfold, -⟩ := bind_eq_ok.1 h
  obtain ⟨hwrites, hbytes⟩ := allowed_of_foldlM hspec hfold (Nat.zero_le _)
  exact ⟨failIf_eq_ok.1 hne, hwrites, by rwa [Nat.zero_add] at hbytes⟩

/-- A batch is collapsed when it is not empty, its writes are ones that the device takes, and
their bytes are within the limit.  The outcome is sorted and disjoint, made of whole blocks,
shows at every position the byte and the mode of the last write there, covers what the writes
cover, and has no two writes of one mode that touch. -/
theorem collapseBlockBatchWrites_last_write {spec : DeviceSpec} {maxBytes : Nat}
    (hspec : spec.validate = .ok ()) (hmax : maxBytes < u64Bound) (writes : List BlockBatchWrite) :
    ((∃ out, collapseBlockBatchWrites writes spec maxBytes = .ok out) ↔
      writes ≠ [] ∧ (∀ w ∈ writes, w.Allowed spec) ∧ batchBytes writes ≤ maxBytes) ∧
    ∀ out, collapseBlockBatchWrites writes spec maxBytes = .ok out →
      out ≠ [] ∧ out.Pairwise (fun a b => a.stop ≤ b.offset) ∧
      (∀ w ∈ out, w.bytes ≠ [] ∧ w.Aligned spec.blockSize) ∧
      (∀ p, valueAt (out.map CollapsedWrite.cells) p =
        lastAt (writes.map BlockBatchWrite.cells) p) ∧
      (∀ p, (∃ w ∈ out, w.offset ≤ p ∧ p < w.stop) ↔
        ∃ w ∈ writes, w.offset ≤ p ∧ p < w.offset + w.bytes.length) ∧
      ∀ a ∈ out, ∀ b ∈ out, a.stop = b.offset → a.tag ≠ b.tag := by
  refine ⟨⟨?_, ?_⟩, fun out h => ?_⟩
  · rintro ⟨out, h⟩
    exact allowed_of_collapseBlockBatchWrites hspec h
  · rintro ⟨hne, hwrites, hbytes⟩
    obtain ⟨out, hout, -⟩ := exists_collapseBlockBatchWrites hspec hmax hne hwrites hbytes
    exact ⟨out, hout⟩
  · obtain ⟨hne, hwrites, hbytes⟩ := allowed_of_collapseBlockBatchWrites hspec h
    obtain ⟨out', hout, hleaves, hsome⟩ :=
      exists_collapseBlockBatchWrites hspec hmax hne hwrites hbytes
    obtain rfl : out' = out := Except.ok.inj (hout.symm.trans h)
    refine ⟨hsome, List.pairwise_map.1 hleaves.ordered.1, fun w hw => ⟨?_, hleaves.aligned w hw⟩,
      hleaves.cells, hleaves.covers_iff, fun a ha b hb htouch htag => ?_⟩
    · exact List.ne_nil_of_length_pos (hleaves.ordered.2 _ (List.mem_map_of_mem hw))
    · exact hleaves.ordered.of_touch hleaves.maximal ha hb htouch ⟨htag, htouch⟩

/-- A write into the middle of another one, in the other mode, and one that continues it. -/
theorem collapseBlockBatchWrites_cut :
    collapseBlockBatchWrites [⟨0, [1, 2, 3, 4, 5, 6], .verified⟩, ⟨2, [7, 8], .unchecked⟩,
        ⟨4, [9, 9], .unchecked⟩] ⟨4, 2⟩ 64 =
      .ok [⟨0, [1, 2], .verified⟩, ⟨2, [7, 8, 9, 9], .unchecked⟩] ∧
    ∀ p, valueAt ([⟨0, [1, 2], .verified⟩, ⟨2, [7, 8, 9, 9], .unchecked⟩].map
        CollapsedWrite.cells) p =
      lastAt ([⟨0, [1, 2, 3, 4, 5, 6], .verified⟩, ⟨2, [7, 8], .unchecked⟩,
        ⟨4, [9, 9], .unchecked⟩].map BlockBatchWrite.cells) p := by
  have h : collapseBlockBatchWrites [⟨0, [1, 2, 3, 4, 5, 6], .verified⟩, ⟨2, [7, 8], .unchecked⟩,
        ⟨4, [9, 9], .unchecked⟩] ⟨4, 2⟩ 64 =
      .ok [⟨0, [1, 2], .verified⟩, ⟨2, [7, 8, 9, 9], .unchecked⟩] := by decide
  exact ⟨h, ((collapseBlockBatchWrites_last_write (by decide) (by decide) _).2 _ h).2.2.2.1⟩

end CowStore.Local
