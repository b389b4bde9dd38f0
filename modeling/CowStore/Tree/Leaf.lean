import CowStore.Object.Node

/-!
# Editing the entries of a leaf

A write into a leaf replaces the entries over a range: what was there is cut around the
range, the replacement is added, and neighbours that continue each other are joined.  As a
map, the edit is an overwrite of the range.
-/

namespace CowStore.Tree

open Lib Object

def cutLeafEntry (replacement : BlockRange) (replacementEnd : Nat) (entry : LeafEntry) :
    Result (List LeafEntry) := do
  let entryEnd ← entry.logicalRange.endExclusive
  if ← entry.logicalRange.overlaps replacement then
    let left := if entry.logicalStart < replacement.start then
        [{ entry with blocks := replacement.start - entry.logicalStart }]
      else []
    if replacementEnd < entryEnd then
      let segmentOffset ← checkedAdd entry.segmentOffset (replacementEnd - entry.logicalStart)
        (.invalidArgument "leaf segment offset overflows")
      return left ++ [⟨replacementEnd, entryEnd - replacementEnd, entry.segmentId, segmentOffset⟩]
    else
      return left
  else
    return [entry]

/-- The entry that continues `previous` by `entry`, where it does. -/
def joinLeafEntries (previous entry : LeafEntry) : Result (Option LeafEntry) := do
  if previous.segmentId ≠ entry.segmentId then
    return none
  else
    let previousEnd ← previous.logicalRange.endExclusive
    if previousEnd ≠ entry.logicalStart then
      return none
    else
      let segmentEnd ← previous.segmentEndExclusive
      if segmentEnd ≠ entry.segmentOffset then
        return none
      else
        let blocks ← checkedAdd previous.blocks entry.blocks
          (.invalidArgument "leaf entry size overflows")
        return some { previous with blocks }

def coalesceLeafEntries (entries : List LeafEntry) : Result (List LeafEntry) :=
  coalesce joinLeafEntries entries

def replaceLeafEntries (entries : List LeafEntry) (covered replacementRange : BlockRange)
    (replacement : Option LeafEntry) : Result (List LeafEntry) := do
  replacementRange.validateNonEmpty
  let inside ← covered.containsRange replacementRange
  failIf (¬ inside) (.invalidArgument "replacement range is outside leaf coverage")
  let replacementEnd ← replacementRange.endExclusive
  let kept ← entries.mapM (cutLeafEntry replacementRange replacementEnd)
  coalesceLeafEntries ((kept.flatten ++ replacement.toList).insertionSort
    (fun a b => a.logicalStart ≤ b.logicalStart))

def Continues (a b : LeafEntry) : Prop :=
  a.segmentId = b.segmentId ∧ a.logicalRange.stop = b.logicalStart ∧
    a.segmentOffset + a.blocks = b.segmentOffset

instance (a b : LeafEntry) : Decidable (Continues a b) := inferInstanceAs (Decidable (_ ∧ _))

variable {covered r : BlockRange} {a b m : LeafEntry} {es out : List LeafEntry}
  {replacement : Option LeafEntry}

theorem joinLeafEntries_eq_ok {o : Option LeafEntry} (h : joinLeafEntries a b = .ok o) :
    o = if Continues a b then some { a with blocks := a.blocks + b.blocks } else none := by
  unfold joinLeafEntries at h
  split at h
  · next hid =>
    cases h
    exact (if_neg fun hc => hid hc.1).symm
  next hid =>
  obtain ⟨previousEnd, hpe, h⟩ := bind_eq_ok.1 h
  obtain ⟨-, rfl⟩ := BlockRange.endExclusive_eq_ok.1 hpe
  split at h
  · next hend =>
    cases h
    exact (if_neg fun hc => hend hc.2.1).symm
  next hend =>
  obtain ⟨-, h⟩ := bind_checkedAdd h
  split at h
  · next hseg =>
    cases h
    exact (if_neg fun hc => hseg hc.2.2).symm
  next hseg =>
  obtain ⟨-, h⟩ := bind_checkedAdd h
  cases h
  rw [not_not] at hid hend hseg
  exact (if_pos ⟨hid, hend, hseg⟩).symm

theorem joinLeafEntries_eq_some (h : joinLeafEntries a b = .ok (some m)) :
    Continues a b ∧ m = { a with blocks := a.blocks + b.blocks } := by
  have hm := joinLeafEntries_eq_ok h
  simp only [eq_comm (a := some m), Option.ite_none_right_eq_some, Option.some.injEq] at hm
  exact ⟨hm.1, hm.2.symm⟩

theorem joins_of_joinLeafEntries (h : joinLeafEntries a b = .ok (some m)) : Joins a.span b.span m.span := by
  obtain ⟨⟨hid, hend, hseg⟩, rfl⟩ := joinLeafEntries_eq_some h
  have hend' : a.logicalStart + a.blocks = b.logicalStart := hend
  refine ⟨hend, rfl, ?_, fun i _ _ => rfl, fun i hi _ => ?_⟩
  · show a.logicalStart + (a.blocks + b.blocks) = b.logicalStart + b.blocks
    omega
  · have hi' : b.logicalStart ≤ i := hi
    show (a.segmentId, a.segmentOffset + (i - a.logicalStart)) =
      (b.segmentId, b.segmentOffset + (i - b.logicalStart))
    rw [hid, ← hseg, show a.segmentOffset + (i - a.logicalStart) =
      a.segmentOffset + a.blocks + (i - b.logicalStart) by omega]

theorem cuts_of_cutLeafEntry {e : LeafEntry} (h : cutLeafEntry r r.stop e = .ok out)
    (hr : 0 < r.blocks) (he : 0 < e.blocks) : Cuts r.start r.stop e.span (out.map LeafEntry.span) := by
  unfold cutLeafEntry at h
  obtain ⟨entryEnd, hend, h⟩ := bind_eq_ok.1 h
  obtain ⟨-, rfl⟩ := BlockRange.endExclusive_eq_ok.1 hend
  obtain ⟨meets, hm, h⟩ := bind_eq_ok.1 h
  obtain ⟨-, rfl⟩ := BlockRange.overlaps_eq_ok.1 hm
  by_cases hmeets : e.logicalRange.Meets r
  · simp only [hmeets, decide_true, if_true] at h
    obtain ⟨-, h1, h2⟩ := hmeets
    have hle : r.start ≤ r.stop := Nat.le_add_right _ _
    let l : LeafEntry := { e with blocks := r.start - e.logicalStart }
    let t : LeafEntry := ⟨r.stop, e.logicalRange.stop - r.stop, e.segmentId,
      e.segmentOffset + (r.stop - e.logicalStart)⟩
    have hcut : Cuts r.start r.stop e.span
        ((if e.span.start < r.start then [l.span] else []) ++
          (if r.stop < e.span.stop then [t.span] else [])) := by
      refine cuts_of_trim h2 h1 hle (fun hlt => ⟨rfl, ?_, fun i _ _ => rfl⟩)
        (fun hlt => ⟨rfl, ?_, fun i hi _ => ?_⟩)
      · have hlt' : e.logicalStart < r.start := hlt
        show e.logicalStart + (r.start - e.logicalStart) = r.start
        omega
      · have hlt' : r.stop < e.logicalRange.stop := hlt
        show r.stop + (e.logicalRange.stop - r.stop) = e.logicalRange.stop
        omega
      · have hi' : r.stop ≤ i := hi
        have h1' : e.logicalStart < r.stop := h1
        show (e.segmentId, e.segmentOffset + (r.stop - e.logicalStart) + (i - r.stop)) =
          (e.segmentId, e.segmentOffset + (i - e.logicalStart))
        rw [show e.segmentOffset + (r.stop - e.logicalStart) + (i - r.stop) =
          e.segmentOffset + (i - e.logicalStart) by omega]
    split at h
    · next hlt =>
      obtain ⟨-, h⟩ := bind_checkedAdd h
      cases h
      rw [if_pos (show r.stop < e.span.stop from hlt)] at hcut
      rw [List.map_append, apply_ite (List.map LeafEntry.span)]
      exact hcut
    · next hlt =>
      cases h
      rw [if_neg (show ¬ r.stop < e.span.stop from hlt), List.append_nil] at hcut
      rw [apply_ite (List.map LeafEntry.span)]
      exact hcut
  · simp only [hmeets, decide_false] at h
    cases h
    refine cuts_of_apart ?_ he
    rw [LeafEntry.span_stop, LeafEntry.span_start]
    have hb : 0 < e.logicalRange.blocks := he
    have hs : e.logicalRange.start = e.logicalStart := rfl
    unfold BlockRange.Meets at hmeets
    omega

theorem cuts_of_mapM_cutLeafEntry {kept : List (List LeafEntry)}
    (h : es.mapM (cutLeafEntry r r.stop) = .ok kept) (hr : 0 < r.blocks)
    (hes : ∀ e ∈ es, 0 < e.blocks) : List.Forall₂ (Cuts r.start r.stop) (es.map LeafEntry.span)
      (kept.map (List.map LeafEntry.span)) := by
  rw [List.forall₂_map_left_iff, List.forall₂_map_right_iff]
  refine List.Forall₂.imp ?_ ((List.forall₂_and_left es kept).2 ⟨hes, mapM_eq_ok.1 h⟩)
  rintro e ps ⟨he, hcut⟩
  exact cuts_of_cutLeafEntry hcut hr he

/-- Replacing entries overwrites the blocks of the range. -/
theorem shows_replaceLeafEntries (h : replaceLeafEntries es covered r replacement = .ok out)
    (hes : ∀ e ∈ es, 0 < e.blocks) {i : Nat} {v : Nat × Nat} :
    Shows (out.map LeafEntry.span) i v ↔ Shows (replacement.toList.map LeafEntry.span) i v ∨
      Shows (es.map LeafEntry.span) i v ∧ (i < r.start ∨ r.stop ≤ i) := by
  simp only [replaceLeafEntries, bind_eq_ok, BlockRange.validateNonEmpty_eq_ok,
    BlockRange.endExclusive_eq_ok] at h
  obtain ⟨-, ⟨-, hr⟩, -, -, -, -, n, ⟨-, rfl⟩, kept, hkept, h⟩ := h
  rw [coalesceLeafEntries] at h
  rw [shows_coalesce (fun _ _ _ => joins_of_joinLeafEntries) h,
    shows_perm ((List.perm_insertionSort _ _).map LeafEntry.span), List.map_append, shows_append,
    List.map_flatten, shows_flatten_cuts (cuts_of_mapM_cutLeafEntry hkept hr hes), or_comm]

theorem ordered_replaceLeafEntries (h : replaceLeafEntries es covered r replacement = .ok out)
    (hes : Ordered (es.map LeafEntry.span))
    (hrep : ∀ e, replacement = some e → e.logicalRange = r) : Ordered (out.map LeafEntry.span) := by
  simp only [replaceLeafEntries, bind_eq_ok, BlockRange.validateNonEmpty_eq_ok,
    BlockRange.endExclusive_eq_ok] at h
  obtain ⟨-, ⟨-, hr⟩, -, -, -, -, n, ⟨-, rfl⟩, kept, hkept, h⟩ := h
  have hpos : ∀ e ∈ es, 0 < e.blocks := fun e he => hes.2 e.span (List.mem_map_of_mem he)
  rw [coalesceLeafEntries] at h
  refine ordered_coalesce (fun _ _ _ => joins_of_joinLeafEntries) h ?_
  have hsort := List.perm_insertionSort
    (fun a b : LeafEntry => a.logicalStart ≤ b.logicalStart) (kept.flatten ++ replacement.toList)
  refine ordered_of_cuts (replacement.toList.map LeafEntry.span)
    (cuts_of_mapM_cutLeafEntry hkept hr hpos) hes.apart ?_ ?_ ?_ ?_
  · cases replacement <;> simp
  · intro s hs
    obtain ⟨e, he, rfl⟩ := List.mem_map.1 hs
    rw [Option.mem_toList] at he
    have hrange := hrep e he
    subst hrange
    exact ⟨le_rfl, le_rfl, hr⟩
  · rw [← List.map_flatten, ← List.map_append]
    exact hsort.map LeafEntry.span
  · rw [List.pairwise_map]
    exact List.pairwise_insertionSort _ _

/-! ## The outcome of a replacement -/

/-- The blocks of the entry, on the device and in the segment, are counted by a `u64`. -/
def Counted (e : LeafEntry) : Prop :=
  e.logicalRange.Fits ∧ e.segmentOffset + e.blocks < u64Bound

theorem exists_cutLeafEntry {e : LeafEntry} (hr : r.Fits) (he : Counted e) :
    ∃ out, cutLeafEntry r r.stop e = .ok out ∧ ∀ p ∈ out, Counted p := by
  obtain ⟨hfits, hseg⟩ := he
  have hstop : e.logicalRange.stop = e.logicalStart + e.blocks := rfl
  rw [cutLeafEntry, BlockRange.endExclusive_of_fits hfits, ok_bind,
    BlockRange.overlaps_of_fits hfits hr, ok_bind]
  by_cases hmeets : e.logicalRange.Meets r
  · obtain ⟨-, h1, h2⟩ := id hmeets
    have h1 : e.logicalStart < r.stop := h1
    have hleft : ∀ p ∈ (if e.logicalStart < r.start then
        [{ e with blocks := r.start - e.logicalStart }] else []), Counted p := by
      intro p hp
      split at hp
      · rw [List.mem_singleton.1 hp]
        have hle : r.start - e.logicalStart ≤ e.blocks := by omega
        exact ⟨Nat.lt_of_le_of_lt (Nat.add_le_add_left hle _) hfits,
          Nat.lt_of_le_of_lt (Nat.add_le_add_left hle _) hseg⟩
      · cases hp
    rw [if_pos (decide_eq_true hmeets)]
    by_cases hlt : r.stop < e.logicalRange.stop
    · rw [if_pos hlt, checkedAdd_of_lt (by omega), ok_bind]
      refine ⟨_, rfl, List.forall_mem_append.2 ⟨hleft, ?_⟩⟩
      intro p hp
      rw [List.mem_singleton.1 hp]
      have hfits : e.logicalRange.stop < u64Bound := hfits
      refine ⟨?_, ?_⟩
      · show r.stop + (e.logicalRange.stop - r.stop) < u64Bound
        omega
      · show e.segmentOffset + (r.stop - e.logicalStart) + (e.logicalRange.stop - r.stop) < u64Bound
        omega
    · rw [if_neg hlt]
      exact ⟨_, rfl, hleft⟩
  · rw [if_neg (by simpa using hmeets)]
    exact ⟨[e], rfl, by simpa using ⟨hfits, hseg⟩⟩

theorem exists_joinLeafEntries (ha : Counted a) (hb : Counted b) : ∃ o, joinLeafEntries a b = .ok o := by
  rw [joinLeafEntries, BlockRange.endExclusive_of_fits ha.1]
  split
  · exact ⟨_, rfl⟩
  rw [ok_bind]
  split
  · exact ⟨_, rfl⟩
  rw [LeafEntry.segmentEndExclusive, checkedAdd_of_lt ha.2, ok_bind]
  split
  · exact ⟨_, rfl⟩
  next hend hseg =>
  have hfits : b.logicalStart + b.blocks < u64Bound := hb.1
  have hend : a.logicalStart + a.blocks = b.logicalStart := not_not.1 hend
  rw [checkedAdd_of_lt (by omega), ok_bind]
  exact ⟨_, rfl⟩

theorem counted_of_joinLeafEntries (h : joinLeafEntries a b = .ok (some m)) (hb : Counted b) : Counted m := by
  obtain ⟨⟨-, hend, hseg⟩, rfl⟩ := joinLeafEntries_eq_some h
  obtain ⟨hfits, hb⟩ := hb
  have hend : a.logicalStart + a.blocks = b.logicalStart := hend
  refine ⟨?_, ?_⟩
  · show a.logicalStart + (a.blocks + b.blocks) < u64Bound
    rwa [← Nat.add_assoc, hend]
  · show a.segmentOffset + (a.blocks + b.blocks) < u64Bound
    rwa [← Nat.add_assoc, hseg]

theorem exists_replaceLeafEntries (hcovered : covered.Fits) (hes : ∀ e ∈ es, Counted e)
    (hr : 0 < r.blocks) (hin : covered.Covers r) (hrep : ∀ e ∈ replacement, Counted e) :
    ∃ out, replaceLeafEntries es covered r replacement = .ok out := by
  have hfits : r.Fits := Nat.lt_of_le_of_lt hin.2 hcovered
  obtain ⟨kept, hkept⟩ := exists_mapM fun e he => (exists_cutLeafEntry hfits (hes e he)).imp
    fun _ h => h.1
  have hcounted : ∀ e ∈ (kept.flatten ++ replacement.toList).insertionSort
      (fun a b => a.logicalStart ≤ b.logicalStart), Counted e := by
    intro e he
    rw [List.mem_insertionSort, List.mem_append, Option.mem_toList] at he
    rcases he with he | he
    · obtain ⟨ks, hks, he⟩ := List.mem_flatten.1 he
      obtain ⟨u, hu, hcut⟩ := forall₂_mem_right (mapM_eq_ok.1 hkept) hks
      obtain ⟨ks', hcut', hks'⟩ := exists_cutLeafEntry hfits (hes u hu)
      cases hcut.symm.trans hcut'
      exact hks' e he
    · exact hrep e he
  obtain ⟨out, hout⟩ := exists_coalesce (fun _ _ => exists_joinLeafEntries)
    (fun _ _ _ h _ => counted_of_joinLeafEntries h) hcounted
  refine ⟨out, ?_⟩
  rw [replaceLeafEntries, (BlockRange.validateNonEmpty_eq_ok (u := ())).2 ⟨hfits, hr⟩, ok_bind,
    BlockRange.containsRange_eq_ok.2 ⟨⟨hcovered, hfits⟩, rfl⟩, ok_bind, decide_eq_true hin,
    BlockRange.endExclusive_of_fits hfits]
  simp [failIf, hkept, coalesceLeafEntries, hout]

/-- A replacement in a leaf succeeds.  The outcome is in order and inside of the leaf, it maps
the blocks of the range as the replacement does and the others as before, and no entry of it
goes on where the one before it ends. -/
theorem replaceLeafEntries_overwrites {es : List LeafEntry} {covered r : BlockRange}
    {replacement : Option LeafEntry} (hcovered : covered.Fits)
    (hes : Laid covered.start covered.stop (es.map LeafEntry.span))
    (hseg : ∀ e ∈ es, e.segmentOffset + e.blocks < u64Bound) (hr : 0 < r.blocks)
    (hin : covered.Covers r)
    (hrep : ∀ e ∈ replacement, e.logicalRange = r ∧ e.segmentOffset + e.blocks < u64Bound) :
    ∃ out, replaceLeafEntries es covered r replacement = .ok out ∧
      Laid covered.start covered.stop (out.map LeafEntry.span) ∧
      (∀ i, valueAt (out.map LeafEntry.span) i =
        if r.start ≤ i ∧ i < r.stop then valueAt (replacement.toList.map LeafEntry.span) i
        else valueAt (es.map LeafEntry.span) i) ∧
      out.IsChain fun a b => ¬ Continues a b := by
  have hcounted : ∀ e ∈ es, Counted e := fun e he =>
    ⟨Nat.lt_of_le_of_lt (hes.inside _ (List.mem_map_of_mem he)).2 hcovered, hseg e he⟩
  have hrepcounted : ∀ e ∈ replacement, Counted e := by
    intro e he
    obtain ⟨rfl, hlt⟩ := hrep e he
    exact ⟨Nat.lt_of_le_of_lt hin.2 hcovered, hlt⟩
  obtain ⟨out, hout⟩ := exists_replaceLeafEntries hcovered hcounted hr hin hrepcounted
  have hordered := ordered_replaceLeafEntries hout hes.ordered fun e he => (hrep e he).1
  have hshows := fun i v => shows_replaceLeafEntries (i := i) (v := v) hout fun e he =>
    hes.ordered.2 _ (List.mem_map_of_mem he)
  -- the replacement stands on the blocks of the range only
  have hinside : ∀ i v, Shows (replacement.toList.map LeafEntry.span) i v →
      r.start ≤ i ∧ i < r.stop := by
    rintro i v ⟨s, hs, h1, h2, -⟩
    obtain ⟨e, he, rfl⟩ := List.mem_map.1 hs
    obtain ⟨rfl, -⟩ := hrep e (Option.mem_toList.1 he)
    exact ⟨h1, h2⟩
  refine ⟨out, hout, hordered.laid fun i v hv => ?_, fun i => ?_, ?_⟩
  · rcases (hshows i v).1 hv with hv | ⟨hv, -⟩
    · obtain ⟨h1, h2⟩ := hinside i v hv
      exact ⟨hin.1.trans h1, h2.trans_le hin.2⟩
    · exact hes.shows hv
  · by_cases hi : r.start ≤ i ∧ i < r.stop
    · rw [if_pos hi]
      refine valueAt_congr hordered.apart fun v => (hshows i v).trans ?_
      exact or_iff_left (by omega)
    · rw [if_neg hi]
      refine valueAt_congr hordered.apart fun v => (hshows i v).trans ?_
      rw [or_iff_right fun hv => hi (hinside i v hv)]
      exact and_iff_left (by omega)
  · simp only [replaceLeafEntries, bind_eq_ok] at hout
    obtain ⟨-, -, -, -, -, -, n, -, kept, -, hout⟩ := hout
    refine isChain_coalesce (fun a b hnone hc => ?_) (fun a b c m hm hc => ?_) hout
    · have hnone := joinLeafEntries_eq_ok hnone
      rw [if_pos hc] at hnone
      cases hnone
    · obtain ⟨-, rfl⟩ := joinLeafEntries_eq_some hm
      exact hc

/-- An entry that is cut on both sides by an entry of another segment. -/
theorem replaceLeafEntries_middle :
    replaceLeafEntries [⟨0, 6, 1, 0⟩] ⟨0, 8⟩ ⟨2, 2⟩ (some ⟨2, 2, 2, 0⟩) =
        .ok [⟨0, 2, 1, 0⟩, ⟨2, 2, 2, 0⟩, ⟨4, 2, 1, 4⟩] ∧
      ∃ out, replaceLeafEntries [⟨0, 6, 1, 0⟩] ⟨0, 8⟩ ⟨2, 2⟩ (some ⟨2, 2, 2, 0⟩) = .ok out ∧
        Laid 0 8 (out.map LeafEntry.span) := by
  refine ⟨by decide, ?_⟩
  have hlaid : Laid 0 8 ([⟨0, 6, 1, 0⟩].map LeafEntry.span) :=
    ⟨⟨List.pairwise_singleton _ _, by simp⟩, by simp [Span.stop, LeafEntry.span]⟩
  have hfits : BlockRange.Fits ⟨0, 8⟩ := by
    unfold BlockRange.Fits
    decide
  have hcovers : BlockRange.Covers ⟨0, 8⟩ ⟨2, 2⟩ := by decide
  have hrep : ∀ e ∈ some (⟨2, 2, 2, 0⟩ : LeafEntry), e.logicalRange = ⟨2, 2⟩ ∧
      e.segmentOffset + e.blocks < u64Bound := by simp [LeafEntry.logicalRange, u64Bound]
  obtain ⟨out, hout, hlaid, -⟩ :=
    replaceLeafEntries_overwrites hfits hlaid (by decide) (by decide) hcovers hrep
  exact ⟨out, hout, hlaid⟩

end CowStore.Tree
