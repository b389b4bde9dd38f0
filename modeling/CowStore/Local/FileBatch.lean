import CowStore.Local.File

/-!
# What a file batch leaves

The writes of a batch may overlap and may grow the file, but none may start beyond the size
that the file has when it comes.  The collapsed writes are what the batch leaves, the new
size is reached by them without a gap.
-/

namespace CowStore.Local

open Lib Object StorageError

/-! ## The last write of a position -/

def FileBatchWrite.span (write : FileBatchWrite) : Span UInt8 :=
  CollapsedWrite.span (⟨write.offset, write.bytes, ()⟩ : CollapsedFileWrite)

def FileBatchWrite.stop (write : FileBatchWrite) : Nat := write.offset + write.bytes.length

/-- No write starts beyond the size that `size` and the writes before it reach. -/
def NoGap : Nat → List FileBatchWrite → Prop
  | _, [] => True
  | size, write :: writes => write.offset ≤ size ∧ NoGap (max size write.stop) writes

def Written (writes : List FileBatchWrite) (p : Nat) : Prop :=
  ∃ write ∈ writes, write.offset ≤ p ∧ p < write.stop

def fileBatchBytes (writes : List FileBatchWrite) : Nat := (writes.map (·.bytes.length)).sum

/-- The progress after the writes `done` on a file of `base` bytes: the collapsed writes are
what they leave, and the size is reached by them from `base` without a gap. -/
structure LeavesBytes (base : Nat) (done : List FileBatchWrite) (acc : FileBatchProgress) : Prop where
  ordered : Ordered (acc.collapsed.map CollapsedWrite.span)
  bytes : ∀ p, valueAt (acc.collapsed.map CollapsedWrite.span) p =
    lastAt (done.map FileBatchWrite.span) p
  base_le : base ≤ acc.runningSize
  written_lt : ∀ p, Written done p → p < acc.runningSize
  reached : ∀ p, p < acc.runningSize → p < base ∨ Written done p

section

variable {base maxBytes : Nat} {done writes : List FileBatchWrite} {write : FileBatchWrite}
  {acc acc' : FileBatchProgress}

theorem LeavesBytes.start (base : Nat) : LeavesBytes base [] ⟨[], base, 0⟩ where
  ordered := ⟨.nil, by simp⟩
  bytes _ := rfl
  base_le := le_rfl
  written_lt p h := by
    obtain ⟨_, hw, -⟩ := h
    cases hw
  reached _ h := .inl h

theorem LeavesBytes.covers_iff (h : LeavesBytes base done acc) (p : Nat) :
    (∃ w ∈ acc.collapsed, w.offset ≤ p ∧ p < w.stop) ↔ Written done p := by
  have hp := congrArg (Option.isSome · = true) (h.bytes p)
  simp only [valueAt_isSome, lastAt_isSome, List.mem_map, exists_exists_and_eq_and, eq_iff_iff] at hp
  exact hp

theorem written_append {p : Nat} :
    Written (done ++ [write]) p ↔ Written done p ∨ write.offset ≤ p ∧ p < write.stop := by
  simp only [Written, List.mem_append, List.mem_singleton, or_and_right, exists_or, exists_eq_left]

theorem LeavesBytes.stop_lt (h : LeavesBytes base done acc)
    (hdone : ∀ w ∈ done, w.stop < u64Bound) : ∀ w ∈ acc.collapsed, w.stop < u64Bound := by
  intro w hw
  have hpos : 0 < w.bytes.length := h.ordered.2 _ (List.mem_map_of_mem hw)
  have hstop : w.stop = w.offset + w.bytes.length := rfl
  obtain ⟨d, hd, -, hlt⟩ := (h.covers_iff (w.stop - 1)).1 ⟨w, hw, by omega, by omega⟩
  have := hdone d hd
  omega

theorem LeavesBytes.grow (h : LeavesBytes base done acc) (hgap : write.offset ≤ acc.runningSize)
    {collapsed : List CollapsedFileWrite} {total : Nat}
    (hordered : Ordered (collapsed.map CollapsedWrite.span))
    (hbytes : ∀ p, valueAt (collapsed.map CollapsedWrite.span) p =
      if write.offset ≤ p ∧ p < write.stop then some (write.bytes.getD (p - write.offset) 0)
      else valueAt (acc.collapsed.map CollapsedWrite.span) p) :
    LeavesBytes base (done ++ [write]) ⟨collapsed, max acc.runningSize write.stop, total⟩ where
  ordered := hordered
  bytes p := by
    rw [hbytes, List.map_append, List.map_singleton, lastAt_append_singleton, ← h.bytes p]
    rfl
  base_le := h.base_le.trans (Nat.le_max_left _ _)
  written_lt p hp := by
    rcases written_append.1 hp with hp | hp
    · exact (h.written_lt p hp).trans_le (Nat.le_max_left _ _)
    · exact hp.2.trans_le (Nat.le_max_right _ _)
  reached p hp := by
    rw [written_append]
    rcases Nat.lt_or_ge p acc.runningSize with hlt | hge
    · exact (h.reached p hlt).imp_right .inl
    · rcases lt_max_iff.1 hp with hlt | hlt
      · exact absurd hlt (Nat.not_lt.2 hge)
      · exact .inr (.inr ⟨hgap.trans hge, hlt⟩)

theorem insertCollapsedFileWrite_spec {ws : List CollapsedFileWrite} {offset : Nat}
    {bytes : List UInt8} (hws : Ordered (ws.map CollapsedWrite.span)) (hbytes : 0 < bytes.length)
    (hstops : ∀ w ∈ ws, w.stop < u64Bound) (hstop : offset + bytes.length < u64Bound) :
    ∃ out, insertCollapsedFileWrite ws offset bytes = .ok out ∧ Ordered (out.map CollapsedWrite.span) ∧
      ∀ p, valueAt (out.map CollapsedWrite.span) p =
        if offset ≤ p ∧ p < offset + bytes.length then some (bytes.getD (p - offset) 0)
        else valueAt (ws.map CollapsedWrite.span) p := by
  obtain ⟨out, hout⟩ := exists_overwrite hstops fileWriteOverflow offset (offset + bytes.length) bytes ()
  obtain ⟨hordered, hshows⟩ := overwrite_spec (f := fun b _ => b) hws hbytes hout
  refine ⟨out, by rw [insertCollapsedFileWrite, checkedAdd_of_lt hstop, ok_bind, hout], hordered, ?_⟩
  exact fun p => valueAt_of_overwrite (s := CollapsedWrite.span ⟨offset, bytes, ()⟩) hordered.apart
    (hshows p)

theorem LeavesBytes.insert (h : LeavesBytes base done acc) (hdone : ∀ w ∈ done, w.stop < u64Bound)
    (hstop : write.stop < u64Bound) (hgap : write.offset ≤ acc.runningSize)
    (hmax : maxBytes < u64Bound) (htotal : acc.totalBytes + write.bytes.length ≤ maxBytes) :
    ∃ collapsed, collapseNativeFileWrite maxBytes acc write =
        .ok ⟨collapsed, max acc.runningSize write.stop, acc.totalBytes + write.bytes.length⟩ ∧
      LeavesBytes base (done ++ [write])
        ⟨collapsed, max acc.runningSize write.stop, acc.totalBytes + write.bytes.length⟩ := by
  have hstop' : write.offset + write.bytes.length < u64Bound := hstop
  have hend : ByteRange.endExclusive ⟨write.offset, write.bytes.length⟩ = .ok write.stop :=
    ByteRange.endExclusive_eq_ok.2 ⟨hstop, rfl⟩
  have hrange : write.byteRange = .ok ⟨write.offset, write.bytes.length⟩ := by
    rw [FileBatchWrite.byteRange, failIf, if_neg (by omega), ok_bind]
    exact bind_eq_ok.2 ⟨_, hend, rfl⟩
  rw [collapseNativeFileWrite, hrange, ok_bind, hend, ok_bind, failIf, if_neg (Nat.not_lt.2 hgap),
    ok_bind]
  by_cases hempty : write.bytes = []
  · refine ⟨acc.collapsed, by rw [if_pos hempty]; simp [hempty], h.grow hgap h.ordered fun p => ?_⟩
    rw [if_neg]
    simp only [FileBatchWrite.stop, hempty, List.length_nil]
    omega
  · obtain ⟨out, hout, hordered, hbytes⟩ := insertCollapsedFileWrite_spec h.ordered
      (List.length_pos_iff.2 hempty) (h.stop_lt hdone) hstop
    refine ⟨out, ?_, h.grow hgap hordered hbytes⟩
    rw [if_neg hempty, checkedAdd_of_lt (by omega), ok_bind, failIf, if_neg (by omega), ok_bind, hout]
    rfl

theorem collapseNativeFileWrite_eq_ok (h : collapseNativeFileWrite maxBytes acc write = .ok acc') :
    write.offset ≤ acc.runningSize ∧ write.stop < u64Bound ∧
      acc'.runningSize = max acc.runningSize write.stop := by
  obtain ⟨range, hrange, h⟩ := bind_eq_ok.1 h
  obtain ⟨⟨⟩, -, stop, -, hrange⟩ := bind2_eq_ok.1 hrange
  cases hrange
  obtain ⟨stop, hstop, h⟩ := bind_eq_ok.1 h
  obtain ⟨hlt, rfl⟩ := ByteRange.endExclusive_eq_ok.1 hstop
  obtain ⟨⟨⟩, hgap, h⟩ := bind_eq_ok.1 h
  refine ⟨Nat.le_of_not_lt (failIf_eq_ok.1 hgap), hlt, ?_⟩
  split at h
  · cases h
    rfl
  · obtain ⟨total, -, ⟨⟩, -, collapsed, -, h⟩ := bind3_eq_ok.1 h
    cases h
    rfl

theorem LeavesBytes.foldlM (h : LeavesBytes base done acc) (hdone : ∀ w ∈ done, w.stop < u64Bound)
    (hwrites : ∀ w ∈ writes, w.stop < u64Bound) (hgap : NoGap acc.runningSize writes)
    (hmax : maxBytes < u64Bound) (htotal : acc.totalBytes + fileBatchBytes writes ≤ maxBytes) :
    ∃ acc', writes.foldlM (collapseNativeFileWrite maxBytes) acc = .ok acc' ∧
      LeavesBytes base (done ++ writes) acc' := by
  induction writes generalizing done acc with
  | nil => exact ⟨acc, rfl, by rwa [List.append_nil]⟩
  | cons write writes ih =>
    obtain ⟨hwrite, hwrites⟩ := List.forall_mem_cons.1 hwrites
    have hbytes : fileBatchBytes (write :: writes) = write.bytes.length + fileBatchBytes writes := rfl
    obtain ⟨collapsed, hstep, hleaves⟩ := h.insert hdone hwrite hgap.1 hmax (by omega)
    have hdone' : ∀ w ∈ done ++ [write], w.stop < u64Bound :=
      List.forall_mem_append.2 ⟨hdone, by simpa using hwrite⟩
    obtain ⟨acc', hacc, hleaves⟩ := ih hleaves hdone' hwrites hgap.2 (by dsimp only; omega)
    rw [List.foldlM_cons, hstep, ok_bind]
    exact ⟨acc', hacc, by rwa [List.append_assoc] at hleaves⟩

theorem noGap_of_foldlM (h : writes.foldlM (collapseNativeFileWrite maxBytes) acc = .ok acc') :
    NoGap acc.runningSize writes ∧ ∀ w ∈ writes, w.stop < u64Bound := by
  induction writes generalizing acc with
  | nil => exact ⟨trivial, by simp⟩
  | cons write writes ih =>
    rw [List.foldlM_cons] at h
    obtain ⟨acc1, hstep, h⟩ := bind_eq_ok.1 h
    obtain ⟨hgap, hstop, hsize⟩ := collapseNativeFileWrite_eq_ok hstep
    obtain ⟨hrest, hstops⟩ := ih h
    rw [hsize] at hrest
    exact ⟨⟨hgap, hrest⟩, List.forall_mem_cons.2 ⟨hstop, hstops⟩⟩

end

/-- The range is the smallest one with all of the positions, and empty when there are none. -/
structure Hull (P : Nat → Prop) (range : ByteRange) : Prop where
  contains : ∀ p, P p → range.offset ≤ p ∧ p < range.stop
  least : ∀ lo hi, (∀ p, P p → lo ≤ p ∧ p < hi) →
    range.len = 0 ∨ lo ≤ range.offset ∧ range.stop ≤ hi

theorem hull_of_ordered {P : Nat → Prop} {ws : List CollapsedFileWrite}
    (hordered : Ordered (ws.map CollapsedWrite.span))
    (hP : ∀ p, (∃ w ∈ ws, w.offset ≤ p ∧ p < w.stop) ↔ P p) {first last : CollapsedFileWrite}
    (hfirst : ws.head? = some first) (hlast : ws.getLast? = some last) :
    Hull P ⟨first.offset, last.stop - first.offset⟩ ∧ first.offset ≤ last.stop := by
  have hsorted : ws.Pairwise fun a b => a.stop ≤ b.offset := List.pairwise_map.1 hordered.1
  have hpos : ∀ w ∈ ws, w.offset < w.stop := fun w hw =>
    Nat.lt_add_of_pos_right (hordered.2 _ (List.mem_map_of_mem hw))
  obtain ⟨rest, hrest⟩ := List.head?_eq_some_iff.1 hfirst
  obtain ⟨init, hinit⟩ := List.getLast?_eq_some_iff.1 hlast
  have hfirstmem : first ∈ ws := by simp [hrest]
  have hlastmem : last ∈ ws := by simp [hinit]
  have hge : ∀ w ∈ ws, first.offset ≤ w.offset := by
    rw [hrest, List.pairwise_cons] at hsorted
    rw [hrest]
    rintro w (_ | ⟨_, hw⟩)
    · exact le_rfl
    · exact (hpos first hfirstmem).le.trans (hsorted.1 w hw)
  have hle : ∀ w ∈ ws, w.stop ≤ last.stop := by
    rw [hinit, List.pairwise_append] at hsorted
    intro w hw
    rw [hinit, List.mem_append, List.mem_singleton] at hw
    rcases hw with hw | rfl
    · exact (hsorted.2.2 w hw last (by simp)).trans (hpos last hlastmem).le
    · exact le_rfl
  have hspan : first.offset ≤ last.stop := (hge last hlastmem).trans (hpos last hlastmem).le
  have hstop : ByteRange.stop ⟨first.offset, last.stop - first.offset⟩ = last.stop :=
    Nat.add_sub_cancel' hspan
  refine ⟨⟨fun p hp => ?_, fun lo hi hin => .inr ?_⟩, hspan⟩
  · obtain ⟨w, hw, h1, h2⟩ := (hP p).2 hp
    rw [hstop]
    exact ⟨(hge w hw).trans h1, h2.trans_le (hle w hw)⟩
  · have hlastpos := hpos last hlastmem
    have h1 := hin first.offset ((hP _).1 ⟨first, hfirstmem, le_rfl, hpos first hfirstmem⟩)
    have h2 := hin (last.stop - 1) ((hP _).1 ⟨last, hlastmem, by omega, by omega⟩)
    rw [hstop]
    exact ⟨h1.1, by omega⟩

/-- The size that is reached without a gap is the larger of the old size and the end of what
was written. -/
theorem LeavesBytes.size_eq {base : Nat} {done : List FileBatchWrite} {acc : FileBatchProgress}
    (h : LeavesBytes base done acc) {range : ByteRange} (hrange : Hull (Written done) range)
    (hne : range.len ≠ 0) : acc.runningSize = max base range.stop := by
  have hle := h.base_le
  have hbelow : range.stop ≤ acc.runningSize :=
    ((hrange.least 0 acc.runningSize fun p hp => ⟨Nat.zero_le p, h.written_lt p hp⟩).resolve_left
      hne).2
  rcases Nat.eq_or_lt_of_le hle with heq | hlt
  · rw [← heq] at hbelow ⊢
    exact (Nat.max_eq_left hbelow).symm
  · have hlast := (h.reached (acc.runningSize - 1) (by omega)).resolve_left (by omega)
    have hstop := (hrange.contains _ hlast).2
    omega

/-- What a collapsed batch leaves on a file of `base` bytes. -/
structure FileBatchOutcome (base : Nat) (writes : List FileBatchWrite) (out : List CollapsedFileWrite)
    (range : ByteRange) (size : Nat) : Prop where
  nonempty : ∀ w ∈ out, w.bytes ≠ []
  sorted : out.Pairwise fun a b => a.stop ≤ b.offset
  bytes : ∀ p, valueAt (out.map CollapsedWrite.span) p = lastAt (writes.map FileBatchWrite.span) p
  covers : ∀ p, (∃ w ∈ out, w.offset ≤ p ∧ p < w.stop) ↔ Written writes p
  hull : Hull (Written writes) range
  size_eq : size = max base range.stop
  reached : ∀ p, p < size → p < base ∨ Written writes p

theorem fileBatchOutcome_of_leavesBytes {base maxBytes size : Nat} {writes : List FileBatchWrite}
    {acc : FileBatchProgress} {out : List CollapsedFileWrite} {range : ByteRange}
    (hleaves : LeavesBytes base writes acc) (hgap : NoGap base writes)
    (hstops : ∀ w ∈ writes, w.stop < u64Bound)
    (hfold : writes.foldlM (collapseNativeFileWrite maxBytes) ⟨[], base, 0⟩ = .ok acc)
    (h : collapseNativeFileBatchWrites writes base maxBytes = .ok (out, range, size)) :
    FileBatchOutcome base writes out range size := by
  obtain ⟨first, hfirst, h⟩ := bind_eq_ok.1 h
  rw [hfold, ok_bind] at h
  have hnonempty : ∀ w ∈ acc.collapsed, w.bytes ≠ [] := fun w hw =>
    List.ne_nil_of_length_pos (hleaves.ordered.2 _ (List.mem_map_of_mem hw))
  have hsorted := List.pairwise_map.1 hleaves.ordered.1
  split at h
  · next start last hstart hlast =>
    obtain ⟨-, h⟩ := bind_checkedAdd h
    cases h
    obtain ⟨hhull, hle⟩ := hull_of_ordered hleaves.ordered hleaves.covers_iff hstart hlast
    have hne : last.stop - start.offset ≠ 0 := by
      have hmem : last ∈ acc.collapsed := List.mem_of_getLast? hlast
      have hpos := List.length_pos_iff.2 (hnonempty last hmem)
      have hlt := (hhull.contains last.offset
        ((hleaves.covers_iff _).1 ⟨last, hmem, le_rfl, Nat.lt_add_of_pos_right hpos⟩))
      intro hzero
      rw [hzero] at hlt
      exact absurd hlt.2 (Nat.not_lt.2 hlt.1)
    exact ⟨hnonempty, hsorted, hleaves.bytes, hleaves.covers_iff, hhull,
      hleaves.size_eq hhull hne, hleaves.reached⟩
  · next hnone =>
    have hempty : acc.collapsed = [] := by
      cases hc : acc.collapsed with
      | nil => rfl
      | cons w ws =>
        rw [hc] at hnone
        exact (hnone w _ rfl (List.getLast?_eq_some_getLast (List.cons_ne_nil w ws))).elim
    cases h
    have hwritten : ∀ p, ¬ Written writes p := by
      intro p hp
      obtain ⟨w, hw, -⟩ := (hleaves.covers_iff p).2 hp
      rw [hempty] at hw
      cases hw
    have hoffset : first.offset ≤ base := by
      obtain ⟨rest, rfl⟩ := List.head?_eq_some_iff.1 (orFail_eq_ok.1 hfirst)
      exact hgap.1
    have hbytes := hleaves.bytes
    have hcovers := hleaves.covers_iff
    rw [hempty] at hbytes hcovers
    exact ⟨by simp, .nil, hbytes, hcovers, ⟨fun p hp => absurd hp (hwritten p), fun _ _ _ => .inl rfl⟩,
      (Nat.max_eq_left hoffset).symm, fun p hp => .inl hp⟩

/-- A batch within the limit is collapsed when no write starts beyond the size that the base
and the writes before it reach, and no write ends beyond the last position that a `u64` counts. -/
theorem collapseNativeFileBatchWrites_last_write {base maxBytes : Nat} {writes : List FileBatchWrite}
    (hne : writes ≠ []) (hmax : maxBytes < u64Bound) (hbytes : fileBatchBytes writes ≤ maxBytes) :
    ((∃ result, collapseNativeFileBatchWrites writes base maxBytes = .ok result) ↔
      NoGap base writes ∧ ∀ w ∈ writes, w.stop < u64Bound) ∧
    ∀ out range size, collapseNativeFileBatchWrites writes base maxBytes = .ok (out, range, size) →
      FileBatchOutcome base writes out range size := by
  have hleaves : NoGap base writes → (∀ w ∈ writes, w.stop < u64Bound) →
      ∃ acc, writes.foldlM (collapseNativeFileWrite maxBytes) ⟨[], base, 0⟩ = .ok acc ∧
        LeavesBytes base writes acc := fun hgap hstops =>
    (LeavesBytes.start base).foldlM (by simp) hstops hgap hmax (by rwa [Nat.zero_add])
  refine ⟨⟨?_, ?_⟩, fun out range size h => ?_⟩
  · rintro ⟨result, h⟩
    obtain ⟨first, -, h⟩ := bind_eq_ok.1 h
    obtain ⟨acc, hfold, -⟩ := bind_eq_ok.1 h
    exact noGap_of_foldlM hfold
  · rintro ⟨hgap, hstops⟩
    obtain ⟨acc, hfold, hacc⟩ := hleaves hgap hstops
    obtain ⟨first, rest, rfl⟩ := List.exists_cons_of_ne_nil hne
    rw [collapseNativeFileBatchWrites, List.head?_cons, orFail, ok_bind, hfold, ok_bind]
    split
    · next start last hstart hlast =>
      have hstop := hacc.stop_lt hstops last (List.mem_of_getLast? hlast)
      exact ⟨_, bind_eq_ok.2 ⟨_, checkedAdd_of_lt hstop, rfl⟩⟩
    · exact ⟨_, rfl⟩
  · obtain ⟨first, -, hrest⟩ := bind_eq_ok.1 h
    obtain ⟨acc, hfold, -⟩ := bind_eq_ok.1 hrest
    obtain ⟨hgap, hstops⟩ := noGap_of_foldlM hfold
    obtain ⟨acc', hfold', hacc⟩ := hleaves hgap hstops
    obtain rfl : acc' = acc := Except.ok.inj (hfold'.symm.trans hfold)
    exact fileBatchOutcome_of_leavesBytes hacc hgap hstops hfold h

/-- Two writes that overlap and grow the file. -/
theorem collapseNativeFileBatchWrites_grow :
    FileBatchOutcome 2 [⟨1, [1, 2, 3]⟩, ⟨2, [7]⟩] [⟨1, [1], ()⟩, ⟨2, [7], ()⟩, ⟨3, [3], ()⟩] ⟨1, 3⟩ 4 :=
  (collapseNativeFileBatchWrites_last_write (by decide) (by decide : 64 < u64Bound) (by decide)).2 _ _ _
    (by decide)

/-- A write of one byte at the last position, which leaves no gap in a file that ends there. -/
theorem collapseNativeFileBatchWrites_overflow :
    NoGap (u64Bound - 1) [⟨u64Bound - 1, [0]⟩] ∧
      fileBatchBytes [⟨u64Bound - 1, [0]⟩] ≤ defaultNativeFileBatchMaxBytes ∧
      collapseNativeFileBatchWrites [⟨u64Bound - 1, [0]⟩] (u64Bound - 1)
        defaultNativeFileBatchMaxBytes = .error (invalidArgument "byte range overflows u64") :=
  ⟨⟨le_rfl, trivial⟩, by decide, by decide⟩

end CowStore.Local
