import CowStore.Local.FileBatch

/-!
# Staging a file batch

A segment holds whole blocks.  The writes of a collapsed batch are put into stretches of
blocks that do not touch, and each stretch is staged as the bytes that the file had there with
the writes over them.  The file is not read for a stretch whose writes cover all of it.
-/

namespace CowStore.Local

open Lib Object

/-! ## Stretches of blocks -/

/-- The blocks from `start` to `stop` are those that the write touches. -/
structure Encloses (bs : Nat) (write : CollapsedFileWrite) (start stop : Nat) : Prop where
  pos : 0 < bs
  start_dvd : bs ∣ start
  stop_dvd : bs ∣ stop
  start_le : start ≤ write.offset
  offset_lt : write.offset < start + bs
  le_stop : write.stop ≤ stop
  stop_lt : stop < write.stop + bs

/-- The groups with one more write, which stands in the blocks from `start` to `stop`. -/
def addToGroups (groups : List NativeBatchSegmentGroup) (write : CollapsedFileWrite)
    (start stop : Nat) : List NativeBatchSegmentGroup :=
  match groups.getLast? with
  | none => [⟨start, stop, [write]⟩]
  | some last =>
    if start ≤ last.stop then
      groups.dropLast ++ [⟨last.start, max last.stop stop, last.writes ++ [write]⟩]
    else groups ++ [⟨start, stop, [write]⟩]

section

variable {bs : Nat} {groups out : List NativeBatchSegmentGroup} {write : CollapsedFileWrite}

theorem blocksForBytes_eq_ok {bytes blocks : Nat} (h : blocksForBytes bytes bs = .ok blocks)
    (hpos : 0 < bytes) : 0 < bs ∧ bytes ≤ blocks * bs ∧ blocks * bs < bytes + bs := by
  obtain ⟨⟨⟩, hbs, h⟩ := bind_eq_ok.1 h
  have hbs : 0 < bs := Nat.pos_of_ne_zero (failIf_eq_ok.1 hbs)
  rw [if_neg hpos.ne'] at h
  obtain ⟨-, h⟩ := bind_checkedAdd h
  cases h
  have hdiv := Nat.div_add_mod (bytes + (bs - 1)) bs
  have hmod := Nat.mod_lt (bytes + (bs - 1)) hbs
  rw [Nat.mul_comm] at hdiv
  omega

theorem pushSegmentGroup_eq_ok (h : pushSegmentGroup bs groups write = .ok out)
    (hwrite : 0 < write.bytes.length) :
    ∃ start stop, Encloses bs write start stop ∧ out = addToGroups groups write start stop := by
  obtain ⟨-, h⟩ := bind_checkedAdd h
  obtain ⟨-, h⟩ := bind_checkedMul h
  obtain ⟨blocks, hblocks, h⟩ := bind_eq_ok.1 h
  obtain ⟨-, h⟩ := bind_checkedMul h
  obtain ⟨-, h⟩ := bind_checkedAdd h
  have hle := Nat.div_mul_le_self write.offset bs
  obtain ⟨hbs, hge, hlt⟩ := blocksForBytes_eq_ok hblocks (by omega)
  have hdiv := Nat.div_add_mod write.offset bs
  have hmod := Nat.mod_lt write.offset hbs
  have hwstop : write.stop = write.offset + write.bytes.length := rfl
  rw [Nat.mul_comm] at hdiv
  refine ⟨write.offset / bs * bs, write.offset / bs * bs + blocks * bs,
    ⟨hbs, Nat.dvd_mul_left _ _, ?_, hle, by omega, by omega, by omega⟩, ?_⟩
  · exact Nat.dvd_add (Nat.dvd_mul_left _ _) (Nat.dvd_mul_left _ _)
  · cases hlast : groups.getLast? with
    | none =>
      rw [hlast] at h
      cases h
      rw [addToGroups, hlast]
    | some last =>
      rw [hlast] at h
      cases h
      rw [addToGroups, hlast]

theorem exists_pushSegmentGroup (groups : List NativeBatchSegmentGroup) (hbs : 0 < bs)
    (hstop : write.stop + bs ≤ u64Bound) : ∃ out, pushSegmentGroup bs groups write = .ok out := by
  have hwstop : write.stop = write.offset + write.bytes.length := rfl
  have hle := Nat.div_mul_le_self write.offset bs
  rw [pushSegmentGroup, CollapsedWrite.endExclusive, checkedAdd_of_lt (by omega), ok_bind,
    checkedMul_of_lt (by omega), ok_bind]
  obtain ⟨blocks, hblocks, hlen⟩ : ∃ blocks, blocksForBytes (write.offset + write.bytes.length -
      write.offset / bs * bs) bs = .ok blocks ∧
      blocks * bs ≤ write.offset + write.bytes.length - write.offset / bs * bs + (bs - 1) := by
    rw [blocksForBytes, failIf, if_neg hbs.ne', ok_bind]
    split
    · exact ⟨0, rfl, by simp⟩
    · rw [checkedAdd_of_lt (by omega), ok_bind]
      exact ⟨_, rfl, Nat.div_mul_le_self _ _⟩
  rw [hblocks, ok_bind, checkedMul_of_lt (by omega), ok_bind, checkedAdd_of_lt (by omega), ok_bind]
  split <;> exact ⟨_, rfl⟩

theorem add_le_of_dvd_lt {x y : Nat} (hx : bs ∣ x) (hy : bs ∣ y) (h : x < y) : x + bs ≤ y := by
  have := Nat.le_of_dvd (Nat.sub_pos_of_lt h) (Nat.dvd_sub hy hx)
  omega

variable {start stop : Nat}

theorem Encloses.touched {x : Nat} (h : Encloses bs write start stop) (hx : bs ∣ x)
    (hstart : start ≤ x) (hstop : x < stop) : write.offset < x + bs ∧ x < write.stop := by
  have h1 := h.offset_lt
  have h2 := h.stop_lt
  have h3 := add_le_of_dvd_lt hx h.stop_dvd hstop
  omega

/-- A stretch of whole blocks around its writes, each block with a byte of one of them. -/
structure Stretch (bs : Nat) (g : NativeBatchSegmentGroup) : Prop where
  pos : g.start < g.stop
  start_dvd : bs ∣ g.start
  stop_dvd : bs ∣ g.stop
  inside : ∀ w ∈ g.writes, g.start ≤ w.offset ∧ w.stop ≤ g.stop
  touched : ∀ x, bs ∣ x → g.start ≤ x → x < g.stop → ∃ w ∈ g.writes, w.offset < x + bs ∧ x < w.stop

/-- The groups are stretches that stand apart, and hold the writes `done`. -/
structure Grouped (bs : Nat) (done : List CollapsedFileWrite)
    (groups : List NativeBatchSegmentGroup) : Prop where
  stretch : ∀ g ∈ groups, Stretch bs g
  apart : groups.Pairwise fun a b => a.stop < b.start
  writes : (groups.map (·.writes)).flatten = done

theorem Encloses.stretch (h : Encloses bs write start stop) (hwrite : 0 < write.bytes.length) :
    Stretch bs ⟨start, stop, [write]⟩ where
  pos := h.start_le.trans_lt ((Nat.lt_add_of_pos_right hwrite).trans_le h.le_stop)
  start_dvd := h.start_dvd
  stop_dvd := h.stop_dvd
  inside w hw := by
    rw [List.mem_singleton.1 hw]
    exact ⟨h.start_le, h.le_stop⟩
  touched x hx h1 h2 := ⟨write, List.mem_singleton_self _, h.touched hx h1 h2⟩

theorem Stretch.grow {g : NativeBatchSegmentGroup} (hg : Stretch bs g)
    (h : Encloses bs write start stop) (hstart : start ≤ g.stop) (hle : g.start ≤ write.offset) :
    Stretch bs ⟨g.start, max g.stop stop, g.writes ++ [write]⟩ where
  pos := hg.pos.trans_le (Nat.le_max_left _ _)
  start_dvd := hg.start_dvd
  stop_dvd := by
    rcases Nat.le_total g.stop stop with hle | hle
    · rw [Nat.max_eq_right hle]
      exact h.stop_dvd
    · rw [Nat.max_eq_left hle]
      exact hg.stop_dvd
  inside w hw := by
    rcases List.mem_append.1 hw with hw | hw
    · obtain ⟨h1, h2⟩ := hg.inside w hw
      exact ⟨h1, h2.trans (Nat.le_max_left _ _)⟩
    · rw [List.mem_singleton.1 hw]
      exact ⟨hle, h.le_stop.trans (Nat.le_max_right _ _)⟩
  touched x hx h1 h2 := by
    rcases Nat.lt_or_ge x g.stop with hlt | hge
    · obtain ⟨w, hw, htouched⟩ := hg.touched x hx h1 hlt
      exact ⟨w, List.mem_append_left _ hw, htouched⟩
    · have h2 : x < stop := (lt_max_iff.1 h2).resolve_left (Nat.not_lt.2 hge)
      exact ⟨write, List.mem_append_right _ (List.mem_singleton_self _),
        h.touched hx (hstart.trans hge) h2⟩

theorem Grouped.add {done : List CollapsedFileWrite} (h : Grouped bs done groups)
    (hwrite : 0 < write.bytes.length) (hafter : ∀ w ∈ done, w.stop ≤ write.offset)
    (henc : Encloses bs write start stop) :
    Grouped bs (done ++ [write]) (addToGroups groups write start stop) := by
  have hnew := henc.stretch hwrite
  rw [addToGroups]
  split
  · next hlast =>
    rw [List.getLast?_eq_none_iff] at hlast
    subst hlast
    exact ⟨by simpa using hnew, List.pairwise_singleton _ _, by simpa using h.writes⟩
  · next last hlast =>
    obtain ⟨init, rfl⟩ := List.getLast?_eq_some_iff.1 hlast
    obtain ⟨hinit, hstretch⟩ := List.forall_mem_append.1 h.stretch
    have hstretch := hstretch last (List.mem_singleton_self _)
    obtain ⟨hsorted, -, hbefore⟩ := List.pairwise_append.1 h.apart
    have hwrites := h.writes
    rw [List.map_append, List.flatten_append, List.map_singleton, List.flatten_singleton] at hwrites
    split
    · next hle =>
      -- the last stretch has a write, which ends before this one
      obtain ⟨w, hw, -, hlt⟩ := hstretch.touched _ hstretch.start_dvd le_rfl hstretch.pos
      have hoffset := hafter w (hwrites ▸ List.mem_append_right _ hw)
      rw [List.dropLast_concat]
      refine ⟨List.forall_mem_append.2 ⟨hinit, ?_⟩, List.pairwise_append.2 ⟨hsorted, ?_, ?_⟩, ?_⟩
      · simpa using hstretch.grow henc hle (hlt.le.trans hoffset)
      · exact List.pairwise_singleton _ _
      · simpa using hbefore
      · simp [← hwrites]
    · next hlt =>
      refine ⟨List.forall_mem_append.2 ⟨h.stretch, by simpa using hnew⟩,
        List.pairwise_append.2 ⟨h.apart, List.pairwise_singleton _ _, fun a ha b hb => ?_⟩, ?_⟩
      · rw [List.mem_singleton.1 hb]
        rcases List.mem_append.1 ha with ha | ha
        · have h1 := hbefore a ha last (List.mem_singleton_self _)
          have h2 := hstretch.pos
          show a.stop < start
          omega
        · rw [List.mem_singleton.1 ha]
          exact Nat.lt_of_not_le hlt
      · simp [← hwrites]

theorem grouped_of_foldlM {done writes : List CollapsedFileWrite} (h : Grouped bs done groups)
    (hordered : Ordered ((done ++ writes).map CollapsedWrite.span))
    (hfold : writes.foldlM (pushSegmentGroup bs) groups = .ok out) :
    Grouped bs (done ++ writes) out := by
  induction writes generalizing done groups with
  | nil =>
    cases hfold
    rwa [List.append_nil]
  | cons write writes ih =>
    rw [List.foldlM_cons] at hfold
    obtain ⟨next, hpush, hfold⟩ := bind_eq_ok.1 hfold
    have hwrite : 0 < write.bytes.length := hordered.2 _ (List.mem_map_of_mem (by simp))
    obtain ⟨start, stop, henc, rfl⟩ := pushSegmentGroup_eq_ok hpush hwrite
    have hafter : ∀ w ∈ done, w.stop ≤ write.offset := fun w hw =>
      (List.pairwise_append.1 (List.pairwise_map.1 hordered.1)).2.2 w hw write List.mem_cons_self
    have hnext := h.add hwrite hafter henc
    rw [List.append_cons] at hordered ⊢
    exact ih hnext hordered hfold

theorem exists_nativeBatchSegmentGroups {writes : List CollapsedFileWrite} (hbs : 0 < bs)
    (hstops : ∀ w ∈ writes, w.stop + bs ≤ u64Bound) (groups : List NativeBatchSegmentGroup) :
    ∃ out, writes.foldlM (pushSegmentGroup bs) groups = .ok out := by
  induction writes generalizing groups with
  | nil => exact ⟨groups, rfl⟩
  | cons write writes ih =>
    obtain ⟨hstop, hstops⟩ := List.forall_mem_cons.1 hstops
    obtain ⟨next, hnext⟩ := exists_pushSegmentGroup groups hbs hstop
    rw [List.foldlM_cons, hnext, ok_bind]
    exact ih hstops next

end

/-! ## Staging -/

variable {writes : List CollapsedFileWrite}

theorem covers_of_coverFrom {target covered : Nat} (h : coverFrom target covered writes = .ok true) :
    ∀ p, covered ≤ p → p < target → ∃ w ∈ writes, w.offset ≤ p ∧ p < w.stop := by
  induction writes generalizing covered with
  | nil => cases h
  | cons write writes ih =>
    intro p hp hlt
    obtain ⟨-, h⟩ := bind_checkedAdd h
    have hstop : write.stop = write.offset + write.bytes.length := rfl
    split at h
    · obtain ⟨w, hw, hin⟩ := ih h p hp hlt
      exact ⟨w, List.mem_cons_of_mem _ hw, hin⟩
    · split at h
      · cases h
      · next hoffset =>
        rcases Nat.lt_or_ge p write.stop with hin | hge
        · exact ⟨write, List.mem_cons_self, by omega, hin⟩
        · split at h
          · omega
          · obtain ⟨w, hw, hin⟩ := ih h p hge hlt
            exact ⟨w, List.mem_cons_of_mem _ hw, hin⟩

theorem covers_of_nativeBatchWritesCoverRange {range : ByteRange}
    (h : nativeBatchWritesCoverRange writes range = .ok true) :
    ∀ p, range.offset ≤ p → p < range.stop → ∃ w ∈ writes, w.offset ≤ p ∧ p < w.stop := by
  intro p hp hlt
  rw [nativeBatchWritesCoverRange] at h
  split at h
  · next hlen =>
    rw [ByteRange.stop, hlen] at hlt
    omega
  · obtain ⟨target, htarget, h⟩ := bind_eq_ok.1 h
    obtain ⟨-, rfl⟩ := ByteRange.endExclusive_eq_ok.1 htarget
    exact covers_of_coverFrom h p hp hlt

theorem overlayNativeBatchWrites_spec {start : Nat} {bytes : List UInt8}
    (hin : ∀ w ∈ writes, start ≤ w.offset ∧ w.stop ≤ start + bytes.length) :
    ∃ out, overlayNativeBatchWrites start writes bytes = .ok out ∧ out.length = bytes.length ∧
      ∀ p, out[p]? = (lastAt (writes.map CollapsedWrite.span) (start + p)).or bytes[p]? := by
  induction writes using List.reverseRecOn with
  | nil => exact ⟨bytes, rfl, rfl, fun _ => rfl⟩
  | append_singleton writes write ih =>
    obtain ⟨hwrites, hwrite⟩ := List.forall_mem_append.1 hin
    obtain ⟨h1, h2⟩ := hwrite write (List.mem_singleton_self _)
    obtain ⟨out, hout, hlen, hget⟩ := ih hwrites
    have hstop : write.stop = write.offset + write.bytes.length := rfl
    have hfits : write.offset - start + write.bytes.length ≤ out.length := by omega
    refine ⟨splice out (write.offset - start) write.bytes, ?_, (length_splice hfits).trans hlen, ?_⟩
    · rw [overlayNativeBatchWrites, List.foldlM_append]
      refine bind_eq_ok.2 ⟨out, hout, ?_⟩
      rw [List.foldlM_cons, overlayNativeBatchWrite, failIf, if_neg (Nat.not_lt.2 hfits)]
      rfl
    · intro p
      rw [getElem?_splice hfits, List.map_append, List.map_singleton, lastAt_append_singleton, hget p]
      by_cases hp : write.offset ≤ start + p ∧ start + p < write.stop
      · rw [if_pos (show write.span.start ≤ start + p ∧ start + p < write.span.stop from hp),
          if_pos (by omega), Option.some_or, List.getElem?_eq_getElem (by omega)]
        show _ = some (write.bytes.getD (start + p - write.offset) 0)
        rw [List.getD_eq_getElem?_getD, List.getElem?_eq_getElem (by omega), Option.getD_some]
        congr 2
        omega
      · rw [if_neg (show ¬ (write.span.start ≤ start + p ∧ start + p < write.span.stop) from hp),
          if_neg (by omega)]

theorem Grouped.lastAt_eq {bs q : Nat} {groups : List NativeBatchSegmentGroup}
    {g : NativeBatchSegmentGroup} (h : Grouped bs writes groups)
    (hordered : Ordered (writes.map CollapsedWrite.span)) (hg : g ∈ groups) (hq : g.start ≤ q ∧ q < g.stop) :
    lastAt (g.writes.map CollapsedWrite.span) q = valueAt (writes.map CollapsedWrite.span) q := by
  have hmem : ∀ w, w ∈ writes ↔ ∃ g' ∈ groups, w ∈ g'.writes := by
    intro w
    rw [← h.writes, List.mem_flatten]
    simp
  refine (valueAt_congr hordered.apart fun v => ?_).symm
  simp only [Shows, List.mem_reverse, List.mem_map, exists_exists_and_eq_and]
  constructor
  · rintro ⟨w, hw, hat⟩
    obtain ⟨g', hg', hw'⟩ := (hmem w).1 hw
    obtain ⟨h1, h2⟩ := (h.stretch g' hg').inside w hw'
    -- another stretch would stand on the position too
    by_cases heq : g' = g
    · exact ⟨w, heq ▸ hw', hat⟩
    · let R (a b : NativeBatchSegmentGroup) : Prop := a.stop < b.start ∨ b.stop < a.start
      have : Std.Symm R := ⟨fun _ _ => Or.symm⟩
      have hapart : groups.Pairwise R := h.apart.imp Or.inl
      have hstart : w.offset ≤ q := hat.1
      have hstop : q < w.stop := hat.2.1
      rcases hapart.forall hg' hg heq with hlt | hlt <;> omega
  · rintro ⟨w, hw, hat⟩
    exact ⟨w, (hmem w).2 ⟨g, hg, hw⟩, hat⟩

section

variable {crc : List UInt8 → Nat} {config : LocalStoreConfig} {s : Coordinator}
  {keyspaceId fileId : Nat} {base preserved : List UInt8} {g : NativeBatchSegmentGroup}

/-- The reads of the file return the bytes of `base`. -/
def ReadsAs (crc : List UInt8 → Nat) (config : LocalStoreConfig) (s : Coordinator)
    (keyspaceId fileId : Nat) (base : List UInt8) : Prop :=
  ∀ (range : ByteRange) (bytes : List UInt8), range.stop ≤ base.length →
    s.readFileWithVerification crc config keyspaceId fileId range range.len .default = .ok bytes →
    bytes = slice base range.offset range.len

theorem preservedBytes_spec (hread : ReadsAs crc config s keyspaceId fileId base)
    (h : preservedBytes crc config s keyspaceId fileId base.length g = .ok preserved) :
    preserved.length = g.stop - g.start ∧ ∀ p, p < g.stop - g.start →
      preserved[p]? = some (base.getD (g.start + p) 0) ∨
        ∃ w ∈ g.writes, w.offset ≤ g.start + p ∧ g.start + p < w.stop := by
  have hzero : ∀ p, base.length ≤ g.start + p → base.getD (g.start + p) 0 = 0 := by
    intro p hp
    rw [List.getD_eq_getElem?_getD, List.getElem?_eq_none hp]
    rfl
  have hempty : ∀ p, p < g.stop - g.start → (List.replicate (g.stop - g.start) (0 : UInt8))[p]? = some 0 :=
    fun p hp => List.getElem?_replicate_of_lt hp
  rw [preservedBytes] at h
  split at h
  · next hlt =>
    obtain ⟨covered, hcover, h⟩ := bind_eq_ok.1 h
    cases covered with
    | true =>
      cases h
      refine ⟨List.length_replicate, fun p hp => ?_⟩
      rw [hempty p hp]
      rcases Nat.lt_or_ge (g.start + p) base.length with hin | hge
      · have hstop : g.start + p < ByteRange.stop
            ⟨g.start, min (base.length - g.start) (g.stop - g.start)⟩ := by
          show g.start + p < g.start + min (base.length - g.start) (g.stop - g.start)
          omega
        exact .inr (covers_of_nativeBatchWritesCoverRange hcover _ (Nat.le_add_right _ _) hstop)
      · exact .inl (congrArg some (hzero p hge).symm)
    | false =>
      obtain ⟨bytes, hbytes, h⟩ := bind_eq_ok.1 h
      cases h
      have hle : g.start + min (base.length - g.start) (g.stop - g.start) ≤ base.length := by omega
      obtain rfl := hread ⟨g.start, min (base.length - g.start) (g.stop - g.start)⟩ bytes hle hbytes
      have hlen := length_slice hle
      have hfits : 0 + (slice base g.start (min (base.length - g.start) (g.stop - g.start))).length ≤
          (List.replicate (g.stop - g.start) (0 : UInt8)).length := by
        rw [hlen, List.length_replicate]
        omega
      refine ⟨(length_splice hfits).trans List.length_replicate, fun p hp => .inl ?_⟩
      rw [getElem?_splice hfits, hlen, hempty p hp]
      rcases Nat.lt_or_ge (g.start + p) base.length with hin | hge
      · rw [if_pos (by omega), getElem?_slice, if_pos (by omega), List.getD_eq_getElem?_getD,
          Nat.sub_zero, List.getElem?_eq_getElem hin]
        rfl
      · rw [if_neg (by omega), hzero p hge]
  · next hge =>
    cases h
    refine ⟨List.length_replicate, fun p hp => .inl ?_⟩
    rw [hempty p hp, hzero p (by omega)]

/-- The bytes of a stretch: the file with the writes over it. -/
theorem Grouped.staged {bs : Nat} {writes : List CollapsedFileWrite}
    {groups : List NativeBatchSegmentGroup} (h : Grouped bs writes groups)
    (hordered : Ordered (writes.map CollapsedWrite.span)) (hg : g ∈ groups)
    (hread : ReadsAs crc config s keyspaceId fileId base)
    (hpreserved : preservedBytes crc config s keyspaceId fileId base.length g = .ok preserved) :
    ∃ bytes, overlayNativeBatchWrites g.start g.writes preserved = .ok bytes ∧
      bytes.length = g.stop - g.start ∧ ∀ p, p < g.stop - g.start → bytes[p]? =
        some ((valueAt (writes.map CollapsedWrite.span) (g.start + p)).getD (base.getD (g.start + p) 0)) := by
  obtain ⟨hlen, hbytes⟩ := preservedBytes_spec hread hpreserved
  have hpos := (h.stretch g hg).pos
  have hin : ∀ w ∈ g.writes, g.start ≤ w.offset ∧ w.stop ≤ g.start + preserved.length := by
    intro w hw
    obtain ⟨h1, h2⟩ := (h.stretch g hg).inside w hw
    omega
  obtain ⟨out, hout, hlen', hget⟩ := overlayNativeBatchWrites_spec hin
  refine ⟨out, hout, hlen'.trans hlen, fun p hp => ?_⟩
  rw [hget p, h.lastAt_eq hordered hg (by omega)]
  cases hv : valueAt (writes.map CollapsedWrite.span) (g.start + p) with
  | some v => rfl
  | none =>
    rcases hbytes p hp with hkept | ⟨w, hw, hcovers⟩
    · rw [hkept]
      rfl
    · -- a byte that a write of the stretch covers is shown by it
      have hmem : w ∈ writes := by
        rw [← h.writes, List.mem_flatten]
        exact ⟨g.writes, List.mem_map_of_mem hg, hw⟩
      exact absurd ⟨w.span, List.mem_map_of_mem hmem, hcovers.1, hcovers.2, rfl⟩
        (valueAt_eq_none.1 hv _)

end

theorem Grouped.block_iff {bs : Nat} {groups : List NativeBatchSegmentGroup}
    (h : Grouped bs writes groups) (b : Nat) : (∃ g ∈ groups, g.start ≤ b * bs ∧ b * bs < g.stop) ↔
      ∃ w ∈ writes, w.offset < (b + 1) * bs ∧ b * bs < w.stop := by
  have hdvd : bs ∣ b * bs := Nat.dvd_mul_left bs b
  rw [← h.writes, Nat.add_mul, Nat.one_mul]
  simp only [List.mem_flatten, List.mem_map, exists_exists_and_eq_and]
  constructor
  · rintro ⟨g, hg, h1, h2⟩
    obtain ⟨w, hw, htouched⟩ := (h.stretch g hg).touched _ hdvd h1 h2
    exact ⟨w, ⟨g, hg, hw⟩, htouched⟩
  · rintro ⟨w, ⟨g, hg, hw⟩, h1, h2⟩
    obtain ⟨h3, h4⟩ := (h.stretch g hg).inside w hw
    refine ⟨g, hg, Nat.le_of_not_lt fun hlt => ?_, h2.trans_le h4⟩
    have := add_le_of_dvd_lt hdvd (h.stretch g hg).start_dvd hlt
    omega

/-- The stretches of a collapsed batch are whole blocks, stand apart and hold every block that
a write touches and no other.  What is staged for a stretch is the file with the writes over
it, with zeroes beyond its end, and the file is left unread only where the writes of the
stretch cover what would be read. -/
theorem nativeBatchSegmentGroups_staged {bs : Nat} {writes : List CollapsedFileWrite}
    (hwrites : Ordered (writes.map CollapsedWrite.span)) :
    (0 < bs → (∀ w ∈ writes, w.stop + bs ≤ u64Bound) →
      ∃ groups, nativeBatchSegmentGroups writes bs = .ok groups) ∧
    ∀ groups, nativeBatchSegmentGroups writes bs = .ok groups →
      (∀ g ∈ groups, bs ∣ g.start ∧ bs ∣ g.stop ∧ g.start < g.stop) ∧
      groups.Pairwise (fun a b => a.stop < b.start) ∧
      (∀ b, (∃ g ∈ groups, g.start ≤ b * bs ∧ b * bs < g.stop) ↔
        ∃ w ∈ writes, w.offset < (b + 1) * bs ∧ b * bs < w.stop) ∧
      (∀ g ∈ groups, ∀ range, nativeBatchWritesCoverRange g.writes range = .ok true →
        ∀ p, range.offset ≤ p → p < range.stop → ∃ w ∈ g.writes, w.offset ≤ p ∧ p < w.stop) ∧
      ∀ crc config s keyspaceId fileId base, ReadsAs crc config s keyspaceId fileId base →
        ∀ g ∈ groups, ∀ preserved,
          preservedBytes crc config s keyspaceId fileId base.length g = .ok preserved →
          ∃ bytes, overlayNativeBatchWrites g.start g.writes preserved = .ok bytes ∧
            bytes.length = g.stop - g.start ∧ ∀ p, p < g.stop - g.start → bytes[p]? =
              some ((valueAt (writes.map CollapsedWrite.span) (g.start + p)).getD
                (base.getD (g.start + p) 0)) := by
  refine ⟨fun hbs hstops => exists_nativeBatchSegmentGroups hbs hstops [], fun groups h => ?_⟩
  have hstart : Grouped bs [] [] := ⟨by simp, .nil, rfl⟩
  have hgrouped : Grouped bs writes groups := grouped_of_foldlM hstart hwrites h
  refine ⟨fun g hg => ?_, hgrouped.apart, hgrouped.block_iff,
    fun g _ range hcover => covers_of_nativeBatchWritesCoverRange hcover,
    fun crc config s keyspaceId fileId base hread g hg preserved hpreserved =>
      hgrouped.staged hwrites hg hread hpreserved⟩
  have hstretch := hgrouped.stretch g hg
  exact ⟨hstretch.start_dvd, hstretch.stop_dvd, hstretch.pos⟩

/-- Two writes in touching blocks, and one further on. -/
theorem nativeBatchSegmentGroups_three :
    nativeBatchSegmentGroups [⟨1, [1], ()⟩, ⟨4, [2, 3], ()⟩, ⟨13, [4], ()⟩] 4 =
        .ok [⟨0, 8, [⟨1, [1], ()⟩, ⟨4, [2, 3], ()⟩]⟩, ⟨12, 16, [⟨13, [4], ()⟩]⟩] ∧
      ∃ groups, nativeBatchSegmentGroups [⟨1, [1], ()⟩, ⟨4, [2, 3], ()⟩, ⟨13, [4], ()⟩] 4 = .ok groups := by
  have hordered : Ordered ([⟨1, [1], ()⟩, ⟨4, [2, 3], ()⟩, ⟨13, [4], ()⟩].map
      (CollapsedWrite.span (M := Unit))) := by
    refine ⟨List.pairwise_map.2 ?_, by simp [CollapsedWrite.span]⟩
    decide
  exact ⟨by decide, (nativeBatchSegmentGroups_staged hordered).1 (by decide) (by decide)⟩

end CowStore.Local
