import CowStore.Local.Append

/-!
# Records without gaps

The records of a stream cover the bytes from the published prefix to the tail.  Records
join at the tail, where the last one may take up the next one, and a publish cuts them off
at the front; no cut of such records fails.
-/

namespace CowStore.Local

open Lib Object

/-- The record has bytes, and every part of it can be cut out. -/
structure AppendStreamRunRecord.Fits (record : AppendStreamRunRecord) : Prop where
  pos : 0 < record.len
  file : record.offset + record.len < u64Bound
  log : record.run.logPayloadOffset + record.len < u64Bound

/-- The records, one after the other, reach from `start` to `stop`. -/
def Covers : Nat → List AppendStreamRunRecord → Nat → Prop
  | start, [], stop => start = stop
  | start, record :: records, stop =>
    record.offset = start ∧ record.Fits ∧ Covers (start + record.len) records stop

variable {start mid stop : Nat} {record : AppendStreamRunRecord} {records : List AppendStreamRunRecord}

theorem covers_append {more : List AppendStreamRunRecord} :
    Covers start (records ++ more) stop ↔ ∃ mid, Covers start records mid ∧ Covers mid more stop := by
  induction records generalizing start with
  | nil => simp [Covers]
  | cons record records ih =>
    simp only [List.cons_append, Covers, ih]
    constructor
    · rintro ⟨hoffset, hfits, mid, hrecords, hmore⟩
      exact ⟨mid, ⟨hoffset, hfits, hrecords⟩, hmore⟩
    · rintro ⟨mid, ⟨hoffset, hfits, hrecords⟩, hmore⟩
      exact ⟨hoffset, hfits, mid, hrecords, hmore⟩

theorem Covers.le (h : Covers start records stop) : start ≤ stop := by
  induction records generalizing start with
  | nil => exact Nat.le_of_eq h
  | cons record records ih => exact (Nat.le_add_right _ _).trans (ih h.2.2)

theorem endExclusive_eq_ok {n : Nat} (h : record.endExclusive = .ok n) : n = record.offset + record.len :=
  (checkedAdd_eq_ok h).1

theorem AppendStreamRunRecord.Fits.endExclusive (h : record.Fits) :
    record.endExclusive = .ok (record.offset + record.len) :=
  checkedAdd_of_lt h.file

theorem AppendLogRun.validate_eq_ok {run : AppendLogRun} {u : Unit} :
    run.validate = .ok u ↔ 0 < run.payloadLen ∧ run.fileOffsetStart + run.payloadLen < u64Bound ∧
      run.logPayloadOffset + run.payloadLen < u64Bound ∧ run.payloadLen ≤ run.logRecordBytes := by
  simp only [AppendLogRun.validate, bind_eq_ok, failIf_eq_ok, AppendLogRunRange.fileOffsetEnd,
    AppendLogRunRange.logPayloadEnd]
  constructor
  · rintro ⟨-, hpos, n, hn, m, hm, hbytes⟩
    exact ⟨Nat.pos_of_ne_zero hpos, (checkedAdd_eq_ok hn).2, (checkedAdd_eq_ok hm).2, by omega⟩
  · rintro ⟨hpos, hfile, hlog, hbytes⟩
    exact ⟨(), Nat.ne_of_gt hpos, _, checkedAdd_of_lt hfile, _, checkedAdd_of_lt hlog, by omega⟩

/-! ## Cutting -/

theorem AppendStreamRunRecord.Fits.slice (h : record.Fits) {first last : Nat}
    (hfirst : record.offset ≤ first) (hlt : first < last) (hlast : last ≤ record.offset + record.len) :
    ∃ piece, record.slice first last = .ok (some piece) ∧ piece.offset = first ∧
      piece.len = last - first ∧ piece.Fits := by
  have hfile := h.file
  have hlog := h.log
  have hinside : ¬ (first < record.offset ∨ last > record.offset + record.len) := by omega
  have hoffset : record.run.logPayloadOffset + (first - record.offset) < u64Bound := by omega
  have hstop : first + (last - first) < u64Bound := by omega
  have hend : record.run.logPayloadOffset + (first - record.offset) + (last - first) < u64Bound := by omega
  rw [AppendStreamRunRecord.slice, if_neg (Nat.not_le.2 hlt), h.endExclusive, ok_bind, failIf,
    if_neg hinside, ok_bind]
  dsimp only
  rw [checkedAdd_of_lt hoffset, ok_bind]
  refine ⟨⟨record.ticketId, first, last - first, _⟩, bind_eq_ok.2 ⟨(), ?_, rfl⟩, rfl, rfl, ?_⟩
  · exact AppendLogRun.validate_eq_ok.2 ⟨Nat.sub_pos_of_lt hlt, hstop, hend, Nat.le_refl _⟩
  · exact ⟨Nat.sub_pos_of_lt hlt, hstop, hend⟩

theorem AppendStreamRunRecord.slice_eq_some {first last : Nat} {piece : AppendStreamRunRecord}
    (h : record.slice first last = .ok (some piece)) :
    (record.offset ≤ first ∧ last ≤ record.offset + record.len) ∧
      (piece.offset = first ∧ piece.len = last - first) ∧
      piece.run.storageNode = record.run.storageNode ∧ piece.run.logId = record.run.logId ∧
      piece.run.logPayloadOffset = record.run.logPayloadOffset + (first - record.offset) ∧
      piece.run.payloadLen = last - first := by
  rw [AppendStreamRunRecord.slice] at h
  split at h
  · cases h
  · obtain ⟨recordEnd, hend, ⟨⟩, hinside, h⟩ := bind2_eq_ok.1 h
    obtain ⟨-, h⟩ := bind_checkedAdd h
    obtain ⟨⟨⟩, -, h⟩ := bind_eq_ok.1 h
    cases h
    have hinside := failIf_eq_ok.1 hinside
    rw [endExclusive_eq_ok hend] at hinside
    exact ⟨by omega, ⟨rfl, rfl⟩, rfl, rfl, rfl, rfl⟩

variable {cut : Nat}

theorem retainRecords_cons (kept : Option AppendStreamRunRecord) {rest : List AppendStreamRunRecord}
    (hrest : retainRecords cut records = .ok rest) (hkept : (do
      let recordEnd ← record.endExclusive
      if recordEnd ≤ cut then return none
      else if record.offset < cut then record.slice cut recordEnd
      else return some record) = (.ok kept : Result _)) :
    retainRecords cut (record :: records) = .ok (kept.toList ++ rest) := by
  obtain ⟨pieces, hpieces, hpure⟩ := bind_eq_ok.1 hrest
  cases hpure
  rw [retainRecords, List.mapM_cons, hkept, ok_bind, hpieces, ok_bind]
  cases kept <;> rfl

theorem retainRecords_of_le (h : Covers start records stop) (hcut : cut ≤ start) :
    retainRecords cut records = .ok records := by
  induction records generalizing start with
  | nil => rfl
  | cons record records ih =>
    obtain ⟨rfl, hfits, hrest⟩ := h
    have hpos := hfits.pos
    refine retainRecords_cons (some record) (ih hrest (by omega)) ?_
    rw [hfits.endExclusive, ok_bind, if_neg (by omega), if_neg (by omega)]
    rfl

theorem Covers.retainRecords (h : Covers start records stop) (hstart : start ≤ cut)
    (hstop : cut ≤ stop) : ∃ kept, retainRecords cut records = .ok kept ∧ Covers cut kept stop := by
  induction records generalizing start with
  | nil =>
    have heq : cut = stop := by
      change start = stop at h
      omega
    exact ⟨[], rfl, heq⟩
  | cons record records ih =>
    obtain ⟨rfl, hfits, hrest⟩ := h
    by_cases hend : record.offset + record.len ≤ cut
    · obtain ⟨kept, hkept, hcovers⟩ := ih hrest hend
      refine ⟨kept, retainRecords_cons none hkept ?_, hcovers⟩
      rw [hfits.endExclusive, ok_bind, if_pos hend]
      rfl
    · have hlater := retainRecords_of_le hrest (Nat.le_of_not_le hend)
      by_cases hinside : record.offset < cut
      · obtain ⟨piece, hpiece, hoffset, hlen, hpieceFits⟩ :=
          hfits.slice hstart (Nat.lt_of_not_le hend) (Nat.le_refl _)
        refine ⟨piece :: records, retainRecords_cons (some piece) hlater ?_,
          hoffset, hpieceFits, ?_⟩
        · rw [hfits.endExclusive, ok_bind, if_neg hend, if_pos hinside, hpiece]
        · have hsum : cut + piece.len = record.offset + record.len := by omega
          rw [hsum]
          exact hrest
      · refine ⟨record :: records, retainRecords_cons (some record) hlater ?_, ?_⟩
        · rw [hfits.endExclusive, ok_bind, if_neg hend, if_neg hinside]
          rfl
        · have heq : record.offset = cut := by omega
          exact ⟨heq, hfits, heq ▸ hrest⟩

/-! ## The end of the records -/

theorem Covers.contiguousTail_eq (h : Covers start records stop) (expected : Nat) :
    contiguousTail expected records = .ok (if start ≤ expected then max expected stop else expected) := by
  induction records generalizing start expected with
  | nil =>
    obtain rfl : start = stop := h
    rw [contiguousTail]
    split
    · rw [Nat.max_eq_left ‹_›]
    · rfl
  | cons record records ih =>
    obtain ⟨rfl, hfits, hrest⟩ := h
    have hpos := hfits.pos
    have hle := hrest.le
    rw [contiguousTail, hfits.endExclusive, ok_bind]
    split
    · next hend => rw [ih hrest, if_pos hend, if_pos (by omega)]
    · next hend =>
      split
      · next hgap =>
        rw [if_neg (Nat.not_le.2 hgap)]
        rfl
      · next hgap =>
        rw [ih hrest, if_pos le_rfl, if_pos (Nat.le_of_not_lt hgap), Nat.max_eq_right hle,
          Nat.max_eq_right (by omega)]

theorem Covers.contiguousTail_le (h : Covers start records stop) {expected tail : Nat}
    (hexpected : expected ≤ stop) (htail : contiguousTail expected records = .ok tail) : tail ≤ stop := by
  rw [h.contiguousTail_eq] at htail
  cases htail
  split
  · exact max_le hexpected le_rfl
  · exact hexpected

theorem coalesceWith_fits {combine : Nat → Nat → Nat → Nat} {last coalesced : AppendStreamRunRecord}
    (hlast : last.Fits) (h : last.coalesceWith combine record = .ok (some coalesced)) :
    coalesced.offset = last.offset ∧ coalesced.len = last.len + record.len ∧ coalesced.Fits := by
  rw [AppendStreamRunRecord.coalesceWith, hlast.endExclusive, ok_bind] at h
  split at h
  · cases h
  · next hsame =>
    obtain ⟨len, hlen, h⟩ := bind_eq_ok.1 h
    split at h
    · cases h
    · obtain ⟨⟨⟩, hvalid, h⟩ := bind_eq_ok.1 h
      cases h
      obtain ⟨hpos, hfile, hlog, -⟩ := AppendLogRun.validate_eq_ok.1 hvalid
      have hstart : last.run.fileOffsetStart = last.offset := by
        by_contra hne
        exact hsame (by simp [hne])
      refine ⟨rfl, (checkedAdd_eq_ok hlen).1, hpos, ?_, hlog⟩
      change last.run.fileOffsetStart + len < u64Bound at hfile
      rw [hstart] at hfile
      exact hfile

theorem covers_concat : Covers start (records ++ [record]) stop ↔
    Covers start records record.offset ∧ record.Fits ∧ record.offset + record.len = stop := by
  rw [covers_append]
  constructor
  · rintro ⟨mid, hrecords, rfl, hfits, hstop⟩
    exact ⟨hrecords, hfits, hstop⟩
  · rintro ⟨hrecords, hfits, hstop⟩
    exact ⟨record.offset, hrecords, rfl, hfits, hstop⟩

theorem AppendStreamState.pushRecord_covers {combine : Nat → Nat → Nat → Nat} {state : AppendStreamState}
    {joined : List AppendStreamRunRecord} (h : Covers start state.records record.offset)
    (hfits : record.Fits) (hpush : state.pushRecord combine record = .ok joined) :
    Covers start joined (record.offset + record.len) := by
  have happend : Covers start (state.records ++ [record]) (record.offset + record.len) :=
    covers_concat.2 ⟨h, hfits, rfl⟩
  unfold AppendStreamState.pushRecord at hpush
  split at hpush
  · cases hpush
    exact happend
  · next last hlast =>
    obtain ⟨lastEnd, -, hpush⟩ := bind_eq_ok.1 hpush
    split at hpush
    · obtain ⟨result, hresult, hpush⟩ := bind_eq_ok.1 hpush
      cases result with
      | none =>
        cases hpush
        exact happend
      | some coalesced =>
        cases hpush
        rw [← List.dropLast_append_getLast? last hlast, covers_concat] at h
        obtain ⟨hrecords, hlastFits, hend⟩ := h
        obtain ⟨hoffset, hlen, hcoalesced⟩ := coalesceWith_fits hlastFits hresult
        refine covers_concat.2 ⟨hoffset ▸ hrecords, hcoalesced, ?_⟩
        omega
    · cases hpush
      exact happend

end CowStore.Local
