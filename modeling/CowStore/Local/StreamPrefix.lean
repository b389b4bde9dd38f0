import CowStore.Local.Streams

/-!
# Persisting a prefix of a stream

The records of a stream are made durable from the front, in batches of a bounded number of
bytes.  A record may straddle the offset that is durable already, so a batch starts with a
part of it.  What is stored of a stream ends at an offset that is durable: a record that goes
on beyond it is left out as a whole, also the part of it below the offset.
-/

namespace CowStore.Local

open Lib StorageError

structure AppendStreamPrefixPersistBatch where
  records : List AppendStreamRunRecord
  durableThrough : Nat
  payloadBytes : Nat
  deriving DecidableEq, Repr

/-- The loop of `prefixPersistBatch`: what is selected so far, and where it ends. -/
def extendPersistBatch (maxBatchBytes : Nat) (batch : AppendStreamPrefixPersistBatch) :
    List AppendStreamRunRecord → Result AppendStreamPrefixPersistBatch
  | [] => .ok batch
  | record :: records => do
    let stop ← record.endExclusive
    if stop ≤ batch.durableThrough then
      extendPersistBatch maxBatchBytes batch records
    else if record.offset > batch.durableThrough then
      return batch
    else
      match ← record.slice batch.durableThrough stop with
      | none => extendPersistBatch maxBatchBytes batch records
      | some slice =>
        let payloadBytes ← checkedAdd batch.payloadBytes slice.run.payloadLen
          (invalidArgument "append batch bytes overflow")
        if batch.records ≠ [] ∧ payloadBytes > maxBatchBytes then
          return batch
        else
          extendPersistBatch maxBatchBytes ⟨batch.records ++ [slice], stop, payloadBytes⟩ records

namespace AppendStreamState

def prefixPersistBatch (state : AppendStreamState) (maxBatchBytes : Nat) :
    Result AppendStreamPrefixPersistBatch := do
  failIf (maxBatchBytes = 0) (invalidArgument
    "append stream prefix-persist batch byte cap must be greater than zero")
  extendPersistBatch maxBatchBytes ⟨[], state.durableThrough, 0⟩ state.records

def recordsThrough (state : AppendStreamState) (durableThrough : Nat) : List AppendStreamRunRecord :=
  state.records.filter fun record =>
    record.offset + record.len < u64Bound ∧ record.offset + record.len ≤ durableThrough

def durableExportAt (state : AppendStreamState) (durableThrough : Nat) : Result AppendStreamState := do
  failIf (durableThrough < state.durableThrough)
    (conflict "append stream durable export cannot regress")
  let tail ← state.contiguousRecordTailFrom state.durableThrough
  failIf (durableThrough > tail) (conflict "append stream durable export exceeds contiguous records")
  return { state with
    durableThrough, acceptedTail := durableThrough, records := state.recordsThrough durableThrough }

def pruneForDurableExport (state : AppendStreamState) : AppendStreamState :=
  { state with
    records := state.recordsThrough state.durableThrough
    acceptedTail := min state.acceptedTail state.durableThrough }

end AppendStreamState

/-! ## Where the bytes of a record are -/

def AppendStreamRunRecord.stop (record : AppendStreamRunRecord) : Nat := record.offset + record.len

/-- A record as a map from the bytes of the stream to the bytes of logs. -/
def AppendStreamRunRecord.span (record : AppendStreamRunRecord) : Span (Nat × Nat × Nat) :=
  ⟨record.offset, record.len, fun p => (record.run.storageNode, record.run.logId,
    record.run.logPayloadOffset + (p - record.offset))⟩

section

variable {start stop : Nat} {record : AppendStreamRunRecord} {records : List AppendStreamRunRecord}

theorem AppendStreamRunRecord.slice_at {first last p : Nat} {piece : AppendStreamRunRecord}
    {v : Nat × Nat × Nat} (hslice : record.slice first last = .ok (some piece))
    (h : piece.span.At p v) : record.span.At p v := by
  obtain ⟨⟨hfirst, hlast⟩, ⟨hoffset, hlen⟩, hnode, hlog, hlogOffset, -⟩ :=
    AppendStreamRunRecord.slice_eq_some hslice
  obtain ⟨h1, h2, rfl⟩ := h
  have h1 : piece.offset ≤ p := h1
  have h2 : p < piece.offset + piece.len := h2
  refine ⟨hfirst.trans (by omega), ?_, ?_⟩
  · show p < record.offset + record.len
    omega
  · show (_, _, _) = (piece.run.storageNode, piece.run.logId,
      piece.run.logPayloadOffset + (p - piece.offset))
    rw [hnode, hlog, hlogOffset, show record.run.logPayloadOffset + (first - record.offset) +
      (p - piece.offset) = record.run.logPayloadOffset + (p - record.offset) by omega]

theorem Covers.bounds (h : Covers start records stop) :
    ∀ r ∈ records, (start ≤ r.offset ∧ r.stop ≤ stop) ∧ r.Fits := by
  induction records generalizing start with
  | nil => simp
  | cons record records ih =>
    obtain ⟨rfl, hfits, hrest⟩ := h
    have hle := hrest.le
    refine List.forall_mem_cons.2 ⟨⟨⟨le_rfl, hle⟩, hfits⟩, fun r hr => ?_⟩
    obtain ⟨⟨h1, h2⟩, hr⟩ := ih hrest r hr
    exact ⟨⟨by omega, h2⟩, hr⟩

theorem Covers.laid (h : Covers start records stop) :
    Laid start stop (records.map AppendStreamRunRecord.span) := by
  refine ⟨⟨List.pairwise_map.2 ?_, ?_⟩, ?_⟩
  · induction records generalizing start with
    | nil => exact .nil
    | cons record records ih =>
      obtain ⟨rfl, hfits, hrest⟩ := h
      exact List.pairwise_cons.2 ⟨fun r hr => (hrest.bounds r hr).1.1, ih hrest⟩
  · exact List.forall_mem_map.2 fun r hr => (h.bounds r hr).2.pos
  · exact List.forall_mem_map.2 fun r hr => (h.bounds r hr).1

theorem Covers.covers (h : Covers start records stop) {p : Nat} (hp : start ≤ p ∧ p < stop) :
    ∃ r ∈ records, r.offset ≤ p ∧ p < r.stop := by
  induction records generalizing start with
  | nil =>
    obtain rfl : start = stop := h
    omega
  | cons record records ih =>
    obtain ⟨rfl, -, hrest⟩ := h
    rcases Nat.lt_or_ge p (record.offset + record.len) with hlt | hge
    · exact ⟨record, List.mem_cons_self, hp.1, hlt⟩
    · obtain ⟨r, hr, hcovers⟩ := ih hrest ⟨hge, hp.2⟩
      exact ⟨r, List.mem_cons_of_mem _ hr, hcovers⟩

end

/-! ## Batches -/

/-- The batch goes on from `start` without a gap, has the bytes of `records` in it, and holds
more than the cap only in one record. -/
structure Persists (start cap : Nat) (records : List AppendStreamRunRecord)
    (batch : AppendStreamPrefixPersistBatch) : Prop where
  contiguous : Covers start batch.records batch.durableThrough
  shows : ∀ p v, Shows (batch.records.map AppendStreamRunRecord.span) p v →
    Shows (records.map AppendStreamRunRecord.span) p v
  payload : batch.payloadBytes = batch.durableThrough - start
  single : cap < batch.payloadBytes → batch.records.length = 1

section

variable {start stop first cap : Nat} {record piece : AppendStreamRunRecord}
  {records all : List AppendStreamRunRecord} {batch : AppendStreamPrefixPersistBatch}

theorem Persists.add (h : Persists first cap all batch) (hrecord : record ∈ all)
    (hstop : batch.durableThrough < record.stop)
    (hslice : record.slice batch.durableThrough record.stop = .ok (some piece)) (hfits : piece.Fits)
    (hcap : ¬ (batch.records ≠ [] ∧ batch.payloadBytes + piece.run.payloadLen > cap)) : Persists first cap all
      ⟨batch.records ++ [piece], record.stop, batch.payloadBytes + piece.run.payloadLen⟩ := by
  obtain ⟨-, ⟨hoffset, hlen⟩, -, -, -, hpayloadLen⟩ := AppendStreamRunRecord.slice_eq_some hslice
  have hle := h.contiguous.le
  have hpayload := h.payload
  have hend : piece.offset + piece.len = record.stop := by omega
  refine ⟨covers_concat.2 ⟨hoffset.symm ▸ h.contiguous, hfits, hend⟩, ?_, ?_, ?_⟩
  · intro p v hv
    rw [List.map_append, shows_append, List.map_singleton, shows_cons,
      or_iff_left (shows_nil p v)] at hv
    rcases hv with hv | hv
    · exact h.shows p v hv
    · exact ⟨record.span, List.mem_map_of_mem hrecord, AppendStreamRunRecord.slice_at hslice hv⟩
  · show batch.payloadBytes + piece.run.payloadLen = record.stop - first
    omega
  · intro hlt
    have hnil : batch.records = [] := by
      by_contra hne
      exact hcap ⟨hne, hlt⟩
    simp [hnil]

theorem Persists.extend (h : Persists first cap all batch) (hrecords : Covers start records stop)
    (hall : ∀ r ∈ records, r ∈ all) :
    ∃ out, extendPersistBatch cap batch records = .ok out ∧ Persists first cap all out ∧
      (out.records = [] → batch.records = [] ∧
        contiguousTail batch.durableThrough records = .ok batch.durableThrough) := by
  induction records generalizing start batch with
  | nil => exact ⟨batch, rfl, h, fun hnil => ⟨hnil, rfl⟩⟩
  | cons record records ih =>
    obtain ⟨hrecord, hall⟩ := List.forall_mem_cons.1 hall
    obtain ⟨rfl, hfits, hrest⟩ := hrecords
    have hstop : record.stop = record.offset + record.len := rfl
    rw [extendPersistBatch, contiguousTail, hfits.endExclusive, ok_bind, ok_bind]
    split
    · exact ih h hrest hall
    · next hend =>
      split
      · exact ⟨batch, rfl, h, fun hnil => ⟨hnil, rfl⟩⟩
      · next hgap =>
        obtain ⟨piece, hslice, -, -, hpieceFits⟩ :=
          hfits.slice (Nat.le_of_not_lt hgap) (Nat.lt_of_not_le hend) le_rfl
        obtain ⟨-, -, -, -, -, hpayloadLen⟩ := AppendStreamRunRecord.slice_eq_some hslice
        have hpayload := h.payload
        have hle := h.contiguous.le
        have hfile := hfits.file
        rw [hslice, ok_bind]
        dsimp only
        rw [checkedAdd_of_lt (by omega), ok_bind]
        split
        · next hexceeds => exact ⟨batch, rfl, h, fun hnil => absurd hnil hexceeds.1⟩
        · next hcap =>
          obtain ⟨out, hout, hpersists, hnil⟩ := ih (h.add hrecord (Nat.lt_of_not_le hend) hslice
            hpieceFits hcap) hrest hall
          exact ⟨out, hout, hpersists, fun h => by simpa using (hnil h).1⟩

theorem exists_prefixPersistBatch {state : AppendStreamState}
    (h : Covers start state.records stop) (hcap : 0 < cap) :
    ∃ batch, state.prefixPersistBatch cap = .ok batch ∧
      Persists state.durableThrough cap state.records batch ∧ (batch.records = [] →
        state.contiguousRecordTailFrom state.durableThrough = .ok state.durableThrough) := by
  have hstart : Persists state.durableThrough cap state.records ⟨[], state.durableThrough, 0⟩ :=
    ⟨rfl, fun p v hv => (shows_nil p v hv).elim, (Nat.sub_self _).symm,
      fun hlt => absurd hlt (Nat.not_lt_zero cap)⟩
  obtain ⟨batch, hbatch, hpersists, hnil⟩ := hstart.extend h fun _ hr => hr
  refine ⟨batch, ?_, hpersists, fun h => (hnil h).2⟩
  rw [AppendStreamState.prefixPersistBatch, failIf, if_neg hcap.ne', ok_bind, hbatch]

end

/-! ## Exports -/

section

variable {start stop offset tail : Nat} {state : AppendStreamState}

def Recorded (records : List AppendStreamRunRecord) (p : Nat) : Prop :=
  ∃ r ∈ records, r.offset ≤ p ∧ p < r.stop

theorem durableExportAt_eq_ok (hoffset : state.durableThrough ≤ offset)
    (htail : state.contiguousRecordTailFrom state.durableThrough = .ok tail) (hle : offset ≤ tail) :
    state.durableExportAt offset = .ok { state with
      durableThrough := offset, acceptedTail := offset, records := state.recordsThrough offset } := by
  rw [AppendStreamState.durableExportAt, failIf, if_neg (Nat.not_lt.2 hoffset), ok_bind, htail, ok_bind,
    failIf, if_neg (Nat.not_lt.2 hle)]
  rfl

/-- The bytes below the offset are kept unless the offset is inside of a record. -/
theorem recorded_recordsThrough_iff (h : Covers start state.records stop) :
    (∀ p, p < offset → Recorded state.records p → Recorded (state.recordsThrough offset) p) ↔
      ∀ r ∈ state.records, ¬ (r.offset < offset ∧ offset < r.stop) := by
  have hmem : ∀ r, r ∈ state.recordsThrough offset ↔ r ∈ state.records ∧ r.stop ≤ offset := by
    intro r
    rw [AppendStreamState.recordsThrough, List.mem_filter, decide_eq_true_eq]
    exact and_congr_right fun hr => and_iff_right (h.bounds r hr).2.file
  constructor
  · rintro hkept r hr ⟨h1, h2⟩
    obtain ⟨r', hr', h3, h4⟩ := hkept r.offset h1 ⟨r, hr, le_rfl, h1.trans h2⟩
    obtain ⟨hr', hstop⟩ := (hmem r').1 hr'
    -- two records with one byte are the same
    by_cases heq : r = r'
    · subst heq
      omega
    · have : Std.Symm fun a b : AppendStreamRunRecord => Span.Apart a.span b.span :=
        ⟨fun _ _ => Or.symm⟩
      exact (List.pairwise_map.1 h.laid.ordered.apart).forall hr hr' heq |>.not_at
        ⟨le_rfl, h1.trans h2, rfl⟩ ⟨h3, h4, rfl⟩
  · rintro hnone p hp ⟨r, hr, h1, h2⟩
    refine ⟨r, (hmem r).2 ⟨hr, ?_⟩, h1, h2⟩
    by_contra hlt
    exact hnone r hr ⟨by omega, by omega⟩

end

/-- What is selected for a stream whose records have no gaps goes on from what is durable,
byte for byte where the records have it.  What is exported at an offset has all of the bytes
below it unless the offset is inside of a record. -/
theorem prefixPersistBatch_and_export {start stop : Nat} {state : AppendStreamState}
    (h : Covers start state.records stop) :
    (∀ cap, 0 < cap → ∃ batch, state.prefixPersistBatch cap = .ok batch ∧
      Covers state.durableThrough batch.records batch.durableThrough ∧
      (∀ p, state.durableThrough ≤ p → p < batch.durableThrough →
        valueAt (batch.records.map AppendStreamRunRecord.span) p =
          valueAt (state.records.map AppendStreamRunRecord.span) p) ∧
      (batch.records = [] →
        state.contiguousRecordTailFrom state.durableThrough = .ok state.durableThrough) ∧
      batch.payloadBytes = batch.durableThrough - state.durableThrough ∧
      (cap < batch.payloadBytes → batch.records.length = 1)) ∧
    ∀ offset tail, state.contiguousRecordTailFrom state.durableThrough = .ok tail →
      state.durableThrough ≤ offset → offset ≤ tail →
      ∃ exported, state.durableExportAt offset = .ok exported ∧ exported.acceptedTail = offset ∧
        ((∀ p, p < offset → Recorded state.records p → Recorded exported.records p) ↔
          ∀ r ∈ state.records, ¬ (r.offset < offset ∧ offset < r.stop)) := by
  refine ⟨fun cap hcap => ?_, fun offset tail htail hge hle => ?_⟩
  · obtain ⟨batch, hbatch, hpersists, hnil⟩ := exists_prefixPersistBatch h hcap
    refine ⟨batch, hbatch, hpersists.contiguous, fun p h1 h2 => ?_, hnil, hpersists.payload,
      hpersists.single⟩
    obtain ⟨r, hr, hcovers⟩ := hpersists.contiguous.covers ⟨h1, h2⟩
    have hshows : Shows (batch.records.map AppendStreamRunRecord.span) p (r.span.val p) :=
      ⟨r.span, List.mem_map_of_mem hr, hcovers.1, hcovers.2, rfl⟩
    rw [(valueAt_eq_some hpersists.contiguous.laid.ordered.apart).2 hshows,
      (valueAt_eq_some h.laid.ordered.apart).2 (hpersists.shows _ _ hshows)]
  · exact ⟨_, durableExportAt_eq_ok hge htail hle, rfl, recorded_recordsThrough_iff h⟩

def tenBytes : AppendStreamState :=
  ⟨1, 1, 1, 0, 1, 0, 0, 10, 0, 0, .active,
    [⟨1, 0, 10, ⟨⟨1, 1, 1, 1, 1, 1, 0, 10, 1, 0, .unchecked⟩, 10⟩⟩]⟩

theorem covers_tenBytes : Covers 0 tenBytes.records 10 :=
  ⟨rfl, ⟨by decide, by decide, by decide⟩, rfl⟩

theorem prefixPersistBatch_tenBytes :
    ∃ batch, tenBytes.prefixPersistBatch 4 = .ok batch ∧ Covers 0 batch.records batch.durableThrough := by
  obtain ⟨batch, hbatch, hcovers, -⟩ := (prefixPersistBatch_and_export covers_tenBytes).1 4 (by decide)
  exact ⟨batch, hbatch, hcovers⟩

/-- An export in the middle of the record has none of its bytes. -/
theorem durableExportAt_tenBytes :
    tenBytes.contiguousRecordTailFrom 0 = .ok 10 ∧
      tenBytes.durableExportAt 5 = .ok { tenBytes with
        durableThrough := 5, acceptedTail := 5, records := [] } ∧
      Recorded tenBytes.records 0 ∧ ¬ Recorded [] 0 := by
  refine ⟨by decide, by decide, ⟨_, List.mem_cons_self, le_rfl, by decide⟩, ?_⟩
  rintro ⟨r, hr, -⟩
  cases hr

end CowStore.Local
