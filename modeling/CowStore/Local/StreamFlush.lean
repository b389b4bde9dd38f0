import CowStore.Local.StreamRuns
import CowStore.Local.StreamSync

/-!
# Flushed appends

An append that is flushed makes the stream durable as far as its records reach from the bytes
which are durable already.  Bytes that are published have no records.  So the flush gets
nowhere on a stream of which more is published than durable, and there are such streams: a
durable publish makes the bytes durable that it publishes, a publish in memory does not.
-/

namespace CowStore.Local

open Lib Object StorageError

/-! ## The flush of a durable store -/

namespace MetadataInner

variable (s : MetadataInner)

def appendStreamPrefixPersistTarget (stream : AppendStream) : Result Nat := do
  let state ← s.activeStream stream
  state.contiguousRecordTailFrom state.durableThrough

def appendStreamDurableHighWaterIfReached (stream : AppendStream) (durableThrough : Nat) :
    Result (Option Nat) := do
  let state ← s.activeStream stream
  if state.durableThrough < durableThrough then return none else return some state.durableThrough

/-- The plan for one stream: without others there are no bytes of theirs to make room for. -/
def appendStreamPrefixPersistPlanFor (stream : AppendStream) (durableThrough maxBatchBytes : Nat) :
    Result (Option AppendStreamPrefixPersistBatch) := do
  let state ← s.activeStream stream
  if state.durableThrough ≥ durableThrough then
    return none
  else
    let batch ← state.prefixPersistBatch maxBatchBytes
    if batch.records = [] then return none else return some batch

def appendStreamDurableExportAt (stream : AppendStream) (durableThrough : Nat) :
    Result AppendStreamState := do
  let state ← s.activeStream stream
  state.durableExportAt durableThrough

end MetadataInner

section

-- what the durable store answers when it is given a stream to keep
variable (persisted : AppendStreamState → Result Unit)

def persistOneAppendStreamRequestBatch (stream : AppendStream) (target : Nat) : MetadataOp Bool := do
  let s ← get
  match ← s.appendStreamPrefixPersistPlanFor stream target maxStreamDataLogSyncGroupBytes with
  | none => return false
  | some batch =>
    let exported ← s.appendStreamDurableExportAt stream batch.durableThrough
    persisted exported
    let _ ← markAppendStreamDurableThrough stream batch.durableThrough
    return true

/-- Batches until the target is reached; every batch has at least one byte. -/
def persistAppendStreamBatchesUntil (stream : AppendStream) (target : Nat) : Nat → MetadataOp Unit
  | 0 => throw (conflict "append stream prefix persist did not reach required high-water")
  | steps + 1 => do
    let s ← get
    match ← s.appendStreamDurableHighWaterIfReached stream target with
    | some _ => return ()
    | none =>
      let progress ← persistOneAppendStreamRequestBatch persisted stream target
      failIf (progress = false)
        (conflict "append stream prefix persist target has no persistable records")
      persistAppendStreamBatchesUntil stream target steps

def persistAppendStreamPrefix (stream : AppendStream) (target : Nat) : MetadataOp Nat := do
  persistAppendStreamBatchesUntil persisted stream target (target + 1)
  let s ← get
  let reached ← s.appendStreamDurableHighWaterIfReached stream target
  orFail reached (conflict "append stream prefix persist did not reach required high-water")

def persistAppendStream (stream : AppendStream) : MetadataOp Nat := do
  let s ← get
  let target ← s.appendStreamPrefixPersistTarget stream
  persistAppendStreamPrefix persisted stream target

/-- A flushed append of a durable store, whose data logs answer `written` to the payload. -/
def appendStreamFlushed (combine : Nat → Nat → Nat → Nat)
    (written : PreparedAppendStreamRun → Result AppendLogRun) (stream : AppendStream) (dataLen : Nat) :
    Op AppendTicket := do
  let prepared ← prepareAppendStreamRun stream dataLen
  let run ← written prepared
  let ticket ← recordPreparedAppendStreamRun combine prepared run
  let _ ← onMetadata (persistAppendStream persisted stream)
  return ticket

end

/-! ## How far a flush gets -/

def AppendStreamState.flushed (state : AppendStreamState) : Nat :=
  if state.publishedThrough ≤ state.durableThrough then state.acceptedTail else state.durableThrough

/-- The program makes the stream durable as far as a flush can, unless the store refuses. -/
def Flushes (x : MetadataOp Nat) (stream : AppendStream) (refused : Prop) : Prop :=
  ∀ m state, m.activeStream stream = .ok state → state.InOrder →
    wp x (fun _ m' => m'.activeStream stream = .ok { state with durableThrough := state.flushed })
      (fun _ => refused) m

section

variable {m : MetadataInner} {stream : AppendStream} {state : AppendStreamState}
  {persisted : AppendStreamState → Result Unit}

theorem AppendStreamState.InOrder.contiguousTail (h : state.InOrder) :
    state.contiguousRecordTailFrom state.durableThrough = .ok state.flushed := by
  rw [AppendStreamState.contiguousRecordTailFrom, h.records.contiguousTail_eq, Nat.max_eq_right h.durable,
    AppendStreamState.flushed]

theorem markAppendStreamDurable_flushes : Flushes (markAppendStreamDurable stream) stream False := by
  intro m state hactive hinOrder
  refine wp_step run_get (wp_ok hactive (wp_ok hinOrder.contiguousTail (wp_step run_set ?_)))
  exact activeStream_insert hactive _ rfl rfl (AList.lookup_insert _)

theorem highWaterIfReached_eq (hactive : m.activeStream stream = .ok state) (target : Nat) :
    m.appendStreamDurableHighWaterIfReached stream target =
      .ok (if state.durableThrough < target then none else some state.durableThrough) := by
  rw [MetadataInner.appendStreamDurableHighWaterIfReached, hactive, ok_bind]
  split <;> rfl

def Refused (persisted : AppendStreamState → Result Unit) : Prop := ∃ exported e, persisted exported = .error e

theorem Follows.batch (h : Follows m stream state) (hlt : state.durableThrough < state.acceptedTail) :
    ∃ batch, m.appendStreamPrefixPersistPlanFor stream state.acceptedTail
        maxStreamDataLogSyncGroupBytes = .ok (some batch) ∧
      state.durableThrough < batch.durableThrough ∧ batch.durableThrough ≤ state.acceptedTail := by
  obtain ⟨batch, hbatch, hpersists, hnil⟩ :=
    exists_prefixPersistBatch h.inOrder.records (show 0 < maxStreamDataLogSyncGroupBytes by decide)
  have hsome : batch.records ≠ [] := by
    intro hempty
    have htail := hnil hempty
    rw [h.inOrder.contiguousTail, AppendStreamState.flushed, if_pos h.durable] at htail
    exact hlt.ne' (Except.ok.inj htail)
  have hgrows : state.durableThrough < batch.durableThrough := by
    obtain ⟨r, rs, hrecords⟩ := List.exists_cons_of_ne_nil hsome
    have hcovers := hpersists.contiguous
    rw [hrecords] at hcovers
    have hpos := hcovers.2.1.pos
    have hle := hcovers.2.2.le
    omega
  refine ⟨batch, ?_, hgrows, ?_⟩
  · rw [MetadataInner.appendStreamPrefixPersistPlanFor, h.active, ok_bind, if_neg (Nat.not_le.2 hlt),
      hbatch, ok_bind, if_neg hsome]
    rfl
  · -- the last byte of the batch is one of the stream
    obtain ⟨r, hr, hin⟩ := hpersists.contiguous.covers
      (p := batch.durableThrough - 1) ⟨by omega, by omega⟩
    have hshows := hpersists.shows _ _ ⟨r.span, List.mem_map_of_mem hr, hin.1, hin.2, rfl⟩
    have := (h.inOrder.records.laid.shows hshows).2
    omega

theorem Follows.persistOne (h : Follows m stream state) (hlt : state.durableThrough < state.acceptedTail) :
    wp (persistOneAppendStreamRequestBatch persisted stream state.acceptedTail)
      (fun progress m' => progress = true ∧ ∃ through, state.durableThrough < through ∧
        Follows m' stream { state with durableThrough := through }) (fun _ => Refused persisted) m := by
  obtain ⟨batch, hbatch, hgrows, hle⟩ := h.batch hlt
  have htail := h.inOrder.contiguousTail
  rw [AppendStreamState.flushed, if_pos h.durable] at htail
  obtain ⟨exported, hexport⟩ : ∃ exported,
      m.appendStreamDurableExportAt stream batch.durableThrough = .ok exported := by
    rw [MetadataInner.appendStreamDurableExportAt, h.active, ok_bind,
      durableExportAt_eq_ok hgrows.le htail hle]
    exact ⟨_, rfl⟩
  obtain ⟨m', hmark, hfollows⟩ := h.markDurableThrough hgrows.le hle
  refine wp_step run_get (wp_ok hbatch (wp_ok hexport (wp_bind.2 (wp_lift (fun _ _ => ?_) ?_))))
  · exact wp_step hmark ⟨rfl, _, hgrows, hfollows⟩
  · exact fun e he => ⟨_, e, he⟩

theorem Follows.persistUntil (h : Follows m stream state) {steps : Nat}
    (hsteps : state.acceptedTail < state.durableThrough + steps) :
    wp (persistAppendStreamBatchesUntil persisted stream state.acceptedTail steps)
      (fun _ m' => m'.activeStream stream = .ok { state with durableThrough := state.acceptedTail })
      (fun _ => Refused persisted) m := by
  have hdurable := h.inOrder.durable
  induction steps generalizing m state with
  | zero => omega
  | succ steps ih =>
    refine wp_step run_get (wp_ok (highWaterIfReached_eq h.active _) ?_)
    split
    · next hreached =>
      have hle : ¬ state.durableThrough < state.acceptedTail := by
        intro hlt
        rw [if_pos hlt] at hreached
        cases hreached
      have hall := Nat.le_antisymm hdurable (Nat.le_of_not_lt hle)
      exact h.active.trans (congrArg (fun durableThrough => Except.ok { state with durableThrough }) hall)
    · next hnone =>
      have hlt : state.durableThrough < state.acceptedTail := by
        by_contra hge
        rw [if_neg hge] at hnone
        cases hnone
      refine wp_bind.2 (wp_mono (h.persistOne hlt) ?_ fun _ hrefused => hrefused)
      rintro progress m' ⟨rfl, through, hgrows, hfollows⟩
      have hrest : state.acceptedTail < through + steps := by omega
      have hnext := ih hfollows hrest hfollows.inOrder.durable
      exact wp_ok (a := ()) (failIf_eq_ok.2 (by simp)) hnext

theorem persistAppendStreamPrefix_of_batches {target : Nat} {state' : AppendStreamState} {refused : Prop}
    (hbatches : wp (persistAppendStreamBatchesUntil persisted stream target (target + 1))
      (fun _ m' => m'.activeStream stream = .ok state') (fun _ => refused) m)
    (hreached : target ≤ state'.durableThrough) : wp (persistAppendStreamPrefix persisted stream target)
      (fun _ m' => m'.activeStream stream = .ok state') (fun _ => refused) m := by
  refine wp_bind.2 (wp_mono hbatches (fun _ m' hm' => ?_) fun _ hrefused => hrefused)
  refine wp_step run_get (wp_ok (highWaterIfReached_eq hm' target) ?_)
  rw [if_neg (Nat.not_lt.2 hreached)]
  exact hm'

theorem persistAppendStream_flushes :
    Flushes (persistAppendStream persisted stream) stream (Refused persisted) := by
  intro m state hactive hinOrder
  have htarget : m.appendStreamPrefixPersistTarget stream = .ok state.flushed := by
    rw [MetadataInner.appendStreamPrefixPersistTarget, hactive, ok_bind, hinOrder.contiguousTail]
  refine wp_step run_get (wp_ok htarget (persistAppendStreamPrefix_of_batches ?_ le_rfl))
  by_cases hdurable : state.publishedThrough ≤ state.durableThrough
  · have hflushed : state.flushed = state.acceptedTail := if_pos hdurable
    rw [hflushed]
    exact Follows.persistUntil ⟨hactive, hinOrder, hdurable⟩ (by omega)
  · have hflushed : state.flushed = state.durableThrough := if_neg hdurable
    rw [hflushed]
    refine wp_step run_get (wp_ok (highWaterIfReached_eq hactive _) ?_)
    rw [if_neg (lt_irrefl _)]
    exact hactive

end

/-! ## Flushed appends -/

section

variable {crc : List UInt8 → Nat} {combine : Nat → Nat → Nat → Nat}
  {s : Coordinator} {stream : AppendStream} {state : AppendStreamState}

/-- Everything accepted is durable exactly if everything published was. -/
def FlushedIff (stream : AppendStream) (state : AppendStreamState) (s' : Coordinator) : Prop :=
  ∃ state', s'.metadata.activeStream stream = .ok state' ∧
    (state'.durableThrough = state'.acceptedTail ↔ state.publishedThrough ≤ state.durableThrough)

theorem record_then_flush (hactive : s.metadata.activeStream stream = .ok state) (hinOrder : state.InOrder)
    {x : MetadataOp Nat} {refused : Prop} (hx : Flushes x stream refused)
    {prepared : PreparedAppendStreamRun} (hprepared : prepared.stream = stream) (run : AppendLogRun) :
    wp (do
      let ticket ← recordPreparedAppendStreamRun combine prepared run
      let _ ← onMetadata x
      return ticket) (fun _ s' => FlushedIff stream state s') (fun _ => True) s := by
  subst hprepared
  refine wp_bind.2 (wp_check trivial fun _ _ => wp_zoom.2 ?_)
  refine wp_mono (recordAppendStreamRun_writes _ _ _ _) ?_ fun _ _ => trivial
  rintro ticket m' ⟨found, records, tail, hfound, hgrows, hkeeps, rfl⟩
  rw [hactive] at hfound
  cases hfound
  refine wp_bind.2 (wp_zoom.2 (wp_mono (hx _ { state with records, acceptedTail := tail } ?_
    (hkeeps hinOrder)) ?_ fun _ _ => trivial))
  · exact activeStream_insert hactive _ rfl rfl (AList.lookup_insert _)
  · intro _ m'' hflushed
    refine ⟨_, hflushed, ?_⟩
    have hdurable := hinOrder.durable
    show AppendStreamState.flushed _ = tail ↔ _
    rw [AppendStreamState.flushed]
    split
    · next hle => exact iff_of_true rfl hle
    · next hgt => exact iff_of_false (by dsimp only; omega) hgt

theorem prepare_then (stream : AppendStream) (dataLen : Nat) {β : Type}
    {next : PreparedAppendStreamRun → Op β} {Q : β → Coordinator → Prop}
    (h : ∀ prepared s', s'.metadata = s.metadata → prepared.stream = stream →
      wp (next prepared) Q (fun _ => True) s') :
    wp (prepareAppendStreamRun stream dataLen >>= next) Q (fun _ => True) s := by
  have hprepare : Along (Coordinator.Via Eq) (prepareAppendStreamRun stream dataLen) s
    fun prepared _ => prepared.stream = stream := prepareAppendStreamRun_via stream dataLen
  exact hprepare.thenWp (fun prepared s' hsame => h prepared s' hsame.symm) fun _ _ => trivial

theorem appendStreamWithIntegrity_flushed (hactive : s.metadata.activeStream stream = .ok state)
    (hinOrder : state.InOrder) (data : List UInt8) (integrity : PayloadIntegrity) :
    wp (appendStreamWithIntegrity crc combine stream data .flushed integrity)
      (fun _ s' => FlushedIff stream state s') (fun _ => True) s := by
  refine wp_check trivial fun _ _ => prepare_then stream _ fun prepared s1 hsame hprepared => ?_
  rw [← hsame] at hactive
  refine wp_bind.2 (wp_check trivial fun _ _ => wp_step run_get (wp_step run_set ?_))
  refine wp_check trivial fun _ _ => wp_bind.2 ?_
  simp only [↓reduceIte]
  refine wp_bind.1 (record_then_flush ?_ hinOrder markAppendStreamDurable_flushes hprepared _)
  exact hactive

theorem appendStreamFlushed_flushed (hactive : s.metadata.activeStream stream = .ok state)
    (hinOrder : state.InOrder) (persisted : AppendStreamState → Result Unit)
    (written : PreparedAppendStreamRun → Result AppendLogRun) (dataLen : Nat) :
    wp (appendStreamFlushed persisted combine written stream dataLen)
      (fun _ s' => FlushedIff stream state s') (fun _ => True) s := by
  refine prepare_then stream _ fun prepared s1 hsame hprepared => wp_check trivial fun run _ => ?_
  rw [← hsame] at hactive
  exact record_then_flush hactive hinOrder persistAppendStream_flushes hprepared run

end

/-- Whatever a coordinator has done, a flushed append that returns leaves a stream on which all
that is accepted is durable, in memory and on a durable store, exactly if all that was
published before is durable. -/
theorem flushed_append_durable_iff {crc : List UInt8 → Nat} {combine : Nat → Nat → Nat → Nat}
    {config : LocalStoreConfig} {start : Coordinator} {storageNodes : List Nat}
    (h : Coordinator.withStorageNodes config storageNodes = .ok start) (requests : List CoordinatorRequest)
    (hbacked : BackedFrom crc combine config start requests) :
    ∀ s, requests.foldl (CoordinatorRequest.handle crc combine config) start = s →
      ∀ stream state, s.metadata.activeStream stream = .ok state →
        (∀ data integrity ticket s',
          appendStreamWithIntegrity crc combine stream data .flushed integrity s = .ok ticket s' →
          FlushedIff stream state s') ∧
        ∀ persisted written dataLen ticket s',
          appendStreamFlushed persisted combine written stream dataLen s = .ok ticket s' →
          FlushedIff stream state s' := by
  rintro s rfl stream state hactive
  obtain ⟨hlookup, -, hstatus⟩ := activeStream_eq_ok hactive
  have hinOrder := (handleAll_streams (streams_new h) requests hbacked).inOrder _ state hlookup hstatus
  refine ⟨fun data integrity ticket s' hrun => ?_, fun persisted written dataLen ticket s' hrun => ?_⟩
  · have hflushed := wp_of_ok (appendStreamWithIntegrity_flushed hactive hinOrder data integrity) hrun
    exact hflushed
  · have hflushed := wp_of_ok (appendStreamFlushed_flushed hactive hinOrder persisted written dataLen) hrun
    exact hflushed

def publishedStream : AppendStream := ⟨1, 1, 1, 1, 0, 0⟩

/-- A stream of an empty file, four bytes appended to it and, perhaps, published. -/
def publishedRequests (publish : Bool) : List CoordinatorRequest :=
  [.store .createKeyspace, .store (.createFile 1 none), .store (.openAppendStream 1 1),
    .store (.appendStream publishedStream [1, 2, 3, 4] .acknowledged .unchecked)] ++
    if publish then [.publishAppendStream publishedStream 4 .acknowledged] else []

def publishedStore (publish : Bool) : Coordinator :=
  (publishedRequests publish).foldl
    (CoordinatorRequest.handle (fun _ => 0) (fun _ _ _ => 0) smallConfig) smallStore

theorem publishedRequests_backed (publish : Bool) :
    BackedFrom (fun _ => 0) (fun _ _ _ => 0) smallConfig smallStore (publishedRequests publish) := by
  cases publish
  · exact ⟨trivial, trivial, trivial, trivial, trivial⟩
  · exact ⟨trivial, trivial, trivial, trivial, trivial, trivial⟩

theorem flushed_append_durable_iff_published : ∃ state ticket s',
    (publishedStore true).metadata.activeStream publishedStream = .ok state ∧
      appendStreamWithIntegrity (fun _ => 0) (fun _ _ _ => 0) publishedStream [5, 6, 7, 8] .flushed
        .unchecked (publishedStore true) = .ok ticket s' ∧ FlushedIff publishedStream state s' := by
  have hstream : ((publishedStore true).metadata.activeStream publishedStream).isOk = true := by
    decide +kernel
  have hrun : output (appendStreamWithIntegrity (fun _ => 0) (fun _ _ _ => 0) publishedStream [5, 6, 7, 8]
      .flushed .unchecked) (publishedStore true) = some ⟨1, 1, 1, 4, 1, ⟨4, 4⟩⟩ := by
    decide +kernel
  obtain ⟨state, hactive⟩ : ∃ state,
      (publishedStore true).metadata.activeStream publishedStream = .ok state := by
    cases hresult : (publishedStore true).metadata.activeStream publishedStream with
    | ok state => exact ⟨state, rfl⟩
    | error e =>
      rw [hresult] at hstream
      cases hstream
  obtain ⟨s', hrun⟩ := ok_of_output hrun
  have hiff := (flushed_append_durable_iff withStorageNodes_small (publishedRequests true)
    (publishedRequests_backed true) _ rfl publishedStream state hactive).1 _ _ _ s' hrun
  exact ⟨state, _, s', hactive, hrun, hiff⟩

def flushedOffsets (publish : Bool) : Option (Nat × Nat) :=
  match appendStreamWithIntegrity (fun _ => 0) (fun _ _ _ => 0) publishedStream [5, 6, 7, 8] .flushed
    .unchecked (publishedStore publish) with
  | .ok _ s => (s.metadata.activeStream publishedStream).toOption.map fun state =>
    (state.durableThrough, state.acceptedTail)
  | .error _ _ => none

theorem flushedOffsets_published :
    Coordinator.withStorageNodes smallConfig [] = .ok smallStore ∧ flushedOffsets true = some (0, 8) ∧
      flushedOffsets false = some (8, 8) :=
  ⟨withStorageNodes_small, by decide +kernel, by decide +kernel⟩

end CowStore.Local
