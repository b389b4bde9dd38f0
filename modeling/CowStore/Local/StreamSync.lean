import CowStore.Local.StreamOps
import CowStore.Local.StreamPrefix

/-!
# Rounds of syncs of a stream

The logs of a stream are synced in the background.  A round looks how far the records which
are not durable yet are synced, and takes that for durable.  A log may be synced in the middle
of a record, so that the durable bytes end inside of it; the next round starts there.
-/

namespace CowStore.Local

open Lib Object StorageError

def AppendStreamRunRecord.logRef (record : AppendStreamRunRecord) : Nat × Nat :=
  (record.run.storageNode, record.run.logId)

/-- How far the records are synced from `highWater` on; `synced` has the bytes of each log. -/
def syncedAppendStreamRecordHighWater (synced : Nat × Nat → Nat) :
    Nat → List AppendStreamRunRecord → Result Nat
  | highWater, [] => .ok highWater
  | highWater, record :: records =>
    if record.offset > highWater then
      .ok highWater
    else do
      let stop ← record.endExclusive
      if stop ≤ highWater then
        syncedAppendStreamRecordHighWater synced highWater records
      else if record.offset < highWater then
        throw (conflict "append stream sync high-water split an append run")
      else
        let syncedBytes := synced record.logRef
        let logEnd ← record.run.logPayloadEnd
        if syncedBytes < logEnd then
          if syncedBytes > record.run.logPayloadOffset then
            let next ← checkedAdd record.offset
              (min (syncedBytes - record.run.logPayloadOffset) record.len)
              (invalidArgument "append stream synced high-water overflows")
            return max highWater next
          else
            return highWater
        else
          syncedAppendStreamRecordHighWater synced stop records

/-- The records up to `stop` that are not durable yet, and where they start. -/
def MetadataInner.appendStreamPrivateRecordsFromDurableThrough (s : MetadataInner) (stream : AppendStream)
    (stop : Nat) : Result (Nat × List AppendStreamRunRecord) := do
  let state ← s.activeStream stream
  if stop ≤ state.durableThrough then
    return (state.durableThrough, [])
  else
    failIf (stop > state.acceptedTail)
      (conflict "append private sync target exceeds accepted stream bytes")
    let tail ← state.contiguousRecordTailFrom state.durableThrough
    failIf (stop > tail) (conflict "append private sync target exceeds contiguous stream records")
    let records ← state.publishRecords state.durableThrough stop
    return (state.durableThrough, records)

def syncAppendStream (synced : Nat × Nat → Nat) (stream : AppendStream) : MetadataOp Nat := do
  let s ← get
  let state ← s.activeStream stream
  let (durableBefore, records) ←
    s.appendStreamPrivateRecordsFromDurableThrough stream state.acceptedTail
  let observed ← syncedAppendStreamRecordHighWater synced durableBefore records
  markAppendStreamDurableThrough stream observed

/-! ## What a round observes -/

def IsSynced (synced : Nat × Nat → Nat) (v : Nat × Nat × Nat) : Prop := v.2.2 < synced (v.1, v.2.1)

section

variable {start stop expected : Nat} {records : List AppendStreamRunRecord}

theorem AppendStreamRunRecord.at_offset_add (record : AppendStreamRunRecord) {i : Nat}
    (h : i < record.len) : record.span.At (record.offset + i)
      (record.run.storageNode, record.run.logId, record.run.logPayloadOffset + i) := by
  refine ⟨Nat.le_add_right _ _, Nat.add_lt_add_left h _, ?_⟩
  show (_, _, record.run.logPayloadOffset + (record.offset + i - record.offset)) = _
  rw [Nat.add_sub_cancel_left]

structure PartsOf (records parts : List AppendStreamRunRecord) : Prop where
  payloadLen : ∀ r ∈ parts, r.run.payloadLen = r.len
  shows : ∀ p v, Shows (parts.map AppendStreamRunRecord.span) p v →
    Shows (records.map AppendStreamRunRecord.span) p v

theorem Covers.selectRecords (h : Covers start records stop) (hstart : start ≤ expected)
    (hlt : expected < stop) : ∃ parts, selectRecords stop expected records = .ok parts ∧
      Covers expected parts stop ∧ PartsOf records parts := by
  induction records generalizing start expected with
  | nil =>
    obtain rfl : start = stop := h
    omega
  | cons record records ih =>
    obtain ⟨rfl, hfits, hrest⟩ := h
    have hle := hrest.le
    rw [Local.selectRecords, hfits.endExclusive, ok_bind]
    split
    · next hend =>
      obtain ⟨parts, hparts, hcovers, hof⟩ := ih hrest hend hlt
      refine ⟨parts, hparts, hcovers, hof.payloadLen, fun p v hv => ?_⟩
      exact shows_cons.2 (.inr (hof.shows p v hv))
    · next hend =>
      obtain ⟨piece, hslice, hoffset, hlen, hpiece⟩ := hfits.slice hstart (Nat.lt_of_not_le hend) le_rfl
      obtain ⟨-, -, -, -, -, hpayloadLen⟩ := AppendStreamRunRecord.slice_eq_some hslice
      have hpieceEnd : piece.offset + piece.len = record.offset + record.len := by omega
      rw [if_neg (Nat.not_lt.2 hstart), Nat.min_eq_left hle, hslice, ok_bind]
      dsimp only
      rw [hpiece.endExclusive, ok_bind, hpieceEnd]
      split
      · next hlast =>
        refine ⟨[piece], rfl, ⟨hoffset, hpiece, ?_⟩, ?_, ?_⟩
        · show expected + piece.len = stop
          omega
        · exact List.forall_mem_singleton.2 (hpayloadLen.trans hlen.symm)
        · intro p v hv
          rw [List.map_singleton, shows_cons, or_iff_left (shows_nil p v)] at hv
          exact shows_cons.2 (.inl (AppendStreamRunRecord.slice_at hslice hv))
      · next hlast =>
        obtain ⟨parts, hparts, hcovers, hof⟩ := ih hrest le_rfl (by omega)
        rw [hparts]
        refine ⟨piece :: parts, rfl, ⟨hoffset, hpiece, ?_⟩, ?_, ?_⟩
        · rwa [show expected + piece.len = record.offset + record.len by omega]
        · exact List.forall_mem_cons.2 ⟨hpayloadLen.trans hlen.symm, hof.payloadLen⟩
        · intro p v hv
          rw [List.map_cons, shows_cons] at hv
          exact shows_cons.2 (hv.imp (AppendStreamRunRecord.slice_at hslice) (hof.shows p v))

theorem Covers.syncedHighWater (h : Covers start records stop)
    (hlen : ∀ r ∈ records, r.run.payloadLen = r.len) (synced : Nat × Nat → Nat) :
    ∃ observed, syncedAppendStreamRecordHighWater synced start records = .ok observed ∧
      (start ≤ observed ∧ observed ≤ stop) ∧
      (∀ p v, Shows (records.map AppendStreamRunRecord.span) p v → p < observed → IsSynced synced v) ∧
      ((∀ p v, Shows (records.map AppendStreamRunRecord.span) p v → IsSynced synced v) →
        observed = stop) := by
  induction records generalizing start with
  | nil =>
    obtain rfl : start = stop := h
    exact ⟨start, rfl, ⟨le_rfl, le_rfl⟩, fun p v hv => (shows_nil p v hv).elim, fun _ => rfl⟩
  | cons record records ih =>
    obtain ⟨hpayload, hlen⟩ := List.forall_mem_cons.1 hlen
    obtain ⟨rfl, hfits, hrest⟩ := h
    have hpos := hfits.pos
    have hfile := hfits.file
    have hlog := hfits.log
    have hle := hrest.le
    have hlogEnd : record.run.logPayloadEnd = .ok (record.run.logPayloadOffset + record.len) := by
      rw [← hpayload]
      exact checkedAdd_of_lt (hpayload.symm ▸ hlog)
    rw [syncedAppendStreamRecordHighWater, if_neg (lt_irrefl _), hfits.endExclusive, ok_bind,
      if_neg (by omega), if_neg (lt_irrefl _), hlogEnd, ok_bind]
    split
    · next hpart =>
      -- the log ends inside of the record, or before it
      refine ⟨record.offset + (synced record.logRef - record.run.logPayloadOffset), ?_, by omega, ?_, ?_⟩
      · split
        · rw [Nat.min_eq_left (by omega), checkedAdd_of_lt (by omega), ok_bind,
            Nat.max_eq_right (Nat.le_add_right _ _)]
          rfl
        · rw [Nat.sub_eq_zero_of_le (by omega)]
          rfl
      · intro p v hv hp
        rcases shows_cons.1 hv with ⟨h1, -, rfl⟩ | hv
        · have h1 : record.offset ≤ p := h1
          show record.run.logPayloadOffset + (p - record.offset) < synced record.logRef
          omega
        · have := (hrest.laid.shows hv).1
          omega
      · intro hall
        have hnot : synced record.logRef - record.run.logPayloadOffset < record.len := by omega
        have hsynced : record.run.logPayloadOffset +
            (synced record.logRef - record.run.logPayloadOffset) < synced record.logRef :=
          hall _ _ (shows_cons.2 (.inl (record.at_offset_add hnot)))
        have : record.run.logPayloadOffset + 0 < synced record.logRef :=
          hall _ _ (shows_cons.2 (.inl (record.at_offset_add hpos)))
        omega
    · next hwhole =>
      obtain ⟨observed, hobserved, hbounds, hsynced, hall⟩ := ih hrest hlen
      refine ⟨observed, hobserved, by omega, ?_, fun h => hall fun p v hv => ?_⟩
      · intro p v hv hp
        rcases shows_cons.1 hv with ⟨h1, h2, rfl⟩ | hv
        · have h1 : record.offset ≤ p := h1
          have h2 : p < record.offset + record.len := h2
          show record.run.logPayloadOffset + (p - record.offset) < synced record.logRef
          omega
        · exact hsynced p v hv hp
      · exact h p v (shows_cons.2 (.inr hv))

end

/-! ## One round -/

/-- The stream is active and in order, and what is published of it is durable. -/
structure Follows (m : MetadataInner) (stream : AppendStream) (state : AppendStreamState) : Prop where
  active : m.activeStream stream = .ok state
  inOrder : state.InOrder
  durable : state.publishedThrough ≤ state.durableThrough

section

variable {m m' : MetadataInner} {stream : AppendStream} {state : AppendStreamState}

theorem activeStream_congr (h : m.appendStreams.lookup stream.streamId =
    m'.appendStreams.lookup stream.streamId) : m.activeStream stream = m'.activeStream stream := by
  rw [MetadataInner.activeStream, MetadataInner.activeStream, h]

theorem activeStream_insert (hactive : m.activeStream stream = .ok state) (state' : AppendStreamState)
    (hpublic : state'.publicStream = state.publicStream) (hstatus : state'.status = state.status)
    (h : m'.appendStreams.lookup stream.streamId = some state') : m'.activeStream stream = .ok state' := by
  obtain ⟨-, hstream, hstate⟩ := activeStream_eq_ok hactive
  refine bind_eq_ok.2 ⟨state', orFail_eq_ok.2 h, bind_eq_ok.2 ⟨(), failIf_eq_ok.2 ?_, rfl⟩⟩
  rw [hpublic, hstatus, not_or, not_not, not_not]
  exact ⟨hstream, hstate⟩

theorem Follows.privateRecords (h : Follows m stream state) :
    ∃ records, m.appendStreamPrivateRecordsFromDurableThrough stream state.acceptedTail =
        .ok (state.durableThrough, records) ∧
      Covers state.durableThrough records state.acceptedTail ∧ PartsOf state.records records := by
  rw [MetadataInner.appendStreamPrivateRecordsFromDurableThrough, h.active, ok_bind]
  split
  · next hall =>
    refine ⟨[], rfl, Nat.le_antisymm h.inOrder.durable hall, ?_, ?_⟩
    · simp
    · exact fun p v hv => (shows_nil p v hv).elim
  · next hsome =>
    have hlt := Nat.lt_of_not_le hsome
    have htail : state.contiguousRecordTailFrom state.durableThrough = .ok state.acceptedTail := by
      rw [AppendStreamState.contiguousRecordTailFrom, h.inOrder.records.contiguousTail_eq,
        if_pos h.durable, Nat.max_eq_right hlt.le]
    obtain ⟨parts, hparts, hcovers, hof⟩ := h.inOrder.records.selectRecords h.durable hlt
    refine ⟨parts, ?_, hcovers, hof⟩
    rw [failIf, if_neg (lt_irrefl _), ok_bind, htail, ok_bind, failIf, if_neg (lt_irrefl _), ok_bind,
      AppendStreamState.publishRecords, failIf, if_neg (Nat.not_le.2 hlt), ok_bind, hparts]
    rfl

theorem Follows.markDurableThrough (h : Follows m stream state) {through : Nat}
    (hge : state.durableThrough ≤ through) (hle : through ≤ state.acceptedTail) :
    ∃ m', markAppendStreamDurableThrough stream through m = .ok through m' ∧
      Follows m' stream { state with durableThrough := through } := by
  have hinOrder : AppendStreamState.InOrder { state with durableThrough := through } :=
    ⟨h.inOrder.base, h.inOrder.published, hle, h.inOrder.records⟩
  have hdurable := h.durable.trans hge
  rw [markAppendStreamDurableThrough, run_bind_ok run_get, h.active, run_bind_ok (run_lift_ok _)]
  split
  · next hsame =>
    obtain rfl := Nat.le_antisymm hsame hge
    exact ⟨m, rfl, h.active, hinOrder, hdurable⟩
  · next hmore =>
    have htail : state.contiguousRecordTailFrom state.durableThrough = .ok state.acceptedTail := by
      rw [AppendStreamState.contiguousRecordTailFrom, h.inOrder.records.contiguousTail_eq,
        if_pos h.durable, Nat.max_eq_right h.inOrder.durable]
    rw [htail, run_bind_ok (run_lift_ok _), failIf, if_neg (Nat.not_lt.2 hle),
      run_bind_ok (run_lift_ok _), run_bind_ok run_set]
    exact ⟨_, rfl, activeStream_insert h.active _ rfl rfl (AList.lookup_insert _), hinOrder, hdurable⟩

theorem Follows.sync (h : Follows m stream state) (synced : Nat × Nat → Nat) :
    ∃ through m', syncAppendStream synced stream m = .ok through m' ∧
      Follows m' stream { state with durableThrough := through } ∧
      (state.durableThrough ≤ through ∧ through ≤ state.acceptedTail) ∧
      (∀ p v, Shows (state.records.map AppendStreamRunRecord.span) p v →
        state.durableThrough ≤ p → p < through → IsSynced synced v) ∧
      ((∀ p v, Shows (state.records.map AppendStreamRunRecord.span) p v →
        state.durableThrough ≤ p → IsSynced synced v) → through = state.acceptedTail) := by
  obtain ⟨records, hrecords, hcovers, hof⟩ := h.privateRecords
  obtain ⟨observed, hobserved, ⟨hge, hle⟩, hsynced, hall⟩ := hcovers.syncedHighWater hof.payloadLen synced
  obtain ⟨m', hmark, hfollows⟩ := h.markDurableThrough hge hle
  refine ⟨observed, m', ?_, hfollows, ⟨hge, hle⟩, ?_, fun hbytes => hall fun p v hv => ?_⟩
  · rw [syncAppendStream, run_bind_ok run_get, h.active, run_bind_ok (run_lift_ok _), hrecords,
      run_bind_ok (run_lift_ok _)]
    dsimp only
    rw [hobserved, run_bind_ok (run_lift_ok _), hmark]
  · intro p v hv hp hlt
    -- the byte is in one of the parts, and the records have it only once
    obtain ⟨r, hr, hin⟩ := hcovers.covers ⟨hp, hlt.trans_le hle⟩
    have hpart : Shows (records.map AppendStreamRunRecord.span) p (r.span.val p) :=
      ⟨r.span, List.mem_map_of_mem hr, hin.1, hin.2, rfl⟩
    rw [shows_unique h.inOrder.records.laid.ordered.apart hv (hof.shows _ _ hpart)]
    exact hsynced _ _ hpart hlt
  · exact hbytes p v (hof.shows p v hv) (hcovers.laid.shows hv).1

end

/-! ## Rounds, appends and publishes -/

/-- What happens to a stream: an append is recorded, a durable publish of bytes which the stream
has is applied, a round of syncs ends, or something happens to the rest of the metadata. -/
inductive StreamStep (combine : Nat → Nat → Nat → Nat) (stream : AppendStream) :
    MetadataInner → MetadataInner → Prop
  | append {m m' : MetadataInner} {ticketId : Nat} {range : ByteRange} {run : AppendLogRun}
      {ticket : AppendTicket}
      (h : recordAppendStreamRun combine stream ticketId range run m = .ok ticket m') :
      StreamStep combine stream m m'
  | publish {m m' : MetadataInner} {plan : AppendPublishPlan}
      (hstream : plan.ticket.streamId = stream.streamId)
      (hgrows : plan.oldHead.size ≤ plan.ticket.publishThrough)
      (htail : ∀ state, m.activeStream stream = .ok state →
        plan.ticket.publishThrough ≤ state.acceptedTail)
      (h : applyPlannedCommit plan m = .ok () m') : StreamStep combine stream m m'
  | round {m m' : MetadataInner} {synced : Nat × Nat → Nat} {through : Nat}
      (h : syncAppendStream synced stream m = .ok through m') : StreamStep combine stream m m'
  | other {m m' : MetadataInner} (h : m'.appendStreams.lookup stream.streamId =
      m.appendStreams.lookup stream.streamId) : StreamStep combine stream m m'

section

variable {combine : Nat → Nat → Nat → Nat} {m m' : MetadataInner} {stream : AppendStream}
  {state : AppendStreamState}

/-- A durable publish cuts off the records that it has, and all that it has is durable. -/
theorem Follows.publish (h : Follows m stream state) {plan : AppendPublishPlan}
    (hstream : plan.ticket.streamId = stream.streamId)
    (hgrows : plan.oldHead.size ≤ plan.ticket.publishThrough)
    (hle : plan.ticket.publishThrough ≤ state.acceptedTail) :
    wp (applyPlannedCommit plan) (fun _ m' => ∃ state', Follows m' stream state' ∧
      state.durableThrough ≤ state'.durableThrough) (fun _ => True) m := by
  obtain ⟨hlookup, -, -⟩ := activeStream_eq_ok h.active
  refine wp_step run_get (wp_check trivial fun _ _ => wp_check trivial fun _ _ => ?_)
  refine wp_check trivial fun _ _ => wp_check trivial fun _ _ => wp_check trivial fun _ _ => ?_
  refine wp_check trivial fun found hfound => wp_check trivial fun _ _ => ?_
  refine wp_check trivial fun _ hpublished => ?_
  have hfound := orFail_eq_ok.1 hfound
  rw [hstream, hlookup] at hfound
  cases hfound
  have hpublished : state.publishedThrough = plan.oldHead.size := not_not.1 (failIf_eq_ok.1 hpublished)
  obtain ⟨records, hrecords, hinOrder⟩ := h.inOrder.publish (hpublished ▸ hgrows) hle
  refine wp_step run_modify (wp_ok hrecords (wp_step run_modify ?_))
  refine wp_check trivial fun _ _ => wp_check trivial fun _ _ => ?_
  refine ⟨{ state with
      durableThrough := max state.durableThrough plan.ticket.publishThrough
      publishedThrough := plan.ticket.publishThrough
      records }, ⟨activeStream_insert h.active _ rfl rfl ?_,
    hinOrder _ (max_le h.inOrder.durable hle), le_max_right _ _⟩, le_max_left _ _⟩
  rw [← hstream]
  exact AList.lookup_insert _

theorem Follows.step (h : Follows m stream state) (hstep : StreamStep combine stream m m') :
    ∃ state', Follows m' stream state' ∧ state.durableThrough ≤ state'.durableThrough := by
  cases hstep with
  | append hrun =>
    obtain ⟨found, records, tail, hactive, -, hinOrder, rfl⟩ :=
      wp_of_ok (recordAppendStreamRun_writes stream _ _ _) hrun
    rw [h.active] at hactive
    cases hactive
    exact ⟨{ state with records, acceptedTail := tail },
      ⟨activeStream_insert h.active _ rfl rfl (AList.lookup_insert _), hinOrder h.inOrder, h.durable⟩, le_rfl⟩
  | publish hstream hgrows htail hrun =>
    exact wp_of_ok (h.publish hstream hgrows (htail state h.active)) hrun
  | round hrun =>
    obtain ⟨through, m'', hsync, hfollows, ⟨hge, -⟩, -⟩ := h.sync _
    rw [hrun] at hsync
    cases hsync
    exact ⟨_, hfollows, hge⟩
  | other hsame => exact ⟨state, ⟨(activeStream_congr hsame).trans h.active, h.inOrder, h.durable⟩, le_rfl⟩

theorem Follows.run (h : Follows m stream state)
    (hrun : Relation.ReflTransGen (StreamStep combine stream) m m') :
    ∃ state', Follows m' stream state' ∧ state.durableThrough ≤ state'.durableThrough := by
  induction hrun with
  | refl => exact ⟨state, h, le_rfl⟩
  | tail _ hstep ih =>
    obtain ⟨mid, hmid, hle⟩ := ih
    obtain ⟨state', hstate', hle'⟩ := hmid.step hstep
    exact ⟨state', hstate', hle.trans hle'⟩

end

/-- Whatever rounds, appends and durable publishes a stream has seen, the next round does not
fail, durable bytes stay durable, no byte gets durable that is not synced, and all of the
bytes do once they all are. -/
theorem syncAppendStream_of_run {combine : Nat → Nat → Nat → Nat} {m m' : MetadataInner}
    {stream : AppendStream} {first : AppendStreamState} (hactive : m.activeStream stream = .ok first)
    (hinOrder : first.InOrder) (hdurable : first.publishedThrough ≤ first.durableThrough)
    (hrun : Relation.ReflTransGen (StreamStep combine stream) m m') :
    ∃ state, m'.activeStream stream = .ok state ∧ first.durableThrough ≤ state.durableThrough ∧
      ∀ synced, ∃ through m'', syncAppendStream synced stream m' = .ok through m'' ∧
        m''.activeStream stream = .ok { state with durableThrough := through } ∧
        state.durableThrough ≤ through ∧ through ≤ state.acceptedTail ∧
        (∀ p v, Shows (state.records.map AppendStreamRunRecord.span) p v →
          state.durableThrough ≤ p → p < through → IsSynced synced v) ∧
        ((∀ p v, Shows (state.records.map AppendStreamRunRecord.span) p v →
          state.durableThrough ≤ p → IsSynced synced v) → through = state.acceptedTail) := by
  have hfirst : Follows m stream first := ⟨hactive, hinOrder, hdurable⟩
  obtain ⟨state, hstate, hle⟩ := hfirst.run hrun
  refine ⟨state, hstate.active, hle, fun synced => ?_⟩
  obtain ⟨through, m'', hsync, hfollows, ⟨hge, htail⟩, hsynced, hall⟩ := hstate.sync synced
  exact ⟨through, m'', hsync, hfollows.active, hge, htail, hsynced, hall⟩

def tenBytesPlane : MetadataInner :=
  { MetadataInner.new with appendStreams := AList.insert 1 tenBytes ∅ }

def halfSynced : MetadataInner :=
  lastState (syncAppendStream (fun _ => 5) tenBytes.publicStream) tenBytesPlane

theorem syncAppendStream_halfSynced :
    tenBytesPlane.activeStream tenBytes.publicStream = .ok tenBytes ∧
      ∃ state, halfSynced.activeStream tenBytes.publicStream = .ok state ∧ ∀ synced, ∃ through m'',
        syncAppendStream synced tenBytes.publicStream halfSynced = .ok through m'' ∧
          state.durableThrough ≤ through := by
  have hround : syncAppendStream (fun _ => 5) tenBytes.publicStream tenBytesPlane = .ok 5 halfSynced := rfl
  have hrun : Relation.ReflTransGen (StreamStep (fun a _ _ => a) tenBytes.publicStream) tenBytesPlane
      halfSynced := .single (.round hround)
  have hactive : tenBytesPlane.activeStream tenBytes.publicStream = .ok tenBytes := rfl
  obtain ⟨state, hstate, -, hnext⟩ := syncAppendStream_of_run hactive
    ⟨le_rfl, by decide, by decide, covers_tenBytes⟩ le_rfl hrun
  refine ⟨hactive, state, hstate, fun synced => ?_⟩
  obtain ⟨through, m'', hsync, -, hge, -⟩ := hnext synced
  exact ⟨through, m'', hsync, hge⟩

end CowStore.Local
