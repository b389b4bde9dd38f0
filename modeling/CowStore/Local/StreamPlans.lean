import CowStore.Local.StreamOps

/-!
# Planned publishes and the streams

A plan is made from the heads that the plans before it lead to.  When the plans of a batch
are applied in their order, each one finds the shard that it was made from, and its stream,
which is changed first, is not left ahead of the file.
-/

namespace CowStore.Local

open Lib

variable {config : LocalStoreConfig} {m m' : MetadataInner} {s : Coordinator}

/-! ## The heads that plans lead to -/

/-- The shards and the generation of a keyspace, as the next plan of a batch finds them. -/
def headView (m : MetadataInner) (drafts : Table Nat KeyspaceHead) (keyspaceId : Nat) :
    Option (List Nat × Nat) :=
  ((drafts.lookup keyspaceId).or (m.keyspaceHeads.lookup keyspaceId)).map fun head =>
    (head.shardRoots, head.generation)

def AppendPublishPlan.Moves (plan : AppendPublishPlan) (view view' : Nat → Option (List Nat × Nat)) :
    Prop :=
  ∃ shardRoots generation, view plan.ticket.keyspaceId = some (shardRoots, generation) ∧
    shardRoots[plan.keyspaceCommit.shardIndex]? = some plan.keyspaceCommit.oldShard ∧
    generation + 1 < u64Bound ∧
    view' = Function.update view plan.ticket.keyspaceId (some
      (shardRoots.set plan.keyspaceCommit.shardIndex plan.newKeyspaceShard.shardId, generation + 1))

def Leads (view : Nat → Option (List Nat × Nat)) :
    List AppendPublishPlan → (Nat → Option (List Nat × Nat)) → Prop
  | [], view' => view = view'
  | plan :: plans, view' => ∃ next, plan.Moves view next ∧ Leads next plans view'

variable {plan : AppendPublishPlan} {view' : Nat → Option (List Nat × Nat)}
  {drafts : Table Nat KeyspaceHead}

theorem leads_concat {view : Nat → Option (List Nat × Nat)} {plans : List AppendPublishPlan}
    {next : Nat → Option (List Nat × Nat)} (h : Leads view plans next)
    (hmoves : plan.Moves next view') : Leads view (plans ++ [plan]) view' := by
  induction plans generalizing view with
  | nil =>
    cases h
    exact ⟨view', hmoves, rfl⟩
  | cons first plans ih =>
    obtain ⟨after, hfirst, hrest⟩ := h
    exact ⟨after, hfirst, ih hrest⟩

theorem headView_insert {keyspaceId : Nat} {head : KeyspaceHead} :
    headView m (drafts.insert keyspaceId head) =
      Function.update (headView m drafts) keyspaceId (some (head.shardRoots, head.generation)) := by
  funext k
  rw [headView, Table.lookup_insert_eq, Function.update_apply]
  split <;> rfl

theorem headView_heads (h : m'.keyspaceHeads = m.keyspaceHeads) : headView m' drafts = headView m drafts := by
  funext k
  rw [headView, h, headView]

theorem headView_enter {keyspaceId : Nat} (head : KeyspaceHead)
    (h : m'.keyspaceHeads = m.keyspaceHeads.insert keyspaceId head) : headView m' ∅ =
      Function.update (headView m ∅) keyspaceId (some (head.shardRoots, head.generation)) := by
  funext k
  change (m'.keyspaceHeads.lookup k).map _ = _
  rw [h, Table.lookup_insert_eq, Function.update_apply]
  split <;> rfl

/-! ## Plans that can be applied -/

/-- No shard is lost, no stream is new, and none has taken anything back. -/
structure Trails (m m' : MetadataInner) : Prop where
  shards : m.keyspaceCatalogShards.Extends m'.keyspaceCatalogShards
  tails : ∀ streamId state, m'.appendStreams.lookup streamId = some state → ∃ old,
    m.appendStreams.lookup streamId = some old ∧ old.publicStream = state.publicStream ∧
      old.acceptedTail = state.acceptedTail

instance : IsTrans MetadataInner Trails := by
  refine ⟨fun _ _ _ h h' => ⟨fun id shard hid => h'.shards id shard (h.shards id shard hid), ?_⟩⟩
  intro id state hid
  obtain ⟨middle, hmiddle, hpublic, htail⟩ := h'.tails id state hid
  obtain ⟨old, hold, hpublic', htail'⟩ := h.tails id middle hmiddle
  exact ⟨old, hold, hpublic'.trans hpublic, htail'.trans htail⟩

theorem Idles.trails (h : Idles m m') (hc : m.Catalogs) {k : Option Nat} (hev : Evolves k m m') :
    Trails m m' :=
  ⟨(hev hc).2.1, fun id state hid => ⟨state, h.1.streams id state hid, rfl, rfl⟩⟩

/-- The new shard of a plan has the file with its new size, and the stream has got that far. -/
structure PlanReady (m : MetadataInner) (plan : AppendPublishPlan) : Prop where
  fits : PlanFits m.keyspaceCatalogShards plan
  index : plan.keyspaceCommit.shardIndex = plan.ticket.fileId % 256
  files : ∃ entry : KeyspaceFile, entry.head.size = plan.ticket.publishThrough ∧
    plan.newKeyspaceShard.files = (shardFiles m.keyspaceCatalogShards
      plan.keyspaceCommit.oldShard).insert plan.ticket.fileId entry
  keyspaceId : plan.stream.keyspaceId = plan.ticket.keyspaceId
  fileId : plan.stream.fileId = plan.ticket.fileId
  writerEpoch : plan.stream.writerEpoch = plan.ticket.writerEpoch
  grows : plan.oldHead.size ≤ plan.ticket.publishThrough
  tail : ∀ state, m.appendStreams.lookup plan.ticket.streamId = some state →
    state.publicStream = plan.stream → plan.ticket.publishThrough ≤ state.acceptedTail

theorem PlanReady.trails (h : PlanReady m plan) (htrails : Trails m m') : PlanReady m' plan where
  fits := h.fits.extends htrails.shards
  index := h.index
  files := by
    obtain ⟨entry, hsize, hfiles⟩ := h.files
    refine ⟨entry, hsize, ?_⟩
    rw [shardFiles_extends htrails.shards h.fits.oldShard]
    exact hfiles
  keyspaceId := h.keyspaceId
  fileId := h.fileId
  writerEpoch := h.writerEpoch
  grows := h.grows
  tail state hstate hpublic := by
    obtain ⟨old, hold, hsame, htail⟩ := htrails.tails _ state hstate
    rw [← htail]
    exact h.tail old hold (hsame.trans hpublic)

theorem applyPlannedCommit_writes (h : m.Streams) (hplan : PlanReady m plan)
    (hmoves : plan.Moves (headView m ∅) view') :
    wp (applyPlannedCommit plan) (fun _ m' => ∃ state state' entry,
      m.appendStreams.lookup plan.ticket.streamId = some state ∧ state.status = .active ∧
        state.publicStream = plan.stream ∧ state'.publicStream = state.publicStream ∧
        state'.acceptedTail = state.acceptedTail ∧ state'.InOrder ∧
        m'.appendStreams = m.appendStreams.insert plan.ticket.streamId state' ∧
        m'.fileWriterEpochs = m.fileWriterEpochs.insert (plan.ticket.keyspaceId, plan.ticket.fileId)
          plan.ticket.writerEpoch ∧ Writes m m' plan.ticket.keyspaceId plan.ticket.fileId entry ∧
        entry.head.size = state'.publishedThrough ∧ headView m' ∅ = view') (· = m) m := by
  refine wp_step run_get (wp_check rfl fun _ _ => wp_check rfl fun _ _ => ?_)
  refine wp_check rfl fun head hhead => wp_check rfl fun _ _ => wp_check rfl fun _ _ => ?_
  refine wp_check rfl fun state hstate => wp_check rfl fun _ htoken => wp_check rfl fun _ hpublished => ?_
  have hstate := orFail_eq_ok.1 hstate
  have hhead := orFail_eq_ok.1 hhead
  have htoken := failIf_eq_ok.1 htoken
  rw [not_or, not_not, not_not] at htoken
  obtain ⟨hpublic, hactive⟩ := htoken
  have hpublished : state.publishedThrough = plan.oldHead.size := not_not.1 (failIf_eq_ok.1 hpublished)
  have hle := hplan.tail state hstate hpublic
  have horder := h.inOrder _ state hstate hactive
  obtain ⟨records, hrecords, hinOrder⟩ := horder.publish (hpublished ▸ hplan.grows) hle
  -- the checks after the change of the stream are what the view grants
  obtain ⟨shardRoots, generation, hview, hold, hgeneration, rfl⟩ := hmoves
  have hview : (m.keyspaceHeads.lookup plan.ticket.keyspaceId).map
      (fun head => (head.shardRoots, head.generation)) = some (shardRoots, generation) := hview
  rw [hhead] at hview
  cases hview
  have hshard : ¬ (head.shardRoots[plan.keyspaceCommit.shardIndex]? ≠
    some plan.keyspaceCommit.oldShard) := not_not.2 hold
  refine wp_step run_modify (wp_ok hrecords (wp_step run_modify ?_))
  refine wp_ok (a := ()) (failIf_eq_ok.2 hshard) (wp_ok (a := ()) (failIf_eq_ok.2 (by omega)) ?_)
  obtain ⟨entry, hsize, hfiles⟩ := hplan.files
  have hshards := Table.lookup_reinsert hplan.fits.newShard
  refine ⟨state, _, entry, hstate, hactive, hpublic, ?_, ?_,
    hinOrder (max state.durableThrough plan.ticket.publishThrough) (max_le horder.durable hle), ?_, rfl,
    ⟨le_rfl, le_rfl, ?_, head, _, ⟨plan.keyspaceCommit.shardIndex, plan.keyspaceCommit.oldShard,
      plan.newKeyspaceShard, head.fileCount⟩, hhead, rfl, rfl, ?_⟩, hsize, ?_⟩
  · rfl
  · rfl
  · exact AList.insert_insert _
  · intro id shard hid
    exact .inl ((hshards id).symm.trans hid)
  · refine ⟨hplan.index, hplan.index ▸ hold, (hshards _).trans hplan.fits.newShard, ?_⟩
    simp only [shardFiles, hshards] at hfiles ⊢
    exact hfiles
  · refine headView_enter { head with
      generation := head.generation + 1
      latestCommit := max head.latestCommit plan.commit.commitSeq
      shardRoots := head.shardRoots.set plan.keyspaceCommit.shardIndex plan.newKeyspaceShard.shardId } ?_
    rfl

/-- A plan that is ready is applied as a whole or not at all. -/
theorem applyPlannedCommit_streams (h : m.Streams) (hplan : PlanReady m plan)
    (hmoves : plan.Moves (headView m ∅) view') :
    wp (applyPlannedCommit plan) (fun _ m' => m'.Streams ∧ Trails m m' ∧ headView m' ∅ = view')
      (· = m) m := by
  refine wp_mono (wp_and (applyPlannedCommit_evolves h.grounded.catalogs hplan.fits)
    (applyPlannedCommit_writes h hplan hmoves)) ?_ fun _ hboth => hboth.2
  rintro _ m' ⟨⟨hev, -⟩, state, state', entry, hstate, hactive, hpublic, hsame, htail, hinOrder,
    hstreams, hepochs, hwrites, hsize, hview⟩
  have hk : state.keyspaceId = plan.ticket.keyspaceId :=
    (congrArg AppendStream.keyspaceId hpublic).trans hplan.keyspaceId
  have hf : state.fileId = plan.ticket.fileId :=
    (congrArg AppendStream.fileId hpublic).trans hplan.fileId
  have hepoch : state.writerEpoch = plan.ticket.writerEpoch :=
    (congrArg AppendStream.writerEpoch hpublic).trans hplan.writerEpoch
  have hlookup : ∀ id, m'.appendStreams.lookup id =
      if id = plan.ticket.streamId then some state' else m.appendStreams.lookup id := by
    intro id
    rw [hstreams, Table.lookup_insert_eq]
  rw [← hk, ← hf, ← hepoch] at hepochs
  rw [← hk, ← hf] at hwrites
  rw [← hk] at hev
  refine ⟨h.published hstate hactive state' hsame hwrites hev hlookup hepochs hinOrder hsize, ⟨?_, ?_⟩, hview⟩
  · exact (hev h.grounded.catalogs).2.1
  · intro id other hother
    rw [hlookup] at hother
    split at hother
    · next heq =>
      cases hother
      exact ⟨state, heq ▸ hstate, hsame.symm, htail.symm⟩
    · exact ⟨other, hother, rfl, rfl⟩

/-! ## Plans are ready -/

/-- A plan is ready, and leads from the heads that it was made from to the next ones. -/
theorem planAppendPublish_ready (h : m.Grounded) {ticket : AppendPublishTicket}
    (durability : WriteDurability) (durableNextCommitSeq : Nat)
    (hdrafts : DraftsFit m.keyspaceCatalogShards drafts) {draft : AppendPublishDraft}
    (hk : draft.stream.keyspaceId = ticket.keyspaceId) (hf : draft.stream.fileId = ticket.fileId)
    (hepoch : draft.stream.writerEpoch = ticket.writerEpoch) :
    wp (planAppendPublish config ticket durability durableNextCommitSeq drafts draft)
      (fun result m' => Idles m m' ∧ (PlanFits m'.keyspaceCatalogShards result.1 → PlanReady m' result.1) ∧
        result.1.Moves (headView m drafts) (headView m (drafts.insert ticket.keyspaceId result.2)))
      (Idles m) m := by
  have hrefl : Idles m m := refl m
  refine wp_step run_get (wp_check hrefl fun _ _ => wp_check hrefl fun _ _ => wp_check hrefl fun _ _ => ?_)
  refine wp_check hrefl fun head hhead => wp_check hrefl fun entry hentry => wp_check hrefl fun _ _ => ?_
  refine wp_check hrefl fun state hstate => wp_check hrefl fun _ _ => wp_check hrefl fun _ hrange => ?_
  refine wp_check hrefl fun _ _ => wp_check hrefl fun _ _ => wp_check hrefl fun node _ => ?_
  refine allocCommitSeq_sameFiles.thenWp (fun commitSeq m1 hs1 _ => ?_) fun _ => idles_of_same
  refine allocCommitGroupId_sameFiles.thenWp (fun commitGroup m2 hs2 _ => ?_)
    fun _ hs2 => idles_of_same (hs2.trans hs1)
  have hs : SameFiles m m2 := hs2.trans hs1
  have hpre := idles_of_same hs
  have hnext : m2.nextFileId = m.nextFileId := congrArg FileRows.nextFileId hs
  have hshards : m2.keyspaceCatalogShards = m.keyspaceCatalogShards :=
    congrArg FileRows.keyspaceCatalogShards hs
  have hstreams : m2.appendStreams = m.appendStreams := congrArg FileRows.appendStreams hs
  have hc := hdrafts.head h.catalogs hhead
  have hfile : ticket.fileId < m.nextFileId := h.entry_lt hentry
  have hrange := failIf_eq_ok.1 hrange
  simp only [not_or, not_not, Nat.not_le, Nat.not_lt, gt_iff_lt] at hrange
  refine wp_check hpre fun version _ => wp_check hpre fun _ _ => wp_bind.2 ?_
  refine wp_mono (updateKeyspaceFile_places (h.same hs) (hshards ▸ hc) (hnext ▸ hfile) _) ?_
    fun _ hidles => IsTrans.trans _ _ _ hpre hidles
  rintro update m3 ⟨hshardsOnly, hidles, hplaces⟩
  have hidles := IsTrans.trans _ _ _ hpre hidles
  refine wp_check hidles fun head' hhead' => wp_step run_modify ?_
  have hflight : ∀ inFlight, Idles m { m3 with
      appendPublishInFlight := m3.appendPublishInFlight.insert ticket.ticketId inFlight } :=
    fun _ => IsTrans.trans _ _ _ hidles
      ⟨⟨le_rfl, le_rfl, rfl, fun _ _ hs => hs, fun hm => hm, fun _ _ hs => .inl hs⟩, rfl⟩
  refine wp_check (hflight _) fun _ _ => wp_check (hflight _) fun _ _ => ⟨hflight _, ?_, ?_⟩
  · intro hfits
    refine ⟨hfits, hplaces.index, ⟨_, ?_, hplaces.files⟩, hk, hf, hepoch, ?_, ?_⟩
    · rfl
    · change draft.oldHead.size ≤ ticket.publishThrough
      omega
    · intro other hother _
      cases ((hflight _).1.streams _ other hother).symm.trans (orFail_eq_ok.1 hstate)
      exact hrange.2.2
  · obtain ⟨⟨⟩, hgeneration, hhead'⟩ := bind_eq_ok.1 hhead'
    cases hhead'
    refine ⟨head.shardRoots, head.generation, ?_, ?_, ?_, headView_insert⟩
    · exact congrArg (Option.map _) (orFail_eq_ok.1 hhead)
    · change head.shardRoots[update.shardIndex]? = some update.oldShard
      rw [hplaces.index]
      exact hplaces.oldShard
    · exact Nat.lt_of_not_ge (failIf_eq_ok.1 hgeneration)

theorem prepareAppendPublishPlan_ready (h : s.metadata.Streams) (ticket : AppendPublishTicket)
    (durability : WriteDurability) (durableNextCommitSeq : Nat)
    (hdrafts : DraftsFit s.metadata.keyspaceCatalogShards drafts) :
    wp (prepareAppendPublishPlanWithDrafts config ticket durability durableNextCommitSeq drafts)
      (fun result s' => s'.metadata.Streams ∧ Trails s.metadata s'.metadata ∧
        s'.metadata.keyspaceHeads = s.metadata.keyspaceHeads ∧
        DraftsFit s'.metadata.keyspaceCatalogShards result.2 ∧ PlanReady s'.metadata result.1 ∧
        result.1.Moves (headView s.metadata drafts) (headView s.metadata result.2))
      (fun s' => s'.metadata.Streams) s := by
  refine wp_step run_get (wp_check h fun status hstatus => ?_)
  cases status with
  | completed commit => exact h
  | pending stream =>
    obtain ⟨state, -, rfl, -, hk, hf, -, hepoch, -⟩ := ticketStatus_pending hstatus
    refine (draftAppendPublish_sameFiles drafts ticket state.publicStream).thenWp ?_
      fun _ hsame => keepsStreams_of_same hsame h
    intro draft s1 hsame hstream
    have h1 := keepsStreams_of_same hsame h
    have hshards : s1.metadata.keyspaceCatalogShards = s.metadata.keyspaceCatalogShards :=
      congrArg FileRows.keyspaceCatalogShards hsame
    have hheads : s1.metadata.keyspaceHeads = s.metadata.keyspaceHeads :=
      congrArg FileRows.keyspaceHeads hsame
    have htrails1 : Trails s.metadata s1.metadata :=
      (idles_of_same hsame).trails h.grounded.catalogs (evolves_of_same (k := none) hsame)
    rw [← hshards] at hdrafts
    refine wp_bind.2 (wp_zoom.2 (wp_mono (wp_and
      (planAppendPublish_evolves (k := none) h1.grounded.catalogs ticket durability durableNextCommitSeq
        hdrafts draft)
      (planAppendPublish_ready h1.grounded durability durableNextCommitSeq hdrafts (hstream ▸ hk)
        (hstream ▸ hf) (hstream ▸ hepoch))) ?_ ?_))
    · rintro ⟨plan, head⟩ m2 ⟨⟨hev, -, hfits, hc⟩, hidles, hready, hmoves⟩
      refine ⟨h1.kept (hidles.kept h1.grounded hev), ?_, hidles.2.trans hheads, ?_, hready hfits, ?_⟩
      · exact IsTrans.trans _ _ _ htrails1 (hidles.trails h1.grounded.catalogs hev)
      · intro keyspaceId head' hhead'
        rw [Table.lookup_insert_eq] at hhead'
        split at hhead'
        · cases hhead'
          exact hc
        · exact hdrafts.extends (hev h1.grounded.catalogs).2.1 keyspaceId head' hhead'
      · rw [headView_heads hheads, headView_heads hheads] at hmoves
        exact hmoves
    · exact fun m2 hboth => h1.kept (hboth.2.kept h1.grounded hboth.1)

theorem applyAppendPublishPlan_streams (h : s.metadata.Streams) (hplan : PlanReady s.metadata plan)
    (hmoves : plan.Moves (headView s.metadata ∅) view') :
    wp (applyAppendPublishPlan plan) (fun _ s' => s'.metadata.Streams ∧ Trails s.metadata s'.metadata ∧
      headView s'.metadata ∅ = view') (fun s' => s'.metadata.Streams) s := by
  refine wp_check h fun _ _ => wp_step run_get (wp_check h fun _ _ => wp_check h fun _ _ => ?_)
  refine wp_bind.2 (wp_zoom.2 (wp_mono (applyPlannedCommit_streams h hplan hmoves) ?_ ?_))
  · rintro _ m1 ⟨h1, htrails, hview⟩
    refine wp_bind.2 (wp_step run_get (wp_check h1 fun _ _ => ?_))
    exact ⟨h1, htrails, hview⟩
  · rintro _ rfl
    exact h

theorem publishPlanned_streams (h : s.metadata.Streams) (ticket : AppendPublishTicket)
    (durability : WriteDurability) (durableNextCommitSeq : Nat) :
    HoldsStreams (publishPlanned config ticket durability durableNextCommitSeq) s := by
  refine wp_bind.2 (wp_mono (prepareAppendPublishPlan_ready h ticket durability durableNextCommitSeq
    draftsFit_empty) ?_ fun _ h1 => h1)
  rintro ⟨plan, drafts⟩ s1 ⟨h1, -, hheads, -, hplan, hmoves⟩
  rw [← headView_heads hheads] at hmoves
  exact wp_mono (applyAppendPublishPlan_streams h1 hplan hmoves) (fun _ _ hs => hs.1) fun _ hs => hs

/-! ## Batches of publishes -/

/-- The plans of a batch are ready, and lead to its drafts. -/
structure AppendPublishBatch.Ready (batch : AppendPublishBatch) (s : Coordinator) : Prop where
  streams : s.metadata.Streams
  drafts : DraftsFit s.metadata.keyspaceCatalogShards batch.drafts
  plans : ∀ plan ∈ batch.plans, PlanReady s.metadata plan
  leads : Leads (headView s.metadata ∅) batch.plans (headView s.metadata batch.drafts)

theorem planTicket_ready {batch : AppendPublishBatch} (h : batch.Ready s) (ticket : AppendPublishTicket) :
    wp (planTicket config batch ticket) (fun batch' s' => batch'.Ready s')
      (fun s' => s'.metadata.Streams) s := by
  rw [planTicket]
  split
  · exact h
  refine wp_step run_get (wp_check h.streams fun status _ => ?_)
  cases status with
  | completed commit => exact h
  | pending stream =>
    refine wp_bind.2 (wp_mono (prepareAppendPublishPlan_ready h.streams ticket .flushed
      batch.nextCommitSeq h.drafts) ?_ fun _ h1 => h1)
    rintro ⟨plan, drafts⟩ s1 ⟨h1, htrails, hheads, hdrafts, hplan, hmoves⟩
    refine wp_check h1 fun _ _ => ⟨h1, hdrafts, ?_, ?_⟩
    · intro other hmem
      obtain hmem | hmem := List.mem_append.1 hmem
      · exact (h.plans other hmem).trails htrails
      · rw [List.mem_singleton.1 hmem]
        exact hplan
    · rw [headView_heads hheads, headView_heads hheads]
      exact leads_concat h.leads hmoves

theorem applyPlans_streams {plans : List AppendPublishPlan} (h : s.metadata.Streams)
    (hplans : ∀ plan ∈ plans, PlanReady s.metadata plan)
    (hleads : Leads (headView s.metadata ∅) plans view') :
    HoldsStreams (plans.forM fun plan => do let _ ← applyAppendPublishPlan plan) s := by
  induction plans generalizing s with
  | nil => exact h
  | cons plan plans ih =>
    obtain ⟨hplan, hplans⟩ := List.forall_mem_cons.1 hplans
    obtain ⟨next, hmoves, hleads⟩ := hleads
    refine wp_bind.2 (wp_bind.2 (wp_mono (applyAppendPublishPlan_streams h hplan hmoves) ?_ fun _ h1 => h1))
    rintro _ s1 ⟨h1, htrails, rfl⟩
    exact ih h1 (fun plan hmem => (hplans plan hmem).trails htrails) hleads

theorem keepsStreams_inFlight {appendPublishInFlight : Table Nat AppendPublishInFlight} :
    KeepsStreams m { m with appendPublishInFlight } := by
  intro h
  have hidles : Idles m { m with appendPublishInFlight } :=
    ⟨⟨le_rfl, le_rfl, rfl, fun _ _ hs => hs, fun hm => hm, fun _ _ hs => .inl hs⟩, rfl⟩
  exact h.kept (hidles.kept h.grounded (evolves_beside (k := none)))

theorem cancelAppendPublishPlan_keeps (plan : AppendPublishPlan) :
    Moves KeepsStreams (cancelAppendPublishPlan plan) m := by
  refine ⟨?_, trivial⟩
  dsimp only
  split
  · exact keepsStreams_inFlight
  · exact refl m

theorem persistAppendPublishTicketBatch_streams (h : s.metadata.Streams)
    (tickets : List AppendPublishTicket) (durableNextCommitSeq : Nat) (persisted : Result Unit) :
    HoldsStreams (persistAppendPublishTicketBatch config tickets durableNextCommitSeq persisted) s := by
  have hempty : AppendPublishBatch.Ready ⟨[], ∅, durableNextCommitSeq, []⟩ s :=
    ⟨h, draftsFit_empty, nofun, rfl⟩
  refine wp_bind.2 (wp_mono (wp_foldlM hempty fun batch ticket s1 h1 => planTicket_ready h1 ticket) ?_
    fun _ h1 => h1)
  intro batch s1 hbatch
  cases persisted with
  | error error =>
    have hcancel : Moves (Coordinator.Via KeepsStreams) (batch.plans.forM fun plan =>
        onMetadata (cancelAppendPublishPlan plan)) s1 :=
      Along.forM fun plan _ _ _ => along_onMetadata (cancelAppendPublishPlan_keeps plan)
    exact wp_bind.2 (wp_mono hcancel (fun _ _ hs => hs.1 hbatch.streams) fun _ hs => hs hbatch.streams)
  | ok _ => exact applyPlans_streams hbatch.streams hbatch.plans hbatch.leads

end CowStore.Local
