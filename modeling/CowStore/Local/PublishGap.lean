import CowStore.Local.StreamFiles

/-!
# Publishes ahead of the durable cursor

A prepared publish is written to the journal before the commits below its number need to be
durable, but only where all of those are publishes too: the others are persisted first.  The
test for this compares the commits since the durable cursor with the publishes under way.
-/

namespace CowStore.Local

open Lib

/-! ## The test -/

def MetadataInner.PublishUnderWay (m : MetadataInner) (commitSeq : Nat) : Prop :=
  ∃ publish ∈ m.appendPublishInFlight.values, publish.commitSeq = commitSeq

theorem inFlightFrom_eq {limit : Nat} (hlimit : limit < u64Bound) {seqs : List Nat} {expected : Nat}
    (hsorted : seqs.Pairwise (· ≤ ·)) (hseqs : ∀ seq ∈ seqs, seq < limit) (hle : expected ≤ limit) :
    ∃ reached, inFlightFrom expected seqs = .ok reached ∧
      (reached = some limit ↔ ∀ seq, expected ≤ seq → seq < limit → seq ∈ seqs) := by
  induction seqs generalizing expected with
  | nil =>
    refine ⟨some expected, rfl, ?_⟩
    constructor
    · rintro ⟨⟩ seq hge hlt
      omega
    · intro hall
      obtain rfl | hlt := hle.eq_or_lt
      · rfl
      · exact absurd (hall expected le_rfl hlt) List.not_mem_nil
  | cons first seqs ih =>
    obtain ⟨hfirst, hsorted⟩ := List.pairwise_cons.1 hsorted
    obtain ⟨hlt, hseqs⟩ := List.forall_mem_cons.1 hseqs
    rw [inFlightFrom]
    split
    · next hskip =>
      obtain ⟨reached, hreached, hiff⟩ := ih hsorted hseqs hle
      refine ⟨reached, hreached, hiff.trans (forall₃_congr fun seq hge _ => ?_)⟩
      rw [List.mem_cons, or_iff_right (by omega)]
    split
    · next hgap =>
      refine ⟨none, rfl, iff_of_false nofun fun hall => ?_⟩
      obtain heq | hmem := List.mem_cons.1 (hall expected le_rfl (by omega))
      · exact hgap heq.symm
      · have := hfirst expected hmem
        omega
    · next hnext =>
      obtain rfl := not_not.1 hnext
      rw [checkedAdd_of_lt (by omega), ok_bind]
      obtain ⟨reached, hreached, hiff⟩ := ih hsorted hseqs hlt
      refine ⟨reached, hreached, hiff.trans ⟨fun hall seq hge hseq => ?_, fun hall seq hge hseq => ?_⟩⟩
      · obtain rfl | hgt := hge.eq_or_lt
        · exact List.mem_cons_self
        · exact List.mem_cons_of_mem _ (hall seq hgt hseq)
      · exact (List.mem_cons.1 (hall seq (by omega) hseq)).resolve_left (by omega)

/-- The test answers, and says whether all commits from the cursor on are publishes under way. -/
theorem appendPublishCommitGapIsInFlight_eq {m : MetadataInner} {d : Nat}
    (hnext : m.nextCommitSeq < u64Bound) (hd : d ≤ m.nextCommitSeq) :
    ∃ answer, m.appendPublishCommitGapIsInFlight d = .ok answer ∧
      (answer = true ↔ ∀ seq, d ≤ seq → seq < m.nextCommitSeq → m.PublishUnderWay seq) := by
  rw [MetadataInner.appendPublishCommitGapIsInFlight, if_neg (Nat.not_lt.2 hd)]
  split
  · next heq => exact ⟨true, rfl, iff_of_true rfl fun seq hge hlt => by omega⟩
  · have hmem : ∀ seq, seq ∈ (((m.appendPublishInFlight.values.map (·.commitSeq)).filter fun seq =>
        d ≤ seq ∧ seq < m.nextCommitSeq).insertionSort (· ≤ ·)) ↔
        m.PublishUnderWay seq ∧ d ≤ seq ∧ seq < m.nextCommitSeq := by
      intro seq
      rw [List.mem_insertionSort, List.mem_filter, List.mem_map, decide_eq_true_iff]
      rfl
    obtain ⟨reached, hreached, hiff⟩ := inFlightFrom_eq hnext (List.pairwise_insertionSort _ _)
      (fun seq hseq => ((hmem seq).1 hseq).2.2) hd
    simp only [hreached, ok_bind]
    refine ⟨_, rfl, ?_⟩
    rw [decide_eq_true_iff, hiff]
    exact forall₃_congr fun seq hge hlt => (hmem seq).trans (and_iff_left ⟨hge, hlt⟩)

/-! ## What happens to the markers -/

/-- The counter does not move back, and a new marker is of the commit `seq`, which is taken. -/
def Marks (seq : Nat) (m m' : MetadataInner) : Prop :=
  m.nextCommitSeq ≤ m'.nextCommitSeq ∧ ∀ ticketId publish,
    m'.appendPublishInFlight.lookup ticketId = some publish →
    m.appendPublishInFlight.lookup ticketId = some publish ∨
      publish.commitSeq = seq ∧ seq < m'.nextCommitSeq

instance {seq : Nat} : Std.Refl (Marks seq) := ⟨fun _ => ⟨le_rfl, fun _ _ h => .inl h⟩⟩

instance {seq : Nat} : IsTrans MetadataInner (Marks seq) where
  trans _ _ _ h h' := by
    refine ⟨h.1.trans h'.1, fun ticketId publish hpublish => ?_⟩
    obtain hpublish | hnew := h'.2 ticketId publish hpublish
    · exact (h.2 ticketId publish hpublish).imp_right fun hnew => ⟨hnew.1, hnew.2.trans_le h'.1⟩
    · exact .inr hnew

variable {config : LocalStoreConfig} {m m' : MetadataInner} {seq : Nat} {plan : AppendPublishPlan}

theorem marks_of_same (hmarks : m'.appendPublishInFlight = m.appendPublishInFlight)
    (hnext : m.nextCommitSeq ≤ m'.nextCommitSeq) : Marks seq m m' :=
  ⟨hnext, fun _ _ h => .inl (hmarks ▸ h)⟩

theorem ShardsOnly.marks (h : ShardsOnly m m') : Marks seq m m' := by
  rw [h]
  exact marks_of_same rfl le_rfl

theorem marks_erase {ticketId : Nat}
    (hmarks : m'.appendPublishInFlight = m.appendPublishInFlight.erase ticketId)
    (hnext : m'.nextCommitSeq = m.nextCommitSeq) : Marks seq m m' := by
  refine ⟨hnext.ge, fun id publish h => .inl ?_⟩
  rw [hmarks] at h
  have hne : id ≠ ticketId := by
    rintro rfl
    rw [AList.lookup_erase] at h
    cases h
  rwa [AList.lookup_erase_ne hne] at h

theorem cancelAppendPublishPlan_marks : Moves (Marks seq) (cancelAppendPublishPlan plan) m := by
  have hstep : Marks seq m (if m.appendPublishInFlight.lookup plan.ticket.ticketId = some plan.inFlight then
      { m with appendPublishInFlight := m.appendPublishInFlight.erase plan.ticket.ticketId } else m) := by
    split
    · exact marks_erase rfl rfl
    · exact refl m
  exact ⟨hstep, trivial⟩

theorem applyPlannedCommit_marks : Moves (Marks seq) (applyPlannedCommit plan) m := by
  refine Along.get (Along.check3 fun _ _ _ => Along.check2 fun _ _ => Along.check2 fun _ _ => ?_)
  refine Along.check fun _ _ => Along.step run_modify (marks_of_same rfl le_rfl) ?_
  refine Along.check fun _ _ => Along.step run_modify (marks_of_same rfl le_rfl) ?_
  exact Along.check2 fun _ _ => ⟨marks_erase rfl rfl, trivial⟩

/-- A publish is planned where the test says yes, and takes the next number. -/
theorem planAppendPublish_marks {ticket : AppendPublishTicket} {durability : WriteDurability} {d : Nat}
    {drafts : Table Nat KeyspaceHead} {draft : AppendPublishDraft} :
    Along (Marks m.nextCommitSeq) (planAppendPublish config ticket durability d drafts draft) m
      fun result m' => result.1.commit.commitSeq = m.nextCommitSeq ∧ m.nextCommitSeq < m'.nextCommitSeq ∧
        m.nextCommitSeq < u64Bound ∧ m.appendPublishCommitGapIsInFlight d = .ok true := by
  refine Along.get (Along.check fun answer hanswer => Along.check fun _ hyes => ?_)
  obtain rfl := not_not.1 (failIf_eq_ok.1 hyes)
  refine Along.check3 fun _ _ _ => Along.check3 fun _ _ _ => Along.check2 fun _ _ => ?_
  refine Along.check2 fun _ _ => ?_
  refine Along.bind (P := fun commitSeq m' => commitSeq = m.nextCommitSeq ∧
    m.nextCommitSeq + 1 < u64Bound ∧ m' = { m with nextCommitSeq := m.nextCommitSeq + 1 }) ?_ ?_
  · refine wp_mono (allocCommitSeq_wp m) (fun _ m' h => ⟨?_, h⟩) ?_
    · rw [h.2.2]
      exact marks_of_same rfl (Nat.le_succ _)
    · rintro _ rfl
      exact refl _
  rintro _ _ - ⟨rfl, hbound, rfl⟩
  refine Along.step rfl (marks_of_same rfl le_rfl) (Along.check2 fun _ _ => ?_)
  refine Along.bind ((updateKeyspaceFile_shardsOnly _ _ _ _).weaken fun _ => ShardsOnly.marks) ?_
  intro _ m3 h3 _
  refine Along.check fun _ _ => Along.step run_modify ⟨le_rfl, fun ticketId publish hlookup => ?_⟩ ?_
  · rw [Table.lookup_insert_eq] at hlookup
    split at hlookup
    · cases hlookup
      exact .inr ⟨rfl, h3.1⟩
    · exact .inl hlookup
  · refine Along.check2 fun _ _ => Along.pure ⟨rfl, h3.1, ?_, hanswer⟩
    omega

/-! ## The journal -/

/-- The store, the cursor of what is durable, the commits that are not publishes, those of them that
are durable, and the publishes that are prepared. -/
structure PublishLedger where
  metadata : MetadataInner
  durableNextCommitSeq : Nat
  others : List Nat
  durable : List Nat
  prepared : List AppendPublishPlan

def PublishLedger.start (m : MetadataInner) : PublishLedger := ⟨m, m.nextCommitSeq, [], [], []⟩

namespace PublishLedger

/-- A cursor that a batch goes by: one that was read, or the one behind a plan of the batch. -/
def Offers (l : PublishLedger) (d : Nat) : Prop :=
  d ≤ l.durableNextCommitSeq ∨ ∃ plan ∈ l.prepared, d = plan.commit.commitSeq + 1

/-- The steps of concurrent batches of publishes, commits of other kinds and persists. -/
inductive Step (config : LocalStoreConfig) : PublishLedger → PublishLedger → Prop
  -- whatever commits otherwise leaves the markers of publishes alone
  | other (l : PublishLedger) (m : MetadataInner)
      (hmarks : m.appendPublishInFlight = l.metadata.appendPublishInFlight)
      (hnext : l.metadata.nextCommitSeq ≤ m.nextCommitSeq) :
      Step config l { l with
        metadata := m
        others := l.others ++ List.range' l.metadata.nextCommitSeq
          (m.nextCommitSeq - l.metadata.nextCommitSeq) }
  | plan (l : PublishLedger) (ticket : AppendPublishTicket) (durability : WriteDurability) (d : Nat)
      (drafts : Table Nat KeyspaceHead) (draft : AppendPublishDraft) (hd : l.Offers d) :
      Step config l (match planAppendPublish config ticket durability d drafts draft l.metadata with
        | .ok (plan, _) metadata => { l with metadata, prepared := l.prepared ++ [plan] }
        | .error _ metadata => { l with metadata })
  | cancel (l : PublishLedger) (plan : AppendPublishPlan) :
      Step config l { l with metadata := lastState (cancelAppendPublishPlan plan) l.metadata }
  | apply (l : PublishLedger) (plan : AppendPublishPlan) :
      Step config l { l with metadata := lastState (applyPlannedCommit plan) l.metadata }
  | journal (l : PublishLedger) (plan : AppendPublishPlan) (hplan : plan ∈ l.prepared) :
      Step config l { l with
        durableNextCommitSeq := max l.durableNextCommitSeq (plan.commit.commitSeq + 1) }
  -- a persist of the whole store, or of the deltas from the cursor on
  | persist (l : PublishLedger) (through : Nat) (hthrough : through ≤ l.metadata.nextCommitSeq) :
      Step config l { l with
        durableNextCommitSeq := max l.durableNextCommitSeq through
        durable := l.durable ++ l.others.filter (· < through) }

/-- What is behind the cursor or a plan is durable, unless it is a publish. -/
structure Ordered (l : PublishLedger) : Prop where
  others : ∀ seq ∈ l.others, seq < l.metadata.nextCommitSeq
  markers : ∀ ticketId publish, l.metadata.appendPublishInFlight.lookup ticketId = some publish →
    publish.commitSeq < l.metadata.nextCommitSeq ∧ publish.commitSeq ∉ l.others
  cursor_le : l.durableNextCommitSeq ≤ l.metadata.nextCommitSeq
  cursor : ∀ seq ∈ l.others, seq < l.durableNextCommitSeq → seq ∈ l.durable
  prepared : ∀ plan ∈ l.prepared, plan.commit.commitSeq < l.metadata.nextCommitSeq ∧
    ∀ seq ∈ l.others, seq ≤ plan.commit.commitSeq → seq ∈ l.durable

variable {l l' : PublishLedger}

theorem Ordered.marks (h : l.Ordered) (hmarks : Marks l.metadata.nextCommitSeq l.metadata m') :
    Ordered { l with metadata := m' } where
  others seq hseq := (h.others seq hseq).trans_le hmarks.1
  markers ticketId publish hpublish := by
    obtain hpublish | ⟨heq, hlt⟩ := hmarks.2 ticketId publish hpublish
    · exact ⟨(h.markers ticketId publish hpublish).1.trans_le hmarks.1, (h.markers ticketId publish hpublish).2⟩
    · exact ⟨heq ▸ hlt, fun hmem => (h.others _ hmem).ne heq⟩
  cursor_le := h.cursor_le.trans hmarks.1
  cursor := h.cursor
  prepared plan hplan := ⟨(h.prepared plan hplan).1.trans_le hmarks.1, (h.prepared plan hplan).2⟩

/-- Where the test says yes, the commits of other kinds are durable, all of them. -/
theorem Ordered.all_durable (h : l.Ordered) {d : Nat} (hd : l.Offers d)
    (hbound : l.metadata.nextCommitSeq < u64Bound)
    (hgap : l.metadata.appendPublishCommitGapIsInFlight d = .ok true) :
    ∀ seq ∈ l.others, seq ∈ l.durable := by
  intro seq hseq
  have hlt := h.others seq hseq
  obtain hbehind | hge := lt_or_ge seq d
  · obtain hle | ⟨plan, hplan, rfl⟩ := hd
    · exact h.cursor seq hseq (hbehind.trans_le hle)
    · exact (h.prepared plan hplan).2 seq hseq (Nat.le_of_lt_succ hbehind)
  · obtain ⟨_, hanswer, hiff⟩ := appendPublishCommitGapIsInFlight_eq hbound (hge.trans hlt.le)
    cases hgap.symm.trans hanswer
    obtain ⟨publish, hpublish, rfl⟩ := hiff.1 rfl seq hge hlt
    obtain ⟨ticketId, hlookup⟩ := Table.mem_values.1 hpublish
    exact absurd hseq (h.markers ticketId publish hlookup).2

theorem Ordered.step (h : l.Ordered) (hstep : Step config l l') : l'.Ordered := by
  cases hstep with
  | other m hmarks hnext =>
    have h' := h.marks (marks_of_same hmarks hnext)
    -- a new number is behind neither the cursor nor a marker or a plan
    have hnew : ∀ seq ∈ l.others ++ List.range' l.metadata.nextCommitSeq
        (m.nextCommitSeq - l.metadata.nextCommitSeq),
        seq ∈ l.others ∨ l.metadata.nextCommitSeq ≤ seq ∧ seq < m.nextCommitSeq := by
      intro seq hseq
      refine (List.mem_append.1 hseq).imp_right fun hseq => ?_
      rw [List.mem_range'_1] at hseq
      omega
    refine ⟨fun seq hseq => ?_, fun ticketId publish hpublish => ?_, h'.cursor_le, fun seq hseq hlt => ?_,
      fun plan hplan => ⟨(h'.prepared plan hplan).1, fun seq hseq hle => ?_⟩⟩
    · exact (hnew seq hseq).elim (h'.others seq) (·.2)
    · obtain ⟨hlt, hnot⟩ := h.markers ticketId publish (hmarks ▸ hpublish)
      exact ⟨hlt.trans_le hnext, fun hmem => (hnew _ hmem).elim hnot fun hge => hlt.not_ge hge.1⟩
    · exact h.cursor seq ((hnew seq hseq).resolve_right fun hge => (hlt.trans_le h.cursor_le).not_ge hge.1) hlt
    · obtain ⟨hlt, hdurable⟩ := h.prepared plan hplan
      exact hdurable seq ((hnew seq hseq).resolve_right fun hge => (hle.trans_lt hlt).not_ge hge.1) hle
  | plan ticket durability d drafts draft hd =>
    have hplan : Along _ (planAppendPublish config ticket durability d drafts draft) l.metadata _ :=
      planAppendPublish_marks
    unfold Along wp at hplan
    split at hplan
    · next result m' heq =>
      obtain ⟨hmarks, hseq, hlt, hbound, hgap⟩ := hplan
      have h' := h.marks hmarks
      rw [heq]
      refine ⟨h'.others, h'.markers, h'.cursor_le, h'.cursor, fun plan hmem => ?_⟩
      obtain hmem | hmem := List.mem_append.1 hmem
      · exact h'.prepared plan hmem
      · cases List.mem_singleton.1 hmem
        exact ⟨hseq ▸ hlt, fun seq hmem _ => h.all_durable hd hbound hgap seq hmem⟩
    · next heq =>
      rw [heq]
      exact h.marks hplan
  | cancel plan => exact h.marks cancelAppendPublishPlan_marks.lastState
  | apply plan => exact h.marks applyPlannedCommit_marks.lastState
  | journal plan hplan =>
    obtain ⟨hlt, hdurable⟩ := h.prepared plan hplan
    refine ⟨h.others, h.markers, max_le h.cursor_le hlt, fun seq hseq hbehind => ?_, h.prepared⟩
    obtain hbehind | hbehind := lt_max_iff.1 hbehind
    · exact h.cursor seq hseq hbehind
    · exact hdurable seq hseq (Nat.le_of_lt_succ hbehind)
  | persist through hthrough =>
    refine ⟨h.others, h.markers, max_le h.cursor_le hthrough, fun seq hseq hbehind => ?_, fun plan hplan => ?_⟩
    · obtain hbehind | hbehind := lt_max_iff.1 hbehind
      · exact List.mem_append_left _ (h.cursor seq hseq hbehind)
      · exact List.mem_append_right _ (List.mem_filter.2 ⟨hseq, decide_eq_true hbehind⟩)
    · obtain ⟨hlt, hdurable⟩ := h.prepared plan hplan
      exact ⟨hlt, fun seq hseq hle => List.mem_append_left _ (hdurable seq hseq hle)⟩

end PublishLedger

/-- No plan is made before the whole store is persisted. -/
def appendPublishRequiresFullPersistBeforePlan (effectiveExportCursor : Option Nat)
    (hasPendingDataLogAppend hasPendingCompactDeltas : Bool) (m : MetadataInner) : Bool :=
  match effectiveExportCursor with
  | none => true
  | some nextCommitSeq =>
    hasPendingDataLogAppend || hasPendingCompactDeltas || nextCommitSeq ≠ m.nextCommitSeq

/-- The test says yes exactly where every commit from the durable cursor on is a publish under
way, as at the start of a batch.  So in every run, whenever a prepared publish is journaled, the
earlier commits of other kinds are durable. -/
theorem publish_gap_is_in_flight (config : LocalStoreConfig) :
    (∀ (m : MetadataInner) (d : Nat), m.nextCommitSeq < u64Bound → d ≤ m.nextCommitSeq →
      ∃ answer, m.appendPublishCommitGapIsInFlight d = .ok answer ∧
        (answer = true ↔ ∀ seq, d ≤ seq → seq < m.nextCommitSeq → m.PublishUnderWay seq)) ∧
    (∀ (m : MetadataInner) (cursor : Option Nat) (pendingAppend pendingDeltas : Bool),
      appendPublishRequiresFullPersistBeforePlan cursor pendingAppend pendingDeltas m = false →
      ∃ d, cursor = some d ∧ m.appendPublishCommitGapIsInFlight d = .ok true) ∧
    ∀ (m : MetadataInner) (l : PublishLedger), m.appendPublishInFlight = ∅ →
      Relation.ReflTransGen (PublishLedger.Step config) (.start m) l →
      ∀ plan ∈ l.prepared, ∀ seq ∈ l.others, seq < plan.commit.commitSeq → seq ∈ l.durable := by
  refine ⟨fun m d hnext hd => appendPublishCommitGapIsInFlight_eq hnext hd, ?_, ?_⟩
  · intro m cursor pendingAppend pendingDeltas hrequires
    cases cursor with
    | none => cases hrequires
    | some d =>
      simp only [appendPublishRequiresFullPersistBeforePlan, Bool.or_eq_false_iff, decide_eq_false_iff_not,
        not_not] at hrequires
      refine ⟨d, rfl, ?_⟩
      rw [MetadataInner.appendPublishCommitGapIsInFlight, hrequires.2, if_neg (lt_irrefl _), if_pos rfl]
  · intro m l hempty hrun
    have hordered : l.Ordered := by
      induction hrun with
      | refl =>
        refine ⟨nofun, fun ticketId publish hpublish => ?_, le_rfl, nofun, nofun⟩
        rw [PublishLedger.start, hempty] at hpublish
        cases hpublish
      | tail _ hstep ih => exact ih.step hstep
    exact fun plan hplan seq hseq hlt => (hordered.prepared plan hplan).2 seq hseq hlt.le

end CowStore.Local
