import CowStore.Txn.Groups
import CowStore.Txn.Reads

/-!
# Trees in a run

A node is stored under a number that was drawn for it, and is never stored again.  So a
tree below a root is the same in every later state, and what a walk visits can be read off
the last state of the run, whatever else ran between its reads.
-/

namespace CowStore.Txn

open Lib Object Local TwoPhase Script

/-! ## Nodes are stored once -/

def Coordinated (calls : Nat → TxnCall) : Prop :=
  ∀ t node segments, calls t ≠ .persistMetadataNode node segments

section

variable {u : Setup} {calls : Nat → TxnCall} {acts acts' : List TxnAct} {act : TxnAct} {nodeId : Nat}
  {value : MetadataTxnValue}

theorem Setup.Runs.node_drawn (h : u.Runs calls (acts ++ act :: acts')) (hcalls : Coordinated calls)
    (hw : Wrote act (.metadataNode nodeId) = some value) :
    (⟨act.thread, ⟨.allocMetadataNodeId, nodeId⟩⟩ : TxnAct) ∈ acts := by
  obtain ⟨phase, txn, reply, -, hlast, hcommits, -⟩ := h.commits_of_wrote hw
  cases hcommits.writeOf (mem_of_lastWrite hlast) with
  | node hdrawn hnew =>
    obtain ⟨segments, hcall⟩ | hdrawn := hdrawn
    · exact absurd hcall (hcalls _ _ _)
    · exact mem_own.1 hdrawn

theorem Setup.Runs.node_new (h : u.Runs calls (acts ++ act :: acts'))
    (hcount : (u.stateAfter (acts ++ act :: acts')).Counting) (hcalls : Coordinated calls)
    (hw : Wrote act (.metadataNode nodeId) = some value) :
    (u.stateAfter acts).value (.metadataNode nodeId) = none := by
  obtain ⟨phase, txn, reply, hact, hlast, hcommits, -⟩ := h.commits_of_wrote hw
  cases hcommits.writeOf (mem_of_lastWrite hlast) with
  | @node node hdrawn hnew =>
    obtain ⟨y, rfl⟩ | ⟨r, hread, hvalue, hreads⟩ := hnew
    · -- who stored it before has drawn the same number, so it is the same call
      by_contra hne
      obtain ⟨value', hvalue'⟩ := Option.ne_none_iff_exists'.1 hne
      obtain ⟨before, act', rest, rfl, hw', -⟩ := h.before.writer hvalue'
      have hdrawn' := h.before.node_drawn hcalls hw'
      have hthread : act.thread = act'.thread :=
        h.before.drawn_unique .metadataNodeId (counting_before hcount).metadataNodeId
          (h.node_drawn hcalls hw) (List.mem_append_left _ hdrawn')
      obtain ⟨phase', txn', hact', -⟩ := commit_of_wrote hw'
      have hmem : (⟨act.thread, ⟨.commit phase' txn', .ok ()⟩⟩ : TxnAct) ∈ before ++ act' :: rest := by
        rw [hthread, ← hact']
        exact List.mem_append_right _ List.mem_cons_self
      cases hcommits.quiet _ (mem_own.2 hmem)
    · obtain ⟨es, es', hown⟩ := List.append_of_mem hread
      obtain ⟨seen, later, rfl, -, -, hr⟩ := h.before.locate hown
      change r = (u.stateAfter seen).readOne _ at hr
      rw [hr] at hreads
      rw [hact] at h
      have hunwritten := h.unwritten (counting_before hcount) hreads
      rw [value_eq_of_entries_eq (h.before.entries_append hunwritten), ← readOne_value, ← hr, hvalue]

theorem Setup.Runs.node_kept (h : u.Runs calls (acts ++ acts'))
    (hcount : (u.stateAfter (acts ++ acts')).Counting) (hcalls : Coordinated calls)
    (hvalue : (u.stateAfter acts).value (.metadataNode nodeId) = some value) :
    (u.stateAfter (acts ++ acts')).value (.metadataNode nodeId) = some value := by
  induction acts' using List.reverseRecOn with
  | nil => rwa [List.append_nil]
  | append_singleton acts' act ih =>
    rw [← List.append_assoc] at h hcount ⊢
    have hold := ih h.before (counting_before hcount)
    rw [h.value_concat]
    cases hw : Wrote act (.metadataNode nodeId) with
    | none => exact hold
    | some value' => cases hold.symm.trans (h.node_new hcount hcalls hw)

end

/-! ## Trees -/

namespace TxnState

variable (s : TxnState)

def node (nodeId : Nat) : Option MetadataNode :=
  (s.value (.metadataNode nodeId)).bind MetadataTxnValue.node?

/-- The entries of the leaves below a node that a walk for `requested` comes to. -/
def entriesUnder (requested : BlockRange) : Nat → MetadataNode → List LeafEntry
  | 0, _ => []
  | fuel + 1, node =>
    match node.kind with
    | .internal children => children.flatMap fun child =>
      if child.range.Meets requested then
        match s.node child.nodeId with
        | some childNode => entriesUnder requested fuel childNode
        | none => []
      else
        []
    | .leaf entries _ => entries

def entriesAt (requested : BlockRange) (root : Nat) : List LeafEntry :=
  match s.node root with
  | some node =>
    if node.coveredRange.Meets requested then s.entriesUnder requested (node.nodeId + 1) node else []
  | none => []

def segmentsAt (requested : BlockRange) (root : Nat) : List Nat :=
  ((s.entriesAt requested root).filter fun entry => entry.logicalRange.Meets requested).map
    LeafEntry.segmentId

end TxnState

/-! ## Walks -/

section

variable {β : Type} {s : TxnState} {requested : BlockRange} {visit : LeafEntry → Plane (List β)}
  {es es' : List TxnEvent} {entries entries' : List LeafEntry} {out out' : List β}

/-- The operations of a walk: reads of nodes, and the visits of the entries in their order. -/
inductive Visits (visit : LeafEntry → Plane (List β)) :
    List LeafEntry → List TxnEvent → List β → Prop
  | nil : Visits visit [] [] []
  | read {nodeId : Nat} {r : VersionedMetadataTxnValue} {entries : List LeafEntry}
      {es : List TxnEvent} {out : List β} (h : Visits visit entries es out) :
      Visits visit entries (⟨.readOne (.metadataNode nodeId), r⟩ :: es) out
  | visit {entry : LeafEntry} {entries : List LeafEntry} {es₁ es₂ : List TxnEvent}
      {out₁ out₂ : List β} (hentry : Returns (visit entry) es₁ out₁)
      (h : Visits visit entries es₂ out₂) : Visits visit (entry :: entries) (es₁ ++ es₂) (out₁ ++ out₂)

theorem Visits.append (h : Visits visit entries es out) (h' : Visits visit entries' es' out') :
    Visits visit (entries ++ entries') (es ++ es') (out ++ out') := by
  induction h with
  | nil => exact h'
  | read h ih => exact .read ih
  | visit hentry h ih =>
    rw [List.append_assoc, List.append_assoc]
    exact .visit hentry ih

/-- The nodes that were read are those of `s`. -/
def SeesNodes (s : TxnState) (es : List TxnEvent) : Prop :=
  ∀ nodeId (r : VersionedMetadataTxnValue) value, ⟨.readOne (.metadataNode nodeId), r⟩ ∈ es →
    r.value = some value → s.value (.metadataNode nodeId) = some value

theorem SeesNodes.mono (h : SeesNodes s es) (hsub : es' ⊆ es) : SeesNodes s es' :=
  fun nodeId r value hmem => h nodeId r value (hsub hmem)

theorem visits_mapM {α : Type} {f : α → Plane (List β)} {g : α → List LeafEntry} {xs : List α}
    {parts : List (List β)}
    (hf : ∀ x es out, Returns (f x) es out → SeesNodes s es → Visits visit (g x) es out)
    (h : Returns (xs.mapM f) es parts) (hsees : SeesNodes s es) :
    Visits visit (xs.flatMap g) es parts.flatten := by
  obtain ⟨rounds, rfl, rfl, hrounds⟩ := returns_mapM h
  clear h
  induction hrounds with
  | nil => exact .nil
  | @cons x round xs rounds hround _ ih =>
    rw [List.map_cons, List.flatten_cons] at hsees
    refine (hf x _ _ hround (hsees.mono (List.subset_append_left _ _))).append ?_
    exact ih (hsees.mono (List.subset_append_right _ _))

theorem visits_leaf {parts : List (List β)} (h : Returns (entries.mapM visit) es parts) :
    Visits visit entries es parts.flatten := by
  obtain ⟨rounds, rfl, rfl, hrounds⟩ := returns_mapM h
  clear h
  induction hrounds with
  | nil => exact .nil
  | cons hround _ ih => exact .visit hround ih

theorem SeesNodes.getMetadataNode {nodeId : Nat} {node : MetadataNode} (hsees : SeesNodes s es)
    (h : Returns (getMetadataNode nodeId) es node) :
    (∃ r, es = [⟨.readOne (.metadataNode nodeId), r⟩]) ∧ s.node nodeId = some node := by
  obtain ⟨r, rfl, hvalue⟩ := returns_getMetadataNode h
  refine ⟨⟨r, rfl⟩, ?_⟩
  rw [TxnState.node, hsees nodeId r _ List.mem_cons_self hvalue]
  rfl

/-- A walk visits the entries that are there below its node. -/
theorem visits_walkNode {fuel : Nat} {node : MetadataNode}
    (h : Returns (walkNode requested visit fuel node) es out) (hsees : SeesNodes s es) :
    Visits visit (s.entriesUnder requested fuel node) es out := by
  induction fuel generalizing node es out with
  | zero => exact absurd h not_returns_fail
  | succ fuel ih =>
    rw [walkNode] at h
    rw [TxnState.entriesUnder]
    cases hkind : node.kind with
    | leaf entries runExtents =>
      rw [hkind] at h
      obtain ⟨parts, es1, es2, rfl, hparts, hrest⟩ := returns_bind.1 h
      obtain ⟨rfl, rfl⟩ := returns_done.1 hrest
      rw [List.append_nil]
      exact visits_leaf hparts
    | internal children =>
      rw [hkind] at h
      obtain ⟨parts, es1, es2, rfl, hparts, hrest⟩ := returns_bind.1 h
      obtain ⟨rfl, rfl⟩ := returns_done.1 hrest
      rw [List.append_nil] at hsees ⊢
      refine visits_mapM ?_ hparts hsees
      intro child es out hchild hsees
      simp only [returns_lift_bind, BlockRange.overlaps_eq_ok] at hchild
      obtain ⟨overlaps, ⟨-, rfl⟩, hchild⟩ := hchild
      by_cases hmeets : child.range.Meets requested
      · rw [if_pos (decide_eq_true hmeets)] at hchild
        rw [if_pos hmeets]
        obtain ⟨childNode, es3, es4, rfl, hnode, hwalk⟩ := returns_bind.1 hchild
        obtain ⟨⟨r, rfl⟩, hfound⟩ :=
          (hsees.mono (List.subset_append_left _ _)).getMetadataNode hnode
        rw [hfound]
        exact .read (ih hwalk (hsees.mono (List.subset_append_right _ _)))
      · rw [if_neg (by simpa using hmeets)] at hchild
        rw [if_neg hmeets]
        obtain ⟨rfl, rfl⟩ := returns_done.1 hchild
        exact .nil

theorem visits_walkChunk {chunk : DeviceWriteChunk}
    (h : Returns (walkChunk requested visit chunk) es out) (hsees : SeesNodes s es) :
    Visits visit (s.entriesAt requested chunk.oldRoot) es out := by
  obtain ⟨node, es1, es2, rfl, hnode, hrest⟩ := returns_bind.1 h
  obtain ⟨⟨r, rfl⟩, hfound⟩ := (hsees.mono (List.subset_append_left _ _)).getMetadataNode hnode
  simp only [returns_lift_bind, BlockRange.overlaps_eq_ok] at hrest
  obtain ⟨overlaps, ⟨-, rfl⟩, hrest⟩ := hrest
  have hentries : s.entriesAt requested chunk.oldRoot = if node.coveredRange.Meets requested then
      s.entriesUnder requested (node.nodeId + 1) node else [] := by
    rw [TxnState.entriesAt, hfound]
  rw [hentries]
  by_cases hmeets : node.coveredRange.Meets requested
  · rw [if_pos (decide_eq_true hmeets)] at hrest
    rw [if_pos hmeets]
    exact .read (visits_walkNode hrest (hsees.mono (List.subset_append_right _ _)))
  · rw [if_neg (by simpa using hmeets)] at hrest
    rw [if_neg hmeets]
    obtain ⟨rfl, rfl⟩ := returns_done.1 hrest
    exact .read .nil

theorem Visits.segments {ids : List Nat} (h : Visits (entrySegment requested) entries es ids) :
    ids = (entries.filter fun entry => entry.logicalRange.Meets requested).map LeafEntry.segmentId := by
  induction h with
  | nil => rfl
  | read h ih => exact ih
  | @visit entry entries es1 es2 out1 out2 hentry h ih =>
    simp only [entrySegment, returns_lift_bind, BlockRange.overlaps_eq_ok, pure_eq_done,
      returns_done] at hentry
    obtain ⟨overlaps, ⟨-, rfl⟩, rfl, rfl⟩ := hentry
    rw [ih]
    by_cases hmeets : entry.logicalRange.Meets requested
    · rw [List.filter_cons_of_pos (by simpa using hmeets), if_pos (decide_eq_true hmeets)]
      rfl
    · rw [List.filter_cons_of_neg (by simpa using hmeets), if_neg (by simpa using hmeets)]
      rfl

end

end CowStore.Txn
