import CowStore.Lib.Prog
import CowStore.Lib.Table
import CowStore.Tree.Mapping

/-!
# Stored trees

The nodes of a tree are stored under their identifiers and never change: an edit stores
new nodes along the paths to the leaves that it rewrites, and returns the new root.  A
stored tree represents a mapping tree, and the edit of the one is the edit of the other.
-/

namespace CowStore.Tree

open Lib Object

structure NodeStore where
  nextMetadataNodeId : Nat
  metadataNodes : Table Nat MetadataNode
  deriving DecidableEq

abbrev NodeOp (α : Type) := EStateM StorageError NodeStore α

structure TreeEditResult where
  root : Nat
  changed : Bool
  deriving DecidableEq, Repr

namespace NodeStore

def getMetadataNode (s : NodeStore) (nodeId : Nat) : Result MetadataNode :=
  orFail (s.metadataNodes.lookup nodeId) (.notFound "metadata_node" (toString nodeId))

end NodeStore

def getMetadataNode (nodeId : Nat) : NodeOp MetadataNode := do
  let s ← get
  s.getMetadataNode nodeId

def allocMetadataNodeId : NodeOp Nat := do
  let s ← get
  set { s with nextMetadataNodeId := s.nextMetadataNodeId + 1 }
  return s.nextMetadataNodeId

def allocateMetadataNode (coveredRange : BlockRange) (kind : MetadataNodeKind) :
    NodeOp MetadataNode := do
  let nodeId ← allocMetadataNodeId
  return ⟨nodeId, coveredRange, kind⟩

def insertMetadataNode (node : MetadataNode) : NodeOp Unit :=
  modify fun s => { s with metadataNodes := s.metadataNodes.insert node.nodeId node }

def persistMetadataNode (node : MetadataNode) (segments : List SegmentDescriptor) :
    NodeOp Unit := do
  node.validate segments
  let s ← get
  match s.metadataNodes.lookup node.nodeId with
  | some existing => (failIf (existing ≠ node)
      (.conflict "metadata node ID already exists with different content") : Result Unit)
  | none => insertMetadataNode node

/-- A new node, checked before it is handed over and again where it is stored. -/
def addMetadataNode (coveredRange : BlockRange) (kind : MetadataNodeKind)
    (segments : List SegmentDescriptor) : NodeOp TreeEditResult := do
  let node ← allocateMetadataNode coveredRange kind
  node.validate segments
  persistMetadataNode node segments
  return ⟨node.nodeId, true⟩

/-! ## Edits -/

section

variable {E : Type} (k : MappingTree.TreeEdit E) (desc : Nat → Result SegmentDescriptor)

/-- One child of an edited node: the child to put in its place, and whether it changed. -/
def editChild (editAt : MetadataNode → E → NodeOp TreeEditResult) (e : E) (child : MetadataChild) :
    NodeOp (MetadataChild × Bool) := do
  match ← k.restrict child.range e with
  | none => return (child, false)
  | some own =>
    let childNode ← getMetadataNode child.nodeId
    let result ← editAt childNode (k.pass e own)
    return (⟨child.range, result.root⟩, result.changed)

/-- An edit of the tree under `node`; `fuel` bounds the depth. -/
def editAt : Nat → MetadataNode → E → NodeOp TreeEditResult
  | 0, _, _ => throw (.corrupt "metadata tree is too deep")
  | fuel + 1, node, e => do
    match ← k.restrict node.coveredRange e with
    | none => return ⟨node.nodeId, false⟩
    | some own =>
      match node.kind with
      | .leaf entries runExtents =>
        let contents ← k.apply node.coveredRange own (entries, runExtents)
        if contents = (entries, runExtents) then
          return ⟨node.nodeId, false⟩
        else
          let segments ← (contents.1.mapM (fun entry => desc entry.segmentId) :
            Result (List SegmentDescriptor))
          addMetadataNode node.coveredRange (.leaf contents.1 contents.2) segments
      | .internal children =>
        let edited ← children.mapM (editChild k (editAt fuel) own)
        if edited.any (·.2) then
          addMetadataNode node.coveredRange (.internal (edited.map (·.1))) []
        else
          return ⟨node.nodeId, false⟩

end

/-! ## What the store does to its nodes -/

namespace NodeStore

def Fresh (s : NodeStore) : Prop := ∀ id, s.nextMetadataNodeId ≤ id → s.metadataNodes.lookup id = none

structure Grows (s s' : NodeStore) : Prop where
  nodes : Table.Extends s.metadataNodes s'.metadataNodes
  next : s.nextMetadataNodeId ≤ s'.nextMetadataNodeId
  fresh : s.Fresh → s'.Fresh

instance : Std.Refl Grows := ⟨fun _ => ⟨Table.Extends.refl _, le_rfl, id⟩⟩

instance : IsTrans NodeStore Grows :=
  ⟨fun _ _ _ h h' => ⟨h.nodes.trans h'.nodes, h.next.trans h'.next, h'.fresh ∘ h.fresh⟩⟩

theorem Fresh.lt {s : NodeStore} (h : s.Fresh) {id : Nat} {node : MetadataNode}
    (hid : s.metadataNodes.lookup id = some node) : id < s.nextMetadataNodeId := by
  by_contra hge
  rw [h id (by omega)] at hid
  cases hid

end NodeStore

open NodeStore

theorem grows_alloc (s : NodeStore) :
    Grows s { s with nextMetadataNodeId := s.nextMetadataNodeId + 1 } :=
  ⟨Table.Extends.refl _, Nat.le_succ _, fun h id hid => h id (Nat.le_of_succ_le hid)⟩

variable {s : NodeStore}

theorem grows_insert (hs : s.Fresh) (node : MetadataNode)
    (hid : node.nodeId = s.nextMetadataNodeId) :
    Grows s ⟨s.nextMetadataNodeId + 1, s.metadataNodes.insert node.nodeId node⟩ where
  nodes := Table.extends_insert node (hs _ (Nat.le_of_eq hid.symm))
  next := Nat.le_succ _
  fresh _ id hle := by
    have hlt : s.nextMetadataNodeId + 1 ≤ id := hle
    rw [AList.lookup_insert_ne (by omega)]
    exact hs id (by omega)

/-- A new node is stored exactly where it passes its check; its identifier is used up. -/
def newNode (s : NodeStore) (covered : BlockRange) (kind : MetadataNodeKind)
    (segments : List SegmentDescriptor) : EStateM.Result StorageError NodeStore TreeEditResult :=
  match MetadataNode.validate ⟨0, covered, kind⟩ segments with
  | .error e => .error e { s with nextMetadataNodeId := s.nextMetadataNodeId + 1 }
  | .ok _ => .ok ⟨s.nextMetadataNodeId, true⟩ ⟨s.nextMetadataNodeId + 1,
      s.metadataNodes.insert s.nextMetadataNodeId ⟨s.nextMetadataNodeId, covered, kind⟩⟩

theorem newNode_run {covered : BlockRange} {kind : MetadataNodeKind}
    {segments : List SegmentDescriptor} {persist : MetadataNode → NodeOp Unit}
    (hpersist : MetadataNode.validate ⟨0, covered, kind⟩ segments = .ok () →
      persist ⟨s.nextMetadataNodeId, covered, kind⟩ ⟨s.nextMetadataNodeId + 1, s.metadataNodes⟩ =
        .ok () ⟨s.nextMetadataNodeId + 1, s.metadataNodes.insert s.nextMetadataNodeId
          ⟨s.nextMetadataNodeId, covered, kind⟩⟩) :
    (do
      let node ← allocateMetadataNode covered kind
      node.validate segments
      persist node
      return (⟨node.nodeId, true⟩ : TreeEditResult) : NodeOp TreeEditResult) s =
        newNode s covered kind segments := by
  have halloc : allocateMetadataNode covered kind s = .ok ⟨s.nextMetadataNodeId, covered, kind⟩
      { s with nextMetadataNodeId := s.nextMetadataNodeId + 1 } := rfl
  have hvalidate : MetadataNode.validate ⟨s.nextMetadataNodeId, covered, kind⟩ segments =
      MetadataNode.validate ⟨0, covered, kind⟩ segments := rfl
  rw [run_bind_ok halloc, newNode, hvalidate]
  cases hv : MetadataNode.validate ⟨0, covered, kind⟩ segments with
  | error e => rw [run_bind_error (run_lift_error e)]
  | ok u =>
    rw [run_bind_ok (run_lift_ok u), run_bind_ok (hpersist hv)]
    rfl

theorem addMetadataNode_run (hs : s.Fresh) (covered : BlockRange) (kind : MetadataNodeKind)
    (segments : List SegmentDescriptor) :
    addMetadataNode covered kind segments s = newNode s covered kind segments := by
  refine newNode_run fun hv => ?_
  have hnone : s.metadataNodes.lookup s.nextMetadataNodeId = none := hs _ le_rfl
  have hv' : MetadataNode.validate ⟨s.nextMetadataNodeId, covered, kind⟩ segments = .ok () := hv
  rw [persistMetadataNode, hv', run_bind_ok (run_lift_ok _)]
  simp [bind, EStateM.bind, hnone, insertMetadataNode]

theorem newNode_follows (hs : s.Fresh) {covered : BlockRange} {kind : MetadataNodeKind}
    {segments : List SegmentDescriptor} {x : NodeOp TreeEditResult}
    (hx : x s = newNode s covered kind segments) :
    Follows Grows (MetadataNode.validate ⟨0, covered, kind⟩ segments) x s fun _ result s' =>
      result = ⟨s.nextMetadataNodeId, true⟩ ∧ s'.metadataNodes.lookup s.nextMetadataNodeId =
        some ⟨s.nextMetadataNodeId, covered, kind⟩ := by
  rw [newNode] at hx
  cases hv : MetadataNode.validate ⟨0, covered, kind⟩ segments with
  | error e =>
    rw [hv] at hx
    exact Follows.of_error hx (grows_alloc s)
  | ok u =>
    rw [hv] at hx
    exact Follows.of_ok hx (grows_insert hs ⟨s.nextMetadataNodeId, covered, kind⟩ rfl)
      ⟨rfl, AList.lookup_insert _⟩

/-! ## Stored trees as mapping trees -/

mutual

/-- The nodes stored under `id` and below are those of the tree. -/
def Rep (nodes : Table Nat MetadataNode) : MappingTree → Nat → Prop
  | .leaf r es rs, id => nodes.lookup id = some ⟨id, r, .leaf es rs⟩
  | .internal r ts, id =>
      ∃ cs, nodes.lookup id = some ⟨id, r, .internal cs⟩ ∧ RepAll nodes id ts cs

/-- A node is stored after its children, so their identifiers are smaller. -/
def RepAll (nodes : Table Nat MetadataNode) (parent : Nat) :
    List MappingTree → List MetadataChild → Prop
  | [], cs => cs = []
  | t :: ts, cs => ∃ c rest, cs = c :: rest ∧
      (c.nodeId < parent ∧ c.range = t.range ∧ Rep nodes t c.nodeId) ∧ RepAll nodes parent ts rest

end

section

variable {nodes nodes' : Table Nat MetadataNode}

def RepChild (nodes : Table Nat MetadataNode) (parent : Nat) (t : MappingTree) (c : MetadataChild) :
    Prop :=
  c.nodeId < parent ∧ c.range = t.range ∧ Rep nodes t c.nodeId

variable {parent : Nat} {ts : List MappingTree} {cs : List MetadataChild}

theorem repAll_iff : RepAll nodes parent ts cs ↔ List.Forall₂ (RepChild nodes parent) ts cs := by
  induction ts generalizing cs with
  | nil =>
    rw [RepAll, List.forall₂_nil_left_iff]
  | cons t ts ih =>
    rw [RepAll, List.forall₂_cons_left_iff]
    constructor
    · rintro ⟨c, rest, rfl, hc, hrest⟩
      exact ⟨c, rest, hc, ih.1 hrest, rfl⟩
    · rintro ⟨c, rest, hc, hrest, rfl⟩
      exact ⟨c, rest, rfl, hc, ih.2 hrest⟩

variable {t : MappingTree}

theorem Rep.lookup {id : Nat} (h : Rep nodes t id) : ∃ kind, nodes.lookup id = some ⟨id, t.range, kind⟩ := by
  cases t with
  | leaf r es rs => exact ⟨_, h⟩
  | internal r ts =>
    obtain ⟨cs, hcs, -⟩ := h
    exact ⟨_, hcs⟩

theorem Rep.mono (hext : Table.Extends nodes nodes') {id : Nat} (h : Rep nodes t id) : Rep nodes' t id := by
  induction t generalizing id with
  | leaf r es rs => exact hext _ _ h
  | internal r ts ih =>
    obtain ⟨cs, hcs, hall⟩ := h
    refine ⟨cs, hext _ _ hcs, repAll_iff.2 ?_⟩
    refine ((List.forall₂_and_left ts cs).2 ⟨fun t ht => ht, repAll_iff.1 hall⟩).imp ?_
    rintro t c ⟨ht, hlt, hrange, hrep⟩
    exact ⟨hlt, hrange, ih t ht hrep⟩

theorem repChildren_mono {parent' : Nat} (h : List.Forall₂ (RepChild nodes parent) ts cs)
    (hle : parent ≤ parent') (hext : Table.Extends nodes nodes') :
    List.Forall₂ (RepChild nodes' parent') ts cs :=
  h.imp fun _ _ h => ⟨h.1.trans_le hle, h.2.1, h.2.2.mono hext⟩

theorem Rep.unique {t' : MappingTree} {id : Nat} (h : Rep nodes t id) (h' : Rep nodes t' id) : t = t' := by
  induction t generalizing t' id with
  | leaf r es rs =>
    cases t' with
    | leaf r' es' rs' =>
      have heq := Option.some.inj (Eq.trans (Eq.symm h) h')
      cases heq
      rfl
    | internal r' ts' =>
      obtain ⟨cs, hcs, -⟩ := h'
      have heq := Option.some.inj (Eq.trans (Eq.symm h) hcs)
      cases heq
  | internal r ts ih =>
    obtain ⟨cs, hcs, hall⟩ := h
    cases t' with
    | leaf r' es' rs' =>
      have heq := Option.some.inj (hcs.symm.trans h')
      cases heq
    | internal r' ts' =>
      obtain ⟨cs', hcs', hall'⟩ := h'
      have heq := Option.some.inj (hcs.symm.trans hcs')
      cases heq
      rw [repAll_iff] at hall hall'
      congr 1
      clear hcs hcs'
      induction hall generalizing ts' with
      | nil =>
        cases hall'
        rfl
      | @cons t c ts cs hc _ ihts =>
        cases hall' with
        | @cons t' _ ts' _ hc' hrest =>
          rw [ih t List.mem_cons_self hc.2.2 hc'.2.2,
            ihts (fun u hu => ih u (List.mem_cons_of_mem t hu)) ts' hrest]

end

/-- How the root that an edit returned stands to the tree that it should give. -/
structure Outcome (s : NodeStore) (old : Nat) (edited : MappingTree × Bool) (result : TreeEditResult)
    (s' : NodeStore) : Prop where
  rep : Rep s'.metadataNodes edited.1 result.root
  changed : result.changed = edited.2
  same : edited.2 = false → result.root = old
  new : edited.2 = true → s.nextMetadataNodeId ≤ result.root

section

variable {E : Type} {k : MappingTree.TreeEdit E} {desc : Nat → Result SegmentDescriptor}

/-- The edits of stored trees up to a depth are those of mapping trees. -/
def EditsStored (k : MappingTree.TreeEdit E) (desc : Nat → Result SegmentDescriptor)
    (fuel : Nat) : Prop :=
  ∀ (s : NodeStore) (t : MappingTree) (node : MetadataNode) (e : E), s.Fresh →
    s.metadataNodes.lookup node.nodeId = some node → Rep s.metadataNodes t node.nodeId →
    node.nodeId < fuel →
      Follows Grows (t.edit k desc e) (editAt k desc fuel node e) s (Outcome s node.nodeId)

variable {s : NodeStore}

theorem getMetadataNode_run {id : Nat} {node : MetadataNode}
    (h : s.metadataNodes.lookup id = some node) : getMetadataNode id s = .ok node s := by
  simp [getMetadataNode, bind, EStateM.bind, NodeStore.getMetadataNode, orFail, h]

theorem editChild_follows {fuel : Nat} (ih : EditsStored k desc fuel) (hs : s.Fresh)
    {t : MappingTree} {c : MetadataChild} (e : E) (hlt : c.nodeId < fuel)
    (hrange : c.range = t.range) (hrep : Rep s.metadataNodes t c.nodeId) :
    Follows Grows (k.restrict t.range e >>= fun share => (match share with
        | none => .ok (t, false)
        | some own => t.edit k desc (k.pass e own) : Result (MappingTree × Bool)))
      (editChild k (editAt k desc fuel) e c) s fun edited out s' =>
        (out.1.range = edited.1.range ∧ Rep s'.metadataNodes edited.1 out.1.nodeId) ∧
          out.2 = edited.2 := by
  rw [editChild, hrange]
  refine Follows.bind Follows.lift ?_
  rintro share _ _ - - ⟨rfl, rfl⟩
  cases share with
  | none => exact Follows.pure ⟨⟨hrange, hrep⟩, rfl⟩
  | some own =>
    obtain ⟨kind, hlookup⟩ := hrep.lookup
    refine Follows.read (getMetadataNode_run hlookup) ?_
    refine (ih s t _ (k.pass e own) hs hlookup hrep hlt).andThen ?_
    rintro ⟨t', changed⟩ result s' hedit - hout
    exact ⟨⟨(MappingTree.edit_range hedit).symm, hout.rep⟩, hout.changed⟩

theorem editChildren_follows {fuel : Nat} (ih : EditsStored k desc fuel) (hs : s.Fresh)
    {ts : List MappingTree} {cs : List MetadataChild} (e : E)
    (h : List.Forall₂ (RepChild s.metadataNodes fuel) ts cs) : Follows Grows (MappingTree.editAll k desc ts e)
      (cs.mapM (editChild k (editAt k desc fuel) e)) s fun edited out s' =>
        List.Forall₂ (fun t c => c.range = t.range ∧ Rep s'.metadataNodes t c.nodeId)
          edited.1 (out.map (·.1)) ∧ out.any (·.2) = edited.2 := by
  induction ts generalizing cs s with
  | nil =>
    cases h
    rw [MappingTree.editAll, List.mapM_nil]
    exact Follows.pure ⟨.nil, rfl⟩
  | cons t ts ihts =>
    cases h with
    | @cons _ c _ cs hc hall =>
      obtain ⟨hlt, hrange, hrep⟩ := hc
      rw [MappingTree.editAll, ← bind_assoc, List.mapM_cons]
      refine Follows.bind (editChild_follows ih hs e hlt hrange hrep) ?_
      rintro ⟨t1, c1⟩ ⟨out, c2⟩ s1 - hgrow1 ⟨⟨hr1, hrep1⟩, rfl⟩
      refine Follows.bind (ihts (hgrow1.fresh hs) (repChildren_mono hall le_rfl hgrow1.nodes)) ?_
      rintro ⟨rest, c3⟩ outs s2 - hgrow2 ⟨hrest, hany⟩
      refine Follows.pure ⟨.cons ⟨hr1, hrep1.mono hgrow2.nodes⟩ hrest, ?_⟩
      rw [List.any_cons, hany]

theorem validate_internal (id : Nat) (r : BlockRange) (cs : List MetadataChild)
    (segments : List SegmentDescriptor) :
    MetadataNode.validate ⟨id, r, .internal cs⟩ segments =
      (r.validateNonEmpty >>= fun _ => validateChildRanges r (cs.map (·.range))) := rfl

/-- Editing a stored tree is editing the tree. -/
theorem editAt_follows (fuel : Nat) : EditsStored k desc fuel := by
  induction fuel with
  | zero =>
    intro s t node e _ _ _ hlt
    exact absurd hlt (Nat.not_lt_zero _)
  | succ fuel ih =>
    rintro s t ⟨id, covered, kind⟩ e hs hlookup hrep hlt
    cases t with
    | leaf r es rs =>
      cases Option.some.inj (Eq.trans (Eq.symm hlookup) hrep)
      rw [MappingTree.edit, editAt]
      refine Follows.bind Follows.lift ?_
      rintro share _ _ - - ⟨rfl, rfl⟩
      cases share with
      | none => exact Follows.pure ⟨hrep, rfl, fun _ => rfl, fun h => by cases h⟩
      | some own =>
        refine Follows.bind Follows.lift ?_
        rintro contents _ _ - - ⟨rfl, rfl⟩
        split
        · exact Follows.pure ⟨hrep, rfl, fun _ => rfl, fun h => by cases h⟩
        · refine Follows.bind Follows.lift ?_
          rintro segments _ _ - - ⟨rfl, rfl⟩
          refine (newNode_follows hs (addMetadataNode_run hs ..)).specThen ?_
          rintro ⟨⟩ _ s' - - ⟨rfl, hnew⟩
          exact ⟨hnew, rfl, fun h => (by cases h), fun _ => le_rfl⟩
    | internal r ts =>
      obtain ⟨cs, hcs, hall⟩ := hrep
      cases Option.some.inj (hlookup.symm.trans hcs)
      rw [MappingTree.edit, editAt]
      refine Follows.bind Follows.lift ?_
      rintro share _ _ - - ⟨rfl, rfl⟩
      cases share with
      | none => exact Follows.pure ⟨⟨cs, hcs, hall⟩, rfl, fun _ => rfl, fun h => by cases h⟩
      | some own =>
        have hchildren := repChildren_mono (repAll_iff.1 hall) (Nat.le_of_lt_succ hlt) (Table.Extends.refl _)
        refine Follows.bind (editChildren_follows ih hs own hchildren) ?_
        rintro ⟨ts', changed⟩ out s1 - hgrow ⟨hout, hany⟩
        simp only [hany]
        cases changed with
        | false =>
          exact Follows.pure ⟨⟨cs, hgrow.nodes _ _ hcs, repAll_iff.2
            (repChildren_mono (repAll_iff.1 hall) le_rfl hgrow.nodes)⟩, rfl, fun _ => rfl,
            fun h => by cases h⟩
        | true =>
          have hranges : (out.map (·.1)).map (·.range) = ts'.map MappingTree.range := by
            rw [← List.forall₂_eq_eq_eq, List.forall₂_map_left_iff, List.forall₂_map_right_iff]
            exact hout.flip.imp fun _ _ h => h.1
          have hadd := newNode_follows (hgrow.fresh hs)
            (addMetadataNode_run (hgrow.fresh hs) covered (.internal (out.map (·.1))) [])
          rw [if_pos rfl, if_pos rfl, ← bind_assoc]
          rw [validate_internal, hranges] at hadd
          refine hadd.specThen ?_
          rintro ⟨⟩ _ s2 - hgrow2 ⟨rfl, hnew⟩
          refine ⟨⟨_, hnew, repAll_iff.2 ?_⟩, rfl, fun h => (by cases h), fun _ => hgrow.next⟩
          refine hout.imp fun t c h => ⟨?_, h.1, h.2.mono hgrow2.nodes⟩
          obtain ⟨_, hc⟩ := h.2.lookup
          exact (hgrow.fresh hs).lt hc

end

end CowStore.Tree
