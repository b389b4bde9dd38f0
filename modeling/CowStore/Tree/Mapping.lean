import CowStore.Tree.Edits

/-!
# Mapping trees as values

A metadata tree is stored as nodes that name their children.  What an edit of the tree
computes does not depend on the names, so it is stated first on trees as values: the
leaves that an edit meets are rewritten, everything else stays, and the tree reads as
before except on the edited blocks.
-/

namespace CowStore.Tree

open Lib Object

inductive MappingTree
  | leaf (range : BlockRange) (entries : List LeafEntry) (runs : List RunBackedFileExtent)
  | internal (range : BlockRange) (children : List MappingTree)

namespace MappingTree

def range : MappingTree → BlockRange
  | leaf range _ _ => range
  | internal range _ => range

mutual

def entries : MappingTree → List LeafEntry
  | leaf _ es _ => es
  | internal _ ts => entriesAll ts

def entriesAll : List MappingTree → List LeafEntry
  | [] => []
  | t :: ts => entries t ++ entriesAll ts

end

mutual

def runs : MappingTree → List RunBackedFileExtent
  | leaf _ _ rs => rs
  | internal _ ts => runsAll ts

def runsAll : List MappingTree → List RunBackedFileExtent
  | [] => []
  | t :: ts => runs t ++ runsAll ts

end

/-- The segment block behind block `i`. -/
def cell (t : MappingTree) (i : Nat) : Option (Nat × Nat) :=
  valueAt (t.entries.map LeafEntry.span) i

/-- The log byte behind byte `b`. -/
def run (t : MappingTree) (b : Nat) : Option (Nat × Nat × Nat) :=
  valueAt (t.runs.map RunBackedFileExtent.span) b

def Has (t : MappingTree) (i : Nat) : Prop := t.range.start ≤ i ∧ i < t.range.stop

@[elab_as_elim, induction_eliminator]
theorem induct {P : MappingTree → Prop} (leaf : ∀ r es rs, P (.leaf r es rs))
    (internal : ∀ r ts, (∀ t ∈ ts, P t) → P (.internal r ts)) : ∀ t, P t
  | .leaf r es rs => leaf r es rs
  | .internal r ts => internal r ts (all ts)
where
  all : ∀ ts : List MappingTree, ∀ t ∈ ts, P t
    | [], _, h => absurd h List.not_mem_nil
    | t :: ts, u, h => (List.mem_cons.1 h).elim (fun e => e ▸ induct leaf internal t) (all ts u)

mutual

/-- What holds of the trees that the store builds: the children tile their parent, and
the contents of a leaf are in order and lie in its range. -/
def Shaped (bs : Nat) : MappingTree → Prop
  | leaf r es rs => (r.Fits ∧ 0 < r.blocks) ∧ Laid r.start r.stop (es.map LeafEntry.span) ∧
      Laid (r.start * bs) (r.stop * bs) (rs.map RunBackedFileExtent.span) ∧
      ∀ x ∈ rs, x.validate = .ok ()
  | internal r ts => (r.Fits ∧ 0 < r.blocks) ∧ Tiles r.stop r.start (ts.map range) ∧
      ShapedAll bs ts

def ShapedAll (bs : Nat) : List MappingTree → Prop
  | [] => True
  | t :: ts => Shaped bs t ∧ ShapedAll bs ts

end

variable {ts : List MappingTree} {t : MappingTree} {bs start stop : Nat}

theorem shapedAll_iff : ShapedAll bs ts ↔ ∀ t ∈ ts, t.Shaped bs := by
  induction ts with
  | nil => simp [ShapedAll]
  | cons t ts ih => simp [ShapedAll, ih]

theorem Shaped.range_fits (h : t.Shaped bs) : t.range.Fits ∧ 0 < t.range.blocks := by
  cases t with
  | leaf r es rs => exact h.1
  | internal r ts => exact h.1

theorem entriesAll_eq (ts : List MappingTree) : entriesAll ts = ts.flatMap entries := by
  induction ts with
  | nil => rfl
  | cons t ts ih => rw [entriesAll, ih, List.flatMap_cons]

theorem runsAll_eq (ts : List MappingTree) : runsAll ts = ts.flatMap runs := by
  induction ts with
  | nil => rfl
  | cons t ts ih => rw [runsAll, ih, List.flatMap_cons]

section

variable {V : Type} {g : MappingTree → List (Span V)} {pos : Nat → Nat}

theorem laid_flatMap (hpos : Monotone pos) (h : Tiles stop start (ts.map range))
    (ht : ∀ t ∈ ts, Laid (pos t.range.start) (pos t.range.stop) (g t)) :
    Laid (pos start) (pos stop) (ts.flatMap g) := by
  induction ts generalizing start with
  | nil => exact Laid.nil _ _
  | cons t ts ih =>
    obtain ⟨rfl, -, h⟩ := h
    exact (ht t List.mem_cons_self).append (ih h fun u hu => ht u (List.mem_cons_of_mem t hu))
      (hpos (Nat.le_add_right _ _)) (hpos h.le)

theorem valueAt_flatMap (hpos : Monotone pos) (h : Tiles stop start (ts.map range))
    (ht : ∀ t ∈ ts, Laid (pos t.range.start) (pos t.range.stop) (g t)) (hmem : t ∈ ts) {i : Nat}
    (hi : pos t.range.start ≤ i) (hi' : i < pos t.range.stop) :
    valueAt (ts.flatMap g) i = valueAt (g t) i := by
  induction ts generalizing start with
  | nil => cases hmem
  | cons u ts ih =>
    obtain ⟨-, -, h⟩ := h
    have htail := fun t h => ht t (List.mem_cons_of_mem u h)
    rw [List.flatMap_cons, valueAt_append]
    rcases List.mem_cons.1 hmem with rfl | hmem
    · rw [(laid_flatMap hpos h htail).valueAt_eq_none (.inl hi'), Option.or_none]
    · have hstart := (hpos (h.mem (List.mem_map_of_mem hmem)).1).trans hi
      rw [(ht u List.mem_cons_self).valueAt_eq_none (.inr hstart), Option.none_or]
      exact ih h htail hmem

end

theorem cells_internal (r : BlockRange) (ts : List MappingTree) :
    (internal r ts).entries.map LeafEntry.span = ts.flatMap fun t => t.entries.map LeafEntry.span := by
  rw [entries, entriesAll_eq, List.map_flatMap]

theorem bytes_internal (r : BlockRange) (ts : List MappingTree) : (internal r ts).runs.map
    RunBackedFileExtent.span = ts.flatMap fun t => t.runs.map RunBackedFileExtent.span := by
  rw [runs, runsAll_eq, List.map_flatMap]

theorem Shaped.laid (h : t.Shaped bs) : Laid t.range.start t.range.stop (t.entries.map LeafEntry.span) ∧
      Laid (t.range.start * bs) (t.range.stop * bs) (t.runs.map RunBackedFileExtent.span) := by
  induction t with
  | leaf r es rs => exact ⟨h.2.1, h.2.2.1⟩
  | internal r ts ih =>
    obtain ⟨-, htiles, hall⟩ := h
    rw [shapedAll_iff] at hall
    rw [cells_internal, bytes_internal]
    exact ⟨laid_flatMap monotone_id htiles fun t ht => (ih t ht (hall t ht)).1,
      laid_flatMap (fun _ _ => Nat.mul_le_mul_right bs) htiles fun t ht => (ih t ht (hall t ht)).2⟩

theorem Shaped.cell_child {r : BlockRange} (h : (internal r ts).Shaped bs) (ht : t ∈ ts) {i : Nat}
    (hi : t.Has i) : (internal r ts).cell i = t.cell i := by
  rw [cell, cells_internal]
  exact valueAt_flatMap monotone_id h.2.1 (fun u hu => (shapedAll_iff.1 h.2.2 u hu).laid.1) ht
    hi.1 hi.2

theorem Shaped.run_child {r : BlockRange} (hbs : 0 < bs) (h : (internal r ts).Shaped bs)
    (ht : t ∈ ts) {b : Nat} (hb : t.Has (b / bs)) : (internal r ts).run b = t.run b := by
  rw [run, bytes_internal]
  exact valueAt_flatMap (fun _ _ => Nat.mul_le_mul_right bs) h.2.1
    (fun u hu => (shapedAll_iff.1 h.2.2 u hu).laid.2) ht ((Nat.le_div_iff_mul_le hbs).1 hb.1)
    ((Nat.div_lt_iff_lt_mul hbs).1 hb.2)

/-! ## Edits of a tree -/

/-- A kind of edit: its share for a range of blocks, what it does to the contents of a
leaf, and which edit a child is given out of its parent's share and its own. -/
structure TreeEdit (E : Type) where
  restrict : BlockRange → E → Result (Option E)
  apply : BlockRange → E → LeafContents → Result LeafContents
  pass : E → E → E

variable {E : Type}

mutual

/-- The edit in the leaves that it meets; whether anything changed. -/
def edit (k : TreeEdit E) (desc : Nat → Result SegmentDescriptor) :
    MappingTree → E → Result (MappingTree × Bool)
  | leaf r es rs, e => do
    match ← k.restrict r e with
    | none => return (leaf r es rs, false)
    | some e =>
      let contents ← k.apply r e (es, rs)
      if contents = (es, rs) then
        return (leaf r es rs, false)
      else
        let segments ← contents.1.mapM (fun entry => desc entry.segmentId)
        MetadataNode.validate ⟨0, r, .leaf contents.1 contents.2⟩ segments
        return (leaf r contents.1 contents.2, true)
  | internal r ts, e => do
    match ← k.restrict r e with
    | none => return (internal r ts, false)
    | some e =>
      let edited ← editAll k desc ts e
      if edited.2 then
        r.validateNonEmpty
        validateChildRanges r (edited.1.map range)
        return (internal r edited.1, true)
      else
        return (internal r ts, false)

def editAll (k : TreeEdit E) (desc : Nat → Result SegmentDescriptor) :
    List MappingTree → E → Result (List MappingTree × Bool)
  | [], _ => return ([], false)
  | t :: ts, e => do
    let share ← k.restrict t.range e
    let child ← (match share with
      | none => .ok (t, false)
      | some own => edit k desc t (k.pass e own) : Result (MappingTree × Bool))
    let rest ← editAll k desc ts e
    return (child.1 :: rest.1, child.2 || rest.2)

end

theorem edit_range {k : TreeEdit E} {desc : Nat → Result SegmentDescriptor} {t' : MappingTree}
    {e : E} {changed : Bool} (h : t.edit k desc e = .ok (t', changed)) : t'.range = t.range := by
  cases t with
  | leaf r es rs =>
    rw [edit] at h
    obtain ⟨share, -, h⟩ := bind_eq_ok.1 h
    cases share with
    | none =>
      cases h
      rfl
    | some own =>
      obtain ⟨c, -, h⟩ := bind_eq_ok.1 h
      split at h
      · cases h
        rfl
      · obtain ⟨segments, -, ⟨⟩, -, h⟩ := bind2_eq_ok.1 h
        cases h
        rfl
  | internal r ts =>
    rw [edit] at h
    obtain ⟨share, -, h⟩ := bind_eq_ok.1 h
    cases share with
    | none =>
      cases h
      rfl
    | some own =>
      obtain ⟨edited, -, h⟩ := bind_eq_ok.1 h
      split at h
      · obtain ⟨⟨⟩, -, ⟨⟩, -, h⟩ := bind2_eq_ok.1 h
        cases h
        rfl
      · cases h
        rfl

/-- What an edit is meant to do: to the segment block behind a block, and to the log byte
behind a byte. -/
structure Effect (E : Type) where
  Good : E → Prop
  cell : E → Nat → Option (Nat × Nat) → Option (Nat × Nat)
  run : E → Nat → Option (Nat × Nat × Nat) → Option (Nat × Nat × Nat)

/-- On the blocks of `r` the two edits do the same. -/
structure Effect.Agree (f : Effect E) (bs : Nat) (r : BlockRange) (e e' : E) : Prop where
  cell : ∀ i, r.start ≤ i → i < r.stop → f.cell e i = f.cell e' i
  run : ∀ b, r.start ≤ b / bs → b / bs < r.stop → f.run e b = f.run e' b

/-- On the blocks of `r` the edit does nothing. -/
structure Effect.Idle (f : Effect E) (bs : Nat) (r : BlockRange) (e : E) : Prop where
  cell : ∀ i, r.start ≤ i → i < r.stop → ∀ v, f.cell e i v = v
  run : ∀ b, r.start ≤ b / bs → b / bs < r.stop → ∀ v, f.run e b v = v

structure Edited (f : Effect E) (bs : Nat) (e : E) (t t' : MappingTree) : Prop where
  range_eq : t'.range = t.range
  shaped : t'.Shaped bs
  cell_eq : ∀ i, t.Has i → t'.cell i = f.cell e i (t.cell i)
  run_eq : ∀ b, t.Has (b / bs) → t'.run b = f.run e b (t.run b)

/-- The edits of kind `k` have the effect `f`, as far as one leaf is concerned. -/
structure TreeEdit.Sound (k : TreeEdit E) (f : Effect E) (bs : Nat) : Prop where
  idle : ∀ {r e}, k.restrict r e = .ok none → f.Idle bs r e
  share : ∀ {r e own}, k.restrict r e = .ok (some own) → f.Good e →
    f.Good own ∧ f.Agree bs r own e
  pass : ∀ {r e own}, k.restrict r e = .ok (some own) → f.Good e →
    f.Good (k.pass e own) ∧ f.Agree bs r (k.pass e own) e
  apply : ∀ {r e own es rs c}, k.restrict r e = .ok (some own) → f.Good own →
    (leaf r es rs).Shaped bs → k.apply r own (es, rs) = .ok c →
    Laid r.start r.stop (c.1.map LeafEntry.span) → Edited f bs own (leaf r es rs) (leaf r c.1 c.2)

section

variable {f : Effect E} {bs : Nat} {e : E}

theorem Edited.of_idle {t : MappingTree} (ht : t.Shaped bs) (h : f.Idle bs t.range e) :
    Edited f bs e t t where
  range_eq := rfl
  shaped := ht
  cell_eq i hi := (h.cell i hi.1 hi.2 _).symm
  run_eq b hb := (h.run b hb.1 hb.2 _).symm

theorem Edited.of_agree {e' : E} {t t' : MappingTree} (h : Edited f bs e' t t')
    (ha : f.Agree bs t.range e' e) : Edited f bs e t t' where
  range_eq := h.range_eq
  shaped := h.shaped
  cell_eq i hi := by rw [h.cell_eq i hi, ha.cell i hi.1 hi.2]
  run_eq b hb := by rw [h.run_eq b hb, ha.run b hb.1 hb.2]

theorem Edited.of_children (hbs : 0 < bs) {r : BlockRange} {ts ts' : List MappingTree}
    (ht : (MappingTree.internal r ts).Shaped bs) (h : List.Forall₂ (Edited f bs e) ts ts') :
    Edited f bs e (internal r ts) (internal r ts') := by
  have hranges : ts'.map range = ts.map range := by
    rw [← List.forall₂_eq_eq_eq, List.forall₂_map_left_iff, List.forall₂_map_right_iff]
    exact h.flip.imp fun _ _ he => he.range_eq
  have ht' : (MappingTree.internal r ts').Shaped bs := by
    refine ⟨ht.1, hranges ▸ ht.2.1, shapedAll_iff.2 fun t' ht' => ?_⟩
    obtain ⟨t, -, he⟩ := forall₂_mem_right h ht'
    exact he.shaped
  have hchild : ∀ i, r.start ≤ i → i < r.stop →
      ∃ t ∈ ts, ∃ t' ∈ ts', Edited f bs e t t' ∧ t.Has i ∧ t'.Has i := by
    intro i hi hi'
    obtain ⟨x, hx, hin⟩ := ht.2.1.exists_mem hi hi'
    obtain ⟨t, ht, rfl⟩ := List.mem_map.1 hx
    obtain ⟨t', ht', he⟩ := forall₂_mem_left h ht
    exact ⟨t, ht, t', ht', he, hin, by rw [Has, he.range_eq]; exact hin⟩
  refine ⟨rfl, ht', fun i hi => ?_, fun b hb => ?_⟩
  · obtain ⟨t, hmem, t', hmem', he, hti, hti'⟩ := hchild i hi.1 hi.2
    rw [ht'.cell_child hmem' hti', he.cell_eq i hti, ht.cell_child hmem hti]
  · obtain ⟨t, hmem, t', hmem', he, hti, hti'⟩ := hchild (b / bs) hb.1 hb.2
    rw [ht'.run_child hbs hmem' hti', he.run_eq b hti, ht.run_child hbs hmem hti]

end

section

variable {k : TreeEdit E} {f : Effect E} {desc : Nat → Result SegmentDescriptor} {bs : Nat}

def EditsRight (k : TreeEdit E) (f : Effect E) (desc : Nat → Result SegmentDescriptor) (bs : Nat)
    (t : MappingTree) : Prop :=
  ∀ e t' changed, t.Shaped bs → f.Good e → t.edit k desc e = .ok (t', changed) →
    Edited f bs e t t' ∧ (changed = false → t' = t)

theorem editAll_spec (hk : k.Sound f bs) {ts ts' : List MappingTree} {e : E} {changed : Bool}
    (hts : ∀ t ∈ ts, t.Shaped bs) (he : f.Good e) (hright : ∀ t ∈ ts, EditsRight k f desc bs t)
    (h : editAll k desc ts e = .ok (ts', changed)) :
    List.Forall₂ (Edited f bs e) ts ts' ∧ (changed = false → ts' = ts) := by
  induction ts generalizing ts' changed with
  | nil =>
    cases h
    exact ⟨.nil, fun _ => rfl⟩
  | cons t ts ih =>
    rw [editAll] at h
    obtain ⟨share, hshare, ⟨t1, c1⟩, hchild, ⟨rest, c2⟩, hrest, h⟩ := bind3_eq_ok.1 h
    cases h
    have ht := hts t List.mem_cons_self
    obtain ⟨hall, hsame⟩ := ih (fun u hu => hts u (List.mem_cons_of_mem t hu))
      (fun u hu => hright u (List.mem_cons_of_mem t hu)) hrest
    have hone : Edited f bs e t t1 ∧ (c1 = false → t1 = t) := by
      cases share with
      | none =>
        cases hchild
        exact ⟨Edited.of_idle ht (hk.idle hshare), fun _ => rfl⟩
      | some own =>
        obtain ⟨hgood, hagree⟩ := hk.pass hshare he
        obtain ⟨hedit, hc⟩ := hright t List.mem_cons_self _ t1 c1 ht hgood hchild
        exact ⟨hedit.of_agree hagree, hc⟩
    refine ⟨.cons hone.1 hall, fun hc => ?_⟩
    obtain ⟨h1, h2⟩ := Bool.or_eq_false_iff.1 hc
    rw [hone.2 h1, hsame h2]

theorem laid_of_validate {r : BlockRange} {es : List LeafEntry} {rs : List RunBackedFileExtent}
    {segments : List SegmentDescriptor} (h : MetadataNode.validate ⟨0, r, .leaf es rs⟩ segments = .ok ()) :
    Laid r.start r.stop (es.map LeafEntry.span) := by
  obtain ⟨⟨⟩, -, h⟩ := bind_eq_ok.1 h
  obtain ⟨⟨⟩, h, -⟩ := bind_eq_ok.1 h
  obtain ⟨hord, hfit⟩ := validateLeafEntries_eq_ok.1 h
  refine ⟨hord, fun s hs => ?_⟩
  obtain ⟨e, he, rfl⟩ := List.mem_map.1 hs
  obtain ⟨d, -, hd⟩ := hfit e he
  exact (LeafEntry.validateAgainst_eq_ok.1 hd).1.2.1

/-- An edited tree is the tree with the effect of the edit. -/
theorem edit_spec (hbs : 0 < bs) (hk : k.Sound f bs) (t : MappingTree) : EditsRight k f desc bs t := by
  induction t with
  | leaf r es rs =>
    intro e t' changed ht he h
    rw [edit] at h
    obtain ⟨share, hshare, h⟩ := bind_eq_ok.1 h
    cases share with
    | none =>
      cases h
      exact ⟨Edited.of_idle ht (hk.idle hshare), fun _ => rfl⟩
    | some own =>
      obtain ⟨hgood, hagree⟩ := hk.share hshare he
      obtain ⟨c, hc, h⟩ := bind_eq_ok.1 h
      split at h
      · next hsame =>
        cases h
        have hedit := hk.apply hshare hgood ht hc (by rw [hsame]; exact ht.2.1)
        rw [hsame] at hedit
        exact ⟨hedit.of_agree hagree, fun _ => rfl⟩
      · obtain ⟨segments, -, ⟨⟩, hval, h⟩ := bind2_eq_ok.1 h
        cases h
        have hedit := hk.apply hshare hgood ht hc (laid_of_validate hval)
        exact ⟨hedit.of_agree hagree, nofun⟩
  | internal r ts ih =>
    intro e t' changed ht he h
    rw [edit] at h
    obtain ⟨share, hshare, h⟩ := bind_eq_ok.1 h
    cases share with
    | none =>
      cases h
      exact ⟨Edited.of_idle ht (hk.idle hshare), fun _ => rfl⟩
    | some own =>
      obtain ⟨hgood, hagree⟩ := hk.share hshare he
      obtain ⟨⟨ts', c⟩, hc, h⟩ := bind_eq_ok.1 h
      obtain ⟨hall, hsame⟩ := editAll_spec hk (shapedAll_iff.1 ht.2.2) hgood ih hc
      have hedit := (Edited.of_children hbs ht hall).of_agree hagree
      cases c with
      | true =>
        obtain ⟨⟨⟩, -, ⟨⟩, -, h⟩ := bind2_eq_ok.1 h
        cases h
        exact ⟨hedit, nofun⟩
      | false =>
        cases h
        rw [hsame rfl] at hedit
        exact ⟨hedit, fun _ => rfl⟩

end

end MappingTree

/-! ## Edits of block ranges -/

/-- The edits that meet a range; nothing where there is none. -/
def restrictEdits (r : BlockRange) (edits : List TreeRangeEdit) :
    Result (Option (List TreeRangeEdit)) := do
  let overlapping ← filterEach (fun edit => r.overlaps edit.range) edits
  return if overlapping = [] then none else some overlapping

def rangeEdits (bs : Nat) : MappingTree.TreeEdit (List TreeRangeEdit) where
  restrict := restrictEdits
  apply r edits contents := applyEdits bs r contents edits
  pass _ own := own

def rangeEdit (bs : Nat) : MappingTree.TreeEdit TreeRangeEdit where
  restrict r edit := do
    let overlaps ← r.overlaps edit.range
    return if overlaps then some edit else none
  apply r edit contents := applyEdit bs r contents edit
  pass _ own := own

def rangeEffect (bs : Nat) : MappingTree.Effect (List TreeRangeEdit) where
  Good := BasesOk
  cell edits i v := overlay edits (fun _ => v) i
  run edits b v := if touched edits (b / bs) then none else v

variable {r : BlockRange} {edits ys : List TreeRangeEdit}

theorem overlapping_eq (h : filterEach (fun edit => r.overlaps edit.range) edits = .ok ys) :
    ys = edits.filter (fun edit => decide (r.Meets edit.range)) := by
  have hall : ∀ edit ∈ edits, r.overlaps edit.range = .ok (decide (r.Meets edit.range)) := by
    intro edit he
    obtain ⟨b, hb⟩ := mem_of_filterEach h he
    obtain ⟨hfits, -⟩ := BlockRange.overlaps_eq_ok.1 hb
    exact BlockRange.overlaps_of_fits hfits.1 hfits.2
  rw [filterEach_eq_ok hall] at h
  exact (Except.ok.inj h).symm

theorem overlay_overlapping (h : filterEach (fun edit => r.overlaps edit.range) edits = .ok ys)
    {i : Nat} (hi : r.start ≤ i) (hi' : i < r.stop) (cells : Nat → Option (Nat × Nat)) :
    overlay ys cells i = overlay edits cells i ∧ touched ys i = touched edits i := by
  have hmeets : ∀ edit ∈ edits, edit.Hits i → decide (r.Meets edit.range) = true := by
    intro edit _ hh
    by_contra hn
    exact not_hits_of_not_meets (by simpa using hn) hi hi' hh
  rw [overlapping_eq h]
  exact ⟨overlay_filter hmeets cells, touched_filter hmeets⟩

variable {bs : Nat}

theorem agree_of_overlapping (h : filterEach (fun edit => r.overlaps edit.range) edits = .ok ys) :
    (rangeEffect bs).Agree bs r ys edits where
  cell i hi hi' := funext fun v => (overlay_overlapping h hi hi' (fun _ => v)).1
  run b hb hb' := funext fun v => by
    show (if touched ys (b / bs) then none else v) = if touched edits (b / bs) then none else v
    rw [(overlay_overlapping h hb hb' (fun _ => none)).2]

theorem restrictEdits_eq_some {own : List TreeRangeEdit} (h : restrictEdits r edits = .ok (some own)) :
    filterEach (fun edit => r.overlaps edit.range) edits = .ok own := by
  obtain ⟨ys, hys, h⟩ := bind_eq_ok.1 h
  by_cases hnil : ys = []
  · rw [if_pos hnil] at h
    cases h
  · rw [if_neg hnil] at h
    cases h
    exact hys

theorem rangeEdits_sound (hbs : 0 < bs) : (rangeEdits bs).Sound (rangeEffect bs) bs := by
  have hshare : ∀ {r edits own}, restrictEdits r edits = .ok (some own) → BasesOk edits →
      BasesOk own ∧ (rangeEffect bs).Agree bs r own edits := by
    intro r edits own h hbase
    have hown := restrictEdits_eq_some h
    refine ⟨?_, agree_of_overlapping hown⟩
    rw [overlapping_eq hown]
    exact fun edit he => hbase edit (List.mem_of_mem_filter he)
  refine ⟨?_, hshare, hshare, ?_⟩
  · intro r edits h
    obtain ⟨ys, hys, h⟩ := bind_eq_ok.1 h
    by_cases hnil : ys = []
    · subst hnil
      have hagree : (rangeEffect bs).Agree bs r [] edits := agree_of_overlapping hys
      exact ⟨fun i hi hi' v => (congrFun (hagree.cell i hi hi') v).symm,
        fun b hb hb' v => (congrFun (hagree.run b hb hb') v).symm⟩
    · rw [if_neg hnil] at h
      cases h
  · intro r _ edits es rs c _ hbase ht hc hlaid
    obtain ⟨hr, hes, hrs, hval⟩ := ht
    have hedit := applyEdits_spec hbs hc ⟨hes.ordered, hrs.ordered, hval⟩ hbase
    exact ⟨rfl, ⟨hr, hlaid, hedit.ok.runs.laid fun b v hv => hrs.shows (hedit.runs_of b v hv),
      hedit.ok.valid⟩, fun i hi => hedit.cell i hi.1 hi.2, fun b hb => hedit.run b hb.1 hb.2⟩

/-! ## One range -/

/-- One range has a share in a node, or a list of it has none. -/
theorem restrict_rangeEdit (bs : Nat) (r : BlockRange) (edit : TreeRangeEdit) :
    (∃ e, (rangeEdit bs).restrict r edit = .error e ∧ (rangeEdits bs).restrict r [edit] = .error e) ∨
    ((rangeEdit bs).restrict r edit = .ok none ∧ (rangeEdits bs).restrict r [edit] = .ok none) ∨
    (rangeEdit bs).restrict r edit = .ok (some edit) ∧
      (rangeEdits bs).restrict r [edit] = .ok (some [edit]) := by
  simp only [rangeEdit, rangeEdits, restrictEdits, filterEach]
  cases r.overlaps edit.range with
  | error e => exact .inl ⟨e, rfl, rfl⟩
  | ok overlaps =>
    cases overlaps with
    | false => exact .inr (.inl ⟨rfl, rfl⟩)
    | true => exact .inr (.inr ⟨rfl, rfl⟩)

/-- The edit of one range is the edit of a list of one. -/
theorem edit_rangeEdit {desc : Nat → Result SegmentDescriptor} (t : MappingTree) (edit : TreeRangeEdit) :
    t.edit (rangeEdit bs) desc edit = t.edit (rangeEdits bs) desc [edit] := by
  induction t with
  | leaf r es rs =>
    have happly : (rangeEdits bs).apply r [edit] (es, rs) = (rangeEdit bs).apply r edit (es, rs) :=
      bind_pure _
    rw [MappingTree.edit, MappingTree.edit]
    obtain ⟨e, h, h'⟩ | ⟨h, h'⟩ | ⟨h, h'⟩ := restrict_rangeEdit bs r edit <;> rw [h, h']
    · rfl
    · rfl
    · simp only [ok_bind, happly]
  | internal r ts ih =>
    have hall : MappingTree.editAll (rangeEdit bs) desc ts edit =
        MappingTree.editAll (rangeEdits bs) desc ts [edit] := by
      induction ts with
      | nil => rfl
      | cons t ts ihts =>
        rw [MappingTree.editAll, MappingTree.editAll, ihts fun u hu => ih u (List.mem_cons_of_mem t hu)]
        obtain ⟨e, h, h'⟩ | ⟨h, h'⟩ | ⟨h, h'⟩ := restrict_rangeEdit bs t.range edit <;> rw [h, h']
        · rfl
        · rfl
        · rw [ok_bind, ok_bind]
          exact congrArg (· >>= _) (ih t List.mem_cons_self)
    rw [MappingTree.edit, MappingTree.edit]
    obtain ⟨e, h, h'⟩ | ⟨h, h'⟩ | ⟨h, h'⟩ := restrict_rangeEdit bs r edit <;> rw [h, h']
    · rfl
    · rfl
    · simp only [ok_bind, hall]

end CowStore.Tree
