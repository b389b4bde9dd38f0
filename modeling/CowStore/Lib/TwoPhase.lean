import Mathlib.Algebra.Order.BigOperators.Group.Finset

/-!
# Optimistic transactions under two-phase locking

Keys are spread over locks.  A commit takes the locks of all keys that it read or
writes, in ascending order, compares the version of every key that it read, writes
its keys one after the other, and lets the locks go.  Every call is a thread that
takes one such step at a time, between any steps of the others.

`order` lists the commits in the order in which they finished their comparison.
Executed one at a time in this order they all pass it, and they leave what the map
holds once the writes under way are done.
-/

namespace CowStore.Lib.TwoPhase

open Function

structure Entry (V : Type) where
  version : Nat
  value : V
  deriving DecidableEq

abbrev Map (K V : Type) := K → Option (Entry V)

/-- The version of a key; an absent key has version zero. -/
def versionOf {K V : Type} (m : Map K V) (k : K) : Nat := (m k).elim 0 Entry.version

structure Txn (K V : Type) where
  reads : List (K × Nat)
  writes : List (K × V)
  deriving DecidableEq

/-! ## One transaction at a time -/

section

variable {K V : Type} [DecidableEq K]

def write (version : Nat) (m : Map K V) (w : K × V) : Map K V :=
  update m w.1 (some ⟨version, w.2⟩)

def writeAll (version : Nat) (m : Map K V) (ws : List (K × V)) : Map K V :=
  ws.foldl (write version) m

/-- The read set still has the versions that were read. -/
def Current (m : Map K V) (txn : Txn K V) : Prop := ∀ r ∈ txn.reads, versionOf m r.1 = r.2

instance (m : Map K V) (txn : Txn K V) : Decidable (Current m txn) := by
  unfold Current; infer_instance

def commit (m : Map K V) (version : Nat) (txn : Txn K V) : Option (Map K V) :=
  if Current m txn then some (writeAll version m txn.writes) else none

/-- The transactions of a list, each with its version, one after the other. -/
def serially (log : List (Nat × Txn K V)) : Option (Map K V) :=
  log.foldlM (fun m c => commit m c.1 c.2) fun _ => none

theorem serially_concat (log : List (Nat × Txn K V)) (c : Nat × Txn K V) :
    serially (log ++ [c]) = (serially log).bind fun m => commit m c.1 c.2 := by
  simp [serially, List.foldlM_append]

/-- What a list of writes leaves under a key: only the last one to it counts. -/
def lastWrite (ws : List (K × V)) (k : K) : Option V := (ws.reverse.find? (·.1 = k)).map (·.2)

@[simp] theorem lastWrite_nil (k : K) : lastWrite ([] : List (K × V)) k = none := rfl

theorem lastWrite_append (ws ws' : List (K × V)) (k : K) :
    lastWrite (ws ++ ws') k = (lastWrite ws' k).or (lastWrite ws k) := by
  rw [lastWrite, List.reverse_append, List.find?_append, lastWrite, lastWrite]
  cases ws'.reverse.find? (·.1 = k) with
  | none => rfl
  | some w => rfl

@[simp] theorem lastWrite_singleton (w : K × V) (k : K) :
    lastWrite [w] k = if w.1 = k then some w.2 else none := by
  by_cases h : w.1 = k <;> simp [lastWrite, h]

theorem lastWrite_cons (w : K × V) (ws : List (K × V)) (k : K) :
    lastWrite (w :: ws) k = (lastWrite ws k).or (if w.1 = k then some w.2 else none) := by
  rw [← List.singleton_append, lastWrite_append, lastWrite_singleton]

variable {k : K} {ws : List (K × V)} {m : Map K V}

theorem lastWrite_eq_none : lastWrite ws k = none ↔ ∀ w ∈ ws, w.1 ≠ k := by
  simp [lastWrite]

theorem mem_of_lastWrite {v : V} (h : lastWrite ws k = some v) : (k, v) ∈ ws := by
  obtain ⟨w, hfind, rfl⟩ := Option.map_eq_some_iff.1 h
  have hk : w.1 = k := by simpa using List.find?_some hfind
  rw [← hk]
  exact List.mem_reverse.1 (List.mem_of_find?_eq_some hfind)

theorem lastWrite_map {ι : Type} (items : List ι) (key : ι → K) (value : ι → V) (k : K) :
    lastWrite (items.map fun i => (key i, value i)) k =
      (items.reverse.find? fun i => key i = k).map value := by
  rw [lastWrite, ← List.map_reverse, List.find?_map, Option.map_map]
  rfl

theorem writeAll_apply (version : Nat) (m : Map K V) (ws : List (K × V)) (k : K) :
    writeAll version m ws k = ((lastWrite ws k).map fun v => ⟨version, v⟩).or (m k) := by
  induction ws generalizing m with
  | nil => rfl
  | cons w ws ih =>
    rw [writeAll, List.foldl_cons, ← writeAll, ih, lastWrite_cons]
    cases lastWrite ws k with
    | some v => rfl
    | none =>
      by_cases hk : w.1 = k
      · subst hk
        simp [write]
      · simp [write, update_of_ne (Ne.symm hk), hk]

theorem writeAll_of_not_mem {version : Nat} (h : ∀ w ∈ ws, w.1 ≠ k) : writeAll version m ws k = m k := by
  rw [writeAll_apply, lastWrite_eq_none.2 h]
  rfl

theorem writeAll_congr {version : Nat} {m' : Map K V} (h : m k = m' k) (ws : List (K × V)) :
    writeAll version m ws k = writeAll version m' ws k := by
  rw [writeAll_apply, writeAll_apply, h]

end

/-! ## Calls and their steps -/

/-- Which locks a transaction takes: ascending, and those of all its keys among them. -/
structure Discipline (K V : Type) where
  lockOf : K → Nat
  locks : Txn K V → List Nat
  ascending : ∀ txn, (locks txn).Pairwise (· < ·)
  lock_of_read : ∀ txn, ∀ r ∈ txn.reads, lockOf r.1 ∈ locks txn
  lock_of_write : ∀ txn, ∀ w ∈ txn.writes, lockOf w.1 ∈ locks txn
  count : Nat
  lock_lt : ∀ txn, ∀ l ∈ locks txn, l < count

theorem Discipline.nodup {K V : Type} (d : Discipline K V) (txn : Txn K V) : (d.locks txn).Nodup :=
  (d.ascending txn).imp Nat.ne_of_lt

inductive Call (K V : Type)
  | commit (txn : Txn K V)
  /-- Looks under these locks, one at a time. -/
  | read (locks : List Nat)
  deriving DecidableEq

def Call.txn {K V : Type} : Call K V → Txn K V
  | .commit txn => txn
  | .read _ => ⟨[], []⟩

/-- The locks that a read looks under. -/
def Call.visits {K V : Type} : Call K V → List Nat
  | .commit _ => []
  | .read locks => locks

/-- What a read saw under one lock, and how many commits came before. -/
structure View (K V : Type) where
  lock : Nat
  after : Nat
  entries : Map K V

inductive Phase (K V : Type)
  | idle
  | locking (held todo : List Nat)
  | checking (todo : List (K × Nat))
  | writing (todo : List (K × V))
  | releasing (committed : Bool) (todo : List Nat)
  | done (committed : Bool)
  | reading (todo : List Nat) (views : List (View K V))
  | answered (views : List (View K V))

structure State (K V : Type) where
  map : Map K V
  /-- The versions given out so far are those below; the machine keeps the remainder. -/
  next : Nat
  holder : Nat → Option Nat
  phase : Nat → Phase K V
  ticket : Nat → Nat
  order : List Nat

section

variable {K V : Type}

def State.start : State K V where
  map _ := none
  next := 1
  holder _ := none
  phase _ := .idle
  ticket _ := 0
  order := []

def State.goto (s : State K V) (t : Nat) (p : Phase K V) : State K V :=
  { s with phase := update s.phase t p }

-- `bound` is the number of versions of the machine's word
variable [DecidableEq K] (bound : Nat) (d : Discipline K V) (calls : Nat → Call K V)

/-- The next step of the call `t`, unless it has to wait or is over. -/
def step (s : State K V) (t : Nat) : Option (State K V) :=
  match s.phase t with
  | .idle =>
    match calls t with
    | .commit txn => some
      { s with
        phase := update s.phase t (.locking [] (d.locks txn))
        next := s.next + 1
        ticket := update s.ticket t s.next }
    | .read locks => some (s.goto t (.reading locks []))
  | .locking held (l :: todo) =>
    if s.holder l = none then
      some { s with phase := update s.phase t (.locking (held ++ [l]) todo), holder := update s.holder l (some t) }
    else none
  | .locking _ [] => some (s.goto t (.checking (calls t).txn.reads))
  | .checking ((k, version) :: todo) =>
    if versionOf s.map k = version then some (s.goto t (.checking todo))
    else some (s.goto t (.releasing false (d.locks (calls t).txn)))
  | .checking [] =>
    some { s with phase := update s.phase t (.writing (calls t).txn.writes), order := s.order ++ [t] }
  | .writing (w :: todo) =>
    some { s with phase := update s.phase t (.writing todo), map := write (s.ticket t % bound) s.map w }
  | .writing [] => some (s.goto t (.releasing true (d.locks (calls t).txn)))
  | .releasing committed (l :: todo) =>
    some { s with phase := update s.phase t (.releasing committed todo), holder := update s.holder l none }
  | .releasing committed [] => some (s.goto t (.done committed))
  | .reading (l :: todo) views =>
    if s.holder l = none then
      some (s.goto t (.reading todo (views ++
        [⟨l, s.order.length, fun k => if d.lockOf k = l then s.map k else none⟩])))
    else none
  | .reading [] views => some (s.goto t (.answered views))
  | .done _ => none
  | .answered _ => none

inductive Reachable : State K V → Prop
  | start : Reachable .start
  | step {s s' : State K V} {t : Nat} (hs : Reachable s)
      (h : step bound d calls s t = some s') : Reachable s'

variable {bound d calls} in
theorem Reachable.run {s s' : State K V} (hs : Reachable bound d calls s) (ts : List Nat)
    (h : ts.foldlM (TwoPhase.step bound d calls) s = some s') : Reachable bound d calls s' := by
  induction ts generalizing s with
  | nil =>
    cases h
    exact hs
  | cons t ts ih =>
    rw [List.foldlM_cons] at h
    obtain ⟨s1, hstep, hrest⟩ := Option.bind_eq_some_iff.1 h
    exact ih (hs.step hstep) hrest

/-- The steps that change only how far the call `t` has come. -/
inductive Turn (s : State K V) (t : Nat) : Phase K V → Prop
  | look {locks : List Nat} (hp : s.phase t = .idle) (hcall : calls t = .read locks) :
      Turn s t (.reading locks [])
  | locked {held : List Nat} (hp : s.phase t = .locking held []) :
      Turn s t (.checking (calls t).txn.reads)
  | same {k : K} {version : Nat} {todo : List (K × Nat)}
      (hp : s.phase t = .checking ((k, version) :: todo)) (h : versionOf s.map k = version) :
      Turn s t (.checking todo)
  | changed {k : K} {version : Nat} {todo : List (K × Nat)}
      (hp : s.phase t = .checking ((k, version) :: todo)) (h : versionOf s.map k ≠ version) :
      Turn s t (.releasing false (d.locks (calls t).txn))
  | written (hp : s.phase t = .writing []) :
      Turn s t (.releasing true (d.locks (calls t).txn))
  | released {committed : Bool} (hp : s.phase t = .releasing committed []) :
      Turn s t (.done committed)
  | seen {l : Nat} {todo : List Nat} {views : List (View K V)}
      (hp : s.phase t = .reading (l :: todo) views) (hl : s.holder l = none) :
      Turn s t (.reading todo (views ++
        [⟨l, s.order.length, fun k => if d.lockOf k = l then s.map k else none⟩]))
  | answered {views : List (View K V)} (hp : s.phase t = .reading [] views) :
      Turn s t (.answered views)

/-- Everything that a step of the call `t` can do. -/
inductive Step (s : State K V) (t : Nat) : State K V → Prop
  | begin {txn : Txn K V} (hp : s.phase t = .idle) (hcall : calls t = .commit txn) : Step s t
      { s with
        phase := update s.phase t (.locking [] (d.locks txn))
        next := s.next + 1
        ticket := update s.ticket t s.next }
  | turn {p : Phase K V} (h : Turn d calls s t p) : Step s t (s.goto t p)
  | acquire {held todo : List Nat} {l : Nat} (hp : s.phase t = .locking held (l :: todo))
      (hl : s.holder l = none) : Step s t
      { s with
        phase := update s.phase t (.locking (held ++ [l]) todo)
        holder := update s.holder l (some t) }
  | pass (hp : s.phase t = .checking []) : Step s t
      { s with
        phase := update s.phase t (.writing (calls t).txn.writes)
        order := s.order ++ [t] }
  | write {w : K × V} {todo : List (K × V)} (hp : s.phase t = .writing (w :: todo)) : Step s t
      { s with
        phase := update s.phase t (.writing todo)
        map := TwoPhase.write (s.ticket t % bound) s.map w }
  | release {committed : Bool} {l : Nat} {todo : List Nat}
      (hp : s.phase t = .releasing committed (l :: todo)) : Step s t
      { s with
        phase := update s.phase t (.releasing committed todo)
        holder := update s.holder l none }

variable {bound d calls} in
theorem step_cases {s s' : State K V} {t : Nat} (h : step bound d calls s t = some s') :
    Step bound d calls s t s' := by
  unfold step at h
  split at h
  · next hp =>
    split at h
    · next hcall =>
      cases h
      exact .begin hp hcall
    · next hcall =>
      cases h
      exact .turn (.look hp hcall)
  · next hp =>
    split at h
    · next hl =>
      cases h
      exact .acquire hp hl
    · cases h
  · next hp =>
    cases h
    exact .turn (.locked hp)
  · next hp =>
    split at h
    · next hversion =>
      cases h
      exact .turn (.same hp hversion)
    · next hversion =>
      cases h
      exact .turn (.changed hp hversion)
  · next hp =>
    cases h
    exact .pass hp
  · next hp =>
    cases h
    exact .write hp
  · next hp =>
    cases h
    exact .turn (.written hp)
  · next hp =>
    cases h
    exact .release hp
  · next hp =>
    cases h
    exact .turn (.released hp)
  · next hp =>
    split at h
    · next hl =>
      cases h
      exact .turn (.seen hp hl)
    · cases h
  · next hp =>
    cases h
    exact .turn (.answered hp)
  · cases h
  · cases h

def State.log (s : State K V) : List (Nat × Txn K V) :=
  s.order.map fun t => (s.ticket t % bound, (calls t).txn)

end

/-! ## What a phase says -/

namespace Phase

variable {K V : Type} [DecidableEq K] (d : Discipline K V) (c : Call K V)

def held : Phase K V → List Nat
  | locking held _ => held
  | checking _ => d.locks c.txn
  | writing _ => d.locks c.txn
  | releasing _ todo => todo
  | _ => []

/-- The map as it will be when the call has written. -/
def settled (version : Nat) (m : Map K V) : Phase K V → Map K V
  | writing todo => writeAll version m todo
  | _ => m

def passed : Phase K V → Bool
  | writing _ => true
  | releasing committed _ => committed
  | done committed => committed
  | _ => false

def views : Phase K V → List (View K V)
  | reading _ views => views
  | answered views => views
  | _ => []

/-- The phase is one of the call `c`, on the way through its locks and keys. -/
def Fits (m : Map K V) : Phase K V → Prop
  | locking held todo => held ++ todo = d.locks c.txn
  | checking todo => ∃ seen, seen ++ todo = c.txn.reads ∧ ∀ r ∈ seen, versionOf m r.1 = r.2
  | writing todo => todo <:+ c.txn.writes
  | releasing _ todo => todo <:+ d.locks c.txn
  | reading todo views => views.map View.lock ++ todo = c.visits
  | answered views => views.map View.lock = c.visits
  | _ => True

theorem settled_congr {version : Nat} {m m' : Map K V} {k : K} (h : m k = m' k) (p : Phase K V) :
    p.settled version m k = p.settled version m' k := by
  cases p with
  | writing todo => exact writeAll_congr h todo
  | _ => exact h

end Phase

/-! ## The invariant -/

section

variable {K V : Type} [DecidableEq K] (bound : Nat) (d : Discipline K V) (calls : Nat → Call K V)

/-- What a read saw is what the commits before it left. -/
def View.Serial (log : List (Nat × Txn K V)) (view : View K V) : Prop :=
  view.after ≤ log.length ∧ ∃ m, serially (log.take view.after) = some m ∧
    ∀ k, d.lockOf k = view.lock → view.entries k = m k

structure Inv (s : State K V) : Prop where
  holds : ∀ l t, s.holder l = some t ↔ l ∈ (s.phase t).held d (calls t)
  fits : ∀ t, (s.phase t).Fits d (calls t) s.map
  nodup : s.order.Nodup
  passed : ∀ t, t ∈ s.order ↔ (s.phase t).passed = true
  serial : ∃ m, serially (s.log bound calls) = some m ∧
    (∀ k, s.holder (d.lockOf k) = none → m k = s.map k) ∧
    ∀ k t, s.holder (d.lockOf k) = some t → m k = (s.phase t).settled (s.ticket t % bound) s.map k
  views : ∀ t, ∀ view ∈ (s.phase t).views, view.Serial d (s.log bound calls)

variable {bound d calls} {s s' : State K V} {t : Nat}

theorem inv_start : Inv bound d calls (State.start : State K V) where
  holds l t := by simp [State.start, Phase.held]
  fits t := trivial
  nodup := List.nodup_nil
  passed t := by simp [State.start, Phase.passed]
  serial := ⟨fun _ => none, rfl, fun _ _ => rfl, nofun⟩
  views := nofun

namespace Inv

variable (h : Inv bound d calls s)
include h

variable {l : Nat} {p q : Phase K V} (hp : s.phase t = q)

theorem apart {t' : Nat} (hl : l ∈ (s.phase t).held d (calls t))
    (hl' : l ∈ (s.phase t').held d (calls t')) : t = t' :=
  Option.some.inj (((h.holds l t).2 hl).symm.trans ((h.holds l t').2 hl'))

include hp in
theorem holds_update (hheld : p.held d (calls t) = q.held d (calls t)) (l t' : Nat) :
    s.holder l = some t' ↔ l ∈ (update s.phase t p t').held d (calls t') := by
  subst hp
  exact (forall_update_iff s.phase fun t' q => s.holder l = some t' ↔ l ∈ q.held d (calls t')).2
    ⟨hheld ▸ h.holds l t, fun t' _ => h.holds l t'⟩ t'

theorem fits_update (hfits : p.Fits d (calls t) s.map) (t' : Nat) :
    (update s.phase t p t').Fits d (calls t') s.map :=
  (forall_update_iff s.phase fun t' q => q.Fits d (calls t') s.map).2 ⟨hfits, fun t' _ => h.fits t'⟩ t'

include hp in
theorem passed_update (hpassed : p.passed = q.passed) (t' : Nat) :
    t' ∈ s.order ↔ (update s.phase t p t').passed = true := by
  subst hp
  exact (forall_update_iff s.phase fun t' q => t' ∈ s.order ↔ q.passed = true).2
    ⟨hpassed ▸ h.passed t, fun t' _ => h.passed t'⟩ t'

theorem views_update (hviews : ∀ view ∈ p.views, view.Serial d (s.log bound calls)) (t' : Nat) :
    ∀ view ∈ (update s.phase t p t').views, view.Serial d (s.log bound calls) :=
  (forall_update_iff s.phase fun _ q => ∀ view ∈ q.views, view.Serial d (s.log bound calls)).2
    ⟨hviews, fun t' _ => h.views t'⟩ t'

omit h in
include hp in
theorem settled_update (hsettled : p.settled (s.ticket t % bound) s.map =
      q.settled (s.ticket t % bound) s.map) (t' : Nat) :
    (update s.phase t p t').settled (s.ticket t' % bound) s.map =
      (s.phase t').settled (s.ticket t' % bound) s.map := by
  subst hp
  exact (forall_update_iff s.phase fun t' q => q.settled (s.ticket t' % bound) s.map =
    (s.phase t').settled (s.ticket t' % bound) s.map).2 ⟨hsettled, fun _ _ => rfl⟩ t'

include hp in
/-- A step that changes only how far the call has come. -/
theorem goto (hheld : p.held d (calls t) = q.held d (calls t))
    (hsettled : p.settled (s.ticket t % bound) s.map = q.settled (s.ticket t % bound) s.map)
    (hpassed : p.passed = q.passed) (hfits : p.Fits d (calls t) s.map)
    (hviews : ∀ view ∈ p.views, view.Serial d (s.log bound calls)) :
    Inv bound d calls (s.goto t p) where
  holds := h.holds_update hp hheld
  fits := h.fits_update hfits
  nodup := h.nodup
  passed := h.passed_update hp hpassed
  serial := by
    obtain ⟨m, hm, hfree, hlocked⟩ := h.serial
    refine ⟨m, hm, hfree, fun k t' hk => ?_⟩
    rw [hlocked k t' hk, State.goto, settled_update hp hsettled]
  views := h.views_update hviews

theorem serial_eq {m : Map K V} {k : K} (hlocked : ∀ k t, s.holder (d.lockOf k) = some t →
      m k = (s.phase t).settled (s.ticket t % bound) s.map k) (hk : d.lockOf k ∈ (s.phase t).held d (calls t))
    (hsettled : (s.phase t).settled (s.ticket t % bound) s.map = s.map) : m k = s.map k := by
  rw [hlocked k t ((h.holds _ t).2 hk), hsettled]

theorem begin {txn : Txn K V} (hp : s.phase t = .idle) (hcall : calls t = .commit txn) :
    Inv bound d calls
      { s with
        phase := update s.phase t (.locking [] (d.locks txn))
        next := s.next + 1
        ticket := update s.ticket t s.next } := by
  have hgoto : Inv bound d calls (s.goto t (.locking [] (d.locks txn))) :=
    h.goto hp rfl rfl rfl (by simp [Phase.Fits, hcall, Call.txn]) nofun
  have hnot : t ∉ s.order := by
    rw [h.passed t, hp]
    exact Bool.false_ne_true
  -- the version of a call that has not passed stands in no log
  have hlog : State.log bound calls
      { s with
        phase := update s.phase t (.locking [] (d.locks txn))
        next := s.next + 1
        ticket := update s.ticket t s.next } = s.log bound calls := by
    refine List.map_congr_left fun t' ht' => ?_
    have hne : t' ≠ t := fun heq => hnot (heq ▸ ht')
    simp only [update_of_ne hne]
  refine { hgoto with serial := ?_, views := ?_ }
  · obtain ⟨m, hm, hfree, hlocked⟩ := hgoto.serial
    refine ⟨m, hlog ▸ hm, hfree, fun k t' hk => ?_⟩
    rw [hlocked k t' hk]
    by_cases ht : t' = t
    · subst ht
      simp [State.goto, Phase.settled]
    · simp only [State.goto, update_of_ne ht]
  · intro t' view hview
    rw [hlog]
    exact hgoto.views t' view hview

/-- The call takes the lock `l` or lets it go. -/
theorem regrip {o : Option Nat} (hmine : o = some t ↔ l ∈ p.held d (calls t))
    (hothers : ∀ t', t' ≠ t → o ≠ some t' ∧ l ∉ (s.phase t').held d (calls t'))
    (hheld : ∀ l', l' ≠ l → (l' ∈ p.held d (calls t) ↔ l' ∈ (s.phase t).held d (calls t))) (l' t' : Nat) :
    update s.holder l o l' = some t' ↔ l' ∈ (update s.phase t p t').held d (calls t') := by
  by_cases ht : t' = t
  · subst ht
    rw [update_self]
    by_cases hll : l' = l
    · rw [hll, update_self, hmine]
    · rw [update_of_ne hll, h.holds, hheld l' hll]
  · rw [update_of_ne ht]
    by_cases hll : l' = l
    · rw [hll, update_self]
      exact iff_of_false (hothers t' ht).1 (hothers t' ht).2
    · rw [update_of_ne hll, h.holds]

theorem acquire {held todo : List Nat} (hp : s.phase t = .locking held (l :: todo))
    (hl : s.holder l = none) : Inv bound d calls
      { s with
        phase := update s.phase t (.locking (held ++ [l]) todo)
        holder := update s.holder l (some t) } where
  holds := by
    refine h.regrip (by simp [Phase.held]) (fun t' ht => ⟨by simp [Ne.symm ht], ?_⟩) fun l' hll => ?_
    · rw [← h.holds, hl]
      exact nofun
    · simp [hp, hll, Phase.held]
  fits := by
    have hfits := h.fits t
    rw [hp] at hfits
    exact h.fits_update (by simpa [Phase.Fits] using hfits)
  nodup := h.nodup
  passed := h.passed_update hp rfl
  serial := by
    obtain ⟨m, hm, hfree, hlocked⟩ := h.serial
    refine ⟨m, hm, fun k hk => ?_, fun k t' hk => ?_⟩
    · dsimp only at hk
      by_cases hll : d.lockOf k = l
      · simp [hll] at hk
      · rw [update_of_ne hll] at hk
        exact hfree k hk
    · dsimp only at hk ⊢
      by_cases hll : d.lockOf k = l
      · rw [hll, update_self] at hk
        cases hk
        rw [hfree k (hll ▸ hl), update_self]
        rfl
      · rw [update_of_ne hll] at hk
        rw [hlocked k t' hk, settled_update hp (by rfl)]
  views := h.views_update nofun

theorem release {committed : Bool} {todo : List Nat}
    (hp : s.phase t = .releasing committed (l :: todo)) : Inv bound d calls
      { s with
        phase := update s.phase t (.releasing committed todo)
        holder := update s.holder l none } := by
  have hfits : l :: todo <:+ d.locks (calls t).txn := by simpa [hp, Phase.Fits] using h.fits t
  have hmine : l ∈ (s.phase t).held d (calls t) := by
    rw [hp]
    exact List.mem_cons_self
  have hnot : l ∉ todo := (List.nodup_cons.1 ((d.nodup _).sublist hfits.sublist)).1
  refine ⟨h.regrip (iff_of_false nofun hnot) (fun t' ht => ⟨nofun, fun hother => ht (h.apart hother hmine)⟩)
    fun l' hll => by simp [hp, hll, Phase.held], h.fits_update ((List.suffix_cons l todo).trans hfits),
    h.nodup, h.passed_update hp rfl, ?_, h.views_update nofun⟩
  · obtain ⟨m, hm, hfree, hlocked⟩ := h.serial
    refine ⟨m, hm, fun k hk => ?_, fun k t' hk => ?_⟩
    · dsimp only at hk
      by_cases hll : d.lockOf k = l
      · exact h.serial_eq hlocked (hll ▸ hmine) (by rw [hp]; rfl)
      · rw [update_of_ne hll] at hk
        exact hfree k hk
    · dsimp only at hk ⊢
      by_cases hll : d.lockOf k = l
      · simp [hll] at hk
      · rw [update_of_ne hll] at hk
        rw [hlocked k t' hk, settled_update hp (by rfl)]

theorem lock_of_write {todo : List (K × V)} (hp : s.phase t = .writing todo) {w : K × V}
    (hw : w ∈ todo) : d.lockOf w.1 ∈ (s.phase t).held d (calls t) := by
  have hfits : todo <:+ (calls t).txn.writes := by simpa [hp, Phase.Fits] using h.fits t
  rw [hp]
  exact d.lock_of_write _ _ (hfits.subset hw)

theorem write {todo : List (K × V)} {w : K × V} (hp : s.phase t = .writing (w :: todo)) :
    Inv bound d calls
      { s with phase := update s.phase t (.writing todo), map := write (s.ticket t % bound) s.map w } := by
  have hlock := h.lock_of_write hp List.mem_cons_self
  have hholder := (h.holds _ t).2 hlock
  -- under the locks of the others nothing changes
  have hother : ∀ k t', t' ≠ t → d.lockOf k ∈ (s.phase t').held d (calls t') →
      TwoPhase.write (s.ticket t % bound) s.map w k = s.map k := by
    intro k t' ht hk
    refine update_of_ne (fun heq => ht ?_) _ _
    exact h.apart (heq ▸ hk) hlock
  refine ⟨h.holds_update hp rfl, fun t' => ?_, h.nodup, h.passed_update hp rfl, ?_, h.views_update nofun⟩
  · by_cases ht : t' = t
    · subst ht
      have hfits := h.fits t'
      rw [hp] at hfits
      simpa [Phase.Fits] using (List.suffix_cons w todo).trans hfits
    · have hfits := h.fits t'
      simp only [update_of_ne ht]
      cases hp' : s.phase t' with
      | checking todo' =>
        rw [hp'] at hfits
        obtain ⟨seen, hseen, hcurrent⟩ := hfits
        refine ⟨seen, hseen, fun r hr => ?_⟩
        have hmem : r ∈ (calls t').txn.reads := hseen ▸ List.mem_append_left _ hr
        have hr' : d.lockOf r.1 ∈ (s.phase t').held d (calls t') := by
          rw [hp']
          exact d.lock_of_read _ _ hmem
        rw [versionOf, hother r.1 t' ht hr']
        exact hcurrent r hr
      | _ =>
        rw [hp'] at hfits
        exact hfits
  · obtain ⟨m, hm, hfree, hlocked⟩ := h.serial
    refine ⟨m, hm, fun k hk => ?_, fun k t' hk => ?_⟩
    · have hne : k ≠ w.1 := by
        intro heq
        rw [heq] at hk
        exact Option.some_ne_none t (hholder.symm.trans hk)
      rw [hfree k hk]
      exact (update_of_ne hne _ _).symm
    · rw [hlocked k t' hk]
      by_cases ht : t' = t
      · subst ht
        simp [hp, Phase.settled, writeAll]
      · simp only [update_of_ne ht]
        exact Phase.settled_congr (hother k t' ht ((h.holds _ t').1 hk)).symm _

theorem pass (hp : s.phase t = .checking []) :
    Inv bound d calls
      { s with phase := update s.phase t (.writing (calls t).txn.writes), order := s.order ++ [t] } := by
  have hnot : t ∉ s.order := by
    rw [h.passed t, hp]
    exact Bool.false_ne_true
  have hlog : State.log bound calls
      { s with phase := update s.phase t (.writing (calls t).txn.writes), order := s.order ++ [t] } =
      s.log bound calls ++ [(s.ticket t % bound, (calls t).txn)] := by
    simp [State.log]
  have hheld : (s.phase t).held d (calls t) = d.locks (calls t).txn := by
    rw [hp]
    rfl
  refine ⟨h.holds_update hp rfl, h.fits_update List.suffix_rfl, ?_, fun t' => ?_, ?_,
    fun t' view hview => ?_⟩
  · exact List.nodup_append.2 ⟨h.nodup, List.nodup_singleton t, fun t' ht' t'' ht'' => by
      rw [List.mem_singleton.1 ht'']
      exact fun heq => hnot (heq ▸ ht')⟩
  · by_cases ht : t' = t
    · subst ht
      simp [Phase.passed]
    · simpa [update_of_ne ht, ht] using h.passed t'
  · obtain ⟨m, hm, hfree, hlocked⟩ := h.serial
    have hmine : ∀ k, d.lockOf k ∈ d.locks (calls t).txn → m k = s.map k := fun k hk =>
      h.serial_eq hlocked (hheld ▸ hk) (by rw [hp]; rfl)
    have hcurrent : Current m (calls t).txn := by
      intro r hr
      have hfits := h.fits t
      rw [hp] at hfits
      obtain ⟨seen, hseen, hversions⟩ := hfits
      rw [List.append_nil] at hseen
      rw [versionOf, hmine r.1 (d.lock_of_read _ _ hr)]
      exact hversions r (hseen ▸ hr)
    have hapart : ∀ k, d.lockOf k ∉ d.locks (calls t).txn →
        writeAll (s.ticket t % bound) m (calls t).txn.writes k = m k := by
      intro k hk
      refine writeAll_of_not_mem fun w hw heq => hk ?_
      rw [← heq]
      exact d.lock_of_write _ _ hw
    refine ⟨writeAll (s.ticket t % bound) m (calls t).txn.writes, ?_, fun k hk => ?_, fun k t' hk => ?_⟩
    · rw [hlog, serially_concat, hm, Option.bind_some, commit, if_pos hcurrent]
    · have hk' : d.lockOf k ∉ d.locks (calls t).txn := by
        rw [← hheld, ← h.holds, show s.holder (d.lockOf k) = none from hk]
        exact nofun
      rw [hapart k hk']
      exact hfree k hk
    · have hk' : s.holder (d.lockOf k) = some t' := hk
      by_cases ht : t' = t
      · subst ht
        have hmem : d.lockOf k ∈ d.locks (calls t').txn := by
          rw [← hheld]
          exact (h.holds _ t').1 hk'
        simp only [update_self, Phase.settled]
        exact writeAll_congr (hmine k hmem) _
      · have hk'' : d.lockOf k ∉ d.locks (calls t).txn := by
          rw [← hheld, ← h.holds, hk']
          exact fun heq => ht (Option.some.inj heq)
        simp only [update_of_ne ht]
        rw [hapart k hk'', hlocked k t' hk']
  · obtain ⟨hle, m, hm, hm'⟩ := h.views_update (by simp [Phase.views]) t' view hview
    rw [hlog]
    refine ⟨hle.trans (by simp), m, ?_, hm'⟩
    rwa [List.take_append_of_le_length hle]

/-- A read under a free lock sees what the commits so far have left. -/
theorem view (hl : s.holder l = none) : View.Serial d (s.log bound calls)
      ⟨l, s.order.length, fun k => if d.lockOf k = l then s.map k else none⟩ := by
  obtain ⟨m, hm, hfree, -⟩ := h.serial
  have hlen : (s.log bound calls).length = s.order.length := List.length_map _
  refine ⟨hlen.ge, m, by rw [List.take_of_length_le hlen.le, hm], fun k hk => ?_⟩
  dsimp only at hk ⊢
  rw [if_pos hk, hfree k (hk ▸ hl)]

theorem turn (hturn : Turn d calls s t p) : Inv bound d calls (s.goto t p) := by
  have hfits := h.fits t
  have hviews := h.views t
  cases hturn with
  | look hp hcall =>
    refine h.goto hp rfl rfl rfl ?_ nofun
    rw [hcall]
    rfl
  | @locked held hp =>
    rw [hp] at hfits
    exact h.goto hp ((List.append_nil held).symm.trans hfits).symm rfl rfl ⟨[], rfl, nofun⟩ nofun
  | @same k version todo hp hversion =>
    rw [hp] at hfits
    obtain ⟨seen, hseen, hcurrent⟩ := hfits
    refine h.goto hp rfl rfl rfl ?_ nofun
    refine ⟨seen ++ [(k, version)], by simpa using hseen, fun r hr => ?_⟩
    obtain hr | hr := List.mem_append.1 hr
    · exact hcurrent r hr
    · rw [List.mem_singleton.1 hr]
      exact hversion
  | changed hp hversion => exact h.goto hp rfl rfl rfl List.suffix_rfl nofun
  | written hp => exact h.goto hp rfl rfl rfl List.suffix_rfl nofun
  | released hp => exact h.goto hp rfl rfl rfl trivial nofun
  | seen hp hl =>
    rw [hp] at hviews hfits
    refine h.goto hp rfl rfl rfl (by simpa [Phase.Fits] using hfits) fun view hview => ?_
    obtain hview | hview := List.mem_append.1 hview
    · exact hviews view hview
    · rw [List.mem_singleton.1 hview]
      exact h.view hl
  | answered hp =>
    rw [hp] at hviews hfits
    exact h.goto hp rfl rfl rfl (by simpa [Phase.Fits] using hfits) hviews

theorem next (hstep : Step bound d calls s t s') : Inv bound d calls s' := by
  cases hstep with
  | begin hp hcall => exact h.begin hp hcall
  | turn hturn => exact h.turn hturn
  | acquire hp hl => exact h.acquire hp hl
  | pass hp => exact h.pass hp
  | write hp => exact h.write hp
  | release hp => exact h.release hp

end Inv

theorem Reachable.inv (h : Reachable bound d calls s) : Inv bound d calls s := by
  induction h with
  | start => exact inv_start
  | step _ hstep ih => exact ih.next (step_cases hstep)

/-! ## Versions -/

namespace Phase

def committing : Phase K V → Bool
  | locking _ _ | checking _ | writing _ | releasing _ _ | done _ => true
  | _ => false

end Phase

structure Ticketed (s : State K V) : Prop where
  next_pos : 0 < s.next
  drawn : ∀ t, (s.phase t).committing = true → 0 < s.ticket t ∧ s.ticket t < s.next
  distinct : ∀ t t', (s.phase t).committing = true → (s.phase t').committing = true →
    s.ticket t = s.ticket t' → t = t'

omit [DecidableEq K] in
theorem Ticketed.goto (h : Ticketed s) {p : Phase K V}
    (hp : p.committing = true → (s.phase t).committing = true) : Ticketed (s.goto t p) := by
  have hback : ∀ t', (update s.phase t p t').committing = true →
      (s.phase t').committing = true := by
    intro t' ht'
    by_cases ht : t' = t
    · subst ht
      rw [update_self] at ht'
      exact hp ht'
    · rwa [update_of_ne ht] at ht'
  exact ⟨h.next_pos, fun t' ht' => h.drawn t' (hback t' ht'), fun t' t'' ht' ht'' =>
    h.distinct t' t'' (hback t' ht') (hback t'' ht'')⟩

omit [DecidableEq K] in
theorem Ticketed.begin (h : Ticketed s) (p : Phase K V) :
    Ticketed
      { s with
        phase := update s.phase t p
        next := s.next + 1
        ticket := update s.ticket t s.next } where
  next_pos := Nat.succ_pos _
  drawn t' ht' := by
    dsimp only at ht' ⊢
    by_cases ht : t' = t
    · subst ht
      rw [update_self]
      exact ⟨h.next_pos, Nat.lt_succ_self _⟩
    · rw [update_of_ne ht] at ht' ⊢
      have := h.drawn t' ht'
      omega
  distinct t' t'' ht' ht'' heq := by
    dsimp only at ht' ht'' heq
    by_cases h' : t' = t
    · by_cases h'' : t'' = t
      · rw [h', h'']
      · rw [update_of_ne h''] at ht'' heq
        rw [h', update_self] at heq
        have := h.drawn t'' ht''
        omega
    · rw [update_of_ne h'] at ht' heq
      by_cases h'' : t'' = t
      · rw [h'', update_self] at heq
        have := h.drawn t' ht'
        omega
      · rw [update_of_ne h''] at ht'' heq
        exact h.distinct t' t'' ht' ht'' heq

theorem Ticketed.next (h : Ticketed s) (hstep : Step bound d calls s t s') : Ticketed s' := by
  -- but for the first step, versions stay, and neither the map nor the locks matter
  have hmove : ∀ {p : Phase K V}, (s.phase t).committing = true → Ticketed (s.goto t p) :=
    fun hp => h.goto fun _ => hp
  cases hstep with
  | begin hp hcall => exact h.begin _
  | turn hturn =>
    cases hturn with
    | look hp hcall => exact h.goto nofun
    | seen hp hl => exact h.goto nofun
    | answered hp => exact h.goto nofun
    | locked hp => exact hmove (by rw [hp]; rfl)
    | same hp _ => exact hmove (by rw [hp]; rfl)
    | changed hp _ => exact hmove (by rw [hp]; rfl)
    | written hp => exact hmove (by rw [hp]; rfl)
    | released hp => exact hmove (by rw [hp]; rfl)
  | acquire hp hl => exact { hmove (by rw [hp]; rfl) with }
  | pass hp => exact { hmove (by rw [hp]; rfl) with }
  | write hp => exact { hmove (by rw [hp]; rfl) with }
  | release hp => exact { hmove (by rw [hp]; rfl) with }

def Underway (s : State K V) (t : Nat) : Prop :=
  match s.phase t with
  | .idle | .done _ | .answered _ => False
  | _ => True

def Phase.wants : Phase K V → Option Nat
  | .locking _ (l :: _) => some l
  | .reading (l :: _) _ => some l
  | _ => none

theorem wants_of_step_eq_none (ht : Underway s t) (hstep : step bound d calls s t = none) :
    ∃ l t', (s.phase t).wants = some l ∧ s.holder l = some t' := by
  unfold Underway at ht
  unfold TwoPhase.step at hstep
  split at hstep
  · next hp => simp [hp] at ht
  · next hp =>
    split at hstep
    · cases hstep
    · next l _ _ hl =>
      obtain ⟨t', ht'⟩ := Option.ne_none_iff_exists'.1 hl
      exact ⟨_, t', by rw [hp]; rfl, ht'⟩
  · cases hstep
  · split at hstep <;> cases hstep
  · cases hstep
  · cases hstep
  · cases hstep
  · cases hstep
  · cases hstep
  · next hp =>
    split at hstep
    · cases hstep
    · next hl =>
      obtain ⟨t', ht'⟩ := Option.ne_none_iff_exists'.1 hl
      exact ⟨_, t', by rw [hp]; rfl, ht'⟩
  · cases hstep
  · next hp => simp [hp] at ht
  · next hp => simp [hp] at ht

theorem Inv.lock_of_held (h : Inv bound d calls s) {l : Nat}
    (hl : l ∈ (s.phase t).held d (calls t)) : l ∈ d.locks (calls t).txn ∧ Underway s t := by
  have hfits := h.fits t
  unfold Underway
  cases hp : s.phase t with
  | locking held todo =>
    rw [hp] at hl hfits
    have hall : held ++ todo = d.locks (calls t).txn := hfits
    exact ⟨hall ▸ List.mem_append_left _ hl, trivial⟩
  | checking todo =>
    rw [hp] at hl
    exact ⟨hl, trivial⟩
  | writing todo =>
    rw [hp] at hl
    exact ⟨hl, trivial⟩
  | releasing committed todo =>
    rw [hp] at hl hfits
    exact ⟨List.IsSuffix.subset hfits hl, trivial⟩
  | _ =>
    rw [hp] at hl
    cases hl

/-- A call that waits while it holds a lock waits for a higher one. -/
theorem Inv.held_lt_wants (h : Inv bound d calls s) {l l' : Nat}
    (hl : l ∈ (s.phase t).held d (calls t)) (hl' : (s.phase t).wants = some l') : l < l' := by
  have hfits := h.fits t
  cases hp : s.phase t with
  | locking held todo =>
    rw [hp] at hl hl' hfits
    cases todo with
    | nil => cases hl'
    | cons l'' todo =>
      cases hl'
      have hall : held ++ l' :: todo = d.locks (calls t).txn := hfits
      have hsorted := d.ascending (calls t).txn
      rw [← hall, List.pairwise_append] at hsorted
      exact hsorted.2.2 l hl l' List.mem_cons_self
  | _ =>
    rw [hp] at hl hl'
    first
      | cases hl'
      | cases hl

/-- Calls never wait for each other in a circle: while one is under way, one can go on. -/
theorem Reachable.progress (h : Reachable bound d calls s) (ht : Underway s t) :
    ∃ t' s', Underway s t' ∧ TwoPhase.step bound d calls s t' = some s' := by
  by_contra hstuck
  have hnone : ∀ t', Underway s t' → TwoPhase.step bound d calls s t' = none := by
    intro t' ht'
    cases hstep : TwoPhase.step bound d calls s t' with
    | none => rfl
    | some s' => exact absurd ⟨t', s', ht', hstep⟩ hstuck
  -- the holder of a lock that is waited for waits for a higher one, and the locks end
  have hfalse : ∀ n l t', d.count - l = n → s.holder l = some t' → False := by
    intro n
    induction n using Nat.strong_induction_on with
    | _ n ih =>
      intro l t' hn hl
      have hheld := (h.inv.holds l t').1 hl
      obtain ⟨hmem, hunder⟩ := h.inv.lock_of_held hheld
      obtain ⟨l', t'', hwants, hl'⟩ := wants_of_step_eq_none hunder (hnone t' hunder)
      have hlt := h.inv.held_lt_wants hheld hwants
      have hcount := d.lock_lt _ _ hmem
      exact ih (d.count - l') (by omega) l' t'' rfl hl'
  obtain ⟨l, t', -, hl⟩ := wants_of_step_eq_none ht (hnone t ht)
  exact hfalse _ l t' rfl hl

/-! ## How long calls take -/

variable (d) in
/-- An upper bound of the steps that a call still takes. -/
def Phase.remaining (c : Call K V) : Phase K V → Nat
  | idle =>
    match c with
    | .commit txn =>
      2 * (d.locks txn).length + txn.reads.length + txn.writes.length + 5
    | .read locks => locks.length + 2
  | locking _ todo =>
    todo.length + (d.locks c.txn).length + c.txn.reads.length + c.txn.writes.length + 4
  | checking todo => todo.length + (d.locks c.txn).length + c.txn.writes.length + 3
  | writing todo => todo.length + (d.locks c.txn).length + 2
  | releasing _ todo => todo.length + 1
  | reading todo _ => todo.length + 1
  | done _ => 0
  | answered _ => 0

end

end CowStore.Lib.TwoPhase
