import CowStore.Lib.Fallible
import Mathlib.Data.List.Chain
import Mathlib.Data.List.Sort

/-!
# Lists of spans as partial maps

A span gives a value to every position of an interval, and a list of spans is read as
the partial map that its members give together.  Overwriting a part of such a map is
done piecewise: every span is cut around the overwritten interval, the new spans are
added, the list is sorted by start, and neighbours that continue each other are joined.
The lemmas say what each of these steps does to the map, and which of them keep the
list in order (sorted, with no two spans on one position).
-/

namespace CowStore.Lib

variable {V : Type}

structure Span (V : Type) where
  start : Nat
  len : Nat
  val : Nat → V

namespace Span

def stop (s : Span V) : Nat := s.start + s.len

def At (s : Span V) (i : Nat) (v : V) : Prop := s.start ≤ i ∧ i < s.stop ∧ s.val i = v

def Apart (a b : Span V) : Prop := a.stop ≤ b.start ∨ b.stop ≤ a.start

instance : Std.Symm (Apart (V := V)) := ⟨fun _ _ => Or.symm⟩

theorem At.unique {s : Span V} {i : Nat} {v w : V} (hv : s.At i v) (hw : s.At i w) : v = w :=
  hv.2.2.symm.trans hw.2.2

theorem Apart.not_at {a b : Span V} (h : Apart a b) {i : Nat} {v w : V} (ha : a.At i v)
    (hb : b.At i w) : False := by
  obtain ⟨ha1, ha2, -⟩ := ha
  obtain ⟨hb1, hb2, -⟩ := hb
  rcases h with h | h <;> omega

end Span

open Span

/-- The map that a list of spans gives. -/
def Shows (ss : List (Span V)) (i : Nat) (v : V) : Prop := ∃ s ∈ ss, s.At i v

/-- The spans stand one after the other and none is empty. -/
def Ordered (ss : List (Span V)) : Prop :=
  ss.Pairwise (fun a b => a.stop ≤ b.start) ∧ ∀ s ∈ ss, 0 < s.len

@[simp] theorem shows_nil (i : Nat) (v : V) : ¬ Shows [] i v := by
  rintro ⟨s, hs, -⟩
  cases hs

variable {ss ts : List (Span V)} {hi i lo : Nat} {s : Span V} {v : V}

theorem shows_cons : Shows (s :: ss) i v ↔ s.At i v ∨ Shows ss i v := by
  simp [Shows]

theorem shows_append : Shows (ss ++ ts) i v ↔ Shows ss i v ∨ Shows ts i v := by
  simp only [Shows, List.mem_append, or_and_right, exists_or]

theorem shows_perm (h : ss.Perm ts) : Shows ss i v ↔ Shows ts i v := by
  simp only [Shows, h.mem_iff]

theorem ordered_cons : Ordered (s :: ss) ↔ 0 < s.len ∧ (∀ t ∈ ss, s.stop ≤ t.start) ∧ Ordered ss := by
  simp only [Ordered, List.pairwise_cons, List.forall_mem_cons]
  tauto

theorem Ordered.apart (h : Ordered ss) : ss.Pairwise Apart :=
  h.1.imp Or.inl

theorem shows_unique (h : ss.Pairwise Apart) {w : V} (hv : Shows ss i v) (hw : Shows ss i w) : v = w := by
  obtain ⟨s, hs, hsv⟩ := hv
  obtain ⟨t, ht, htw⟩ := hw
  by_cases hst : s = t
  · subst hst
    exact hsv.unique htw
  · exact (List.Pairwise.forall h hs ht hst |>.not_at hsv htw).elim

/-- The same map as a function: the value of the first span on the position. -/
def valueAt (ss : List (Span V)) (i : Nat) : Option V :=
  (ss.find? (fun s => decide (s.start ≤ i ∧ i < s.stop))).map (·.val i)

theorem shows_of_valueAt (h : valueAt ss i = some v) : Shows ss i v := by
  obtain ⟨s, hs, rfl⟩ := Option.map_eq_some_iff.1 h
  have hin := List.find?_some hs
  rw [decide_eq_true_eq] at hin
  exact ⟨s, List.mem_of_find?_eq_some hs, hin.1, hin.2, rfl⟩

theorem valueAt_eq_none : valueAt ss i = none ↔ ∀ v, ¬ Shows ss i v := by
  constructor
  · rintro h v ⟨s, hs, h1, h2, -⟩
    have hnone := List.find?_eq_none.1 (Option.map_eq_none_iff.1 h) s hs
    exact hnone (decide_eq_true ⟨h1, h2⟩)
  · intro h
    cases hv : valueAt ss i with
    | none => rfl
    | some v => exact absurd (shows_of_valueAt hv) (h v)

theorem valueAt_eq_some (ha : ss.Pairwise Apart) : valueAt ss i = some v ↔ Shows ss i v := by
  refine ⟨shows_of_valueAt, fun h => ?_⟩
  cases hv : valueAt ss i with
  | none => exact absurd h (valueAt_eq_none.1 hv v)
  | some w => rw [shows_unique ha (shows_of_valueAt hv) h]

theorem valueAt_congr (hs : ss.Pairwise Apart) {j : Nat} (h : ∀ v, Shows ss i v ↔ Shows ts j v) :
    valueAt ss i = valueAt ts j := by
  cases hv : valueAt ts j with
  | none => exact valueAt_eq_none.2 fun v hsv => valueAt_eq_none.1 hv v ((h v).1 hsv)
  | some w => exact (valueAt_eq_some hs).2 ((h w).2 (shows_of_valueAt hv))

theorem valueAt_isSome : (valueAt ss i).isSome ↔ ∃ s ∈ ss, s.start ≤ i ∧ i < s.stop := by
  rw [valueAt, Option.isSome_map, List.find?_isSome]
  simp only [decide_eq_true_eq]

/-- Where `out` shows `s` and, outside of it, what `ss` shows. -/
theorem valueAt_of_overwrite {out : List (Span V)} (hout : out.Pairwise Apart)
    (h : ∀ v, Shows out i v ↔ s.At i v ∨ (i < s.start ∨ s.stop ≤ i) ∧ Shows ss i v) :
    valueAt out i = if s.start ≤ i ∧ i < s.stop then some (s.val i) else valueAt ss i := by
  by_cases hin : s.start ≤ i ∧ i < s.stop
  · rw [if_pos hin]
    exact (valueAt_eq_some hout).2 ((h _).2 (.inl ⟨hin.1, hin.2, rfl⟩))
  · rw [if_neg hin]
    refine valueAt_congr hout fun v => (h v).trans ⟨?_, fun hs => .inr ⟨by omega, hs⟩⟩
    rintro (⟨h1, h2, -⟩ | ⟨-, hs⟩)
    · exact absurd ⟨h1, h2⟩ hin
    · exact hs

/-- The value of the last span on the position: what is left there when the spans are
written one after the other. -/
def lastAt (ss : List (Span V)) (i : Nat) : Option V := valueAt ss.reverse i

theorem lastAt_append_singleton (ss : List (Span V)) (s : Span V) (i : Nat) : lastAt (ss ++ [s]) i =
      if s.start ≤ i ∧ i < s.stop then some (s.val i) else lastAt ss i := by
  rw [lastAt, List.reverse_append, List.reverse_singleton, List.singleton_append, valueAt,
    List.find?_cons]
  by_cases hin : s.start ≤ i ∧ i < s.stop
  · rw [if_pos hin, decide_eq_true hin]
    rfl
  · rw [if_neg hin, decide_eq_false hin]
    rfl

theorem lastAt_isSome : (lastAt ss i).isSome ↔ ∃ s ∈ ss, s.start ≤ i ∧ i < s.stop := by
  simp only [lastAt, valueAt_isSome, List.mem_reverse]

/-! ## Ordered lists over an interval -/

/-- An ordered list whose spans lie between `lo` and `hi`. -/
structure Laid (lo hi : Nat) (ss : List (Span V)) : Prop where
  ordered : Ordered ss
  inside : ∀ s ∈ ss, lo ≤ s.start ∧ s.stop ≤ hi

theorem Laid.nil (lo hi : Nat) : Laid lo hi ([] : List (Span V)) :=
  ⟨⟨List.Pairwise.nil, by simp⟩, by simp⟩

theorem Laid.shows (h : Laid lo hi ss) (hv : Shows ss i v) : lo ≤ i ∧ i < hi := by
  obtain ⟨s, hs, h1, h2, -⟩ := hv
  obtain ⟨h3, h4⟩ := h.inside s hs
  omega

theorem Ordered.laid (h : Ordered ss) (hin : ∀ i v, Shows ss i v → lo ≤ i ∧ i < hi) : Laid lo hi ss := by
  refine ⟨h, fun s hs => ?_⟩
  have hpos := h.2 s hs
  have hstop : s.stop = s.start + s.len := rfl
  have h1 := hin s.start _ ⟨s, hs, le_rfl, by omega, rfl⟩
  have h2 := hin (s.stop - 1) _ ⟨s, hs, by omega, by omega, rfl⟩
  omega

theorem Laid.append {mid : Nat} (hs : Laid lo mid ss) (ht : Laid mid hi ts) (hlo : lo ≤ mid)
    (hhi : mid ≤ hi) : Laid lo hi (ss ++ ts) := by
  refine ⟨⟨List.pairwise_append.2 ⟨hs.ordered.1, ht.ordered.1, fun a ha b hb => ?_⟩,
    fun s hst => ?_⟩, fun s hst => ?_⟩
  · exact (hs.inside a ha).2.trans (ht.inside b hb).1
  · rcases List.mem_append.1 hst with h | h
    · exact hs.ordered.2 s h
    · exact ht.ordered.2 s h
  · rcases List.mem_append.1 hst with h | h
    · exact ⟨(hs.inside s h).1, (hs.inside s h).2.trans hhi⟩
    · exact ⟨hlo.trans (ht.inside s h).1, (ht.inside s h).2⟩

theorem valueAt_append (ss ts : List (Span V)) (i : Nat) :
    valueAt (ss ++ ts) i = (valueAt ss i).or (valueAt ts i) := by
  rw [valueAt, List.find?_append, valueAt, valueAt, Option.map_or]

theorem Laid.valueAt_eq_none (h : Laid lo hi ss) (hi' : i < lo ∨ hi ≤ i) : valueAt ss i = none :=
  Lib.valueAt_eq_none.2 fun v hv => by
    have := h.shows hv
    omega

/-! ## Cutting -/

/-- `ps` is what is left of `e` outside of the positions from `lo` to `hi`. -/
structure Cuts (lo hi : Nat) (e : Span V) (ps : List (Span V)) : Prop where
  shows_iff : ∀ i v, Shows ps i v ↔ e.At i v ∧ (i < lo ∨ hi ≤ i)
  within : ∀ p ∈ ps, e.start ≤ p.start ∧ p.stop ≤ e.stop ∧ 0 < p.len
  clear : ∀ p ∈ ps, p.stop ≤ lo ∨ hi ≤ p.start
  apart : ps.Pairwise Apart

theorem cuts_of_apart {e : Span V} (h : e.stop ≤ lo ∨ hi ≤ e.start) (he : 0 < e.len) :
    Cuts lo hi e [e] where
  shows_iff i v := by
    simp only [Shows, List.mem_singleton, exists_eq_left]
    constructor
    · intro hat
      refine ⟨hat, ?_⟩
      obtain ⟨h1, h2, -⟩ := hat
      omega
    · exact fun hat => hat.1
  within p hp := by
    rw [List.mem_singleton] at hp
    subst hp
    exact ⟨le_rfl, le_rfl, he⟩
  clear p hp := by
    rw [List.mem_singleton] at hp
    subst hp
    exact h
  apart := List.pairwise_singleton _ _

/-- Trimming a span that reaches into the interval: the part before `lo` and the part
from `hi` on, each where it is not empty. -/
theorem cuts_of_trim {e l r : Span V} (hlo : lo < e.stop) (hhi : e.start < hi) (hlohi : lo ≤ hi)
    (hl : e.start < lo → l.start = e.start ∧ l.stop = lo ∧
      ∀ i, l.start ≤ i → i < l.stop → l.val i = e.val i)
    (hr : hi < e.stop → r.start = hi ∧ r.stop = e.stop ∧
      ∀ i, r.start ≤ i → i < r.stop → r.val i = e.val i) :
    Cuts lo hi e ((if e.start < lo then [l] else []) ++ (if hi < e.stop then [r] else [])) where
  shows_iff i v := by
    simp only [Shows, List.mem_append, List.mem_ite_nil_right, List.mem_singleton]
    constructor
    · rintro ⟨s, ⟨hlt, rfl⟩ | ⟨hlt, rfl⟩, ha, hb, hc⟩
      · obtain ⟨h1, h2, h3⟩ := hl hlt
        rw [h3 i ha hb] at hc
        exact ⟨⟨by omega, by omega, hc⟩, by omega⟩
      · obtain ⟨h1, h2, h3⟩ := hr hlt
        rw [h3 i ha hb] at hc
        exact ⟨⟨by omega, by omega, hc⟩, by omega⟩
    · rintro ⟨⟨ha, hb, hc⟩, h | h⟩
      · have hlt : e.start < lo := by omega
        obtain ⟨h1, h2, h3⟩ := hl hlt
        exact ⟨l, .inl ⟨hlt, rfl⟩, by omega, by omega, (h3 i (by omega) (by omega)).trans hc⟩
      · have hlt : hi < e.stop := by omega
        obtain ⟨h1, h2, h3⟩ := hr hlt
        exact ⟨r, .inr ⟨hlt, rfl⟩, by omega, by omega, (h3 i (by omega) (by omega)).trans hc⟩
  within p hp := by
    simp only [List.mem_append, List.mem_ite_nil_right, List.mem_singleton] at hp
    unfold stop at *
    obtain ⟨hlt, rfl⟩ | ⟨hlt, rfl⟩ := hp
    · obtain ⟨h1, h2, -⟩ := hl hlt
      omega
    · obtain ⟨h1, h2, -⟩ := hr hlt
      omega
  clear p hp := by
    simp only [List.mem_append, List.mem_ite_nil_right, List.mem_singleton] at hp
    obtain ⟨hlt, rfl⟩ | ⟨hlt, rfl⟩ := hp
    · exact .inl (hl hlt).2.1.le
    · exact .inr (hr hlt).1.ge
  apart := by
    split <;> split <;> simp
    next hlt hgt =>
      exact .inl (by have := hl hlt; have := hr hgt; omega)

section

variable {lo hi : Nat} {es : List (Span V)} {pss : List (List (Span V))}

theorem shows_flatten_cuts (h : List.Forall₂ (Cuts lo hi) es pss) {i : Nat} {v : V} :
    Shows pss.flatten i v ↔ Shows es i v ∧ (i < lo ∨ hi ≤ i) := by
  induction h with
  | nil => simp
  | cons h _ ih =>
    rw [List.flatten_cons, shows_append, h.shows_iff, ih, shows_cons]
    tauto

theorem clear_flatten_cuts (h : List.Forall₂ (Cuts lo hi) es pss) :
    ∀ p ∈ pss.flatten, (p.stop ≤ lo ∨ hi ≤ p.start) ∧ 0 < p.len := by
  induction h with
  | nil => simp
  | cons h _ ih =>
    intro p hp
    rw [List.flatten_cons, List.mem_append] at hp
    rcases hp with hp | hp
    · exact ⟨h.clear p hp, (h.within p hp).2.2⟩
    · exact ih p hp

theorem within_flatten_cuts (h : List.Forall₂ (Cuts lo hi) es pss) :
    ∀ p ∈ pss.flatten, ∃ e ∈ es, e.start ≤ p.start ∧ p.stop ≤ e.stop := by
  induction h with
  | nil => simp
  | @cons e ps es pss h _ ih =>
    intro p hp
    rw [List.flatten_cons, List.mem_append] at hp
    rcases hp with hp | hp
    · exact ⟨e, List.mem_cons_self, (h.within p hp).1, (h.within p hp).2.1⟩
    · obtain ⟨e', he', hw⟩ := ih p hp
      exact ⟨e', List.mem_cons_of_mem e he', hw⟩

theorem apart_flatten_cuts (h : List.Forall₂ (Cuts lo hi) es pss) (hes : es.Pairwise Apart) :
    pss.flatten.Pairwise Apart := by
  induction h with
  | nil => simp
  | @cons e ps es pss h hrest ih =>
    rw [List.pairwise_cons] at hes
    rw [List.flatten_cons, List.pairwise_append]
    refine ⟨h.apart, ih hes.2, fun p hp q hq => ?_⟩
    obtain ⟨e', he', hw⟩ := within_flatten_cuts hrest q hq
    obtain ⟨hp1, hp2, -⟩ := h.within p hp
    rcases hes.1 e' he' with ha | ha
    · exact .inl (by omega)
    · exact .inr (by omega)

end

/-! ## Sorting by start -/

theorem ordered_of_sorted (hs : ss.Pairwise (fun a b => a.start ≤ b.start)) (ha : ss.Pairwise Apart)
    (hne : ∀ s ∈ ss, 0 < s.len) : Ordered ss := by
  refine ⟨?_, hne⟩
  refine (hs.and ha).imp_of_mem ?_
  rintro a b hma hmb ⟨hle, h | h⟩
  · exact h
  · have := hne b hmb
    unfold stop at h
    omega

/-- Adding spans on the interval that was cut out, and sorting, gives an ordered list. -/
theorem ordered_of_cuts {es out : List (Span V)} {pss : List (List (Span V))} (new : List (Span V))
    (h : List.Forall₂ (Cuts lo hi) es pss) (hes : es.Pairwise Apart) (hnew : new.Pairwise Apart)
    (hin : ∀ s ∈ new, lo ≤ s.start ∧ s.stop ≤ hi ∧ 0 < s.len) (hperm : out.Perm (pss.flatten ++ new))
    (hsorted : out.Pairwise (fun a b => a.start ≤ b.start)) : Ordered out := by
  have hclear := clear_flatten_cuts h
  refine ordered_of_sorted hsorted ?_ ?_
  · rw [hperm.pairwise_iff (R := Apart) (fun h => Or.symm h), List.pairwise_append]
    refine ⟨apart_flatten_cuts h hes, hnew, fun p hp s hs => ?_⟩
    obtain ⟨hlo, hhi, -⟩ := hin s hs
    rcases (hclear p hp).1 with hp | hp
    · exact .inl (hp.trans hlo)
    · exact .inr (hhi.trans hp)
  · intro s hs
    rcases List.mem_append.1 (hperm.mem_iff.1 hs) with hs | hs
    · exact (hclear s hs).2
    · exact (hin s hs).2.2

/-! ## Joining neighbours -/

section

variable {E ε : Type}

/-- The loop of `coalesce`: `prev` is the last element kept so far. -/
def coalesceFrom (merge : E → E → Except ε (Option E)) (prev : E) :
    List E → Except ε (List E)
  | [] => .ok [prev]
  | e :: es => do
    match ← merge prev e with
    | some joined => coalesceFrom merge joined es
    | none =>
      let rest ← coalesceFrom merge e es
      return prev :: rest

/-- Joins every element to the one kept before it where `merge` joins the two. -/
def coalesce (merge : E → E → Except ε (Option E)) : List E → Except ε (List E)
  | [] => .ok []
  | e :: es => coalesceFrom merge e es

structure Joins (a b m : Span V) : Prop where
  touch : a.stop = b.start
  start_eq : m.start = a.start
  stop_eq : m.stop = b.stop
  left : ∀ i, a.start ≤ i → i < a.stop → m.val i = a.val i
  right : ∀ i, b.start ≤ i → i < b.stop → m.val i = b.val i

variable {prev : E} {es out : List E} {i : Nat} {v : V}

theorem Joins.at_iff {a b m : Span V} (h : Joins a b m) : m.At i v ↔ a.At i v ∨ b.At i v := by
  have h1 := h.touch
  have h2 := h.start_eq
  have h3 := h.stop_eq
  have ha : a.start ≤ a.stop := Nat.le_add_right _ _
  have hb : b.start ≤ b.stop := Nat.le_add_right _ _
  constructor
  · rintro ⟨hi, hj, hv⟩
    rcases Nat.lt_or_ge i a.stop with hlt | hge
    · exact .inl ⟨by omega, hlt, by rw [← h.left i (by omega) hlt]; exact hv⟩
    · exact .inr ⟨by omega, by omega, by rw [← h.right i (by omega) (by omega)]; exact hv⟩
  · rintro (⟨hi, hj, hv⟩ | ⟨hi, hj, hv⟩)
    · exact ⟨by omega, by omega, by rw [h.left i hi hj]; exact hv⟩
    · exact ⟨by omega, by omega, by rw [h.right i hi hj]; exact hv⟩

/-- What joining keeps, holds of all elements that are left. -/
theorem forall_coalesceFrom {merge : E → E → Except ε (Option E)} {P : E → Prop}
    (hm : ∀ a b m, merge a b = .ok (some m) → P a → P b → P m)
    (h : coalesceFrom merge prev es = .ok out) (hprev : P prev) (hes : ∀ e ∈ es, P e) : ∀ e ∈ out, P e := by
  induction es generalizing prev out with
  | nil =>
    cases h
    simpa using hprev
  | cons e es ih =>
    obtain ⟨he, hes⟩ := List.forall_mem_cons.1 hes
    rw [coalesceFrom, bind_eq_ok] at h
    obtain ⟨joined, hj, h⟩ := h
    cases joined with
    | some m => exact ih h (hm prev e m hj hprev he) hes
    | none =>
      obtain ⟨rest, hrest, h⟩ := bind_eq_ok.1 h
      cases h
      exact List.forall_mem_cons.2 ⟨hprev, ih hrest he hes⟩

theorem forall_coalesce {merge : E → E → Except ε (Option E)} {P : E → Prop}
    (hm : ∀ a b m, merge a b = .ok (some m) → P a → P b → P m) (h : coalesce merge es = .ok out)
    (hes : ∀ e ∈ es, P e) : ∀ e ∈ out, P e := by
  cases es with
  | nil =>
    cases h
    simp
  | cons e es =>
    obtain ⟨he, hes⟩ := List.forall_mem_cons.1 hes
    exact forall_coalesceFrom hm h he hes

variable {view : E → Span V} {merge : E → E → Except ε (Option E)}
  (hm : ∀ a b m, merge a b = .ok (some m) → Joins (view a) (view b) (view m))
include hm

theorem shows_coalesceFrom (h : coalesceFrom merge prev es = .ok out) :
    Shows (out.map view) i v ↔ Shows ((prev :: es).map view) i v := by
  induction es generalizing prev out with
  | nil =>
    cases h
    rfl
  | cons e es ih =>
    rw [coalesceFrom, bind_eq_ok] at h
    obtain ⟨joined, hj, h⟩ := h
    cases joined with
    | some m =>
      rw [ih h, List.map_cons, List.map_cons, List.map_cons, shows_cons, shows_cons, shows_cons,
        (hm prev e m hj).at_iff, or_assoc]
    | none =>
      obtain ⟨rest, hrest, h⟩ := bind_eq_ok.1 h
      cases h
      rw [List.map_cons, List.map_cons, shows_cons, shows_cons, ih hrest]

theorem ordered_coalesceFrom (h : coalesceFrom merge prev es = .ok out)
    (ho : Ordered ((prev :: es).map view)) :
    Ordered (out.map view) ∧ ∀ s ∈ out.map view, (view prev).start ≤ s.start := by
  induction es generalizing prev out with
  | nil =>
    cases h
    exact ⟨ho, by simp⟩
  | cons e es ih =>
    have hlt : (view prev).stop ≤ (view e).start :=
      (List.pairwise_cons.1 ho.1).1 (view e) (by simp)
    have hle : (view prev).start ≤ (view prev).stop := Nat.le_add_right _ _
    have htail : Ordered ((e :: es).map view) :=
      ⟨(List.pairwise_cons.1 ho.1).2, fun s hs => ho.2 s (List.mem_cons_of_mem _ hs)⟩
    rw [coalesceFrom, bind_eq_ok] at h
    obtain ⟨joined, hj, h⟩ := h
    cases joined with
    | some m =>
      have hjoin := hm prev e m hj
      have hstart := hjoin.start_eq
      have hstop := hjoin.stop_eq
      have hom : Ordered ((m :: es).map view) := by
        refine ⟨List.pairwise_cons.2 ⟨?_, (List.pairwise_cons.1 htail.1).2⟩, ?_⟩
        · intro s hs
          rw [hstop]
          exact (List.pairwise_cons.1 htail.1).1 s hs
        · intro s hs
          rcases List.mem_cons.1 hs with rfl | hs
          · have := ho.2 (view prev) List.mem_cons_self
            have := htail.2 (view e) List.mem_cons_self
            unfold stop at *
            omega
          · exact htail.2 s (List.mem_cons_of_mem _ hs)
      rw [← hstart]
      exact ih h hom
    | none =>
      obtain ⟨rest, hrest, h⟩ := bind_eq_ok.1 h
      cases h
      obtain ⟨hr, hfirst⟩ := ih hrest htail
      refine ⟨⟨List.pairwise_cons.2 ⟨fun s hs => hlt.trans (hfirst s hs), hr.1⟩, ?_⟩, ?_⟩
      · intro s hs
        rcases List.mem_cons.1 hs with rfl | hs
        · exact ho.2 _ List.mem_cons_self
        · exact hr.2 s hs
      · intro s hs
        rcases List.mem_cons.1 hs with rfl | hs
        · exact le_rfl
        · exact (hle.trans hlt).trans (hfirst s hs)

theorem shows_coalesce (h : coalesce merge es = .ok out) :
    Shows (out.map view) i v ↔ Shows (es.map view) i v := by
  cases es with
  | nil =>
    cases h
    rfl
  | cons e es => exact shows_coalesceFrom hm h

theorem ordered_coalesce (h : coalesce merge es = .ok out) (ho : Ordered (es.map view)) :
    Ordered (out.map view) := by
  cases es with
  | nil =>
    cases h
    exact ho
  | cons e es => exact (ordered_coalesceFrom hm h ho).1

end

section

variable {E ε : Type} {merge : E → E → Except ε (Option E)}

variable {es : List E}

/-- Joining elements that `merge` takes one after the other, and keeps taking, does not fail. -/
theorem exists_coalesceFrom {P : E → Prop} {R : E → E → Prop}
    (hok : ∀ a b, P a → P b → R a b → ∃ o, merge a b = .ok o)
    (hm : ∀ a b m, merge a b = .ok (some m) → P a → P b → P m ∧ ∀ c, R b c → R m c) {prev : E}
    (hP : ∀ e ∈ prev :: es, P e) (hR : (prev :: es).Pairwise R) :
    ∃ out, coalesceFrom merge prev es = .ok out := by
  induction es generalizing prev with
  | nil => exact ⟨_, rfl⟩
  | cons e es ih =>
    obtain ⟨hprev, hes⟩ := List.forall_mem_cons.1 hP
    obtain ⟨hfirst, hrest⟩ := List.pairwise_cons.1 hR
    obtain ⟨he, hes'⟩ := List.forall_mem_cons.1 hes
    obtain ⟨hafter, hrest'⟩ := List.pairwise_cons.1 hrest
    obtain ⟨joined, hj⟩ := hok prev e hprev he (hfirst e List.mem_cons_self)
    rw [coalesceFrom, hj, ok_bind]
    cases joined with
    | some m =>
      obtain ⟨hPm, hRm⟩ := hm prev e m hj hprev he
      exact ih (List.forall_mem_cons.2 ⟨hPm, hes'⟩)
        (List.pairwise_cons.2 ⟨fun c hc => hRm c (hafter c hc), hrest'⟩)
    | none =>
      obtain ⟨rest, hout⟩ := ih hes hrest
      exact ⟨prev :: rest, by rw [hout]; rfl⟩

theorem exists_coalesce {P : E → Prop} (hok : ∀ a b, P a → P b → ∃ o, merge a b = .ok o)
    (hm : ∀ a b m, merge a b = .ok (some m) → P a → P b → P m) (hes : ∀ e ∈ es, P e) :
    ∃ out, coalesce merge es = .ok out := by
  cases es with
  | nil => exact ⟨[], rfl⟩
  | cons e es =>
    refine exists_coalesceFrom (R := fun _ _ => True) (fun a b ha hb _ => hok a b ha hb)
      (fun a b m h ha hb => ⟨hm a b m h ha hb, fun _ _ => trivial⟩) hes ?_
    exact List.pairwise_of_forall fun _ _ => trivial

section

variable {R : E → E → Prop} (hnone : ∀ a b, merge a b = .ok none → R a b)
  (hsome : ∀ a b c m, merge b c = .ok (some m) → R a b → R a m)
include hnone hsome

/-- What keeps an element from joining the one before it is seen at its front, which joining
more to its end leaves: so it is between all neighbours of the outcome. -/
theorem isChain_coalesceFrom {prev : E} {es out : List E} (h : coalesceFrom merge prev es = .ok out) :
    out.IsChain R ∧ ∀ a, R a prev → ∀ b ∈ out.head?, R a b := by
  induction es generalizing prev out with
  | nil =>
    cases h
    exact ⟨.singleton _, by simp⟩
  | cons e es ih =>
    rw [coalesceFrom, bind_eq_ok] at h
    obtain ⟨joined, hj, h⟩ := h
    cases joined with
    | some m =>
      obtain ⟨hchain, hfront⟩ := ih h
      exact ⟨hchain, fun a ha => hfront a (hsome a prev e m hj ha)⟩
    | none =>
      obtain ⟨rest, hrest, h⟩ := bind_eq_ok.1 h
      cases h
      obtain ⟨hchain, hfront⟩ := ih hrest
      exact ⟨List.isChain_cons.2 ⟨hfront prev (hnone prev e hj), hchain⟩, by simp⟩

theorem isChain_coalesce {es out : List E} (h : coalesce merge es = .ok out) : out.IsChain R := by
  cases es with
  | nil =>
    cases h
    exact .nil
  | cons e es => exact (isChain_coalesceFrom hnone hsome h).1

end

/-- Two spans of an ordered list that touch are neighbours. -/
theorem Ordered.of_touch {view : E → Span V} {R : E → E → Prop} (ho : Ordered (es.map view))
    (hR : es.IsChain R) {a b : E} (ha : a ∈ es) (hb : b ∈ es) (h : (view a).stop = (view b).start) :
    R a b := by
  induction es with
  | nil => cases ha
  | cons e es ih =>
    obtain ⟨hfirst, hsorted⟩ := List.pairwise_cons.1 ho.1
    have htail : Ordered (es.map view) := ⟨hsorted, fun s hs => ho.2 s (List.mem_cons_of_mem _ hs)⟩
    have hpos : ∀ x ∈ e :: es, (view x).start < (view x).stop := fun x hx =>
      Nat.lt_add_of_pos_right (ho.2 _ (List.mem_map_of_mem hx))
    rcases List.mem_cons.1 ha with rfl | ha'
    · rcases List.mem_cons.1 hb with rfl | hb'
      · exact absurd h (hpos b hb).ne'
      · cases es with
        | nil => cases hb'
        | cons e' es =>
          obtain ⟨hR, -⟩ := List.isChain_cons_cons.1 hR
          rcases List.mem_cons.1 hb' with rfl | hb''
          · exact hR
          · -- the span after `a` would lie between the two
            have h1 := hfirst (view e') (List.mem_map_of_mem List.mem_cons_self)
            have h2 := (List.pairwise_cons.1 hsorted).1 (view b) (List.mem_map_of_mem hb'')
            have h3 := hpos e' (List.mem_cons_of_mem _ List.mem_cons_self)
            omega
    · rcases List.mem_cons.1 hb with rfl | hb'
      · have h1 := hfirst (view a) (List.mem_map_of_mem ha')
        have h2 := hpos a ha
        have h3 := hpos b hb
        omega
      · exact ih htail (List.isChain_cons.1 hR).2 ha' hb'

end

end CowStore.Lib
