import Mathlib.Algebra.Order.Ring.Nat
import Mathlib.Data.List.Forall2

/-!
# Fallible computations

The rules by which proofs take a computation in `Except` apart: a bind that returned
has returned at both ends, a check that returned has passed, and a loop that returned
has returned at every element.
-/

namespace CowStore.Lib

variable {ε α β : Type}

/-- Fails with `e` where `c` holds. -/
def failIf (c : Prop) [Decidable c] (e : ε) : Except ε Unit :=
  if c then .error e else .ok ()

/-- The value of an option, or the failure `e`. -/
def orFail (x : Option α) (e : ε) : Except ε α :=
  match x with
  | some a => .ok a
  | none => .error e

def filterEach (f : α → Except ε Bool) : List α → Except ε (List α)
  | [] => .ok []
  | x :: xs => do
    let keep ← f x
    let rest ← filterEach f xs
    return bif keep then x :: rest else rest

/-- A check of every element, up to the first failure. -/
def checkEach (f : α → Except ε Unit) : List α → Except ε Unit
  | [] => .ok ()
  | x :: xs => do
    f x
    checkEach f xs

@[simp] theorem ok_bind (a : α) (f : α → Except ε β) : ((.ok a : Except ε α) >>= f) = f a := rfl

@[simp] theorem error_bind (e : ε) (f : α → Except ε β) :
    ((.error e : Except ε α) >>= f) = .error e := rfl

@[simp] theorem pure_eq_ok (a : α) : (pure a : Except ε α) = .ok a := rfl

variable {xs : List α} {ys : List β} {f : α → Except ε β} {R : α → β → Prop}

theorem bind_eq_ok {x : Except ε α} {b : β} : (x >>= f) = .ok b ↔ ∃ a, x = .ok a ∧ f a = .ok b := by
  cases x with
  | error e => simp
  | ok a => simp

section

variable {γ δ : Type} {x : Except ε α} {g : α → β → Except ε γ} {h : α → β → γ → Except ε δ}

theorem bind2_eq_ok {c : γ} : (x >>= fun a => f a >>= g a) = .ok c ↔
    ∃ a, x = .ok a ∧ ∃ b, f a = .ok b ∧ g a b = .ok c := by
  simp only [bind_eq_ok]

theorem bind3_eq_ok {d : δ} : (x >>= fun a => f a >>= fun b => g a b >>= h a b) = .ok d ↔
    ∃ a, x = .ok a ∧ ∃ b, f a = .ok b ∧ ∃ c, g a b = .ok c ∧ h a b c = .ok d := by
  simp only [bind_eq_ok]

end

@[simp] theorem failIf_eq_ok {c : Prop} [Decidable c] {e : ε} {u : Unit} : failIf c e = .ok u ↔ ¬ c := by
  unfold failIf
  split <;> simp_all

@[simp] theorem orFail_eq_ok {x : Option α} {e : ε} {a : α} : orFail x e = .ok a ↔ x = some a := by
  cases x <;> simp [orFail]

theorem forall₂_mem_left (h : List.Forall₂ R xs ys) {x : α} (hx : x ∈ xs) : ∃ y ∈ ys, R x y := by
  induction h with
  | nil => cases hx
  | @cons a b xs ys hab _ ih =>
    rcases List.mem_cons.1 hx with rfl | hx
    · exact ⟨b, List.mem_cons_self, hab⟩
    · obtain ⟨y, hy, hR⟩ := ih hx
      exact ⟨y, List.mem_cons_of_mem b hy, hR⟩

theorem forall₂_mem_right (h : List.Forall₂ R xs ys) {y : β} (hy : y ∈ ys) : ∃ x ∈ xs, R x y :=
  forall₂_mem_left h.flip hy

theorem map_eq_of_forall₂ {f : α → γ} {g : β → γ} (h : List.Forall₂ (fun x y => g y = f x) xs ys) :
    ys.map g = xs.map f := by
  rw [← List.forall₂_eq_eq_eq, List.forall₂_map_left_iff, List.forall₂_map_right_iff]
  exact h.flip

theorem exists_forall₂ (h : ∀ y ∈ ys, ∃ x, R x y) : ∃ xs, List.Forall₂ R xs ys := by
  induction ys with
  | nil => exact ⟨[], .nil⟩
  | cons y ys ih =>
    obtain ⟨x, hx⟩ := h y List.mem_cons_self
    obtain ⟨xs, hxs⟩ := ih fun z hz => h z (List.mem_cons_of_mem y hz)
    exact ⟨x :: xs, .cons hx hxs⟩

theorem exists_forall₂_between {A : β → α → Prop} {B : β → γ → Prop} {zs : List γ}
    (h : List.Forall₂ (fun x z => ∃ y, A y x ∧ B y z) xs zs) :
    ∃ ys, List.Forall₂ A ys xs ∧ List.Forall₂ B ys zs := by
  induction h with
  | nil => exact ⟨[], .nil, .nil⟩
  | cons h _ ih =>
    obtain ⟨y, hA, hB⟩ := h
    obtain ⟨ys, hAs, hBs⟩ := ih
    exact ⟨y :: ys, .cons hA hAs, .cons hB hBs⟩

/-- What stands against one element of the second list. -/
theorem forall₂_split_right {pre post : List β} {y : β} (h : List.Forall₂ R xs (pre ++ y :: post)) :
    ∃ us x vs, xs = us ++ x :: vs ∧ List.Forall₂ R us pre ∧ R x y ∧ List.Forall₂ R vs post := by
  induction pre generalizing xs with
  | nil =>
    obtain ⟨x, vs, hx, hvs, rfl⟩ := List.forall₂_cons_right_iff.1 h
    exact ⟨[], x, vs, rfl, .nil, hx, hvs⟩
  | cons z pre ih =>
    obtain ⟨w, ws, hw, hws, rfl⟩ := List.forall₂_cons_right_iff.1 h
    obtain ⟨us, x, vs, rfl, hus, hx, hvs⟩ := ih hws
    exact ⟨w :: us, x, vs, rfl, .cons hw hus, hx, hvs⟩

theorem mapM_eq_ok : xs.mapM f = .ok ys ↔ List.Forall₂ (fun x y => f x = .ok y) xs ys := by
  induction xs generalizing ys with
  | nil => cases ys <;> simp
  | cons x xs ih =>
    cases ys with
    | nil => simp [List.mapM_cons, bind_eq_ok]
    | cons y ys => simp [List.mapM_cons, bind_eq_ok, ih]

theorem exists_mapM (h : ∀ x ∈ xs, ∃ y, f x = .ok y) : ∃ ys, xs.mapM f = .ok ys := by
  obtain ⟨ys, hys⟩ := exists_forall₂ (R := fun y x => f x = .ok y) h
  exact ⟨ys, mapM_eq_ok.2 hys.flip⟩

theorem filterEach_eq_ok {f : α → Except ε Bool} {p : α → Bool} (h : ∀ x ∈ xs, f x = .ok (p x)) :
    filterEach f xs = .ok (xs.filter p) := by
  induction xs with
  | nil => rfl
  | cons x xs ih =>
    rw [filterEach, h x List.mem_cons_self, ok_bind,
      ih (fun y hy => h y (List.mem_cons_of_mem x hy)), ok_bind, pure_eq_ok]
    cases hp : p x <;> simp [hp]

theorem mem_of_filterEach {f : α → Except ε Bool} {ys : List α} (h : filterEach f xs = .ok ys)
    {x : α} (hx : x ∈ xs) : ∃ b, f x = .ok b := by
  induction xs generalizing ys with
  | nil => cases hx
  | cons y xs ih =>
    obtain ⟨b, hb, h⟩ := bind_eq_ok.1 h
    obtain ⟨rest, hrest, -⟩ := bind_eq_ok.1 h
    rcases List.mem_cons.1 hx with rfl | hx
    · exact ⟨b, hb⟩
    · exact ih hrest hx

theorem checkEach_eq_ok {f : α → Except ε Unit} {u : Unit} :
    checkEach f xs = .ok u ↔ ∀ x ∈ xs, f x = .ok () := by
  induction xs with
  | nil => simp [checkEach]
  | cons x xs ih =>
    rw [checkEach, bind_eq_ok, List.forall_mem_cons, ih]
    exact ⟨fun ⟨⟨⟩, h⟩ => h, fun h => ⟨(), h⟩⟩

/-! ## Failures that do not occur -/

/-- The computation does not fail with `e`. -/
def Avoids (e : ε) (x : Except ε α) : Prop := x ≠ .error e

section

variable {e : ε}

@[simp] theorem avoids_ok (a : α) : Avoids e (.ok a : Except ε α) := nofun

@[simp] theorem avoids_pure (a : α) : Avoids e (pure a : Except ε α) := nofun

theorem avoids_bind {x : Except ε α} {f : α → Except ε β} (hx : Avoids e x)
    (hf : ∀ a, x = .ok a → Avoids e (f a)) : Avoids e (x >>= f) := by
  cases x with
  | error e' => exact fun h => hx (by cases h; rfl)
  | ok a => exact hf a rfl

theorem avoids_failIf {c : Prop} [Decidable c] {e' : ε} (h : e' ≠ e) : Avoids e (failIf c e') := by
  unfold failIf
  split
  · exact fun h' => h (Except.error.inj h')
  · exact avoids_ok ()

end

/-- What every iteration keeps, the loop keeps. -/
theorem foldlM_invariant {f : β → α → Except ε β} {b b' : β} (Inv : β → Prop)
    (h : xs.foldlM f b = .ok b') (h0 : Inv b)
    (hstep : ∀ b x b', x ∈ xs → Inv b → f b x = .ok b' → Inv b') : Inv b' := by
  induction xs generalizing b with
  | nil => cases h; exact h0
  | cons x xs ih =>
    rw [List.foldlM_cons, bind_eq_ok] at h
    obtain ⟨c, hc, h⟩ := h
    exact ih h (hstep b x c List.mem_cons_self h0 hc)
      (fun b y b' hy => hstep b y b' (List.mem_cons_of_mem x hy))

end CowStore.Lib
