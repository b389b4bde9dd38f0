import Mathlib.Logic.Function.Basic

/-!
# Runs of a labelled step relation

`Reached init step ok s` says that `s` is the last state of a run that starts in
a state of `init` and whose every step, labelled `a` and taken from `s`, meets
`ok s a`.  A property of all runs is the case where `ok` asks for nothing; a
property of the runs that avoid some behaviour puts that behaviour into `ok`.

`afterTurns step s turns` is the state after a list of turns, where a turn that cannot be
taken in its state passes without effect: every interleaving is such a list.
-/

namespace CowStore.Lib

variable {S A : Type*}

/-- The states of the runs from `init` whose steps all meet `ok`. -/
inductive Reached (init : S → Prop) (step : S → A → S → Prop) (ok : S → A → Prop) : S → Prop
  | start {s : S} (h : init s) : Reached init step ok s
  | next {s : S} {a : A} {s' : S} (hs : Reached init step ok s) (ha : ok s a)
      (h : step s a s') : Reached init step ok s'

namespace Reached

variable {init : S → Prop} {step : S → A → S → Prop} {ok : S → A → Prop}

/-- The invariant rule: what holds at the start and is kept by every admitted
step holds in every state reached. -/
theorem invariant (Inv : S → Prop) (h0 : ∀ s, init s → Inv s)
    (hstep : ∀ s a s', Inv s → ok s a → step s a s' → Inv s') {s : S}
    (hs : Reached init step ok s) : Inv s := by
  induction hs with
  | start h => exact h0 _ h
  | next _ ha h ih => exact hstep _ _ _ ih ha h

theorem mono {ok' : S → A → Prop} (h : ∀ s a, ok s a → ok' s a) {s : S}
    (hs : Reached init step ok s) : Reached init step ok' s := by
  induction hs with
  | start h0 => exact .start h0
  | next _ ha hstep ih => exact .next ih (h _ _ ha) hstep

end Reached

theorem update_eq [DecidableEq S] {f : S → A} {s t : S} {a b : A} (h : Function.update f s a t = b) :
    t = s ∧ a = b ∨ t ≠ s ∧ f t = b := by
  by_cases ht : t = s
  · rw [ht, Function.update_self] at h
    exact .inl ⟨ht, h⟩
  · rw [Function.update_of_ne ht] at h
    exact .inr ⟨ht, h⟩

section

variable (step : S → A → Option S)

def afterTurns (s : S) (turns : List A) : S :=
  turns.foldl (fun s a => (step s a).getD s) s

@[simp] theorem afterTurns_nil (s : S) : afterTurns step s [] = s := rfl

theorem afterTurns_append (s : S) (turns turns' : List A) :
    afterTurns step s (turns ++ turns') = afterTurns step (afterTurns step s turns) turns' :=
  List.foldl_append

theorem afterTurns_cons (s : S) (a : A) (turns : List A) :
    afterTurns step s (a :: turns) = afterTurns step ((step s a).getD s) turns := rfl

theorem afterTurns_concat (s : S) (turns : List A) (a : A) : afterTurns step s (turns ++ [a]) =
      (step (afterTurns step s turns) a).getD (afterTurns step s turns) := by
  rw [afterTurns_append, afterTurns_cons, afterTurns_nil]

variable {step}

/-- The invariant rule: what every turn that is taken keeps holds after any turns. -/
theorem afterTurns_invariant {P : S → Prop} {s : S} (h0 : P s)
    (hstep : ∀ s a s', P s → step s a = some s' → P s') (turns : List A) : P (afterTurns step s turns) := by
  induction turns generalizing s with
  | nil => exact h0
  | cons a turns ih =>
    rw [afterTurns_cons]
    cases h : step s a with
    | none => exact ih h0
    | some s' => exact ih (hstep s a s' h0 h)

variable (step)

/-- Every turn that is taken meets `ok` in its state. -/
def Admitted (ok : S → A → Prop) : S → List A → Prop
  | _, [] => True
  | s, a :: turns => ((step s a).isSome → ok s a) ∧ Admitted ok ((step s a).getD s) turns

instance decidableAdmitted {ok : S → A → Prop} [∀ s a, Decidable (ok s a)] :
    ∀ (s : S) (turns : List A), Decidable (Admitted step ok s turns)
  | _, [] => inferInstanceAs (Decidable True)
  | s, a :: turns =>
    have : Decidable (Admitted step ok ((step s a).getD s) turns) := decidableAdmitted _ turns
    inferInstanceAs (Decidable (_ ∧ _))

variable {step}

/-- The invariant rule for the runs whose turns all meet `ok`. -/
theorem Admitted.invariant {ok : S → A → Prop} {P : S → Prop} {s : S} {turns : List A}
    (h : Admitted step ok s turns) (h0 : P s)
    (hstep : ∀ s a s', P s → ok s a → step s a = some s' → P s') : P (afterTurns step s turns) := by
  induction turns generalizing s with
  | nil => exact h0
  | cons a turns ih =>
    obtain ⟨hok, h⟩ := h
    rw [afterTurns_cons]
    cases hs : step s a with
    | none =>
      rw [hs] at h
      exact ih h h0
    | some s' =>
      rw [hs] at h hok
      exact ih h (hstep s a s' h0 (hok rfl) hs)

end

end CowStore.Lib
