import Mathlib.Data.List.Basic

/-!
# Lists that differ in one place

A message with one of its entries changed.  Cut at the same length, two such lists
agree on one side of the cut; and a fold takes them to different states as soon as
its step separates two entries and never brings separated states together again.
-/

namespace CowStore.Lib

variable {α σ : Type}

def OneApart (x y : List α) : Prop :=
  ∃ u a b v, a ≠ b ∧ x = u ++ a :: v ∧ y = u ++ b :: v

namespace OneApart

theorem length_eq {x y : List α} (h : OneApart x y) : x.length = y.length := by
  obtain ⟨u, a, b, v, -, rfl, rfl⟩ := h
  simp

/-- The two sides of a cut cannot both have changed. -/
theorem append_cases {x y x' y' : List α} (h : OneApart (x ++ y) (x' ++ y'))
    (hlen : x.length = x'.length) : x = x' ∨ y = y' := by
  obtain ⟨u, a, b, v, -, hx, hy⟩ := h
  rcases Nat.lt_or_ge u.length x.length with hlt | hge
  · -- the change is left of the cut
    refine .inr ?_
    have hdrop : ∀ c : α, (u ++ c :: v).drop x.length = v.drop (x.length - (u.length + 1)) := by
      intro c
      have hsplit : u ++ c :: v = (u ++ [c]) ++ v := by simp
      have hpre : (u ++ [c]).drop x.length = [] := List.drop_of_length_le (by simp; omega)
      rw [hsplit, List.drop_append, hpre, List.nil_append, List.length_append,
        List.length_singleton]
    calc y = (x ++ y).drop x.length := List.drop_left.symm
      _ = (x' ++ y').drop x.length := by rw [hx, hy, hdrop, hdrop]
      _ = y' := by rw [hlen, List.drop_left]
  · refine .inl ?_
    have htake : ∀ c : α, (u ++ c :: v).take x.length = u.take x.length :=
      fun c => List.take_append_of_le_length hge
    calc x = (x ++ y).take x.length := List.take_left.symm
      _ = (x' ++ y').take x.length := by rw [hx, hy, htake, htake]
      _ = x' := by rw [hlen, List.take_left]

end OneApart

theorem foldl_oneApart {step : σ → α → σ} {R : σ → σ → Prop} {x y : List α} (h : OneApart x y)
    (hentry : ∀ s a b, a ≠ b → R (step s a) (step s b))
    (hstate : ∀ s t a, R s t → R (step s a) (step t a)) (s : σ) : R (x.foldl step s) (y.foldl step s) := by
  obtain ⟨u, a, b, v, hab, rfl, rfl⟩ := h
  have hsuffix : ∀ (v : List α) (s t : σ), R s t → R (v.foldl step s) (v.foldl step t) := by
    intro v
    induction v with
    | nil => exact fun _ _ hR => hR
    | cons c v ih => exact fun s t hR => ih _ _ (hstate s t c hR)
  rw [List.foldl_append, List.foldl_append]
  exact hsuffix v _ _ (hentry _ a b hab)

end CowStore.Lib
