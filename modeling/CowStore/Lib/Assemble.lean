import Mathlib.Data.List.Perm.Basic

/-!
# Putting pieces in order

Pieces lie about in any order.  `assemble` looks for one that fits the state, takes
it out, applies it and goes on until none fits.  What it uses up is a chain from the
first state to the last (`assemble_chain`).  If states only move up and a piece fits
at one height alone, then the pieces make one chain at most, whatever order they are
found in, and `assemble` finds it (`assemble_of_chain`).
-/

namespace CowStore.Lib

section

variable {σ α ε : Type} (fits : σ → α → Bool) (apply : σ → α → Except ε σ)

/-- The search loop; a turn uses up one piece, and `fuel` counts the turns. -/
def assemble : Nat → σ → List α → Except ε (σ × List α)
  | 0, s, pieces => .ok (s, pieces)
  | fuel + 1, s, pieces =>
    match pieces.find? (fits s) with
    | none => .ok (s, pieces)
    | some a =>
      match apply s a with
      | .error e => .error e
      | .ok s' => assemble fuel s' (pieces.eraseP (fits s))

def ChainTo : σ → List α → σ → Prop
  | s, [], t => t = s
  | s, a :: as, t => fits s a = true ∧ ∃ s', apply s a = .ok s' ∧ ChainTo s' as t

variable {fits apply} {s t : σ} {pieces rest : List α} {a : α}

theorem eraseP_perm (h : pieces.find? (fits s) = some a) : (a :: pieces.eraseP (fits s)).Perm pieces := by
  obtain ⟨hfits, before, after, rfl, hbefore⟩ := List.find?_eq_some_iff_append.1 h
  have hne : ∀ b ∈ before, ¬ fits s b = true := fun b hb => by simpa using hbefore b hb
  rw [List.eraseP_append_right _ hne, List.eraseP_cons_of_pos hfits]
  exact List.perm_middle.symm

theorem assemble_chain {fuel : Nat} (h : assemble fits apply fuel s pieces = .ok (t, rest)) :
    ∃ chain, (chain ++ rest).Perm pieces ∧ ChainTo fits apply s chain t := by
  induction fuel generalizing s pieces with
  | zero =>
    cases h
    exact ⟨[], .refl _, rfl⟩
  | succ fuel ih =>
    rw [assemble] at h
    split at h
    · cases h
      exact ⟨[], .refl _, rfl⟩
    · next a hfind =>
      split at h
      · cases h
      · next s' happly =>
        obtain ⟨chain, hperm, hchain⟩ := ih h
        refine ⟨a :: chain, (hperm.cons a).trans (eraseP_perm hfind), ?_, s', happly, hchain⟩
        exact List.find?_some hfind

/-- States move up, and a piece fits at its own height. -/
structure Climbs (fits : σ → α → Bool) (apply : σ → α → Except ε σ) (height : σ → Nat)
    (place : α → Nat) : Prop where
  up : ∀ s a s', apply s a = .ok s' → height s < height s'
  at_place : ∀ s a, fits s a = true → place a = height s

variable {height : σ → Nat} {place : α → Nat} {chain : List α}

theorem ChainTo.height_le (hclimbs : Climbs fits apply height place) (h : ChainTo fits apply s chain t) :
    ∀ a ∈ chain, height s ≤ place a := by
  induction chain generalizing s with
  | nil => simp
  | cons b bs ih =>
    obtain ⟨hfits, s', happly, hrest⟩ := h
    have hup := hclimbs.up s b s' happly
    rintro a ha
    rcases List.mem_cons.1 ha with rfl | ha
    · exact Nat.le_of_eq (hclimbs.at_place s a hfits).symm
    · exact Nat.le_trans (Nat.le_of_lt hup) (ih hrest a ha)

/-- Only the first piece of a chain fits where the chain starts. -/
theorem ChainTo.find (hclimbs : Climbs fits apply height place) {b : α} {bs : List α}
    (h : ChainTo fits apply s (b :: bs) t) (hperm : pieces.Perm (b :: bs)) :
    pieces.find? (fits s) = some b := by
  obtain ⟨hfits, s', happly, hrest⟩ := h
  cases hfind : pieces.find? (fits s) with
  | none => exact absurd hfits (List.find?_eq_none.1 hfind b (hperm.mem_iff.2 List.mem_cons_self))
  | some a =>
    have hmem : a ∈ b :: bs := hperm.mem_iff.1 (List.mem_of_find?_eq_some hfind)
    rcases List.mem_cons.1 hmem with rfl | hlater
    · rfl
    · have hplace := hclimbs.at_place s a (List.find?_some hfind)
      have hlow := hrest.height_le hclimbs a hlater
      have hup := hclimbs.up s b s' happly
      omega

theorem assemble_of_chain (hclimbs : Climbs fits apply height place) (h : ChainTo fits apply s chain t)
    (hperm : pieces.Perm chain) {fuel : Nat} (hfuel : pieces.length ≤ fuel) :
    assemble fits apply fuel s pieces = .ok (t, []) := by
  induction chain generalizing s pieces fuel with
  | nil =>
    cases h
    cases hperm.eq_nil
    cases fuel <;> rfl
  | cons b bs ih =>
    have hfind := h.find hclimbs hperm
    obtain ⟨-, s', happly, hrest⟩ := h
    have herase := eraseP_perm hfind
    have hlen := herase.length_eq
    obtain ⟨fuel, rfl⟩ : ∃ n, fuel = n + 1 := by
      rw [← hlen, List.length_cons] at hfuel
      exact ⟨fuel - 1, by omega⟩
    rw [assemble, hfind]
    simp only [happly]
    refine ih hrest ((herase.trans hperm).cons_inv) ?_
    rw [List.length_cons] at hlen
    omega

end

end CowStore.Lib
