import CowStore.Lib.Fallible

/-!
# Timelines

The changes of a state are kept in a log, each under the number of its commit.  The state
at a commit is what the changes up to it make of the first state.  It is also what the
changes after an earlier commit make of the state there, so a log can be replayed from
any state that was kept.
-/

namespace CowStore.Lib

variable {ε S C κ : Type}

/-- The last of the elements with the greatest key. -/
def maxByKey [LinearOrder κ] (key : C → κ) : List C → Option C
  | [] => none
  | x :: xs =>
    match maxByKey key xs with
    | none => some x
    | some best => if key best < key x then some x else some best

theorem maxByKey_eq_none [LinearOrder κ] {key : C → κ} {xs : List C}
    (h : maxByKey key xs = none) : xs = [] := by
  cases xs with
  | nil => rfl
  | cons x xs =>
    rw [maxByKey] at h
    split at h
    · cases h
    · split at h <;> cases h

theorem maxByKey_eq_some [LinearOrder κ] {key : C → κ} {xs : List C} {a : C}
    (h : maxByKey key xs = some a) : a ∈ xs ∧ ∀ x ∈ xs, key x ≤ key a := by
  induction xs generalizing a with
  | nil => cases h
  | cons x xs ih =>
    rw [maxByKey] at h
    split at h
    · next hnone =>
      cases h
      rw [maxByKey_eq_none hnone]
      simp
    · next best hbest =>
      obtain ⟨hmem, hmax⟩ := ih hbest
      split at h
      · next hlt =>
        cases h
        refine ⟨List.mem_cons_self, List.forall_mem_cons.2 ⟨le_rfl, fun y hy => ?_⟩⟩
        exact (hmax y hy).trans hlt.le
      · next hge =>
        cases h
        exact ⟨List.mem_cons_of_mem x hmem, List.forall_mem_cons.2 ⟨not_lt.1 hge, hmax⟩⟩

/-! ## The state at a commit -/

section

variable (seq : C → Nat) (step : S → C → Except ε S)

def stateAt (first : S) (log : List C) (t : Nat) : Except ε S :=
  (log.filter fun c => seq c ≤ t).foldlM step first

variable {seq step}

variable {log : List C} {t t₀ : Nat} {first : S}

/-- A sorted log up to `t` is the log up to an earlier commit and the changes after it. -/
theorem filter_le_split (hlog : log.Pairwise fun a b => seq a ≤ seq b) (ht : t₀ ≤ t) :
    (log.filter fun c => seq c ≤ t) =
      (log.filter fun c => seq c ≤ t₀) ++ log.filter fun c => t₀ < seq c ∧ seq c ≤ t := by
  induction log with
  | nil => rfl
  | cons c log ih =>
    obtain ⟨hc, hlog⟩ := List.pairwise_cons.1 hlog
    by_cases h0 : seq c ≤ t₀
    · have h1 : seq c ≤ t := Nat.le_trans h0 ht
      simp [h0, h1, ih hlog, Nat.not_lt.2 h0]
    · have hnil : (log.filter fun c => seq c ≤ t₀) = [] := by
        refine List.filter_eq_nil_iff.2 fun d hd => ?_
        have := hc d hd
        simp only [decide_eq_true_eq]
        omega
      have ih := ih hlog
      rw [hnil, List.nil_append] at ih
      simp only [List.filter_cons, h0, hnil, ih, Nat.lt_of_not_le h0]
      simp

/-- The log may be replayed from any state that it has reached. -/
theorem stateAt_replay {s₀ : S} (hlog : log.Pairwise fun a b => seq a ≤ seq b) (ht : t₀ ≤ t)
    (h₀ : stateAt seq step first log t₀ = .ok s₀) :
    (log.filter fun c => t₀ < seq c ∧ seq c ≤ t).foldlM step s₀ = stateAt seq step first log t := by
  rw [stateAt, filter_le_split hlog ht, List.foldlM_append]
  unfold stateAt at h₀
  rw [h₀, ok_bind]

theorem stateAt_eq_of_none_between (ht : t₀ ≤ t) (h : ∀ c ∈ log, seq c ≤ t → seq c ≤ t₀) :
    stateAt seq step first log t = stateAt seq step first log t₀ := by
  unfold stateAt
  congr 1
  refine List.filter_congr fun c hc => ?_
  exact decide_eq_decide.2 ⟨h c hc, fun h => Nat.le_trans h ht⟩

theorem stateAt_append_of_lt {new : List C} (h : ∀ c ∈ new, t < seq c) :
    stateAt seq step first (log ++ new) t = stateAt seq step first log t := by
  unfold stateAt
  have hnil : (new.filter fun c => seq c ≤ t) = [] := by
    refine List.filter_eq_nil_iff.2 fun c hc => ?_
    have := h c hc
    simp only [decide_eq_true_eq]
    omega
  rw [List.filter_append, hnil, List.append_nil]

theorem stateAt_append_of_le {s : S} {new : List C} (hs : stateAt seq step first log t = .ok s)
    (h : ∀ c ∈ new, seq c ≤ t) : stateAt seq step first (log ++ new) t = new.foldlM step s := by
  unfold stateAt at hs ⊢
  rw [List.filter_append, List.foldlM_append, hs, ok_bind, List.filter_eq_self.2]
  simpa using h

end

end CowStore.Lib
