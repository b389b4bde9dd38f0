import Mathlib.Data.List.Basic

/-!
# Minimising a trace by deletion

One pass over the trace tries to leave out each event in turn, and keeps the event where the rest
no longer reproduces.
-/

namespace CowStore.Sim

/-- The loop of `minimize_trace_by_deletion`; the predicate is a closure that may have effects. -/
def minimizeFrom {α : Type} {m : Type → Type} [Monad m] (stillReproduces : List α → m Bool)
    (candidate : List α) (index : Nat) : m (List α) := do
  if index < candidate.length then
    if ← stillReproduces (candidate.eraseIdx index) then
      minimizeFrom stillReproduces (candidate.eraseIdx index) index
    else
      minimizeFrom stillReproduces candidate (index + 1)
  else
    pure candidate
termination_by candidate.length - index
decreasing_by
  · rw [List.length_eraseIdx_of_lt ‹_›]
    omega
  · omega

def minimizeTraceByDeletion {α : Type} {m : Type → Type} [Monad m] (trace : List α)
    (stillReproduces : List α → m Bool) : m (List α) :=
  minimizeFrom stillReproduces trace 0

section

variable {α : Type} {p : List α → Bool}

/-- A pure predicate that writes down what it is called with. -/
def noted (p : List α → Bool) (attempt : List α) : StateM (List (List α)) Bool :=
  fun calls => (p attempt, attempt :: calls)

/-- One turn of the loop, with the events kept so far before those still to try. -/
theorem minimizeFrom_cons (kept rest : List α) (x : α) (calls : List (List α)) :
    (minimizeFrom (noted p) (kept ++ x :: rest) kept.length).run calls = if p (kept ++ rest) then
        (minimizeFrom (noted p) (kept ++ rest) kept.length).run ((kept ++ rest) :: calls)
      else (minimizeFrom (noted p) (kept ++ x :: rest) (kept.length + 1)).run ((kept ++ rest) :: calls) := by
  rw [minimizeFrom, if_pos (by simp), List.eraseIdx_append_of_length_le (Nat.le_refl _), Nat.sub_self,
    List.eraseIdx_cons_zero]
  split <;> next h => simp [noted, StateT.run, StateT.bind, bind, h]

/-- None of the events kept can be left out before the rest. -/
def Needed (p : List α → Bool) (kept rest : List α) : Prop :=
  ∀ xs, xs.Sublist kept → xs ≠ kept → p (xs ++ rest) = false

theorem Needed.keep {kept rest : List α} {x : α} (h : Needed p kept (x :: rest))
    (hmono : ∀ xs ys, xs.Sublist ys → p xs → p ys) (hx : p (kept ++ rest) = false) :
    Needed p (kept ++ [x]) rest := by
  intro xs hxs hne
  obtain ⟨ys, zs, rfl, hys, hzs⟩ := List.sublist_append_iff.1 hxs
  rcases List.sublist_singleton.1 hzs with rfl | rfl
  · refine Bool.eq_false_iff.2 fun hp => Bool.eq_false_iff.1 hx (hmono _ _ ?_ hp)
    simpa using hys.append_right rest
  · simpa using h ys hys fun heq => hne (by rw [heq])

/-- A run of the loop, by induction on the events still to try. -/
theorem minimizeFrom_run (rest : List α) : ∀ (kept : List α) (calls : List (List α)),
    p (kept ++ rest) → ∃ result calls',
      (minimizeFrom (noted p) (kept ++ rest) kept.length).run calls = (result, calls') ∧
      calls'.length = calls.length + rest.length ∧ result.Sublist (kept ++ rest) ∧ p result ∧
      ((∀ xs ys, xs.Sublist ys → p xs → p ys) → Needed p kept rest → Needed p result []) := by
  induction rest with
  | nil =>
    intro kept calls hp
    refine ⟨kept, calls, ?_, rfl, by simp, by simpa using hp, fun _ h => h⟩
    rw [minimizeFrom, if_neg (by simp), List.append_nil]
    rfl
  | cons x rest ih =>
    intro kept calls hp
    rw [minimizeFrom_cons]
    split
    · next h =>
      obtain ⟨result, calls', hrun, hcalls, hsub, hresult, hneeded⟩ := ih kept _ h
      refine ⟨result, calls', hrun, ?_, hsub.trans ?_, hresult, fun hmono hkept => ?_⟩
      · rw [hcalls, List.length_cons, List.length_cons]
        omega
      · exact (List.sublist_cons_self x rest).append_left kept
      · refine hneeded hmono fun xs hxs hne => Bool.eq_false_iff.2 fun hp => ?_
        have hmore := hmono _ _ ((List.sublist_cons_self x rest).append_left xs) hp
        exact Bool.eq_false_iff.1 (hkept xs hxs hne) hmore
    · next h =>
      obtain ⟨result, calls', hrun, hcalls, hsub, hresult, hneeded⟩ :=
        ih (kept ++ [x]) ((kept ++ rest) :: calls) (by simpa using hp)
      refine ⟨result, calls', by simpa using hrun, ?_, by simpa using hsub, hresult, ?_⟩
      · rw [hcalls, List.length_cons, List.length_cons]
        omega
      · exact fun hmono hkept => hneeded hmono (hkept.keep hmono (Bool.eq_false_iff.2 h))

/-- The predicate is called once for each event; the result reproduces, and nothing shorter does
where more events never hurt. -/
theorem minimizeTraceByDeletion_minimal (trace : List α) (h : p trace) : ∃ result calls,
    (minimizeTraceByDeletion trace (noted p)).run [] = (result, calls) ∧
    calls.length = trace.length ∧ result.Sublist trace ∧ p result ∧
    ((∀ xs ys, xs.Sublist ys → p xs → p ys) →
      ∀ xs, xs.Sublist result → xs ≠ result → p xs = false) := by
  obtain ⟨result, calls, hrun, hcalls, hsub, hresult, hneeded⟩ := minimizeFrom_run trace [] [] h
  refine ⟨result, calls, hrun, by simpa using hcalls, hsub, hresult, fun hmono xs hxs hne => ?_⟩
  have hempty : Needed p [] trace := fun xs hxs hne => absurd (List.sublist_nil.1 hxs) hne
  simpa using hneeded hmono hempty xs hxs hne

/-- A trace whose third event is enough. -/
theorem minimizeTraceByDeletion_minimal_contains : ∃ result calls,
    (minimizeTraceByDeletion [1, 2, 3, 4] (noted (·.contains 3))).run [] = (result, calls) ∧
    calls.length = 4 ∧ result.contains 3 := by
  obtain ⟨result, calls, hrun, hcalls, -, hresult, -⟩ :=
    minimizeTraceByDeletion_minimal [1, 2, 3, 4] (show List.contains [1, 2, 3, 4] 3 by decide)
  exact ⟨result, calls, hrun, hcalls, hresult⟩

end

end CowStore.Sim
