import CowStore.Lib.Fallible

/-!
# Errors, results and machine words
-/

namespace CowStore

inductive StorageError
  | invalidArgument (reason : String)
  | notFound (kind id : String)
  | conflict (reason : String)
  | unavailable (reason : String)
  | corrupt (reason : String)
  | unsupported (reason : String)
  deriving DecidableEq, Repr

abbrev Result (α : Type) := Except StorageError α

instance decidableEqExcept {ε α : Type} [DecidableEq ε] [DecidableEq α] : DecidableEq (Except ε α)
  | .ok a, .ok b => decidable_of_iff (a = b) ⟨congrArg _, fun h => Except.ok.inj h⟩
  | .error e, .error e' => decidable_of_iff (e = e') ⟨congrArg _, fun h => Except.error.inj h⟩
  | .ok _, .error _ => isFalse nofun
  | .error _, .ok _ => isFalse nofun

/-- Numbers of a machine type are naturals; `2 ^ 64` bounds a `u64`. -/
def u64Bound : Nat := 2 ^ 64

/-- Identifiers and a few counters are `u128`. -/
def u128Bound : Nat := 2 ^ 128

/-- `checked_add` on `u64`. -/
def checkedAdd (a b : Nat) (overflow : StorageError) : Result Nat :=
  if a + b < u64Bound then .ok (a + b) else .error overflow

variable {a b c : Nat} {e : StorageError}

theorem checkedAdd_eq_ok (h : checkedAdd a b e = .ok c) : c = a + b ∧ a + b < u64Bound := by
  unfold checkedAdd at h
  split at h
  · next hlt => exact ⟨(Except.ok.inj h).symm, hlt⟩
  · cases h

theorem bind_checkedAdd {α : Type} {f : Nat → Result α} {x : α}
    (h : (checkedAdd a b e >>= f) = .ok x) : a + b < u64Bound ∧ f (a + b) = .ok x := by
  obtain ⟨c, hc, h⟩ := Lib.bind_eq_ok.1 h
  obtain ⟨rfl, hlt⟩ := checkedAdd_eq_ok hc
  exact ⟨hlt, h⟩

def checkedMul (a b : Nat) (overflow : StorageError) : Result Nat :=
  if a * b < u64Bound then .ok (a * b) else .error overflow

theorem checkedMul_eq_ok (h : checkedMul a b e = .ok c) : c = a * b ∧ a * b < u64Bound := by
  unfold checkedMul at h
  split at h
  · next hlt => exact ⟨(Except.ok.inj h).symm, hlt⟩
  · cases h

theorem bind_checkedMul {α : Type} {f : Nat → Result α} {x : α}
    (h : (checkedMul a b e >>= f) = .ok x) : a * b < u64Bound ∧ f (a * b) = .ok x := by
  obtain ⟨c, hc, h⟩ := Lib.bind_eq_ok.1 h
  obtain ⟨rfl, hlt⟩ := checkedMul_eq_ok hc
  exact ⟨hlt, h⟩

def checkedSub (a b : Nat) (underflow : StorageError) : Result Nat :=
  if b ≤ a then .ok (a - b) else .error underflow

theorem checkedSub_eq_ok (h : checkedSub a b e = .ok c) : b ≤ a ∧ c = a - b := by
  unfold checkedSub at h
  split at h
  · next hle => exact ⟨hle, (Except.ok.inj h).symm⟩
  · cases h

def saturatingAdd (a b : Nat) : Nat := min (a + b) (u64Bound - 1)

theorem checkedAdd_of_lt (h : a + b < u64Bound) : checkedAdd a b e = .ok (a + b) := if_pos h

theorem checkedMul_of_lt (h : a * b < u64Bound) : checkedMul a b e = .ok (a * b) := if_pos h

theorem checkedSub_of_le (h : b ≤ a) : checkedSub a b e = .ok (a - b) := if_pos h

theorem avoids_checkedAdd {overflow : StorageError} (h : overflow ≠ e) :
    Lib.Avoids e (checkedAdd a b overflow) := by
  unfold checkedAdd
  split
  · exact Lib.avoids_ok _
  · exact fun h' => h (Except.error.inj h')

theorem avoids_checkedMul {overflow : StorageError} (h : overflow ≠ e) :
    Lib.Avoids e (checkedMul a b overflow) := by
  unfold checkedMul
  split
  · exact Lib.avoids_ok _
  · exact fun h' => h (Except.error.inj h')

end CowStore
