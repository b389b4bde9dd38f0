import CowStore.Lib.Fallible

/-!
# Searching a graph

The nodes of a graph may be missing: `next` gives the successors of those that are there.
A search with a stack fails at the first node that is missing, and otherwise has seen
exactly what can be reached.
-/

namespace CowStore.Lib

variable {V ε : Type}

/-! ## The search -/

section

variable [DecidableEq V] (next : V → Option (List V)) (missing : V → ε) (exhausted : ε)

/-- `seen` has been visited, and `stack` is still to be; `fuel` bounds the visits. -/
def search : Nat → List V → List V → Except ε (List V)
  | _, [], seen => .ok seen
  | 0, _ :: _, _ => .error exhausted
  | fuel + 1, v :: stack, seen =>
    if v ∈ seen then
      search fuel stack seen
    else
      match next v with
      | none => .error (missing v)
      | some ws => search fuel (ws ++ stack) (v :: seen)

/-- The successors of the nodes of `dom` that have not been seen. -/
def weight (dom seen : List V) : Nat :=
  ((dom.filter (· ∉ seen)).map fun v => ((next v).getD []).length).sum

end

end CowStore.Lib
