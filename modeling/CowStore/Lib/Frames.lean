import CowStore.Lib.Codec

/-!
# Framed logs

A log is a byte buffer to which frames are appended.  A reader takes one frame at a
time with `next`, which reports that no complete frame is left, or an error.
`Framing` is what a reader needs of its frames: a frame is read back whatever
follows it, and a strict prefix of a frame reads as the end of the log.  Under it
`load_append` says what a loader returns on frames followed by a torn one.
-/

namespace CowStore.Lib

variable {ε α : Type}

/-- Read frames until none is left.  The number bounds the rounds; the length of the
buffer is always enough, since a frame is not empty. -/
def loadFrames (next : List UInt8 → Except ε (Option (α × List UInt8))) :
    Nat → List UInt8 → Except ε (List α)
  | 0, _ => .ok []
  | n + 1, bs => do
    match ← next bs with
    | none => return []
    | some (a, rest) => return a :: (← loadFrames next n rest)

/-- `next` reads back the frames of the values that meet `ok`, and takes a torn frame
for the end. -/
structure Framing (next : List UInt8 → Except ε (Option (α × List UInt8)))
    (frame : α → List UInt8) (ok : α → Prop) : Prop where
  complete : ∀ a, ok a → ∀ rest, next (frame a ++ rest) = .ok (some (a, rest))
  torn : ∀ a, ok a → ∀ k < (frame a).length, next ((frame a).take k) = .ok none
  nonempty : ∀ a, ok a → 0 < (frame a).length

namespace Framing

variable {next : List UInt8 → Except ε (Option (α × List UInt8))} {frame : α → List UInt8}
  {ok : α → Prop}

variable {as : List α}

theorem length_le_flatMap (h : Framing next frame ok) (hok : ∀ a ∈ as, ok a) :
    as.length ≤ (as.flatMap frame).length := by
  induction as with
  | nil => simp
  | cons a as ih =>
    have ha := h.nonempty a (hok a List.mem_cons_self)
    have := ih fun b hb => hok b (List.mem_cons_of_mem a hb)
    simp only [List.flatMap_cons, List.length_append, List.length_cons]
    omega

theorem load_of_fuel (h : Framing next frame ok) {tail : List UInt8} (htail : next tail = .ok none)
    (hok : ∀ a ∈ as, ok a) {n : Nat} (hn : as.length < n) :
    loadFrames next n (as.flatMap frame ++ tail) = .ok as := by
  induction as generalizing n with
  | nil =>
    obtain ⟨m, rfl⟩ : ∃ m, n = m + 1 := ⟨n - 1, by simp at hn; omega⟩
    simp [loadFrames, htail, bind, Except.bind, pure, Except.pure]
  | cons a as ih =>
    obtain ⟨m, rfl⟩ : ∃ m, n = m + 1 := ⟨n - 1, by simp at hn; omega⟩
    have hrest := ih (fun b hb => hok b (List.mem_cons_of_mem a hb)) (n := m)
      (by simp at hn; omega)
    rw [List.flatMap_cons, List.append_assoc]
    simp only [loadFrames, h.complete a (hok a List.mem_cons_self), bind, Except.bind, hrest]
    rfl

/-- Loading the frames of `as` followed by a buffer that holds no complete frame. -/
theorem load_append (h : Framing next frame ok) {tail : List UInt8} (htail : next tail = .ok none)
    (hok : ∀ a ∈ as, ok a) :
    loadFrames next ((as.flatMap frame ++ tail).length + 1) (as.flatMap frame ++ tail) = .ok as := by
  refine h.load_of_fuel htail hok ?_
  have := h.length_le_flatMap hok
  simp only [List.length_append]
  omega

end Framing

end CowStore.Lib
