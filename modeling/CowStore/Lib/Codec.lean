import Mathlib.Data.List.Induction
import Mathlib.Tactic.Ring

/-!
# Byte codecs

Encoders return the bytes of a value; decoders consume a prefix of a buffer and can
fail.  The rule every round trip is built from is `Decodes`: a decoder run on the
encoding of a value, whatever follows it, returns the value and leaves what
follows.  It composes along the monad (`Decodes.bind`) and over length-prefixed
lists (`decodes_replicateM`).
-/

namespace CowStore.Lib

abbrev Decoder (ε α : Type) := StateT (List UInt8) (Except ε) α

/-- Big-endian bytes of the low `n` bytes of a number. -/
def beBytes : Nat → Nat → List UInt8
  | 0, _ => []
  | n + 1, v => UInt8.ofNat (v / 256 ^ n) :: beBytes n v

/-- The number a big-endian buffer stands for. -/
def beNat (bs : List UInt8) : Nat :=
  bs.foldl (fun acc b => acc * 256 + b.toNat) 0

@[simp] theorem length_beBytes (n v : Nat) : (beBytes n v).length = n := by
  induction n with
  | zero => rfl
  | succ n ih => simp [beBytes, ih]

theorem foldl_beBytes (n v acc : Nat) :
    (beBytes n v).foldl (fun acc b => acc * 256 + b.toNat) acc = acc * 256 ^ n + v % 256 ^ n := by
  induction n generalizing acc with
  | zero => simp [beBytes, Nat.mod_one]
  | succ n ih =>
    have hsplit : v % 256 ^ (n + 1) = v % 256 ^ n + 256 ^ n * (v / 256 ^ n % 256) := by
      rw [Nat.pow_succ, Nat.mod_mul]
    have hbyte : (UInt8.ofNat (v / 256 ^ n)).toNat = v / 256 ^ n % 256 := by simp
    rw [beBytes, List.foldl_cons, ih, hbyte, hsplit]
    ring

theorem beNat_beBytes (n v : Nat) : beNat (beBytes n v) = v % 256 ^ n := by
  rw [beNat, foldl_beBytes, Nat.zero_mul, Nat.zero_add]

theorem beNat_concat (bs : List UInt8) (b : UInt8) : beNat (bs ++ [b]) = beNat bs * 256 + b.toNat := by
  rw [beNat, List.foldl_append]
  rfl

theorem beNat_inj {bs cs : List UInt8} (hlen : bs.length = cs.length) (h : beNat bs = beNat cs) :
    bs = cs := by
  induction bs using List.reverseRecOn generalizing cs with
  | nil => exact (List.length_eq_zero_iff.1 hlen.symm).symm
  | append_singleton bs b ih =>
    obtain rfl | ⟨cs, c, rfl⟩ := cs.eq_nil_or_concat
    · simp at hlen
    have hb := b.toNat_lt
    have hc := c.toNat_lt
    rw [List.concat_eq_append] at h hlen ⊢
    rw [beNat_concat, beNat_concat] at h
    have hinit : bs = cs := ih (by simpa using hlen) (by omega)
    have hlast : b = c := UInt8.toNat_inj.1 (by omega)
    rw [hinit, hlast]

theorem beBytes_append_iff {n v w : Nat} {r s : List UInt8} (hv : v < 256 ^ n) (hw : w < 256 ^ n) :
    beBytes n v ++ r = beBytes n w ++ s ↔ v = w ∧ r = s := by
  constructor
  · intro h
    obtain ⟨hword, hrest⟩ := List.append_inj h (by simp)
    have hval := congrArg beNat hword
    rw [beNat_beBytes, beNat_beBytes, Nat.mod_eq_of_lt hv, Nat.mod_eq_of_lt hw] at hval
    exact ⟨hval, hrest⟩
  · rintro ⟨rfl, rfl⟩
    rfl

variable {ε α β : Type}

/-- Take `n` bytes, or fail when the buffer is shorter. -/
def takeBytes (short : ε) (n : Nat) : Decoder ε (List UInt8) := fun bs =>
  if bs.length < n then .error short else .ok (bs.take n, bs.drop n)

def beWord (short : ε) (n : Nat) : Decoder ε Nat := do
  let bs ← takeBytes short n
  return beNat bs

/-- On the buffer `bs`, followed by anything, `d` returns `a` and stops where `bs`
ends. -/
def Decodes (d : Decoder ε α) (bs : List UInt8) (a : α) : Prop :=
  ∀ rest, d.run (bs ++ rest) = .ok (a, rest)

namespace Decodes

theorem pure (a : α) : Decodes (Pure.pure a : Decoder ε α) [] a := fun _ => rfl

theorem bind {d : Decoder ε α} {f : α → Decoder ε β} {bs cs : List UInt8} {a : α} {b : β}
    (hd : Decodes d bs a) (hf : Decodes (f a) cs b) : Decodes (d >>= f) (bs ++ cs) b := by
  intro rest
  rw [StateT.run_bind, List.append_assoc, hd (cs ++ rest)]
  exact hf rest

/-- The rule in the form a decoder of many fields unfolds by. -/
theorem run_bind {d : Decoder ε α} {bs : List UInt8} {a : α} (hd : Decodes d bs a)
    (f : α → Decoder ε β) (rest : List UInt8) : (d >>= f).run (bs ++ rest) = (f a).run rest := by
  rw [StateT.run_bind, hd rest]
  rfl

end Decodes

theorem decodes_takeBytes (short : ε) (bs : List UInt8) : Decodes (takeBytes short bs.length) bs bs := by
  intro rest
  have hlen : ¬ (bs ++ rest).length < bs.length := by simp
  show (if (bs ++ rest).length < bs.length then _ else _) = _
  rw [if_neg hlen, List.take_left, List.drop_left]

theorem decodes_beWord (short : ε) {n v : Nat} (hv : v < 256 ^ n) :
    Decodes (beWord short n) (beBytes n v) v := by
  have htake := decodes_takeBytes short (beBytes n v)
  rw [length_beBytes] at htake
  have hval : beNat (beBytes n v) = v := by rw [beNat_beBytes, Nat.mod_eq_of_lt hv]
  have := htake.bind (f := fun bs => Pure.pure (beNat bs)) (Decodes.pure (beNat (beBytes n v)))
  rwa [List.append_nil, hval] at this

def replicateM (d : Decoder ε α) : Nat → Decoder ε (List α)
  | 0 => return []
  | n + 1 => do
    let a ← d
    let as ← replicateM d n
    return a :: as

theorem decodes_replicateM {d : Decoder ε α} {enc : α → List UInt8} {as : List α}
    (h : ∀ a ∈ as, Decodes d (enc a) a) : Decodes (replicateM d as.length) (as.flatMap enc) as := by
  induction as with
  | nil => exact Decodes.pure []
  | cons a as ih =>
    have hrest := ih fun b hb => h b (List.mem_cons_of_mem a hb)
    have hpure := Decodes.pure (ε := ε) (a :: as)
    have := (h a List.mem_cons_self).bind (f := fun a => do
      let as ← replicateM d as.length
      return a :: as) (hrest.bind (f := fun as => Pure.pure (a :: as)) hpure)
    simpa [List.flatMap_cons, replicateM] using this

end CowStore.Lib
