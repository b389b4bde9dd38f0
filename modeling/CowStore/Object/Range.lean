import CowStore.Base

/-!
# Block ranges, byte ranges and device shapes

A block range is a start and a number of blocks.  Every operation that needs its end
goes through `endExclusive`, which fails when the end does not fit a `u64`: an operation
that returned was given ranges that fit, and on ranges that fit the operations return
what they should.
-/

namespace CowStore.Object

open Lib

structure BlockRange where
  start : Nat
  blocks : Nat
  deriving DecidableEq, Repr

namespace BlockRange

def endExclusive (r : BlockRange) : Result Nat :=
  checkedAdd r.start r.blocks (.invalidArgument "block range overflows u64")

def validateNonEmpty (r : BlockRange) : Result Unit := do
  let _ ← r.endExclusive
  failIf (r.blocks = 0) (.invalidArgument "block range must contain at least one block")

def containsRange (r other : BlockRange) : Result Bool := do
  let selfEnd ← r.endExclusive
  let otherEnd ← other.endExclusive
  return decide (other.start ≥ r.start ∧ otherEnd ≤ selfEnd)

def overlaps (r other : BlockRange) : Result Bool := do
  let selfEnd ← r.endExclusive
  let otherEnd ← other.endExclusive
  if r.blocks = 0 ∨ other.blocks = 0 then
    return false
  else
    return decide (r.start < otherEnd ∧ other.start < selfEnd)

def intersection (r other : BlockRange) : Result (Option BlockRange) := do
  if ← r.overlaps other then
    let start := max r.start other.start
    let selfEnd ← r.endExclusive
    let otherEnd ← other.endExclusive
    return some ⟨start, min selfEnd otherEnd - start⟩
  else
    return none

/-- The end of the range, as a natural number. -/
def stop (r : BlockRange) : Nat := r.start + r.blocks

def Fits (r : BlockRange) : Prop := r.stop < u64Bound

def Meets (r other : BlockRange) : Prop :=
  (0 < r.blocks ∧ 0 < other.blocks) ∧ r.start < other.stop ∧ other.start < r.stop

def Covers (r other : BlockRange) : Prop := r.start ≤ other.start ∧ other.stop ≤ r.stop

def meet (r other : BlockRange) : BlockRange :=
  ⟨max r.start other.start, min r.stop other.stop - max r.start other.start⟩

instance (r other : BlockRange) : Decidable (r.Meets other) := inferInstanceAs (Decidable (_ ∧ _))
instance (r other : BlockRange) : Decidable (r.Covers other) := inferInstanceAs (Decidable (_ ∧ _))

variable {other r : BlockRange}

theorem meets_of_mem {i : Nat} (h : r.start ≤ i ∧ i < r.stop)
    (ho : other.start ≤ i ∧ i < other.stop) : r.Meets other := by
  unfold Meets stop at *
  omega

theorem stop_meet (h : r.Meets other) : (r.meet other).stop = min r.stop other.stop := by
  obtain ⟨⟨h1, h2⟩, h3, h4⟩ := h
  show max r.start other.start + (min r.stop other.stop - max r.start other.start) = _
  unfold stop at *
  omega

theorem endExclusive_eq_ok {n : Nat} : r.endExclusive = .ok n ↔ r.Fits ∧ n = r.stop := by
  constructor
  · intro h
    exact ⟨(checkedAdd_eq_ok h).2, (checkedAdd_eq_ok h).1⟩
  · rintro ⟨h, rfl⟩
    exact checkedAdd_of_lt h

theorem endExclusive_of_fits (h : r.Fits) : r.endExclusive = .ok r.stop :=
  endExclusive_eq_ok.2 ⟨h, rfl⟩

theorem validateNonEmpty_eq_ok {u : Unit} : r.validateNonEmpty = .ok u ↔ r.Fits ∧ 0 < r.blocks := by
  simp only [validateNonEmpty, bind_eq_ok, endExclusive_eq_ok, failIf_eq_ok]
  constructor
  · rintro ⟨n, ⟨hf, -⟩, hb⟩
    exact ⟨hf, Nat.pos_of_ne_zero hb⟩
  · rintro ⟨hf, hb⟩
    exact ⟨r.stop, ⟨hf, rfl⟩, Nat.ne_of_gt hb⟩

theorem overlaps_of_fits (h : r.Fits) (ho : other.Fits) :
    r.overlaps other = .ok (decide (r.Meets other)) := by
  rw [overlaps, endExclusive_of_fits h, endExclusive_of_fits ho, ok_bind, ok_bind]
  by_cases hb : r.blocks = 0 ∨ other.blocks = 0
  · rw [if_pos hb, decide_eq_false (by unfold Meets; omega)]
    rfl
  · rw [if_neg hb]
    refine congrArg _ (decide_eq_decide.2 ?_)
    unfold Meets
    omega

theorem overlaps_eq_ok {b : Bool} :
    r.overlaps other = .ok b ↔ (r.Fits ∧ other.Fits) ∧ b = decide (r.Meets other) := by
  constructor
  · intro h
    have hf : r.Fits ∧ other.Fits := by
      rw [overlaps] at h
      obtain ⟨n, hn, h⟩ := bind_eq_ok.1 h
      obtain ⟨m, hm, -⟩ := bind_eq_ok.1 h
      exact ⟨(endExclusive_eq_ok.1 hn).1, (endExclusive_eq_ok.1 hm).1⟩
    rw [overlaps_of_fits hf.1 hf.2] at h
    exact ⟨hf, (Except.ok.inj h).symm⟩
  · rintro ⟨⟨h, ho⟩, rfl⟩
    exact overlaps_of_fits h ho

theorem containsRange_eq_ok {b : Bool} :
    r.containsRange other = .ok b ↔ (r.Fits ∧ other.Fits) ∧ b = decide (r.Covers other) := by
  simp only [containsRange, bind_eq_ok, endExclusive_eq_ok, pure_eq_ok, Except.ok.injEq, Covers]
  constructor
  · rintro ⟨n, ⟨hr, rfl⟩, m, ⟨ho, rfl⟩, rfl⟩
    exact ⟨⟨hr, ho⟩, rfl⟩
  · rintro ⟨⟨hr, ho⟩, rfl⟩
    exact ⟨_, ⟨hr, rfl⟩, _, ⟨ho, rfl⟩, rfl⟩

theorem covers_meet (h : r.Meets other) : r.Covers (r.meet other) := by
  obtain ⟨-, h1, h2⟩ := h
  have hr : r.stop = r.start + r.blocks := rfl
  have ho : other.stop = other.start + other.blocks := rfl
  refine ⟨le_max_left _ _, ?_⟩
  show max r.start other.start + (min r.stop other.stop - max r.start other.start) ≤ r.stop
  omega

theorem intersection_of_fits (h : r.Fits) (ho : other.Fits) :
    r.intersection other = .ok (if r.Meets other then some (r.meet other) else none) := by
  rw [intersection, overlaps_of_fits h ho, ok_bind]
  by_cases hm : r.Meets other
  · simp [hm, endExclusive_of_fits h, endExclusive_of_fits ho, meet]
  · simp [hm]

theorem intersection_eq_ok {o : Option BlockRange} : r.intersection other = .ok o ↔
      (r.Fits ∧ other.Fits) ∧ o = if r.Meets other then some (r.meet other) else none := by
  constructor
  · intro h
    have hf : r.Fits ∧ other.Fits := by
      rw [intersection] at h
      obtain ⟨b, hb, -⟩ := bind_eq_ok.1 h
      exact (overlaps_eq_ok.1 hb).1
    rw [intersection_of_fits hf.1 hf.2] at h
    exact ⟨hf, (Except.ok.inj h).symm⟩
  · rintro ⟨⟨h, ho⟩, rfl⟩
    exact intersection_of_fits h ho

end BlockRange

structure DeviceSpec where
  logicalBlocks : Nat
  blockSize : Nat
  deriving DecidableEq, Repr

namespace DeviceSpec

def validate (spec : DeviceSpec) : Result Unit := do
  failIf (spec.logicalBlocks = 0) (.invalidArgument "logical_blocks must be greater than zero")
  failIf (spec.blockSize = 0) (.invalidArgument "block_size must be greater than zero")
  failIf (¬ spec.blockSize.isPowerOfTwo) (.invalidArgument "block_size must be a power of two")

def logicalBytes (spec : DeviceSpec) : Result Nat := do
  spec.validate
  checkedMul spec.logicalBlocks spec.blockSize (.invalidArgument "device byte size overflows u64")

end DeviceSpec

structure ByteRange where
  offset : Nat
  len : Nat
  deriving DecidableEq, Repr

namespace ByteRange

def endExclusive (r : ByteRange) : Result Nat :=
  checkedAdd r.offset r.len (.invalidArgument "byte range overflows u64")

def isAlignedTo (r : ByteRange) (blockSize : Nat) : Bool :=
  decide (blockSize ≠ 0 ∧ r.offset % blockSize = 0 ∧ r.len % blockSize = 0)

def validateForDevice (r : ByteRange) (spec : DeviceSpec) : Result Unit := do
  spec.validate
  failIf (¬ r.isAlignedTo spec.blockSize)
    (.invalidArgument "range offset and length must be block aligned")
  let stop ← r.endExclusive
  let bytes ← spec.logicalBytes
  failIf (stop > bytes) (.invalidArgument "range extends past end of device")

def stop (r : ByteRange) : Nat := r.offset + r.len

theorem endExclusive_eq_ok {r : ByteRange} {n : Nat} :
    r.endExclusive = .ok n ↔ r.stop < u64Bound ∧ n = r.stop := by
  constructor
  · intro h
    exact ⟨(checkedAdd_eq_ok h).2, (checkedAdd_eq_ok h).1⟩
  · rintro ⟨h, rfl⟩
    exact checkedAdd_of_lt h

end ByteRange

variable {spec : DeviceSpec}

theorem DeviceSpec.validate_eq_ok {u : Unit} (h : spec.validate = .ok u) :
    0 < spec.logicalBlocks ∧ 0 < spec.blockSize := by
  obtain ⟨⟨⟩, h1, h⟩ := bind_eq_ok.1 h
  obtain ⟨⟨⟩, h2, -⟩ := bind_eq_ok.1 h
  rw [failIf_eq_ok] at h1 h2
  omega

/-- A range of a device: whole blocks inside of it, and a device whose bytes are counted by
a `u64`. -/
structure ByteRange.InDevice (r : ByteRange) (spec : DeviceSpec) : Prop where
  blockSize_pos : 0 < spec.blockSize
  offset_dvd : spec.blockSize ∣ r.offset
  len_dvd : spec.blockSize ∣ r.len
  stop_le : r.stop ≤ spec.logicalBlocks * spec.blockSize
  bytes_lt : spec.logicalBlocks * spec.blockSize < u64Bound

theorem ByteRange.inDevice_of_validate {r : ByteRange} {u : Unit}
    (h : r.validateForDevice spec = .ok u) : r.InDevice spec := by
  obtain ⟨⟨⟩, hspec, ⟨⟩, haligned, h⟩ := bind2_eq_ok.1 h
  obtain ⟨stop, hstop, bytes, hbytes, h⟩ := bind2_eq_ok.1 h
  obtain ⟨⟨⟩, -, hbytes⟩ := bind_eq_ok.1 hbytes
  obtain ⟨rfl, hlt⟩ := checkedMul_eq_ok hbytes
  obtain ⟨-, rfl⟩ := ByteRange.endExclusive_eq_ok.1 hstop
  rw [failIf_eq_ok] at haligned h
  simp only [ByteRange.isAlignedTo, decide_eq_true_eq, not_not] at haligned
  exact ⟨(DeviceSpec.validate_eq_ok hspec).2, Nat.dvd_of_mod_eq_zero haligned.2.1,
    Nat.dvd_of_mod_eq_zero haligned.2.2, Nat.le_of_not_lt h, hlt⟩

theorem ByteRange.validate_of_inDevice {r : ByteRange} (hspec : spec.validate = .ok ())
    (h : r.InDevice spec) : r.validateForDevice spec = .ok () := by
  have haligned : r.isAlignedTo spec.blockSize = true := decide_eq_true
    ⟨h.blockSize_pos.ne', Nat.mod_eq_zero_of_dvd h.offset_dvd, Nat.mod_eq_zero_of_dvd h.len_dvd⟩
  have hstop : r.endExclusive = .ok r.stop :=
    ByteRange.endExclusive_eq_ok.2 ⟨Nat.lt_of_le_of_lt h.stop_le h.bytes_lt, rfl⟩
  have hbytes : spec.logicalBytes = .ok (spec.logicalBlocks * spec.blockSize) := by
    rw [DeviceSpec.logicalBytes, hspec, ok_bind, checkedMul_of_lt h.bytes_lt]
  rw [validateForDevice, hspec, ok_bind, haligned, hstop, ok_bind, hbytes, ok_bind]
  simp [failIf, h.stop_le]

end CowStore.Object
