import CowStore.Local.Segments

/-!
# Read plans

A read is resolved to a plan: the pieces of segments and of append logs that hold bytes
of the requested range, and zeroes between them.  The plan is then assembled in a buffer.
-/

namespace CowStore.Local

open Lib Object StorageError

inductive ReadSource
  | zero
  | segment (storageNode segmentId segmentOffset : Nat) (integrity : SegmentPayloadIntegrity)
  | appendRun (storageNode logId payloadOffset : Nat) (integrity : SegmentPayloadIntegrity)
  deriving DecidableEq, Repr

structure ReadExtent where
  outputOffset : Nat
  len : Nat
  source : ReadSource
  deriving DecidableEq, Repr

structure ReadPlan where
  logicalLen : Nat
  extents : List ReadExtent
  deriving DecidableEq, Repr

/-- The loop of `fromNonZeroExtents`: the output is filled up to `cursor`. -/
def fillZeroes (logicalLen : Nat) : Nat → List ReadExtent → Result (List ReadExtent)
  | cursor, [] =>
    return if cursor < logicalLen then [⟨cursor, logicalLen - cursor, .zero⟩] else []
  | cursor, extent :: rest => do
    failIf (extent.len = 0) (invalidArgument "read plan extent must not be empty")
    let stop ← checkedAdd extent.outputOffset extent.len
      (invalidArgument "read plan extent overflows")
    failIf (stop > logicalLen) (corrupt "read plan extent exceeds logical output length")
    failIf (extent.outputOffset < cursor)
      (corrupt "read plan contains overlapping non-zero extents")
    let rest ← fillZeroes logicalLen stop rest
    return (if extent.outputOffset > cursor then
      [⟨cursor, extent.outputOffset - cursor, .zero⟩] else []) ++ extent :: rest

def ReadPlan.fromNonZeroExtents (logicalLen : Nat) (extents : List ReadExtent) :
    Result ReadPlan := do
  let out ← fillZeroes logicalLen 0
    (extents.insertionSort (fun a b => a.outputOffset ≤ b.outputOffset))
  return ⟨logicalLen, out⟩

def copyExtent (readSource : ReadSource → Nat → Result (List UInt8)) (buf : List UInt8)
    (extent : ReadExtent) : Result (List UInt8) :=
  match extent.source with
  | .zero => return buf
  | source => do
    failIf (extent.outputOffset + extent.len > buf.length)
      (corrupt "read plan output range exceeds buffer")
    let bytes ← readSource source extent.len
    return splice buf extent.outputOffset bytes

def assembleReadPlan (readSource : ReadSource → Nat → Result (List UInt8)) (plan : ReadPlan)
    (bufLen : Nat) : Result (List UInt8) := do
  failIf (bufLen ≠ plan.logicalLen)
    (invalidArgument "read buffer length must match read plan length")
  plan.extents.foldlM (copyExtent readSource) (List.replicate bufLen 0)

/-! ## What a plan reads -/

def ReadExtent.Covers (e : ReadExtent) (p : Nat) : Prop :=
  e.outputOffset ≤ p ∧ p < e.outputOffset + e.len

instance (e : ReadExtent) (p : Nat) : Decidable (e.Covers p) :=
  inferInstanceAs (Decidable (_ ∧ _))

def ReadExtent.span (e : ReadExtent) : Span Unit := ⟨e.outputOffset, e.len, fun _ => ()⟩

/-- Filling the gaps of an ordered list of extents changes nothing of what it reads. -/
theorem fillZeroes_of_ordered {logicalLen cursor : Nat} {es : List ReadExtent}
    (hL : logicalLen < u64Bound) (hord : Ordered (es.map ReadExtent.span))
    (hin : ∀ e ∈ es, cursor ≤ e.outputOffset ∧ e.outputOffset + e.len ≤ logicalLen) :
    ∃ out, fillZeroes logicalLen cursor es = .ok out ∧ ∀ readSource buf,
      out.foldlM (copyExtent readSource) buf = es.foldlM (copyExtent readSource) buf := by
  induction es generalizing cursor with
  | nil =>
    refine ⟨_, rfl, fun readSource buf => ?_⟩
    split <;> rfl
  | cons e es ih =>
    obtain ⟨hpair, hpos⟩ := hord
    obtain ⟨hfirst, hpair⟩ := List.pairwise_cons.1 hpair
    obtain ⟨hcursor, hstop⟩ := hin e List.mem_cons_self
    have hlen : 0 < e.len := hpos e.span List.mem_cons_self
    obtain ⟨out, hout, hfold⟩ := @ih (e.outputOffset + e.len)
      ⟨hpair, fun s hs => hpos s (List.mem_cons_of_mem _ hs)⟩ fun x hx =>
        ⟨hfirst x.span (List.mem_map_of_mem hx), (hin x (List.mem_cons_of_mem e hx)).2⟩
    have hrun : fillZeroes logicalLen cursor (e :: es) = .ok ((if e.outputOffset > cursor then
        [⟨cursor, e.outputOffset - cursor, .zero⟩] else []) ++ e :: out) := by
      have h1 : ¬ e.len = 0 := by omega
      have h2 : ¬ e.outputOffset + e.len > logicalLen := by omega
      have h3 : ¬ e.outputOffset < cursor := by omega
      simp only [fillZeroes, failIf, if_neg h1, if_neg h2, if_neg h3, ok_bind, pure_eq_ok, hout,
        checkedAdd_of_lt (e := invalidArgument "read plan extent overflows")
          (show e.outputOffset + e.len < u64Bound by omega)]
    refine ⟨_, hrun, fun readSource buf => ?_⟩
    have hrest : (e :: out).foldlM (copyExtent readSource) buf =
        (e :: es).foldlM (copyExtent readSource) buf := by
      rw [List.foldlM_cons, List.foldlM_cons]
      exact bind_congr fun b => hfold readSource b
    split
    · exact hrest
    · exact hrest

/-- The source of the extent holds the bytes that `f` has there. -/
def Reads (readSource : ReadSource → Nat → Result (List UInt8)) (f : Nat → UInt8)
    (e : ReadExtent) : Prop :=
  ∃ bytes, readSource e.source e.len = .ok bytes ∧ bytes.length = e.len ∧
    ∀ j, j < e.len → bytes[j]? = some (f (e.outputOffset + j))

section

variable {readSource : ReadSource → Nat → Result (List UInt8)} {f : Nat → UInt8} {refused : Prop}

/-- The extents in a buffer: each shows its bytes, unless one of the sources refuses. -/
theorem foldlM_copyExtent {L : Nat} {es : List ReadExtent} {buf : List UInt8} (hbuf : buf.length = L)
    (hin : ∀ e ∈ es, e.source ≠ .zero ∧ e.outputOffset + e.len ≤ L) (hread : ∀ e ∈ es, Reads readSource f e ∨
      refused ∧ ∃ err, readSource e.source e.len = .error err) :
    (∃ out, es.foldlM (copyExtent readSource) buf = .ok out ∧ out.length = L ∧ ∀ p,
      out[p]? = if (∃ e ∈ es, e.Covers p) then some (f p) else buf[p]?) ∨
    refused ∧ ∃ err, es.foldlM (copyExtent readSource) buf = .error err := by
  induction es generalizing buf with
  | nil => exact .inl ⟨buf, rfl, hbuf, by simp⟩
  | cons e es ih =>
    obtain ⟨hsource, hstop⟩ := hin e List.mem_cons_self
    have hcopy : copyExtent readSource buf e =
        (readSource e.source e.len >>= fun bytes => .ok (splice buf e.outputOffset bytes)) := by
      unfold copyExtent
      split
      · next h => exact absurd h hsource
      · rw [failIf, if_neg (by omega), ok_bind]
        rfl
    rw [List.foldlM_cons, hcopy]
    rcases hread e List.mem_cons_self with ⟨bytes, hbytes, hlen, hval⟩ | ⟨href, err, herr⟩
    · rw [hbytes, ok_bind, ok_bind]
      have hfit : e.outputOffset + bytes.length ≤ buf.length := by omega
      rcases @ih (splice buf e.outputOffset bytes) (by rw [length_splice hfit, hbuf])
        (fun x hx => hin x (List.mem_cons_of_mem e hx))
        (fun x hx => hread x (List.mem_cons_of_mem e hx)) with ⟨out, hout, hlo, hp⟩ | h
      · refine .inl ⟨out, hout, hlo, fun p => ?_⟩
        rw [hp p, getElem?_splice hfit, hlen]
        by_cases hes : ∃ x ∈ es, x.Covers p
        · have : ∃ x ∈ e :: es, x.Covers p := hes.imp fun x h => ⟨List.mem_cons_of_mem e h.1, h.2⟩
          rw [if_pos hes, if_pos this]
        · rw [if_neg hes]
          by_cases hc : e.outputOffset ≤ p ∧ p < e.outputOffset + e.len
          · rw [if_pos hc, if_pos ⟨e, List.mem_cons_self, hc⟩]
            obtain ⟨h1, h2⟩ := hc
            rw [hval (p - e.outputOffset) (by omega), Nat.add_sub_cancel' h1]
          · rw [if_neg hc, if_neg]
            rintro ⟨x, hx, hxc⟩
            rcases List.mem_cons.1 hx with rfl | hx
            · exact hc hxc
            · exact hes ⟨x, hx, hxc⟩
      · exact .inr h
    · refine .inr ⟨href, err, ?_⟩
      rw [herr]
      rfl

/-- The bytes of `f`, unless the read is refused. -/
def Yields (x : Result (List UInt8)) (L : Nat) (f : Nat → UInt8) (refused : Prop) : Prop :=
  (∃ out, x = .ok out ∧ out.length = L ∧ ∀ p, p < L → out[p]? = some (f p)) ∨
    refused ∧ ∃ err, x = .error err

/-- A plan reads what its extents hold, and zeroes elsewhere. -/
theorem assemble_of_extents {L : Nat} {es : List ReadExtent} (hL : L < u64Bound)
    (hapart : (es.map ReadExtent.span).Pairwise Span.Apart)
    (hin : ∀ e ∈ es, e.source ≠ .zero ∧ 0 < e.len ∧ e.outputOffset + e.len ≤ L)
    (hread : ∀ e ∈ es, Reads readSource f e ∨ refused ∧ ∃ err, readSource e.source e.len = .error err)
    (hzero : ∀ p, p < L → (∀ e ∈ es, ¬ e.Covers p) → f p = 0) :
    Yields (ReadPlan.fromNonZeroExtents L es >>= fun plan => assembleReadPlan readSource plan L) L f
      refused := by
  have hperm := List.perm_insertionSort (fun a b : ReadExtent => a.outputOffset ≤ b.outputOffset) es
  generalize hsorted : es.insertionSort (fun a b : ReadExtent => a.outputOffset ≤ b.outputOffset) =
    sorted at hperm
  have hord : Ordered (sorted.map ReadExtent.span) := by
    refine ordered_of_sorted ?_ ?_ ?_
    · rw [List.pairwise_map, ← hsorted]
      exact List.pairwise_insertionSort _ es
    · rw [(hperm.map _).pairwise_iff (R := Span.Apart) (fun h => Or.symm h)]
      exact hapart
    · intro s hs
      obtain ⟨e, he, rfl⟩ := List.mem_map.1 hs
      exact (hin e (hperm.mem_iff.1 he)).2.1
  obtain ⟨out, hout, hfold⟩ := fillZeroes_of_ordered hL hord fun e he =>
    ⟨Nat.zero_le _, (hin e (hperm.mem_iff.1 he)).2.2⟩
  have hrun : (ReadPlan.fromNonZeroExtents L es >>= fun plan => assembleReadPlan readSource plan L) =
      sorted.foldlM (copyExtent readSource) (List.replicate L 0) := by
    rw [ReadPlan.fromNonZeroExtents, hsorted, hout, ok_bind, pure_eq_ok, ok_bind, assembleReadPlan,
      failIf, if_neg (by simp), ok_bind, hfold]
  rw [hrun]
  refine (foldlM_copyExtent List.length_replicate (fun e he => ?_) fun e he =>
    hread e (hperm.mem_iff.1 he)).imp_left ?_
  · exact ⟨(hin e (hperm.mem_iff.1 he)).1, (hin e (hperm.mem_iff.1 he)).2.2⟩
  · rintro ⟨bytes, hbytes, hlen, hp⟩
    refine ⟨bytes, hbytes, hlen, fun p hlt => ?_⟩
    rw [hp p]
    split
    · rfl
    · next hno =>
      rw [hzero p hlt fun e he hc => hno ⟨e, hperm.mem_iff.2 he, hc⟩, List.getElem?_replicate,
        if_pos hlt]

end

end CowStore.Local
