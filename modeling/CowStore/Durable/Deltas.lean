import CowStore.Lib.Run
import CowStore.Local.File

/-!
# Selecting pending deltas

Commits that are not durable yet are pending as deltas, those of block devices and those of
files in a list each.  Before a persist, deltas are selected from the one after the durable
watermark on: by loops over one of the lists, sorted by commit sequence, which differ in where
they stop, or by a loop over the sequences that looks into both lists.
-/

namespace CowStore.Durable.Deltas

open Lib Local StorageError

section

variable {δ : Type} (seq : δ → Nat)

def sortBySeq (pending : List δ) : List δ := pending.insertionSort (fun a b => seq a ≤ seq b)

/-- The loop over the sorted deltas.  Nothing where it leaves the function without a selection;
otherwise what it has selected, and the sequence that it expects next. -/
def collect (overflow : StorageError) (ready : δ → Bool) (target : Nat) :
    Nat → List δ → Result (Option (List δ × Nat))
  | next, [] => return some ([], next)
  | next, delta :: rest =>
    if seq delta < next then collect overflow ready target next rest
    else if seq delta > target then return some ([], next)
    else if seq delta ≠ next then return none
    else if ¬ ready delta then return some ([], next)
    else do
      let following ← checkedAdd next 1 overflow
      let tail ← collect overflow ready target following rest
      return tail.map fun tail => (delta :: tail.1, tail.2)

def selectSorted (overflow : StorageError) (ready : δ → Bool) (use : List δ → Nat → Bool)
    (pending : List δ) (durableThrough target : Nat) : Result (Option (List δ)) := do
  if durableThrough ≥ target then
    return some []
  else
    let next ← checkedAdd durableThrough 1 overflow
    match ← collect seq overflow ready target next (sortBySeq seq pending) with
    | none => return none
    | some (selected, next) => return if use selected next then some selected else none

def reached (target next : Nat) : Bool := next = min (target + 1) (u64Bound - 1)

def bySeq (pending : List δ) (commitSeq : Nat) : Option δ :=
  pending.reverse.find? fun delta => seq delta = commitSeq

/-- The loop over the sequences.  It ends at a sequence of the other kind and at a gap, and
after `count` sequences, at the target. -/
def takeRun (mine : Nat → Option δ) (other : Nat → Bool) : Nat → Nat → Result (List δ)
  | 0, _ => return []
  | count + 1, commitSeq =>
    if other commitSeq then return []
    else match mine commitSeq with
      | none => return []
      | some delta => do
        let following ← checkedAdd commitSeq 1 (conflict "compact delta sequence overflows")
        let rest ← takeRun mine other count following
        return delta :: rest

end

inductive DeltaKind
  | block
  | nativeFile
  deriving DecidableEq, Repr

namespace DeltaKind

abbrev Commit : DeltaKind → Type
  | block => BlockDeltaCommit
  | nativeFile => NativeFileDeltaCommit

def seq : (kind : DeltaKind) → kind.Commit → Nat
  | block, delta => delta.commitSeq
  | nativeFile, delta => delta.commitSeq

def other : DeltaKind → DeltaKind
  | block => nativeFile
  | nativeFile => block

end DeltaKind

structure PendingDeltas where
  blocks : List BlockDeltaCommit
  natives : List NativeFileDeltaCommit
  deriving DecidableEq, Repr

def PendingDeltas.of (p : PendingDeltas) : (kind : DeltaKind) → List kind.Commit
  | .block => p.blocks
  | .nativeFile => p.natives

abbrev Selection := Σ kind : DeltaKind, List kind.Commit

def blockOverflow : StorageError := conflict "durable block delta sequence overflows"

def contiguousPendingBlockDeltas (pending : List BlockDeltaCommit) :
    Nat → Nat → Result (Option (List BlockDeltaCommit)) := fun durableThrough target =>
  selectSorted DeltaKind.block.seq blockOverflow (fun _ => true) (fun _ next => reached target next)
    pending durableThrough target

/-- It stops at a delta that is being prestaged, and what it has by then is enough. -/
def readyContiguousPendingBlockDeltas (inFlight : List Nat) (pending : List BlockDeltaCommit) :
    Nat → Nat → Result (Option (List BlockDeltaCommit)) := fun durableThrough target =>
  selectSorted DeltaKind.block.seq blockOverflow (fun delta => !inFlight.contains delta.commitSeq)
    (fun selected next => !selected.isEmpty || reached target next) pending durableThrough target

def contiguousPendingNativeFileDeltas (pending : List NativeFileDeltaCommit) :
    Nat → Nat → Result (Option (List NativeFileDeltaCommit)) := fun durableThrough target =>
  selectSorted DeltaKind.nativeFile.seq (conflict "durable native file delta sequence overflows")
    (fun _ => true) (fun _ next => reached target next) pending durableThrough target

def PendingDeltas.has (p : PendingDeltas) (kind : DeltaKind) (commitSeq : Nat) : Bool :=
  (bySeq kind.seq (p.of kind) commitSeq).isSome

/-- The loop of one of the kinds, which ends where the other one has a delta. -/
def PendingDeltas.compactRun (p : PendingDeltas) (kind : DeltaKind) (next target : Nat) :
    Result (Option Selection) := do
  let deltas ← takeRun (bySeq kind.seq (p.of kind)) (p.has kind.other) (target + 1 - next) next
  return some ⟨kind, deltas⟩

def pendingCompactDeltaRun (p : PendingDeltas) (durableThrough target : Nat) :
    Result (Option Selection) := do
  if durableThrough ≥ target then
    return none
  else
    let next ← checkedAdd durableThrough 1 (conflict "compact delta sequence overflows")
    failIf (p.has .block next ∧ p.has .nativeFile next)
      (corrupt "pending compact deltas share a commit sequence")
    if p.has .block next then p.compactRun .block next target
    else if p.has .nativeFile next then p.compactRun .nativeFile next target
    else return none

/-! ## The loops -/

/-- Deltas of `pending` with consecutive sequences after `durableThrough`, up to the target. -/
structure Consecutive {δ : Type} (seq : δ → Nat) (pending : List δ) (durableThrough target : Nat)
    (selected : List δ) : Prop where
  seqs : selected.map seq = List.range' (durableThrough + 1) selected.length
  mem : ∀ delta ∈ selected, delta ∈ pending ∧ seq delta ≤ target

section

variable {δ : Type} {seq : δ → Nat} {overflow : StorageError} {ready : δ → Bool} {target next : Nat}

theorem Consecutive.nil (pending : List δ) (durableThrough target : Nat) :
    Consecutive seq pending durableThrough target [] := ⟨rfl, by simp⟩

variable {pending selected : List δ} {durableThrough : Nat}

theorem Consecutive.cons {delta : δ} (hdelta : delta ∈ pending) (hseq : seq delta = next + 1)
    (hle : next + 1 ≤ target) (h : Consecutive seq pending (next + 1) target selected) :
    Consecutive seq pending next target (delta :: selected) := by
  refine ⟨?_, List.forall_mem_cons.2 ⟨⟨hdelta, hseq.trans_le hle⟩, h.mem⟩⟩
  rw [List.map_cons, List.length_cons, List.range'_succ, hseq, h.seqs]

theorem Consecutive.mono {pending' : List δ} (h : Consecutive seq pending durableThrough target selected)
    (hsub : ∀ delta ∈ pending, delta ∈ pending') : Consecutive seq pending' durableThrough target selected :=
  ⟨h.seqs, fun delta hdelta => ⟨hsub delta (h.mem delta hdelta).1, (h.mem delta hdelta).2⟩⟩

theorem collect_consecutive {xs : List δ} {last : Nat}
    (h : collect seq overflow ready target (next + 1) xs = .ok (some (selected, last))) :
    Consecutive seq xs next target selected := by
  induction xs generalizing next selected last with
  | nil =>
    cases h
    exact .nil _ _ _
  | cons delta rest ih =>
    have htail : ∀ {d sel}, Consecutive seq rest d target sel →
        Consecutive seq (delta :: rest) d target sel := fun h =>
      h.mono fun _ => List.mem_cons_of_mem delta
    rw [collect] at h
    split at h
    · exact htail (ih h)
    · split at h
      · cases h
        exact .nil _ _ _
      · next hle =>
        split at h
        · cases h
        · next heq =>
          split at h
          · cases h
            exact .nil _ _ _
          · obtain ⟨following, hfollowing, tail, htail', h⟩ := bind2_eq_ok.1 h
            obtain ⟨rfl, -⟩ := checkedAdd_eq_ok hfollowing
            cases tail with
            | none => cases h
            | some tail =>
              cases h
              have heq : seq delta = next + 1 := not_not.1 heq
              exact Consecutive.cons List.mem_cons_self heq (by omega) (htail (ih htail'))

theorem collect_complete (htarget : target + 1 < u64Bound) {xs : List δ}
    (hsorted : xs.Pairwise fun a b => seq a < seq b) (hnext : next ≤ target)
    (hcover : ∀ q, next < q → q ≤ target → ∃ delta ∈ xs, seq delta = q)
    (hready : ∀ delta ∈ xs, next < seq delta → seq delta ≤ target → ready delta = true) :
    ∃ selected, collect seq overflow ready target (next + 1) xs = .ok (some (selected, target + 1)) ∧
      selected.length = target - next := by
  induction xs generalizing next with
  | nil =>
    have heq : next = target := by
      by_contra hne
      obtain ⟨_, hmem, -⟩ := hcover target (by omega) le_rfl
      cases hmem
    subst heq
    exact ⟨[], rfl, by simp⟩
  | cons delta rest ih =>
    obtain ⟨hafter, hsorted⟩ := List.pairwise_cons.1 hsorted
    have hrest : ∀ q, seq delta < q → next < q → q ≤ target → ∃ x ∈ rest, seq x = q := by
      intro q hdelta hq hqt
      obtain ⟨x, hx, rfl⟩ := hcover q hq hqt
      exact ⟨x, (List.mem_cons.1 hx).resolve_left fun h => by simp [h] at hdelta, rfl⟩
    rw [collect]
    by_cases hold : seq delta < next + 1
    · rw [if_pos hold]
      exact ih hsorted hnext (fun q hq => hrest q (by omega) hq) fun x hx =>
        hready x (List.mem_cons_of_mem delta hx)
    · rw [if_neg hold]
      -- the first sequence after `next` is that of `delta`, or there is none up to the target
      have hfirst : next < target → seq delta = next + 1 := by
        intro hlt
        obtain ⟨x, hx, hxs⟩ := hcover (next + 1) (by omega) hlt
        rcases List.mem_cons.1 hx with rfl | hx
        · exact hxs
        · have hlt := hafter x hx
          omega
      by_cases hlt : next < target
      · have hseq := hfirst hlt
        rw [if_neg (by omega), if_neg (by omega), if_neg (by
          rw [hready delta List.mem_cons_self (by omega) (by omega)]
          simp), checkedAdd_of_lt (by omega), ok_bind]
        obtain ⟨selected, hselected, hlength⟩ := @ih (next + 1) hsorted hlt
          (fun q hq => hrest q (by omega) (by omega))
          fun x hx hx1 => hready x (List.mem_cons_of_mem delta hx) (by omega)
        rw [hselected]
        exact ⟨delta :: selected, rfl, by rw [List.length_cons, hlength]; omega⟩
      · have heq : next = target := by omega
        subst heq
        rw [if_pos (by omega)]
        exact ⟨[], rfl, by simp⟩

theorem selectSorted_consecutive {use : List δ → Nat → Bool}
    (h : selectSorted seq overflow ready use pending durableThrough target = .ok (some selected)) :
    Consecutive seq pending durableThrough target selected := by
  rw [selectSorted] at h
  split at h
  · cases h
    exact .nil _ _ _
  · obtain ⟨-, h⟩ := bind_checkedAdd h
    obtain ⟨o, ho, h⟩ := bind_eq_ok.1 h
    cases o with
    | none => cases h
    | some found =>
      have hconsecutive := (collect_consecutive ho).mono fun delta hdelta =>
        (List.perm_insertionSort _ pending).mem_iff.1 hdelta
      have h := Except.ok.inj h
      split at h
      · cases h
        exact hconsecutive
      · cases h

theorem pairwise_sortBySeq (hnodup : (pending.map seq).Nodup) :
    (sortBySeq seq pending).Pairwise fun a b => seq a < seq b := by
  have hperm := List.perm_insertionSort (fun a b => seq a ≤ seq b) pending
  have hle : (sortBySeq seq pending).Pairwise fun a b => seq a ≤ seq b :=
    List.pairwise_insertionSort _ _
  have hne : (sortBySeq seq pending).Pairwise fun a b => seq a ≠ seq b :=
    List.pairwise_map.1 ((hperm.map seq).nodup_iff.2 hnodup)
  exact (hle.and hne).imp fun h => lt_of_le_of_ne h.1 h.2

theorem selectSorted_complete {use : List δ → Nat → Bool} (htarget : target + 1 < u64Bound)
    (huse : ∀ selected, use selected (target + 1) = true) (hnodup : (pending.map seq).Nodup)
    (hle : durableThrough ≤ target)
    (hcover : ∀ q, durableThrough < q → q ≤ target → ∃ delta ∈ pending, seq delta = q)
    (hready : ∀ delta ∈ pending, durableThrough < seq delta → seq delta ≤ target → ready delta = true) :
    ∃ selected, selectSorted seq overflow ready use pending durableThrough target =
      .ok (some selected) ∧ selected.length = target - durableThrough := by
  have hperm := List.perm_insertionSort (fun a b => seq a ≤ seq b) pending
  rw [selectSorted]
  split
  · next hge => exact ⟨[], rfl, by rw [List.length_nil]; omega⟩
  · obtain ⟨selected, hselected, hlength⟩ : ∃ selected,
        collect seq overflow ready target (durableThrough + 1) (sortBySeq seq pending) =
          .ok (some (selected, target + 1)) ∧ selected.length = target - durableThrough :=
      collect_complete htarget (pairwise_sortBySeq hnodup) hle
        (fun q hq hqt => (hcover q hq hqt).imp fun _ h => ⟨hperm.mem_iff.2 h.1, h.2⟩)
        fun delta hdelta => hready delta (hperm.mem_iff.1 hdelta)
    rw [checkedAdd_of_lt (by omega), ok_bind, hselected, ok_bind]
    simp only [huse]
    exact ⟨selected, rfl, hlength⟩

theorem bySeq_eq_some {commitSeq : Nat} {delta : δ} (h : bySeq seq pending commitSeq = some delta) :
    delta ∈ pending ∧ seq delta = commitSeq :=
  ⟨List.mem_reverse.1 (List.mem_of_find?_eq_some h), by simpa using List.find?_some h⟩

theorem bySeq_isSome {commitSeq : Nat} :
    (bySeq seq pending commitSeq).isSome = true ↔ ∃ delta ∈ pending, seq delta = commitSeq := by
  rw [bySeq, List.find?_isSome]
  simp

theorem takeRun_consecutive {other : Nat → Bool} {count : Nat} (hle : next + count ≤ target)
    (h : takeRun (bySeq seq pending) other count (next + 1) = .ok selected) :
    Consecutive seq pending next target selected := by
  induction count generalizing next selected with
  | zero =>
    cases h
    exact .nil _ _ _
  | succ count ih =>
    rw [takeRun] at h
    split at h
    · cases h
      exact .nil _ _ _
    · cases hmine : bySeq seq pending (next + 1) with
      | none =>
        rw [hmine] at h
        cases h
        exact .nil _ _ _
      | some delta =>
        rw [hmine] at h
        obtain ⟨following, hfollowing, htail⟩ := bind_eq_ok.1 h
        obtain ⟨rest, hrest, hselected⟩ := bind_eq_ok.1 htail
        obtain ⟨rfl, -⟩ := checkedAdd_eq_ok hfollowing
        cases hselected
        obtain ⟨hmem, hseq⟩ := bySeq_eq_some hmine
        exact Consecutive.cons hmem hseq (by omega) (ih (by omega) hrest)

/-- The loop takes as many deltas as there are up to the target before a gap. -/
theorem takeRun_complete {other : Nat → Bool} {count k : Nat} (hk : k ≤ count)
    (hfits : next + count + 1 < u64Bound)
    (hcover : ∀ q, next < q → q ≤ next + k → (∃ delta ∈ pending, seq delta = q) ∧ other q = false) :
    ∃ selected, takeRun (bySeq seq pending) other count (next + 1) = .ok selected ∧ k ≤ selected.length := by
  induction count generalizing next k with
  | zero => exact ⟨[], rfl, by omega⟩
  | succ count ih =>
    rw [takeRun]
    cases hother : other (next + 1) with
    | true =>
      refine ⟨[], rfl, ?_⟩
      by_contra hlt
      have hfalse := (hcover (next + 1) (by omega) (by simp at hlt; omega)).2
      cases hother.symm.trans hfalse
    | false =>
      rw [if_neg Bool.false_ne_true]
      cases hmine : bySeq seq pending (next + 1) with
      | none =>
        refine ⟨[], rfl, ?_⟩
        by_contra hlt
        have hsome := bySeq_isSome.2 (hcover (next + 1) (by omega) (by simp at hlt; omega)).1
        rw [hmine] at hsome
        cases hsome
      | some delta =>
        obtain ⟨rest, hrest, hlength⟩ := @ih (next + 1) (k - 1) (by omega) (by omega)
          fun q hq hqk => hcover q (by omega) (by omega)
        simp only
        rw [checkedAdd_of_lt (by omega), ok_bind, hrest, ok_bind]
        exact ⟨delta :: rest, rfl, by rw [List.length_cons]; omega⟩

end

/-! ## The selections -/

/-- The functions that select deltas.  One of them knows which commits are being prestaged. -/
inductive Selector
  | contiguousBlock
  | readyBlock (inFlight : List Nat)
  | contiguousNativeFile
  | compact
  deriving DecidableEq, Repr

/-- The function is one for deltas of the kind, and none of those up to the target is being
prestaged. -/
def Selector.Serves (durableThrough target : Nat) : Selector → DeltaKind → Prop
  | contiguousBlock, kind => kind = .block
  | readyBlock inFlight, kind => kind = .block ∧ ∀ q ∈ inFlight, ¬ (durableThrough < q ∧ q ≤ target)
  | contiguousNativeFile, kind => kind = .nativeFile
  | compact, _ => True

namespace PendingDeltas

variable (p : PendingDeltas)

/-- What a function selects; nothing of its kind where it has no selection. -/
def select (durableThrough target : Nat) : Selector → Result Selection
  | .contiguousBlock => do
    let selected ← contiguousPendingBlockDeltas p.blocks durableThrough target
    return ⟨.block, selected.getD []⟩
  | .readyBlock inFlight => do
    let selected ← readyContiguousPendingBlockDeltas inFlight p.blocks durableThrough target
    return ⟨.block, selected.getD []⟩
  | .contiguousNativeFile => do
    let selected ← contiguousPendingNativeFileDeltas p.natives durableThrough target
    return ⟨.nativeFile, selected.getD []⟩
  | .compact => do
    let run ← pendingCompactDeltaRun p durableThrough target
    return run.getD ⟨.block, []⟩

structure Distinct : Prop where
  nodup : ∀ kind : DeltaKind, ((p.of kind).map kind.seq).Nodup
  apart : ∀ (kind : DeltaKind), ∀ delta ∈ p.of kind, ∀ delta' ∈ p.of kind.other,
    kind.seq delta ≠ kind.other.seq delta'

/-- Deltas of one kind leave no gap from the durable watermark to the target. -/
def Covers (kind : DeltaKind) (durableThrough target : Nat) : Prop :=
  ∀ q, durableThrough < q → q ≤ target → ∃ delta ∈ p.of kind, kind.seq delta = q

def Selects (durableThrough target : Nat) (selection : Selection) : Prop :=
  Consecutive selection.1.seq (p.of selection.1) durableThrough target selection.2

end PendingDeltas

section

variable {p : PendingDeltas} {durableThrough target : Nat} {kind : DeltaKind}

theorem Consecutive.getD {δ : Type} {seq : δ → Nat} {pending : List δ} {o : Option (List δ)}
    (h : ∀ selected, o = some selected → Consecutive seq pending durableThrough target selected) :
    Consecutive seq pending durableThrough target (o.getD []) := by
  cases o with
  | none => exact .nil _ _ _
  | some selected => exact h selected rfl

theorem selects_of_compact {o : Option Selection}
    (h : pendingCompactDeltaRun p durableThrough target = .ok o) :
    p.Selects durableThrough target (o.getD ⟨.block, []⟩) := by
  have hrun : ∀ {kind}, p.compactRun kind (durableThrough + 1) target = .ok o →
      p.Selects durableThrough target (o.getD ⟨.block, []⟩) := by
    intro kind h
    obtain ⟨deltas, hdeltas, h⟩ := bind_eq_ok.1 h
    cases h
    rcases Nat.lt_or_ge durableThrough target with hlt | hge
    · exact takeRun_consecutive (by omega) hdeltas
    · have hcount : target + 1 - (durableThrough + 1) = 0 := by omega
      rw [hcount] at hdeltas
      cases hdeltas
      exact .nil _ _ _
  rw [pendingCompactDeltaRun] at h
  split at h
  · cases h
    exact .nil _ _ _
  · obtain ⟨-, h⟩ := bind_checkedAdd h
    obtain ⟨⟨⟩, -, h⟩ := bind_eq_ok.1 h
    split at h
    · exact hrun h
    · split at h
      · exact hrun h
      · cases h
        exact .nil _ _ _

theorem selects_of_select {sel : Selector} {selection : Selection}
    (h : p.select durableThrough target sel = .ok selection) : p.Selects durableThrough target selection := by
  cases sel with
  | contiguousBlock | readyBlock | contiguousNativeFile =>
    obtain ⟨o, ho, h⟩ := bind_eq_ok.1 h
    cases h
    exact Consecutive.getD fun selected hselected => selectSorted_consecutive (hselected ▸ ho)
  | compact =>
    obtain ⟨o, ho, h⟩ := bind_eq_ok.1 h
    cases h
    exact selects_of_compact ho

theorem has_iff {q : Nat} : p.has kind q = true ↔ ∃ delta ∈ p.of kind, kind.seq delta = q := bySeq_isSome

theorem PendingDeltas.Distinct.has_other (h : p.Distinct) {q : Nat}
    (hdelta : ∃ delta ∈ p.of kind, kind.seq delta = q) : p.has kind.other q = false := by
  obtain ⟨delta, hdelta, rfl⟩ := hdelta
  refine Bool.eq_false_iff.2 fun hsome => ?_
  obtain ⟨delta', hdelta', hseq⟩ := has_iff.1 hsome
  exact h.apart kind delta hdelta delta' hdelta' hseq.symm

/-- The run that looks into both lists takes as many deltas of the first one's kind as there are
before a gap. -/
theorem exists_compact (hdistinct : p.Distinct) (htarget : target + 1 < u64Bound) {k : Nat}
    (hcover : p.Covers kind durableThrough (durableThrough + k)) (hk : 0 < k)
    (hle : durableThrough + k ≤ target) :
    ∃ deltas, p.select durableThrough target .compact = .ok ⟨kind, deltas⟩ ∧ k ≤ deltas.length := by
  have hfirst := hcover (durableThrough + 1) (by omega) (by omega)
  have hhas : p.has kind (durableThrough + 1) = true := has_iff.2 hfirst
  have hother : p.has kind.other (durableThrough + 1) = false := hdistinct.has_other hfirst
  obtain ⟨deltas, hdeltas, hlength⟩ : ∃ deltas, takeRun (bySeq kind.seq (p.of kind))
      (p.has kind.other) (target + 1 - (durableThrough + 1)) (durableThrough + 1) = .ok deltas ∧
      k ≤ deltas.length :=
    takeRun_complete (by omega) (by omega) fun q hq hqk =>
      ⟨hcover q hq hqk, hdistinct.has_other (hcover q hq hqk)⟩
  have hrun : p.compactRun kind (durableThrough + 1) target = .ok (some ⟨kind, deltas⟩) := by
    rw [PendingDeltas.compactRun, hdeltas]
    rfl
  refine ⟨deltas, ?_, hlength⟩
  rw [PendingDeltas.select, pendingCompactDeltaRun, if_neg (by omega),
    checkedAdd_of_lt (by omega), ok_bind]
  cases kind with
  | block =>
    rw [(failIf_eq_ok (u := ())).2 (fun h => by cases hother.symm.trans h.2), ok_bind, if_pos hhas,
      hrun]
    rfl
  | nativeFile =>
    have hblock : ¬ p.has .block (durableThrough + 1) = true := Bool.eq_false_iff.1 hother
    rw [(failIf_eq_ok (u := ())).2 (fun h => hblock h.1), ok_bind, if_neg hblock, if_pos hhas, hrun]
    rfl

theorem exists_getD {x : Result (Option (List kind.Commit))} {n : Nat}
    (h : ∃ selected, x = .ok (some selected) ∧ selected.length = n) :
    ∃ deltas, (do
      let selected ← x
      return ⟨kind, selected.getD []⟩ : Result Selection) = .ok ⟨kind, deltas⟩ ∧
        n ≤ deltas.length := by
  obtain ⟨selected, rfl, rfl⟩ := h
  exact ⟨selected, rfl, le_rfl⟩

theorem exists_select (hdistinct : p.Distinct) (htarget : target + 1 < u64Bound)
    (hlt : durableThrough < target) (hcover : p.Covers kind durableThrough target) {sel : Selector}
    (hserves : sel.Serves durableThrough target kind) :
    ∃ deltas, p.select durableThrough target sel = .ok ⟨kind, deltas⟩ ∧
      target - durableThrough ≤ deltas.length := by
  have hreached : reached target (target + 1) = true := by
    rw [reached, min_eq_left (by omega), decide_eq_true rfl]
  cases sel with
  | contiguousBlock =>
    cases hserves
    exact exists_getD (selectSorted_complete htarget (fun _ => hreached) (hdistinct.nodup .block)
      hlt.le hcover fun _ _ _ _ => rfl)
  | readyBlock inFlight =>
    obtain ⟨rfl, hready⟩ := hserves
    refine exists_getD (selectSorted_complete htarget (fun selected => ?_) (hdistinct.nodup .block)
      hlt.le hcover fun delta _ hd ht => ?_)
    · rw [hreached, Bool.or_true]
    · have hnot : delta.commitSeq ∉ inFlight := fun hmem => hready _ hmem ⟨hd, ht⟩
      simpa using hnot
  | contiguousNativeFile =>
    cases hserves
    exact exists_getD (selectSorted_complete htarget (fun _ => hreached)
      (hdistinct.nodup .nativeFile) hlt.le hcover fun _ _ _ _ => rfl)
  | compact =>
    have hcover : p.Covers kind durableThrough (durableThrough + (target - durableThrough)) := by
      rwa [Nat.add_sub_cancel' hlt.le]
    exact exists_compact hdistinct htarget hcover (by omega) (by omega)

theorem Consecutive.mem_iff {δ : Type} {seq : δ → Nat} {pending selected : List δ}
    (hnodup : (pending.map seq).Nodup) (h : Consecutive seq pending durableThrough target selected)
    (hlength : target - durableThrough ≤ selected.length) (delta : δ) :
    delta ∈ selected ↔ delta ∈ pending ∧ durableThrough < seq delta ∧ seq delta ≤ target := by
  have hseqs : ∀ q, q ∈ selected.map seq ↔
      durableThrough + 1 ≤ q ∧ q < durableThrough + 1 + selected.length := by
    intro q
    rw [h.seqs, List.mem_range'_1]
  constructor
  · intro hdelta
    have hrange := (hseqs _).1 (List.mem_map_of_mem hdelta)
    exact ⟨(h.mem delta hdelta).1, by omega, (h.mem delta hdelta).2⟩
  · rintro ⟨hmem, hlt, hle⟩
    obtain ⟨delta', hdelta', hseq⟩ := List.mem_map.1 ((hseqs _).2 ⟨hlt, by omega⟩)
    rwa [← List.inj_on_of_nodup_map hnodup (h.mem delta' hdelta').1 hmem hseq]

end

/-! ## Persisting one selection after another -/

abbrev Delta := Σ kind : DeltaKind, kind.Commit

def Delta.seq (delta : Delta) : Nat := delta.1.seq delta.2

def Selection.deltas (selection : Selection) : List Delta := selection.2.map (Sigma.mk selection.1)

namespace PendingDeltas

variable (p : PendingDeltas)

def Has (delta : Delta) : Prop := delta.2 ∈ p.of delta.1

/-- `prune_pending_block_deltas_through` and its sibling for files. -/
def prune (durableThrough : Nat) : DeltaKind → PendingDeltas
  | .block => { p with blocks := p.blocks.filter (durableThrough < ·.commitSeq) }
  | .nativeFile => { p with natives := p.natives.filter (durableThrough < ·.commitSeq) }

end PendingDeltas

structure State where
  durableThrough : Nat
  pending : PendingDeltas
  written : List Delta

def highWater (deltas : List Delta) : Nat := (deltas.map Delta.seq).foldr max 0

/-- What is selected is written.  A batch that is expanded before it is written is the selection of
the function that expands it. -/
def State.persist (s : State) (sel : Selector) (target : Nat) : Result State := do
  let selection ← s.pending.select s.durableThrough target sel
  if selection.deltas = [] then
    return s
  else
    let high := highWater selection.deltas
    return ⟨max s.durableThrough high, s.pending.prune high selection.1, s.written ++ selection.deltas⟩

def step (s : State) (turn : Selector × Nat) : Option State := (s.persist turn.1 turn.2).toOption

section

variable {p : PendingDeltas} {start target : Nat} {s s' : State} {sel : Selector}

theorem PendingDeltas.Distinct.inj (h : p.Distinct) {delta delta' : Delta} (hdelta : p.Has delta)
    (hdelta' : p.Has delta') (hseq : delta.seq = delta'.seq) : delta = delta' := by
  obtain ⟨kind, delta⟩ := delta
  obtain ⟨kind', delta'⟩ := delta'
  by_cases hkind : kind' = kind
  · subst hkind
    exact congrArg (Sigma.mk kind') (List.inj_on_of_nodup_map (h.nodup kind') hdelta hdelta' hseq)
  · obtain rfl : kind' = kind.other := by
      cases kind <;> cases kind' <;> first | rfl | exact absurd rfl hkind
    exact absurd hseq (h.apart kind delta hdelta delta' hdelta')

theorem PendingDeltas.prune_of (p : PendingDeltas) (durableThrough : Nat) (pruned kind : DeltaKind) :
    (p.prune durableThrough pruned).of kind = if kind = pruned then
      (p.of kind).filter (durableThrough < kind.seq ·) else p.of kind := by
  cases pruned <;> cases kind <;> rfl

theorem foldr_max_range' (a n : Nat) : (List.range' a (n + 1)).foldr max 0 = a + n := by
  induction n generalizing a with
  | zero => exact Nat.max_zero a
  | succ n ih =>
    rw [List.range'_succ, List.foldr_cons, ih]
    omega

theorem PendingDeltas.Selects.seqs {durableThrough : Nat} {selection : Selection}
    (h : p.Selects durableThrough target selection) :
    selection.deltas.map Delta.seq = List.range' (durableThrough + 1) selection.deltas.length := by
  rw [Selection.deltas, List.map_map, List.length_map]
  exact Consecutive.seqs h

/-- A persist that writes: deltas that are pending, consecutive after the watermark. -/
theorem persist_cases (h : s.persist sel target = .ok s') : ∃ selection,
    s.pending.select s.durableThrough target sel = .ok selection ∧
    s.pending.Selects s.durableThrough target selection ∧
    s'.durableThrough = s.durableThrough + selection.deltas.length ∧
    s'.written = s.written ++ selection.deltas ∧
    ∀ kind : DeltaKind, (s'.pending.of kind).Sublist (s.pending.of kind) ∧
      ∀ delta ∈ s.pending.of kind, s'.durableThrough < kind.seq delta → delta ∈ s'.pending.of kind := by
  obtain ⟨selection, hselect, h⟩ := bind_eq_ok.1 h
  have hselects := selects_of_select hselect
  refine ⟨selection, hselect, hselects, ?_⟩
  split at h
  · next hnil =>
    cases h
    rw [hnil, List.append_nil]
    exact ⟨rfl, rfl, fun kind => ⟨List.Sublist.refl _, fun delta hdelta _ => hdelta⟩⟩
  · next hne =>
    have hhigh : highWater selection.deltas = s.durableThrough + selection.deltas.length := by
      obtain ⟨n, hn⟩ := Nat.exists_eq_succ_of_ne_zero (List.length_pos_iff.2 hne).ne'
      rw [highWater, hselects.seqs, hn, foldr_max_range']
      omega
    cases h
    rw [hhigh, Nat.max_eq_right (Nat.le_add_right _ _)]
    refine ⟨rfl, rfl, fun kind => ?_⟩
    rw [PendingDeltas.prune_of]
    split
    · exact ⟨List.filter_sublist, fun delta hdelta hlt =>
        List.mem_filter.2 ⟨hdelta, decide_eq_true hlt⟩⟩
    · exact ⟨List.Sublist.refl _, fun delta hdelta _ => hdelta⟩

/-- What has been written are the deltas that were pending, up to the watermark and in the order
of the commits; the others are still pending. -/
structure Persisted (p : PendingDeltas) (start : Nat) (s : State) : Prop where
  le : start ≤ s.durableThrough
  seqs : s.written.map Delta.seq = List.range' (start + 1) (s.durableThrough - start)
  mem : ∀ delta ∈ s.written, p.Has delta
  pending : ∀ kind, (s.pending.of kind).Sublist (p.of kind)
  left : ∀ kind : DeltaKind, ∀ delta ∈ p.of kind, s.durableThrough < kind.seq delta →
    delta ∈ s.pending.of kind

theorem Persisted.persist (h : Persisted p start s) (hs : s.persist sel target = .ok s') :
    Persisted p start s' := by
  obtain ⟨selection, -, hselects, hdurable, hwritten, hpending⟩ := persist_cases hs
  have hle := h.le
  refine ⟨by omega, ?_, fun delta hdelta => ?_, fun kind => (hpending kind).1.trans (h.pending kind),
    fun kind delta hdelta hlt => ?_⟩
  · have hstart : s.durableThrough + 1 = start + 1 + (s.durableThrough - start) := by omega
    have hcount : s.durableThrough - start + selection.deltas.length =
        s'.durableThrough - start := by omega
    rw [hwritten, List.map_append, h.seqs, hselects.seqs, hstart, List.range'_append_1, hcount]
  · rw [hwritten] at hdelta
    rcases List.mem_append.1 hdelta with hdelta | hdelta
    · exact h.mem delta hdelta
    · obtain ⟨delta, hselected, rfl⟩ := List.mem_map.1 hdelta
      exact (h.pending selection.1).subset (hselects.mem delta hselected).1
  · exact (hpending kind).2 delta (h.left kind delta hdelta (by omega)) hlt

theorem persisted_afterTurns (p : PendingDeltas) (start : Nat) (turns : List (Selector × Nat)) :
    Persisted p start (afterTurns step ⟨start, p, []⟩ turns) := by
  refine afterTurns_invariant ?_ (fun s turn s' h hs => ?_) turns
  · exact ⟨le_rfl, by simp, by simp, fun _ => List.Sublist.refl _, fun _ _ hdelta _ => hdelta⟩
  · rw [step] at hs
    cases hpersist : s.persist turn.1 turn.2 with
    | error e => simp [hpersist, Except.toOption] at hs
    | ok next =>
      rw [hpersist] at hs
      cases hs
      exact h.persist hpersist

instance : (kind : DeltaKind) → DecidableEq kind.Commit
  | .block => inferInstanceAs (DecidableEq BlockDeltaCommit)
  | .nativeFile => inferInstanceAs (DecidableEq NativeFileDeltaCommit)

/-- Each delta up to the watermark has been written once, the others not at all. -/
theorem Persisted.count (hdistinct : p.Distinct) (h : Persisted p start s) {delta : Delta}
    (hdelta : p.Has delta) : s.written.count delta =
      if start < delta.seq ∧ delta.seq ≤ s.durableThrough then 1 else 0 := by
  have hle := h.le
  have hseqs : ∀ q, q ∈ s.written.map Delta.seq ↔
      start + 1 ≤ q ∧ q < start + 1 + (s.durableThrough - start) := by
    intro q
    rw [h.seqs, List.mem_range'_1]
  have hnodup : s.written.Nodup := by
    refine List.Nodup.of_map Delta.seq ?_
    rw [h.seqs]
    exact List.nodup_range'
  split
  · next hrange =>
    obtain ⟨delta', hdelta', hseq⟩ := List.mem_map.1 ((hseqs _).2 ⟨hrange.1, by omega⟩)
    refine List.count_eq_one_of_mem hnodup ?_
    rwa [← hdistinct.inj (h.mem delta' hdelta') hdelta hseq]
  · next hrange =>
    refine List.count_eq_zero.2 fun hmem => hrange ?_
    have hseq := (hseqs _).1 (List.mem_map_of_mem hmem)
    omega

/-- A persist of the run that looks into both lists moves the watermark while deltas are left. -/
theorem Persisted.advance (hdistinct : p.Distinct) (h : Persisted p start s) (htarget : target + 1 < u64Bound)
    (hcover : ∀ q, start < q → q ≤ target → ∃ delta, p.Has delta ∧ delta.seq = q)
    (hlt : s.durableThrough < target) :
    ∃ s', s.persist .compact target = .ok s' ∧ s.durableThrough + 1 ≤ s'.durableThrough := by
  have hpending : s.pending.Distinct :=
    ⟨fun kind => ((h.pending kind).map kind.seq).nodup (hdistinct.nodup kind),
      fun kind delta hdelta delta' hdelta' => hdistinct.apart kind delta
        ((h.pending kind).subset hdelta) delta' ((h.pending kind.other).subset hdelta')⟩
  have hle := h.le
  obtain ⟨⟨kind, delta⟩, hdelta, hseq⟩ := hcover (s.durableThrough + 1) (by omega) hlt
  have hseq : kind.seq delta = s.durableThrough + 1 := hseq
  have hfirst : s.pending.Covers kind s.durableThrough (s.durableThrough + 1) := fun q hq hq1 =>
    ⟨delta, h.left kind delta hdelta (by omega), by omega⟩
  obtain ⟨deltas, hselect, hlength⟩ := exists_compact hpending htarget hfirst Nat.one_pos hlt
  obtain ⟨s', hs'⟩ : ∃ s', s.persist .compact target = .ok s' := by
    rw [State.persist, hselect, ok_bind]
    split <;> exact ⟨_, rfl⟩
  obtain ⟨selection, hselection, -, hdurable, -⟩ := persist_cases hs'
  cases hselect.symm.trans hselection
  refine ⟨s', hs', ?_⟩
  rw [hdurable, Selection.deltas, List.length_map]
  exact Nat.add_le_add_left hlength _

theorem Persisted.le_afterTurns (hdistinct : p.Distinct) (h : Persisted p start s)
    (htarget : target + 1 < u64Bound)
    (hcover : ∀ q, start < q → q ≤ target → ∃ delta, p.Has delta ∧ delta.seq = q) (n : Nat) :
    min target (s.durableThrough + n) ≤
      (afterTurns step s (List.replicate n (.compact, target))).durableThrough := by
  induction n generalizing s with
  | zero => exact min_le_right _ _
  | succ n ih =>
    rw [List.replicate_succ, afterTurns_cons, step]
    cases hs : s.persist .compact target with
    | error e =>
      rcases Nat.lt_or_ge s.durableThrough target with hlt | hge
      · obtain ⟨s', hs', -⟩ := h.advance hdistinct htarget hcover hlt
        cases hs.symm.trans hs'
      · have hle := ih h
        show _ ≤ (afterTurns step s _).durableThrough
        omega
    | ok s' =>
      have hgrows : min target (s.durableThrough + (n + 1)) ≤ min target (s'.durableThrough + n) := by
        rcases Nat.lt_or_ge s.durableThrough target with hlt | hge
        · obtain ⟨s2, hs2, hnext⟩ := h.advance hdistinct htarget hcover hlt
          cases hs.symm.trans hs2
          omega
        · obtain ⟨_, -, -, hdurable, -⟩ := persist_cases hs
          omega
      exact hgrows.trans (ih (h.persist hs))

end

/-- Whatever function selects, it selects deltas of one kind with consecutive sequences after the
watermark, up to the target; a function for a kind whose deltas leave no gap up to a target before
the last sequence selects exactly these.  Persists, in any order and by any functions, write each
pending delta up to the watermark once and in the order of the commits, and as many persists as
there are sequences reach the target when no sequence is missing. -/
theorem selections_contiguous (p : PendingDeltas) (hdistinct : p.Distinct) (durableThrough target : Nat) :
    (∀ sel selection, p.select durableThrough target sel = .ok selection →
      p.Selects durableThrough target selection) ∧
    (target + 1 < u64Bound → durableThrough < target →
      ∀ kind, p.Covers kind durableThrough target →
      ∀ sel : Selector, sel.Serves durableThrough target kind →
        ∃ deltas, p.select durableThrough target sel = .ok ⟨kind, deltas⟩ ∧
          ∀ delta, delta ∈ deltas ↔ delta ∈ p.of kind ∧
            durableThrough < kind.seq delta ∧ kind.seq delta ≤ target) ∧
    (∀ turns, Persisted p durableThrough (afterTurns step ⟨durableThrough, p, []⟩ turns) ∧
      ∀ delta, p.Has delta →
        (afterTurns step ⟨durableThrough, p, []⟩ turns).written.count delta =
          if durableThrough < delta.seq ∧
            delta.seq ≤ (afterTurns step ⟨durableThrough, p, []⟩ turns).durableThrough
          then 1 else 0) ∧
    (target + 1 < u64Bound →
      (∀ q, durableThrough < q → q ≤ target → ∃ delta, p.Has delta ∧ delta.seq = q) →
      target ≤ (afterTurns step ⟨durableThrough, p, []⟩
        (List.replicate (target - durableThrough) (.compact, target))).durableThrough) := by
  refine ⟨fun sel selection h => selects_of_select h,
    fun htarget hlt kind hcover sel hserves => ?_, fun turns => ?_, fun htarget hcover => ?_⟩
  · obtain ⟨deltas, hdeltas, hlength⟩ := exists_select hdistinct htarget hlt hcover hserves
    exact ⟨deltas, hdeltas, (selects_of_select hdeltas).mem_iff (hdistinct.nodup kind) hlength⟩
  · have hpersisted := persisted_afterTurns p durableThrough turns
    exact ⟨hpersisted, fun delta hdelta => hpersisted.count hdistinct hdelta⟩
  · have hle := (persisted_afterTurns p durableThrough []).le_afterTurns hdistinct htarget hcover
      (target - durableThrough)
    rw [afterTurns_nil, min_eq_left (by dsimp only; omega)] at hle
    exact hle

def threeRuns : PendingDeltas where
  blocks := [⟨1, 7, 1, 1, 4096, []⟩, ⟨1, 5, 1, 1, 4096, []⟩]
  natives := [⟨2, 3, 6, 1, 2, 0, 10, 1, 1, 10, []⟩]

theorem selections_contiguous_three_runs :
    threeRuns.Distinct ∧
      7 ≤ (afterTurns step ⟨4, threeRuns, []⟩ (List.replicate 3 (.compact, 7))).durableThrough := by
  have hdistinct : threeRuns.Distinct := by
    constructor
    · intro kind
      cases kind <;> decide
    · intro kind
      cases kind <;> decide
  refine ⟨hdistinct, (selections_contiguous threeRuns hdistinct 4 7).2.2.2 (by decide) ?_⟩
  intro q hq hq7
  obtain rfl | rfl | rfl : q = 5 ∨ q = 6 ∨ q = 7 := by omega
  · exact ⟨⟨.block, _⟩, List.mem_cons_of_mem _ List.mem_cons_self, rfl⟩
  · exact ⟨⟨.nativeFile, _⟩, List.mem_cons_self, rfl⟩
  · exact ⟨⟨.block, _⟩, List.mem_cons_self, rfl⟩

def lastDelta : PendingDeltas where
  blocks := [⟨1, u64Bound - 1, 1, 1, 4096, []⟩]
  natives := []

/-- Up to the last sequence nothing is selected: the loops overflow behind it. -/
theorem lastDelta_not_selected :
    lastDelta.Distinct ∧ lastDelta.Covers .block (u64Bound - 2) (u64Bound - 1) ∧
      lastDelta.select (u64Bound - 2) (u64Bound - 1) .contiguousBlock = .error blockOverflow ∧
      lastDelta.select (u64Bound - 2) (u64Bound - 1) (.readyBlock []) = .error blockOverflow ∧
      lastDelta.select (u64Bound - 2) (u64Bound - 1) .compact =
        .error (conflict "compact delta sequence overflows") := by
  refine ⟨⟨?_, ?_⟩, fun q hq hle => ⟨_, List.mem_singleton.2 rfl, ?_⟩, ?_, ?_, ?_⟩
  · intro kind
    cases kind <;> decide
  · intro kind
    cases kind <;> decide
  · show u64Bound - 1 = q
    omega
  · decide +kernel
  · decide +kernel
  · decide +kernel

end CowStore.Durable.Deltas
