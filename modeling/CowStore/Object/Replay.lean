import CowStore.Lib.Assemble
import CowStore.Object.Run
import Mathlib.Data.List.Sort
import Mathlib.Data.Prod.Lex

/-!
# Replaying the visible publishes of a file

The records of a file may be found in any order.  Replay looks for the one that
starts where the file stands, applies it and goes on; it has to use up all of them.
Records advance the version of the file by one, so there is one order at most in
which they can be applied.
-/

namespace CowStore.Object

open Lib StorageError

structure ReplayedFile where
  writerEpoch : Nat
  fileVersion : Nat
  size : Nat
  commitSeq : Nat
  runExtents : List RunBackedFileExtent
  deriving DecidableEq, Repr

structure AppendVisiblePublishReplay where
  keyspaceId : Nat
  fileId : Nat
  baseWriterEpoch : Nat
  baseFileVersion : Nat
  baseSize : Nat
  baseCommitSeq : Nat
  latestWriterEpoch : Nat
  latestFileVersion : Nat
  latestSize : Nat
  latestCommitSeq : Nat
  runExtents : List RunBackedFileExtent
  deriving DecidableEq, Repr

def AppendVisiblePublish.replayKey (r : AppendVisiblePublish) : Nat ×ₗ Nat ×ₗ Nat ×ₗ Nat :=
  toLex (r.baseFileVersion, toLex (r.oldSize, toLex (r.newFileVersion, r.recordId)))

namespace ReplayedFile

def startsHere (file : ReplayedFile) (r : AppendVisiblePublish) : Bool :=
  r.baseFileVersion = file.fileVersion ∧ r.oldSize = file.size

def advance (file : ReplayedFile) (r : AppendVisiblePublish) : ReplayedFile where
  writerEpoch := max file.writerEpoch r.writerEpoch
  fileVersion := r.newFileVersion
  size := r.newSize
  commitSeq := r.commitSeq
  runExtents := file.runExtents ++ r.runExtents

def apply (keyspaceId fileId : Nat) (file : ReplayedFile) (r : AppendVisiblePublish) :
    Result ReplayedFile := do
  r.validateForReconstructedHead keyspaceId fileId file.fileVersion file.size file.commitSeq
  return file.advance r

end ReplayedFile

def replayAppendVisiblePublishesForFile (keyspaceId fileId baseWriterEpoch baseFileVersion baseSize
    baseCommitSeq : Nat) (records : List AppendVisiblePublish) : Result AppendVisiblePublishReplay := do
  let remaining := records.insertionSort fun a b => a.replayKey ≤ b.replayKey
  let (latest, remaining) ← assemble ReplayedFile.startsHere (ReplayedFile.apply keyspaceId fileId)
    remaining.length ⟨baseWriterEpoch, baseFileVersion, baseSize, baseCommitSeq, []⟩ remaining
  failIf (remaining ≠ []) (invalidArgument "append visible publish replay is not contiguous")
  return ⟨keyspaceId, fileId, baseWriterEpoch, baseFileVersion, baseSize, baseCommitSeq,
    latest.writerEpoch, latest.fileVersion, latest.size, latest.commitSeq, latest.runExtents⟩

/-! ## Records that follow each other -/

/-- The extents, one after the other, reach from `start` to `stop`. -/
def ExtentsCover : Nat → List RunBackedFileExtent → Nat → Prop
  | start, [], stop => stop = start
  | start, e :: es, stop => e.fileOffsetStart = start ∧ 0 < e.payloadLen ∧
      ExtentsCover (start + e.payloadLen) es stop

theorem extentsCover_append {start mid stop : Nat} {es fs : List RunBackedFileExtent}
    (h : ExtentsCover start es mid) (h' : ExtentsCover mid fs stop) : ExtentsCover start (es ++ fs) stop := by
  induction es generalizing start with
  | nil =>
    cases h
    exact h'
  | cons e es ih => exact ⟨h.1, h.2.1, ih h.2.2⟩

theorem ite_throw_bind_eq_ok {α : Type} {c : Prop} [Decidable c] {e : StorageError} {f : Unit → Result α}
    {a : α} : (if c then (throw e : Result Unit) >>= f else f ()) = .ok a ↔ ¬ c ∧ f () = .ok a := by
  split
  · next hc => exact ⟨fun h => (nomatch h), fun h => absurd hc h.1⟩
  · next hc => exact ⟨fun h => ⟨hc, h⟩, fun h => h.2⟩

theorem ite_throw_eq_ok {c : Prop} [Decidable c] {e : StorageError} {u : Unit} :
    (if c then throw e else pure () : Result Unit) = .ok u ↔ ¬ c := by
  split
  · next hc => exact ⟨fun h => (nomatch h), fun h => absurd hc h⟩
  · next hc => exact ⟨fun _ => hc, fun _ => rfl⟩

namespace AppendVisiblePublish

variable {r : AppendVisiblePublish}

theorem validateExtents_cover {es : List RunBackedFileExtent} {start stop : Nat}
    (h : r.validateExtents start es = .ok stop) : ExtentsCover start es stop := by
  induction es generalizing start with
  | nil =>
    cases h
    rfl
  | cons e es ih =>
    simp only [validateExtents, bind_eq_ok, ite_throw_bind_eq_ok] at h
    obtain ⟨⟨⟩, hvalid, hstart, -, next, hnext, -, h⟩ := h
    obtain ⟨hrun, -, hlen⟩ := RunBackedFileExtent.validate_eq_ok.1 hvalid
    have hpos := (AppendLogRunRange.validate_eq_ok.1 hrun).1
    obtain ⟨rfl, -⟩ := checkedAdd_eq_ok hnext
    exact ⟨not_not.1 hstart, hlen ▸ hpos, ih h⟩

structure Valid (r : AppendVisiblePublish) : Prop where
  version : r.newFileVersion = r.baseFileVersion + 1
  size : r.oldSize < r.newSize
  extents : ExtentsCover r.oldSize r.runExtents r.newSize

theorem valid_of_validate {u : Unit} (h : r.validate = .ok u) : r.Valid := by
  simp only [validate, bind_eq_ok, ite_throw_bind_eq_ok, ite_throw_eq_ok] at h
  obtain ⟨-, hsize, -, -, expected, hexpected, hversion, -, covered, hcovered, hend⟩ := h
  obtain ⟨rfl, -⟩ := checkedAdd_eq_ok hexpected
  have hend : covered = r.newSize := not_not.1 hend
  exact ⟨not_not.1 hversion, not_le.1 hsize, hend ▸ validateExtents_cover hcovered⟩

structure Continues (keyspaceId fileId : Nat) (file : ReplayedFile) (r : AppendVisiblePublish) : Prop where
  valid : r.validate = .ok ()
  ofKeyspace : r.keyspaceId = keyspaceId
  ofFile : r.fileId = fileId
  version : r.baseFileVersion = file.fileVersion
  size : r.oldSize = file.size
  commit : file.commitSeq < r.commitSeq

theorem validateForReconstructedHead_eq_ok {keyspaceId fileId : Nat} {file : ReplayedFile} {u : Unit} :
    r.validateForReconstructedHead keyspaceId fileId file.fileVersion file.size file.commitSeq = .ok u ↔
      Continues keyspaceId fileId file r := by
  simp only [validateForReconstructedHead, bind_eq_ok, ite_throw_bind_eq_ok, ite_throw_eq_ok, not_or,
    not_not, not_le]
  constructor
  · rintro ⟨⟨⟩, hvalid, ⟨hkeyspace, hfile, hversion, hsize⟩, hcommit⟩
    exact ⟨hvalid, hkeyspace, hfile, hversion, hsize, hcommit⟩
  · intro h
    exact ⟨(), h.valid, ⟨h.ofKeyspace, h.ofFile, h.version, h.size⟩, h.commit⟩

end AppendVisiblePublish

open AppendVisiblePublish ReplayedFile

def Chain (keyspaceId fileId : Nat) : ReplayedFile → List AppendVisiblePublish → Prop
  | _, [] => True
  | file, r :: rs => Continues keyspaceId fileId file r ∧ Chain keyspaceId fileId (file.advance r) rs

section

variable {keyspaceId fileId : Nat} {file file' : ReplayedFile} {r : AppendVisiblePublish}
  {ordered : List AppendVisiblePublish}

theorem apply_eq_ok : file.apply keyspaceId fileId r = .ok file' ↔
    Continues keyspaceId fileId file r ∧ file' = file.advance r := by
  rw [ReplayedFile.apply, bind_eq_ok]
  constructor
  · rintro ⟨⟨⟩, hvalid, h⟩
    cases h
    exact ⟨validateForReconstructedHead_eq_ok.1 hvalid, rfl⟩
  · rintro ⟨h, rfl⟩
    exact ⟨(), validateForReconstructedHead_eq_ok.2 h, rfl⟩

theorem startsHere_of_continues (h : Continues keyspaceId fileId file r) : file.startsHere r = true := by
  simp [ReplayedFile.startsHere, h.version, h.size]

theorem chainTo_iff : ChainTo startsHere (ReplayedFile.apply keyspaceId fileId) file ordered file' ↔
    Chain keyspaceId fileId file ordered ∧ file' = ordered.foldl advance file := by
  induction ordered generalizing file with
  | nil => exact ⟨fun h => ⟨trivial, h⟩, fun h => h.2⟩
  | cons r rs ih =>
    constructor
    · rintro ⟨-, next, hnext, hrest⟩
      obtain ⟨hcontinues, rfl⟩ := apply_eq_ok.1 hnext
      obtain ⟨hchain, hlast⟩ := ih.1 hrest
      exact ⟨⟨hcontinues, hchain⟩, hlast⟩
    · rintro ⟨⟨hcontinues, hchain⟩, hlast⟩
      exact ⟨startsHere_of_continues hcontinues, _, apply_eq_ok.2 ⟨hcontinues, rfl⟩, ih.2 ⟨hchain, hlast⟩⟩

/-- Versions go up, and a record starts from one of them. -/
theorem climbs : Climbs startsHere (ReplayedFile.apply keyspaceId fileId) (·.fileVersion)
    (·.baseFileVersion) where
  up file r file' h := by
    obtain ⟨hcontinues, rfl⟩ := apply_eq_ok.1 h
    have hversion := (valid_of_validate hcontinues.valid).version
    rw [hcontinues.version] at hversion
    show file.fileVersion < r.newFileVersion
    omega
  at_place file r h := by
    simp only [ReplayedFile.startsHere, decide_eq_true_eq] at h
    exact h.1

theorem Chain.cover (h : Chain keyspaceId fileId file ordered) {start : Nat}
    (hcover : ExtentsCover start file.runExtents file.size) :
    ExtentsCover start (ordered.foldl advance file).runExtents (ordered.foldl advance file).size := by
  induction ordered generalizing file with
  | nil => exact hcover
  | cons r rs ih =>
    obtain ⟨hcontinues, hchain⟩ := h
    have hextents := (valid_of_validate hcontinues.valid).extents
    rw [hcontinues.size] at hextents
    exact ih hchain (extentsCover_append hcover hextents)

end

section

variable {keyspaceId fileId writerEpoch version size commitSeq : Nat}
  {records ordered : List AppendVisiblePublish} {replay : AppendVisiblePublishReplay}

/-- The records of a chain are replayed in its order, however they are listed. -/
theorem replay_of_chain (hperm : ordered.Perm records)
    (h : Chain keyspaceId fileId ⟨writerEpoch, version, size, commitSeq, []⟩ ordered) :
    let latest := ordered.foldl advance ⟨writerEpoch, version, size, commitSeq, []⟩
    replayAppendVisiblePublishesForFile keyspaceId fileId writerEpoch version size commitSeq records =
      .ok ⟨keyspaceId, fileId, writerEpoch, version, size, commitSeq, latest.writerEpoch,
        latest.fileVersion, latest.size, latest.commitSeq, latest.runExtents⟩ := by
  have hsorted := (List.perm_insertionSort (fun a b : AppendVisiblePublish => a.replayKey ≤ b.replayKey)
    records).trans hperm.symm
  rw [replayAppendVisiblePublishesForFile,
    assemble_of_chain climbs (chainTo_iff.2 ⟨h, rfl⟩) hsorted le_rfl]
  rfl

theorem chain_of_replay
    (h : replayAppendVisiblePublishesForFile keyspaceId fileId writerEpoch version size commitSeq records =
      .ok replay) : ∃ ordered, ordered.Perm records ∧
      Chain keyspaceId fileId ⟨writerEpoch, version, size, commitSeq, []⟩ ordered := by
  obtain ⟨⟨latest, rest⟩, hassemble, h⟩ := bind_eq_ok.1 h
  obtain ⟨⟨⟩, hrest, -⟩ := bind_eq_ok.1 h
  obtain ⟨ordered, hperm, hchain⟩ := assemble_chain hassemble
  cases not_not.1 (failIf_eq_ok.1 hrest)
  rw [List.append_nil] at hperm
  exact ⟨ordered, hperm.trans (List.perm_insertionSort _ _), (chainTo_iff.1 hchain).1⟩

end

end CowStore.Object
