import CowStore.Local.StreamRuns

/-!
# Commits of files that race

A batch of writes and a publish of a stream commit a file under the lock of the metadata.
They let go of it, settle the streams of the file, and then read the head of the file again
to say under which version and sequence number they have committed.  Whoever commits the
same file in the meantime is read in their place.
-/

namespace CowStore.Local

open Lib Tree

/-- What a call commits, once the new tree is stored. -/
inductive FileCall
  | batch (keyspaceId fileId baseVersion oldRoot newRoot newSize : Nat)
  | publish (stream : AppendStream) (oldRoot newRoot publishThrough : Nat)
  deriving DecidableEq, Repr

namespace FileCall

def keyspaceId : FileCall → Nat
  | .batch keyspaceId .. => keyspaceId
  | .publish stream .. => stream.keyspaceId

def fileId : FileCall → Nat
  | .batch _ fileId .. => fileId
  | .publish stream .. => stream.fileId

def commit (config : LocalStoreConfig) : FileCall → MetadataOp CommitGroup
  | .batch keyspaceId fileId baseVersion oldRoot newRoot newSize =>
    publishFileRoot config keyspaceId (.fileVersion baseVersion) fileId oldRoot newRoot newSize
  | .publish stream oldRoot newRoot publishThrough =>
    publishFileRoot config stream.keyspaceId (.appendStream stream.streamId stream.writerEpoch)
      stream.fileId oldRoot newRoot publishThrough

def settle : FileCall → MetadataOp Unit
  | .batch keyspaceId fileId .. => invalidateAppendStreamsForFile keyspaceId fileId
  | .publish stream _ _ publishThrough => markAppendStreamPublished stream publishThrough

end FileCall

inductive CallPhase
  | committed
  | settled
  | answered (head : FileHead)
  deriving DecidableEq, Repr

structure CallState where
  call : FileCall
  row : FileCommit
  phase : CallPhase
  deriving DecidableEq, Repr

def CallState.Waits (c : CallState) : Prop := ∀ head, c.phase ≠ .answered head

structure FileRace where
  metadata : MetadataInner
  calls : Nat → Option CallState

inductive RaceLabel
  | commit (i : Nat) (call : FileCall)
  | settle (i : Nat)
  | answer (i : Nat)
  | other (metadata : MetadataInner)

/-- One of the calls goes on by what it does under the lock, or something else happens to the
metadata: trees are edited, streams are opened, publishes are planned and applied. -/
inductive FileRace.Step (config : LocalStoreConfig) : FileRace → RaceLabel → FileRace → Prop
  | commit {s : FileRace} {i : Nat} {call : FileCall} {group : CommitGroup} {m : MetadataInner}
      {row : FileCommit} (hnew : s.calls i = none) (h : call.commit config s.metadata = .ok group m)
      (hrow : m.fileCommits.getLast? = some row) :
      Step config s (.commit i call) ⟨m, Function.update s.calls i (some ⟨call, row, .committed⟩)⟩
  | settle {s : FileRace} {i : Nat} {call : FileCall} {row : FileCommit} {m : MetadataInner}
      (hcall : s.calls i = some ⟨call, row, .committed⟩) (h : call.settle s.metadata = .ok () m) :
      Step config s (.settle i) ⟨m, Function.update s.calls i (some ⟨call, row, .settled⟩)⟩
  | answer {s : FileRace} {i : Nat} {call : FileCall} {row : FileCommit} {head : FileHead}
      (hcall : s.calls i = some ⟨call, row, .settled⟩)
      (h : s.metadata.getFileHead call.keyspaceId call.fileId = .ok head) :
      Step config s (.answer i)
        ⟨s.metadata, Function.update s.calls i (some ⟨call, row, .answered head⟩)⟩
  | other {s : FileRace} {m : MetadataInner} (hgrounded : s.metadata.Grounded → m.Grounded)
      (hseq : s.metadata.nextCommitSeq ≤ m.nextCommitSeq) : Step config s (.other m) { s with metadata := m }

/-- Nothing changes the head of a file that a call has committed and not yet read again. -/
def FileRace.Calm (s : FileRace) : RaceLabel → Prop
  | .commit _ call => ∀ j c, s.calls j = some c → c.Waits →
    call.keyspaceId = c.call.keyspaceId → call.fileId ≠ c.call.fileId
  | .other m => ∀ j c, s.calls j = some c → c.Waits →
    m.getFileHead c.call.keyspaceId c.call.fileId =
      s.metadata.getFileHead c.call.keyspaceId c.call.fileId
  | _ => True

def FileRace.Start (s : FileRace) : Prop := s.metadata.Grounded ∧ ∀ i, s.calls i = none

/-! ## One step -/

/-- The head says under which version and number the commit was recorded. -/
def Matches (head : FileHead) (row : FileCommit) : Prop :=
  head.version = row.newVersion ∧ head.latestCommit = row.commitSeq

structure CallFits (m : MetadataInner) (c : CallState) : Prop where
  old : c.row.commitSeq < m.nextCommitSeq
  waits : c.Waits → ∃ head, m.getFileHead c.call.keyspaceId c.call.fileId = .ok head ∧ Matches head c.row
  answered : ∀ head, c.phase = .answered head → Matches head c.row

structure FileRace.Fits (s : FileRace) : Prop where
  grounded : s.metadata.Grounded
  calls : ∀ i c, s.calls i = some c → CallFits s.metadata c
  apart : ∀ i j c d, s.calls i = some c → s.calls j = some d → i ≠ j → c.row.commitSeq ≠ d.row.commitSeq

variable {config : LocalStoreConfig} {m m' : MetadataInner}

theorem FileCall.commit_records (h : m.Grounded) (call : FileCall) :
    wp (call.commit config) (fun _ m' => ∃ head row, m'.Grounded ∧ Records m m' head row ∧
      m'.getFileHead call.keyspaceId call.fileId = .ok head ∧
      ∀ keyspace file other, (call.keyspaceId = keyspace → call.fileId ≠ file) →
        m.getFileHead keyspace file = .ok other → m'.getFileHead keyspace file = .ok other)
      (fun _ => True) m := by
  have hpublish : ∀ keyspaceId fence fileId oldRoot newRoot newSize,
      wp (publishFileRoot config keyspaceId fence fileId oldRoot newRoot newSize)
        (fun _ m' => ∃ head row, m'.Grounded ∧ Records m m' head row ∧
          m'.getFileHead keyspaceId fileId = .ok head ∧
          ∀ keyspace file other, (keyspaceId = keyspace → fileId ≠ file) →
            m.getFileHead keyspace file = .ok other → m'.getFileHead keyspace file = .ok other)
        (fun _ => True) m := by
    intro keyspaceId fence fileId oldRoot newRoot newSize
    refine wp_mono (wp_and (publishFileRoot_evolves h.catalogs keyspaceId fence fileId oldRoot newRoot newSize)
      (publishFileRoot_writes h keyspaceId fence fileId oldRoot newRoot newSize)) ?_ fun _ _ => trivial
    rintro group m' ⟨⟨hev, -⟩, current, entry, -, -, -, -, hwrites, -, -, -, row, hrecords⟩
    obtain ⟨hc, hext, -⟩ := hev h.catalogs
    obtain ⟨head, head', update, hhead, hheads, hroots, hplaces⟩ := hwrites.head
    exact ⟨entry.head, row, (hwrites.sized h hev).1, hrecords,
      getFileHead_commit h.catalogs hc hhead hheads hroots hext hplaces⟩
  cases call with
  | batch keyspaceId fileId baseVersion oldRoot newRoot newSize => exact hpublish _ _ _ _ _ _
  | publish stream oldRoot newRoot publishThrough => exact hpublish _ _ _ _ _ _

def StreamsOnly (m m' : MetadataInner) : Prop := m' = { m with appendStreams := m'.appendStreams }

theorem FileCall.settle_streamsOnly (call : FileCall) :
    wp call.settle (fun _ m' => StreamsOnly m m') (fun _ => True) m := by
  cases call with
  | batch keyspaceId fileId baseVersion oldRoot newRoot newSize =>
    exact wp_step run_get (wp_check trivial fun _ _ => rfl)
  | publish stream oldRoot newRoot publishThrough =>
    refine wp_step run_get (wp_check trivial fun state _ => wp_step run_set ?_)
    exact wp_check trivial fun records _ => rfl

theorem CallFits.of_same {c : CallState} (h : CallFits m c)
    (hhead : c.Waits → m'.getFileHead c.call.keyspaceId c.call.fileId =
      m.getFileHead c.call.keyspaceId c.call.fileId)
    (hseq : m.nextCommitSeq ≤ m'.nextCommitSeq) : CallFits m' c where
  old := h.old.trans_le hseq
  waits hwaits := by
    rw [hhead hwaits]
    exact h.waits hwaits
  answered := h.answered

theorem CallFits.of_streamsOnly {c : CallState} (h : CallFits m c) (hm : StreamsOnly m m') :
    CallFits m' c := by
  rw [hm]
  exact h.of_same (fun _ => rfl) le_rfl

namespace FileRace

variable {s s' : FileRace}

theorem Fits.update {i : Nat} {c : CallState} (h : s.Fits) (hgrounded : m.Grounded) (hc : CallFits m c)
    (hothers : ∀ j d, j ≠ i → s.calls j = some d → CallFits m d ∧ c.row.commitSeq ≠ d.row.commitSeq) :
    Fits ⟨m, Function.update s.calls i (some c)⟩ := by
  refine ⟨hgrounded, fun j d hd => ?_, fun j k d e hd he hne => ?_⟩
  · obtain ⟨-, ⟨⟩⟩ | ⟨hj, hd⟩ := update_eq hd
    · exact hc
    · exact (hothers j d hj hd).1
  · obtain ⟨rfl, ⟨⟩⟩ | ⟨hj, hd'⟩ := update_eq hd
    · obtain ⟨rfl, -⟩ | ⟨hk, he'⟩ := update_eq he
      · exact (hne rfl).elim
      · exact (hothers k e hk he').2
    · obtain ⟨rfl, ⟨⟩⟩ | ⟨hk, he'⟩ := update_eq he
      · exact (hothers j d hj hd').2.symm
      · exact h.apart j k d e hd' he' hne

theorem Fits.advance (h : s.Fits) {i : Nat} {c : CallState} (hc : s.calls i = some c)
    (hm : StreamsOnly s.metadata m) (phase : CallPhase)
    (hphase : CallFits m { c with phase }) :
    Fits ⟨m, Function.update s.calls i (some { c with phase })⟩ := by
  refine h.update ?_ hphase fun j d hj hd => ⟨(h.calls j d hd).of_streamsOnly hm, ?_⟩
  · rw [hm]
    exact h.grounded.streams
  · exact h.apart i j c d hc hd (Ne.symm hj)

theorem Fits.step (h : s.Fits) {a : RaceLabel} (hcalm : s.Calm a) (hstep : Step config s a s') : s'.Fits := by
  cases hstep with
  | @commit i call group m row hnew hrun hrow =>
    obtain ⟨head, row', hgrounded, hrecords, hhead, hothers⟩ :=
      wp_of_ok (call.commit_records h.grounded) hrun
    rw [hrecords.rows, List.getLast?_concat] at hrow
    obtain rfl := Option.some.inj hrow
    have hnext := hrecords.next
    have hseq := hrecords.seq
    refine h.update hgrounded ⟨by dsimp only; omega, fun _ => ⟨head, hhead, hrecords.version, hrecords.latest⟩,
      nofun⟩ fun j d hj hd => ?_
    have hd' := h.calls j d hd
    have hold := hd'.old
    refine ⟨⟨by omega, fun hwaits => ?_, hd'.answered⟩, by dsimp only; omega⟩
    obtain ⟨other, hother, hmatches⟩ := hd'.waits hwaits
    exact ⟨other, hothers _ _ other (hcalm j d hd hwaits) hother, hmatches⟩
  | @settle i call row m hcall hrun =>
    have hm := wp_of_ok (call.settle_streamsOnly (m := s.metadata)) hrun
    have hfits := (h.calls i _ hcall).of_streamsOnly hm
    exact h.advance hcall hm .settled
      ⟨hfits.old, fun _ => hfits.waits nofun, nofun⟩
  | @answer i call row head hcall hread =>
    have hfits := h.calls i _ hcall
    obtain ⟨read, hhead, hmatches⟩ := hfits.waits nofun
    rw [hread] at hhead
    cases hhead
    refine h.advance (m := s.metadata) hcall rfl (.answered head) ⟨hfits.old, fun hwaits => (hwaits head rfl).elim, ?_⟩
    rintro _ ⟨⟩
    exact hmatches
  | other hgrounded hseq =>
    exact ⟨hgrounded h.grounded, fun j c hc => (h.calls j c hc).of_same (hcalm j c hc) hseq, h.apart⟩

theorem Start.fits (h : s.Start) : s.Fits where
  grounded := h.1
  calls i c hc := by
    rw [h.2 i] at hc
    cases hc
  apart i j c d hc := by
    rw [h.2 i] at hc
    cases hc

end FileRace

end CowStore.Local
