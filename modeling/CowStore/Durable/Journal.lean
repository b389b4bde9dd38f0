import CowStore.Lib.Frames
import CowStore.Lib.Run
import CowStore.Durable.Codec

/-!
# The append-visible publish journal

A frame is a magic number, the payload's length and checksum, and the payload, the
encoding of one batch of records.  The appender opens the file in append mode and
writes one frame; the loader reads frames and stops, without an error, at a frame
that ends before its payload does.

`crc` is the checksum function, a library of its own; nothing is asked of it.  A
missing file and an empty one load alike, so the file is its bytes.
-/

namespace CowStore.Durable

open Lib Object

def journalHeaderBytes : Nat := 24
def maxDurableJournalPayloadBytes : Nat := 64 * 1024 * 1024

def appendVisiblePublishJournalMagic : List UInt8 :=
  [0x41, 0x56, 0x50, 0x4a, 0x4e, 0x4c, 0x30, 0x31]

/-- `u64::to_le_bytes`. -/
def leBytes (v : Nat) : List UInt8 := (beBytes 8 v).reverse

/-- `u64::from_le_bytes`. -/
def leNat (bs : List UInt8) : Nat := beNat bs.reverse

@[simp] theorem length_leBytes {v : Nat} : (leBytes v).length = 8 := by simp [leBytes]

theorem leNat_leBytes {v : Nat} (h : v < u64Bound) : leNat (leBytes v) = v := by
  rw [leNat, leBytes, List.reverse_reverse, beNat_beBytes, Nat.mod_eq_of_lt]
  simpa [u64Bound] using h

section

variable (crc : List UInt8 → BitVec 32)

def dataLogChecksum (payload : List UInt8) : Nat := (crc payload).toNat

def frameBytes (rs : List AppendVisiblePublish) : List UInt8 :=
  appendVisiblePublishJournalMagic ++ (leBytes (putBatch rs).length ++
    (leBytes (dataLogChecksum crc (putBatch rs)) ++ putBatch rs))

def durableJournalFrame (rs : List AppendVisiblePublish) : Result (List UInt8) :=
  if (putBatch rs).length > maxDurableJournalPayloadBytes then
    .error (.conflict "append visible publish journal record exceeds durable payload limit")
  else .ok (frameBytes crc rs)

def decodeDurableJournalHeader (header : List UInt8) : Result (Nat × Nat) := do
  if header.take 8 ≠ appendVisiblePublishJournalMagic then
    throw (.corrupt "append visible publish journal has invalid frame magic")
  let payloadLen := leNat ((header.drop 8).take 8)
  if payloadLen > maxDurableJournalPayloadBytes then
    throw (.corrupt "append visible publish journal frame exceeds durable payload limit")
  return (payloadLen, leNat ((header.drop 16).take 8))

/-- One round of the loop of `load_durable_journal_records`; `none` leaves the loop. -/
def nextBatch (bs : List UInt8) :
    Result (Option (List AppendVisiblePublish × List UInt8)) := do
  if bs.length < journalHeaderBytes then
    return none
  let (payloadLen, expectedChecksum) ← decodeDurableJournalHeader (bs.take journalHeaderBytes)
  let rest := bs.drop journalHeaderBytes
  if rest.length < payloadLen then
    return none
  let payload := rest.take payloadLen
  if dataLogChecksum crc payload ≠ expectedChecksum then
    throw (.corrupt "append visible publish journal frame checksum mismatch")
  let rs ← decodeBatch payload
  return some (rs, rest.drop payloadLen)

def loadAppendVisiblePublishJournalRecords (file : List UInt8) :
    Result (List AppendVisiblePublish) := do
  let batches ← loadFrames (nextBatch crc) (file.length + 1) file
  return batches.flatten

def fsError (error : String) : StorageError :=
  .unavailable ("filesystem operation failed: " ++ error)

/-- How the calls into the file system go during one append, with the operating
system's message where one fails.  A crash during the append is `writeStops`: what it
leaves is a prefix of the frame, and the append does not return `Ok`. -/
inductive Fault
  | none
  /-- Creating, opening or preallocating the file failed. -/
  | openFails (error : String)
  /-- `write_all` ended after this many bytes. -/
  | writeStops (bytes : Nat) (error : String)
  /-- The frame is written, syncing the file or its directory failed. -/
  | syncFails (error : String)
  deriving DecidableEq, Repr

/-- The checks of an append before it opens the file, and the frame it writes. -/
def prepareAppend (rs : List AppendVisiblePublish) : Result (List UInt8) := do
  if rs.isEmpty then
    throw (.invalidArgument "append visible publish journal batch must include records")
  rs.forM AppendVisiblePublish.validate
  durableJournalFrame crc rs

/-- `append_append_visible_publish_journal_records`: the result, and the bytes of the
file afterwards. -/
def appendAppendVisiblePublishJournalRecords (file : List UInt8)
    (rs : List AppendVisiblePublish) (fault : Fault) : Result Unit × List UInt8 :=
  match prepareAppend crc rs, fault with
  | .error e, _ => (.error e, file)
  | .ok frame, .none => (.ok (), file ++ frame)
  | .ok _, .openFails error => (.error (fsError error), file)
  | .ok frame, .writeStops k error => (.error (fsError error), file ++ frame.take k)
  | .ok frame, .syncFails error => (.error (fsError error), file ++ frame)

end

/-! ## Frames are read back -/

section

variable {crc : List UInt8 → BitVec 32}

/-- Batches the appender frames: words fit their types, the payload fits a frame. -/
structure Framable (rs : List AppendVisiblePublish) : Prop where
  fits : ∀ r ∈ rs, VisiblePublishFits r
  payload : (putBatch rs).length ≤ maxDurableJournalPayloadBytes

theorem length_frameBytes (crc : List UInt8 → BitVec 32) (rs : List AppendVisiblePublish) :
    (frameBytes crc rs).length = journalHeaderBytes + (putBatch rs).length := by
  simp [frameBytes, appendVisiblePublishJournalMagic, journalHeaderBytes]
  omega

theorem dataLogChecksum_lt {payload : List UInt8} : dataLogChecksum crc payload < u64Bound :=
  lt_of_lt_of_le (crc payload).isLt (by decide)

theorem decodeHeader_frameBytes (crc : List UInt8 → BitVec 32) {rs : List AppendVisiblePublish} (h : Framable rs)
    (bs : List UInt8) (hbs : bs.take journalHeaderBytes = (frameBytes crc rs).take journalHeaderBytes) :
    decodeDurableJournalHeader (bs.take journalHeaderBytes) =
      .ok ((putBatch rs).length, dataLogChecksum crc (putBatch rs)) := by
  have hlen : (putBatch rs).length < u64Bound := lt_of_le_of_lt h.payload (by decide)
  have hheader : (frameBytes crc rs).take journalHeaderBytes =
      appendVisiblePublishJournalMagic ++ (leBytes (putBatch rs).length ++
        leBytes (dataLogChecksum crc (putBatch rs))) := by
    have : frameBytes crc rs = (appendVisiblePublishJournalMagic ++
        (leBytes (putBatch rs).length ++ leBytes (dataLogChecksum crc (putBatch rs)))) ++
          putBatch rs := by
      simp [frameBytes, List.append_assoc]
    rw [this, List.take_left' (by simp [appendVisiblePublishJournalMagic, journalHeaderBytes])]
  have hmagic : (appendVisiblePublishJournalMagic ++ (leBytes (putBatch rs).length ++
      leBytes (dataLogChecksum crc (putBatch rs)))).take 8 = appendVisiblePublishJournalMagic :=
    List.take_left' rfl
  have hdrop : (appendVisiblePublishJournalMagic ++ (leBytes (putBatch rs).length ++
      leBytes (dataLogChecksum crc (putBatch rs)))).drop 8 = leBytes (putBatch rs).length ++
        leBytes (dataLogChecksum crc (putBatch rs)) := List.drop_left' rfl
  have hdrop' : (appendVisiblePublishJournalMagic ++ (leBytes (putBatch rs).length ++
      leBytes (dataLogChecksum crc (putBatch rs)))).drop 16 =
        leBytes (dataLogChecksum crc (putBatch rs)) := by
    rw [← List.append_assoc]
    exact List.drop_left' (by simp [appendVisiblePublishJournalMagic])
  rw [hbs, hheader]
  unfold decodeDurableJournalHeader
  rw [hmagic, hdrop, hdrop', List.take_left' length_leBytes, leNat_leBytes hlen,
    List.take_of_length_le length_leBytes.le, leNat_leBytes dataLogChecksum_lt]
  simp [Nat.not_lt.mpr h.payload, pure, Except.pure]

theorem nextBatch_short {bs : List UInt8} (h : bs.length < journalHeaderBytes) :
    nextBatch crc bs = .ok none := by
  rw [nextBatch, if_pos h]
  rfl

theorem nextBatch_framing (crc : List UInt8 → BitVec 32) :
    Framing (nextBatch crc) (frameBytes crc) Framable where
  complete rs h rest := by
    have hlen := length_frameBytes crc rs
    have hheader := decodeHeader_frameBytes crc h (frameBytes crc rs ++ rest)
      (List.take_append_of_le_length (by omega))
    have hpayload : (frameBytes crc rs).drop journalHeaderBytes = putBatch rs := by
      simp only [frameBytes, ← List.append_assoc]
      exact List.drop_left' (by simp [appendVisiblePublishJournalMagic, journalHeaderBytes])
    have hdrop : (frameBytes crc rs ++ rest).drop journalHeaderBytes = putBatch rs ++ rest := by
      rw [List.drop_append_of_le_length (by omega), hpayload]
    have hshort : ¬ (frameBytes crc rs ++ rest).length < journalHeaderBytes := by
      simp only [List.length_append]; omega
    rw [nextBatch, if_neg hshort, hheader]
    simp only [bind, Except.bind, hdrop]
    rw [if_neg (by simp), List.take_left, List.drop_left]
    simp [decodeBatch_putBatch h.fits h.payload, pure, Except.pure]
  torn rs h k hk := by
    have hlen := length_frameBytes crc rs
    by_cases hshort : ((frameBytes crc rs).take k).length < journalHeaderBytes
    · exact nextBatch_short hshort
    · rw [List.length_take, Nat.min_eq_left hk.le] at hshort
      have hheader := decodeHeader_frameBytes crc h ((frameBytes crc rs).take k)
        (by rw [List.take_take, Nat.min_eq_left (Nat.not_lt.mp hshort)])
      have hrest : (((frameBytes crc rs).take k).drop journalHeaderBytes).length <
          (putBatch rs).length := by
        rw [List.length_drop, List.length_take, Nat.min_eq_left hk.le]
        omega
      rw [nextBatch, if_neg (by rw [List.length_take, Nat.min_eq_left hk.le]; exact hshort),
        hheader]
      simp only [bind, Except.bind, pure, Except.pure]
      rw [if_pos hrest]
  nonempty rs _ := by rw [length_frameBytes]; simp [journalHeaderBytes]

end

/-! ## Runs of appends -/

structure Append where
  batch : List AppendVisiblePublish
  fits : ∀ r ∈ batch, VisiblePublishFits r
  fault : Fault

/-- The journal file with a record of its history: the batches whose frame is in the
file as a whole, and the records of the appends that returned `Ok`, both in append
order. -/
structure JournalState where
  file : List UInt8
  whole : List (List AppendVisiblePublish)
  acked : List AppendVisiblePublish

section

variable (crc : List UInt8 → BitVec 32)

def Append.writes (a : Append) : List UInt8 :=
  match prepareAppend crc a.batch, a.fault with
  | .error _, _ | .ok _, .openFails _ => []
  | .ok frame, .none | .ok frame, .syncFails _ => frame
  | .ok frame, .writeStops k _ => frame.take k

def Append.isWhole (a : Append) : Bool :=
  match prepareAppend crc a.batch with
  | .error _ => false
  | .ok frame => decide (a.writes crc = frame)

/-- An append, with a reopen of the store anywhere around it: reopening reads the
file and leaves it as it is. -/
def JournalState.append (s : JournalState) (a : Append) : JournalState :=
  let (result, file) := appendAppendVisiblePublishJournalRecords crc s.file a.batch a.fault
  { file
    whole := if a.isWhole crc then s.whole ++ [a.batch] else s.whole
    acked := match result with
      | .ok _ => s.acked ++ a.batch
      | .error _ => s.acked }

/-- Loading returns the records of the whole frames, in append order, and among them
every acknowledged one. -/
def JournalState.Recovers (s : JournalState) : Prop :=
  loadAppendVisiblePublishJournalRecords crc s.file = .ok s.whole.flatten ∧
    s.acked.Sublist s.whole.flatten

def Aligned (file : List UInt8) : Prop :=
  ∃ batches : List (List AppendVisiblePublish),
    (∀ b ∈ batches, Framable b) ∧ file = batches.flatMap (frameBytes crc)

variable {crc}

theorem prepareAppend_ok {rs : List AppendVisiblePublish} {frame : List UInt8}
    (hfits : ∀ r ∈ rs, VisiblePublishFits r) (h : prepareAppend crc rs = .ok frame) :
    Framable rs ∧ frame = frameBytes crc rs := by
  have hframe : durableJournalFrame crc rs = .ok frame := by
    unfold prepareAppend at h
    split at h
    · cases h
    · cases hv : rs.forM AppendVisiblePublish.validate with
      | error e => simp [hv, bind, Except.bind] at h
      | ok u => simpa [hv, bind, Except.bind] using h
  unfold durableJournalFrame at hframe
  split at hframe
  · cases hframe
  · next hlen => exact ⟨⟨hfits, Nat.not_lt.mp hlen⟩, (Except.ok.inj hframe).symm⟩

theorem Append.writes_cases (crc : List UInt8 → BitVec 32) (a : Append) : a.writes crc = [] ∨
    (Framable a.batch ∧ prepareAppend crc a.batch = .ok (frameBytes crc a.batch) ∧
      ∃ k, a.writes crc = (frameBytes crc a.batch).take k) := by
  cases hp : prepareAppend crc a.batch with
  | error e => simp [Append.writes, hp]
  | ok frame =>
    obtain ⟨hf, rfl⟩ := prepareAppend_ok a.fits hp
    cases hfault : a.fault with
    | none =>
      exact .inr ⟨hf, rfl, _, by simp only [Append.writes, hp, hfault]; exact List.take_length.symm⟩
    | openFails error => simp [Append.writes, hp, hfault]
    | writeStops k error => exact .inr ⟨hf, rfl, k, by simp [Append.writes, hp, hfault]⟩
    | syncFails error =>
      exact .inr ⟨hf, rfl, _, by simp only [Append.writes, hp, hfault]; exact List.take_length.symm⟩

theorem JournalState.append_file (crc : List UInt8 → BitVec 32) (s : JournalState) (a : Append) :
    (s.append crc a).file = s.file ++ a.writes crc := by
  cases hp : prepareAppend crc a.batch with
  | error e => simp [JournalState.append, appendAppendVisiblePublishJournalRecords, Append.writes, hp]
  | ok frame =>
    cases hfault : a.fault <;>
      simp [JournalState.append, appendAppendVisiblePublishJournalRecords, Append.writes, hp, hfault]

theorem JournalState.append_acked (crc : List UInt8 → BitVec 32) (s : JournalState) (a : Append) :
    (s.append crc a).acked = s.acked ∨
      ((s.append crc a).acked = s.acked ++ a.batch ∧ a.isWhole crc = true) := by
  cases hp : prepareAppend crc a.batch with
  | error e => simp [JournalState.append, appendAppendVisiblePublishJournalRecords, hp]
  | ok frame =>
    cases hfault : a.fault <;>
      simp [JournalState.append, appendAppendVisiblePublishJournalRecords, Append.isWhole,
        Append.writes, hp, hfault]

/-- The file holds the whole frames and then at most a torn one. -/
structure JournalState.Intact (crc : List UInt8 → BitVec 32) (s : JournalState) : Prop where
  framable : ∀ b ∈ s.whole, Framable b
  tail : ∃ tail, s.file = s.whole.flatMap (frameBytes crc) ++ tail ∧
    nextBatch crc tail = .ok none
  acked : s.acked.Sublist s.whole.flatten

variable {s : JournalState}

theorem JournalState.Intact.recovers (h : s.Intact crc) : s.Recovers crc := by
  obtain ⟨tail, hfile, htail⟩ := h.tail
  refine ⟨?_, h.acked⟩
  unfold loadAppendVisiblePublishJournalRecords
  rw [hfile, (nextBatch_framing crc).load_append htail h.framable]
  rfl

/-- On an aligned file the loader has read everything, so nothing is torn. -/
theorem JournalState.Intact.file_eq (h : s.Intact crc) (ha : Aligned crc s.file) :
    s.file = s.whole.flatMap (frameBytes crc) := by
  obtain ⟨tail, hfile, htail⟩ := h.tail
  obtain ⟨batches, hb, hfile'⟩ := ha
  have hload := (nextBatch_framing crc).load_append htail h.framable
  have hempty : nextBatch crc [] = .ok none := nextBatch_short (by simp [journalHeaderBytes])
  have hload' := (nextBatch_framing crc).load_append hempty hb
  rw [← hfile] at hload
  rw [List.append_nil, ← hfile'] at hload'
  have : s.whole = batches := Except.ok.inj (hload.symm.trans hload')
  rw [this, ← hfile']

theorem JournalState.append_not_whole (s : JournalState) {a : Append} (h : a.isWhole crc = false) :
    (s.append crc a).whole = s.whole ∧ (s.append crc a).acked = s.acked := by
  refine ⟨by simp [JournalState.append, h], ?_⟩
  rcases s.append_acked crc a with hack | ⟨-, hwhole⟩
  · exact hack
  · simp [h] at hwhole

theorem Append.isWhole_of_writes_nil {a : Append} (h : a.writes crc = []) : a.isWhole crc = false := by
  cases hp : prepareAppend crc a.batch with
  | error e => simp [Append.isWhole, hp]
  | ok frame =>
    obtain ⟨hframable, rfl⟩ := prepareAppend_ok a.fits hp
    have hpos := (nextBatch_framing crc).nonempty a.batch hframable
    simp only [Append.isWhole, hp, h, decide_eq_false_iff_not]
    intro hnil
    simp [← hnil] at hpos

theorem JournalState.Intact.append (h : s.Intact crc) (a : Append)
    (ha : a.writes crc ≠ [] → Aligned crc s.file) : (s.append crc a).Intact crc := by
  by_cases hzero : a.writes crc = []
  · obtain ⟨tail, hfile, htail⟩ := h.tail
    obtain ⟨hwhole, hacked⟩ := s.append_not_whole (Append.isWhole_of_writes_nil hzero)
    exact ⟨by rw [hwhole]; exact h.framable,
      ⟨tail, by rw [s.append_file crc, hzero, List.append_nil, hwhole, hfile], htail⟩,
      by rw [hacked, hwhole]; exact h.acked⟩
  · have haligned := h.file_eq (ha hzero)
    obtain ⟨hframable, hprep, k, hk⟩ := (a.writes_cases crc).resolve_left hzero
    by_cases hlen : (frameBytes crc a.batch).length ≤ k
    · -- the whole frame is in the file
      rw [List.take_of_length_le hlen] at hk
      have hw : a.isWhole crc = true := by simp [Append.isWhole, hprep, hk]
      have hwhole : (s.append crc a).whole = s.whole ++ [a.batch] := by
        simp [JournalState.append, hw]
      refine ⟨?_, ⟨[], ?_, nextBatch_short (by simp [journalHeaderBytes])⟩, ?_⟩
      · intro b hb
        rw [hwhole, List.mem_append, List.mem_singleton] at hb
        rcases hb with hb | rfl
        · exact h.framable b hb
        · exact hframable
      · rw [s.append_file crc, hk, hwhole, haligned]
        simp
      · rw [hwhole, List.flatten_append]
        rcases s.append_acked crc a with hack | ⟨hack, -⟩
        · rw [hack]
          exact h.acked.trans (List.sublist_append_left _ _)
        · rw [hack]
          exact h.acked.append (by simp)
    · -- a torn frame, after which the loader stops
      have hlt : k < (frameBytes crc a.batch).length := Nat.not_le.mp hlen
      have hw : a.isWhole crc = false := by
        simp only [Append.isWhole, hprep, hk, decide_eq_false_iff_not]
        intro heq
        have := congrArg List.length heq
        rw [List.length_take, Nat.min_eq_left hlt.le] at this
        omega
      obtain ⟨hwhole, hacked⟩ := s.append_not_whole hw
      exact ⟨by rw [hwhole]; exact h.framable,
        ⟨_, by rw [s.append_file crc, hk, hwhole, haligned],
          (nextBatch_framing crc).torn a.batch hframable k hlt⟩,
        by rw [hacked, hwhole]; exact h.acked⟩

def JournalState.empty : JournalState := ⟨[], [], []⟩

def JournalState.Step (crc : List UInt8 → BitVec 32) (s : JournalState) (a : Append)
    (s' : JournalState) : Prop :=
  s' = s.append crc a

/-- In a run whose appends write only behind complete frames the journal recovers
after every append. -/
theorem recovers_of_aligned_appends {s : JournalState}
    (h : Reached (· = JournalState.empty) (JournalState.Step crc)
      (fun s a => a.writes crc ≠ [] → Aligned crc s.file) s) : s.Recovers crc := by
  refine JournalState.Intact.recovers (h.invariant (JournalState.Intact crc) ?_ ?_)
  · rintro s rfl
    exact ⟨by simp [JournalState.empty],
      ⟨[], rfl, nextBatch_short (by simp [journalHeaderBytes])⟩, by simp [JournalState.empty]⟩
  · rintro s a s' hs ha rfl
    exact hs.append a ha

/-! ## A torn frame in front of an acknowledged one -/

def oneBytePublish (size : Fin 16) : AppendVisiblePublish where
  recordId := 1
  commitSeq := size + 1
  keyspaceId := 1
  fileId := 1
  baseWriterEpoch := 1
  writerEpoch := 1
  baseFileVersion := size
  newFileVersion := size + 1
  oldSize := size
  newSize := size + 1
  publishThrough := size + 1
  runExtents := [{
    fileOffsetStart := size
    payloadLen := 1
    run := ⟨1, 1, 1, 1, 1, 1, size, 1, 1, size, .unchecked⟩ }]

theorem oneBytePublish_fits (size : Fin 16) : VisiblePublishFits (oneBytePublish size) := by
  have hid : 1 < u128Bound := by decide
  have hone : 1 < u64Bound := by decide
  have hsize : size.val < u64Bound := lt_trans size.isLt (by decide)
  have hnext : size.val + 1 < u64Bound := by
    have := size.isLt
    simp only [u64Bound]
    omega
  have hrun : RunRangeFits ⟨1, 1, 1, 1, 1, 1, size.val, 1, 1, size.val, .unchecked⟩ :=
    ⟨hid, hid, hid, hone, hid, hid, hsize, hone, hone, hsize, trivial⟩
  refine ⟨hid, hnext, hid, hid, hone, hone, hsize, hnext, hsize, hnext, hnext, ?_⟩
  intro e he
  rw [oneBytePublish, List.mem_singleton] at he
  subst he
  exact ⟨hsize, hone, hrun⟩

theorem prepareAppend_oneByte (crc : List UInt8 → BitVec 32) (size : Fin 16) :
    prepareAppend crc [oneBytePublish size] = .ok (frameBytes crc [oneBytePublish size]) := by
  have hvalid : ∀ n : Fin 16, (oneBytePublish n).validate = .ok () := by decide +kernel
  have hlen : ∀ n : Fin 16,
      ¬ (putBatch [oneBytePublish n]).length > maxDurableJournalPayloadBytes := by decide +kernel
  simp [prepareAppend, List.forM_cons, List.forM_nil, hvalid size, durableJournalFrame,
    hlen size, bind, Except.bind, pure, Except.pure]

def oneByteAppend (size : Fin 16) (fault : Fault) : Append :=
  ⟨[oneBytePublish size], by simpa using oneBytePublish_fits size, fault⟩

/-- An append is cut after its first byte; the next one returns `Ok`, and the journal
does not load any more, whatever the checksum is. -/
theorem torn_append_unloadable (crc : List UInt8 → BitVec 32) :
    ∃ s, Reached (· = JournalState.empty) (JournalState.Step crc) (fun _ _ => True) s ∧
      s.acked = [oneBytePublish 0] ∧ ¬ s.Recovers crc ∧ loadAppendVisiblePublishJournalRecords crc s.file =
        .error (.corrupt "append visible publish journal has invalid frame magic") := by
  let torn := oneByteAppend 0 (.writeStops 1 "no space left on device")
  let acked := oneByteAppend 0 .none
  let s := (JournalState.empty.append crc torn).append crc acked
  have hprep := prepareAppend_oneByte crc 0
  have hfile : s.file = 0x41 :: frameBytes crc [oneBytePublish 0] := by
    show ((JournalState.empty.append crc torn).append crc acked).file = _
    rw [JournalState.append_file crc, JournalState.append_file crc]
    simp [JournalState.empty, Append.writes, torn, acked, oneByteAppend, hprep, frameBytes,
      appendVisiblePublishJournalMagic]
  have hload : loadAppendVisiblePublishJournalRecords crc s.file =
      .error (.corrupt "append visible publish journal has invalid frame magic") := by
    have hlen : ¬ (0x41 :: frameBytes crc [oneBytePublish 0]).length < journalHeaderBytes := by
      rw [List.length_cons, length_frameBytes]
      simp only [journalHeaderBytes]
      omega
    have hnext : nextBatch crc (0x41 :: frameBytes crc [oneBytePublish 0]) =
        .error (.corrupt "append visible publish journal has invalid frame magic") := by
      rw [nextBatch, if_neg hlen]
      rfl
    rw [hfile, loadAppendVisiblePublishJournalRecords, loadFrames, hnext]
    rfl
  refine ⟨s, ?_, ?_, fun hrec => ?_, hload⟩
  · have h0 : Reached (· = JournalState.empty) (JournalState.Step crc) (fun _ _ => True)
        JournalState.empty := .start rfl
    exact (h0.next (a := torn) trivial rfl).next (a := acked) trivial rfl
  · show ((JournalState.empty.append crc torn).append crc acked).acked = _
    simp [JournalState.append, appendAppendVisiblePublishJournalRecords, torn, acked,
      oneByteAppend, hprep, JournalState.empty]
  · rw [hrec.1] at hload
    cases hload

theorem torn_append_loses_acked :
    ∃ s, Reached (· = JournalState.empty) (JournalState.Step fun _ => 0) (fun _ _ => True) s ∧
      s.acked = [oneBytePublish 0] ∧ ¬ s.Recovers (fun _ => 0) ∧
      loadAppendVisiblePublishJournalRecords (fun _ => 0) s.file =
        .error (.corrupt "append visible publish journal has invalid frame magic") :=
  torn_append_unloadable fun _ => 0

/-- An acknowledged append and a torn one after it: the acknowledged record loads. -/
theorem recovers_of_aligned_appends_example :
    ((JournalState.empty.append (fun _ => 0) (oneByteAppend 0 .none)).append (fun _ => 0)
      (oneByteAppend 1 (.writeStops 40 "crash"))).Recovers (fun _ => 0) := by
  have h0 : Reached (· = JournalState.empty) (JournalState.Step fun _ => 0)
      (fun s a => a.writes (fun _ => 0) ≠ [] → Aligned (fun _ => 0) s.file)
      JournalState.empty := .start rfl
  have h1 := h0.next (a := oneByteAppend 0 .none) (fun _ => ⟨[], by simp, rfl⟩) rfl
  refine recovers_of_aligned_appends (h1.next (fun _ => ⟨[[oneBytePublish 0]], ?_, ?_⟩) rfl)
  · intro b hb
    rw [List.mem_singleton] at hb
    subst hb
    exact (prepareAppend_ok (by simpa using oneBytePublish_fits 0)
      (prepareAppend_oneByte (fun _ => 0) 0)).1
  · rw [JournalState.append_file]
    simp [JournalState.empty, Append.writes, oneByteAppend, prepareAppend_oneByte]

end

end CowStore.Durable
