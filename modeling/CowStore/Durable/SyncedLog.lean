import CowStore.Lib.Run
import CowStore.Base

/-!
# How far a log of append runs is synced

The bytes of a run are written chunk by chunk at the offset that the lane keeps, and after
every so many bytes a background sync is asked for.  A sync looks at the length of the file,
flushes it, and records that length as synced; a request that asks for no more than what is
recorded is dropped.  Writes hold the lock of the lane, and syncs hold no lock at all.

A byte carries the time at which it was written.  A flush makes durable what was written
before it started, once it completes.

When a write fails, the offset of the lane stays where it was, and the bytes that the write
left in the file may be observed and recorded by a sync.  The next write then goes over
them.
-/

namespace CowStore.Durable

open Lib

structure LogByte where
  byte : UInt8
  writtenAt : Nat
  deriving DecidableEq, Repr

structure RunWrite where
  newTotal : Nat
  step : Option Nat
  nextBackgroundSyncAt : Option Nat
  writtenThrough : Nat
  chunks : List (List UInt8)
  deriving DecidableEq, Repr

/-- A call of `sync_append_run_log_requests`, as far as the log is concerned. -/
inductive SyncCall
  | asked (bytes snapshot : Nat)
  | observed (len : Nat)
  | flushing (len since : Nat)
  | flushed (len : Nat)
  deriving DecidableEq, Repr

/-- `completed` is when the last of the completed flushes started. -/
structure SyncedLog where
  file : List LogByte
  clock : Nat
  completed : Nat
  totalBytes : Nat
  writer : Option RunWrite
  request : Option Nat
  syncs : List SyncCall
  synced : Nat
  deriving DecidableEq, Repr

def SyncedLog.opened (file : List UInt8) (rowTotal : Nat) : SyncedLog :=
  ⟨file.map (⟨·, 0⟩), 1, 0, max rowTotal file.length, none, none, [], 0⟩

inductive LogAction
  | beginWrite (chunks : List (List UInt8)) (step : Option Nat)
  | writeChunk
  | failWrite (written : Nat)
  | endWrite
  | requestSync (bytes : Nat)
  | takeRequest
  | startSync (bytes : Nat)
  | advanceSync (i : Nat)
  | failSync (i : Nat)
  | reopen
  deriving DecidableEq, Repr

/-- `write` at an offset; a gap before it reads as zeros. -/
def writeAt (file : List LogByte) (offset : Nat) (bytes : List UInt8) (now : Nat) : List LogByte :=
  if bytes = [] then file
  else file.take offset ++ List.replicate (offset - file.length) ⟨0, now⟩ ++ bytes.map (⟨·, now⟩) ++
    file.drop (offset + bytes.length)

/-- Where the next background sync is asked for, past what is written. -/
def advanceSyncAt (step newTotal writtenThrough : Nat) : Nat → Nat → Nat
  | 0, next => next
  | fuel + 1, next =>
    if next ≤ writtenThrough then
      let next := min (next + step) newTotal
      if next = newTotal then next else advanceSyncAt step newTotal writtenThrough fuel next
    else next

namespace SyncedLog

/-- A later request for the log joins the one that waits. -/
def ask (s : SyncedLog) (bytes : Nat) : SyncedLog :=
  { s with request := some (match s.request with
    | some existing => max existing bytes
    | none => bytes) }

def beginWrite (s : SyncedLog) (chunks : List (List UInt8)) (step : Option Nat) : Option SyncedLog :=
  let payloadBytes := (chunks.map List.length).sum
  if s.writer.isSome ∨ payloadBytes = 0 ∨ step = some 0 ∨ u64Bound ≤ s.totalBytes + payloadBytes then none
  else
    let newTotal := s.totalBytes + payloadBytes
    some { s with
      writer := some ⟨newTotal, step, step.map fun step => min (s.totalBytes + step) newTotal,
        s.totalBytes, chunks⟩ }

def write (s : SyncedLog) (w : RunWrite) (bytes : List UInt8) : SyncedLog :=
  { s with file := writeAt s.file w.writtenThrough bytes s.clock, clock := s.clock + 1 }

def writeChunk (s : SyncedLog) : Option SyncedLog := do
  let w ← s.writer
  match w.chunks with
  | [] => none
  | chunk :: chunks =>
    let writtenThrough := w.writtenThrough + chunk.length
    let t := s.write w chunk
    match w.step, w.nextBackgroundSyncAt with
    | some step, some next =>
      if next ≤ writtenThrough then
        let after := if writtenThrough < w.newTotal then
            some (advanceSyncAt step w.newTotal writtenThrough (writtenThrough + 1) next)
          else none
        some { t.ask writtenThrough with writer := some ⟨w.newTotal, w.step, after, writtenThrough, chunks⟩ }
      else some { t with writer := some { w with writtenThrough := writtenThrough, chunks := chunks } }
    | _, _ => some { t with writer := some { w with writtenThrough := writtenThrough, chunks := chunks } }

def nextChunk (s : SyncedLog) : List UInt8 := (s.writer.map fun w => w.chunks.headD []).getD []

/-- `write_all` fails after some bytes, and the lane's offset stays. -/
def failWrite (s : SyncedLog) (written : Nat) : Option SyncedLog := do
  let w ← s.writer
  some { s.write w (s.nextChunk.take written) with writer := none }

def endWrite (s : SyncedLog) : Option SyncedLog := do
  let w ← s.writer
  if w.chunks = [] then some { s with totalBytes := w.newTotal, writer := none } else none

/-- The snapshot of what is synced is taken. -/
def startSync (s : SyncedLog) (bytes : Nat) : SyncedLog :=
  { s with syncs := s.syncs ++ [.asked bytes s.synced] }

def takeRequest (s : SyncedLog) : Option SyncedLog := do
  let bytes ← s.request
  some { s.startSync bytes with request := none }

def advanceSync (s : SyncedLog) (i : Nat) : Option SyncedLog := do
  let call ← s.syncs[i]?
  match call with
  | .asked bytes snapshot =>
    if bytes ≤ snapshot ∨ s.file.length < bytes then some { s with syncs := s.syncs.eraseIdx i }
    else some { s with syncs := s.syncs.set i (.observed s.file.length) }
  | .observed len => some { s with syncs := s.syncs.set i (.flushing len s.clock) }
  | .flushing len since =>
    some { s with completed := max s.completed since, syncs := s.syncs.set i (.flushed len) }
  | .flushed len => some { s with synced := max s.synced len, syncs := s.syncs.eraseIdx i }

def step (s : SyncedLog) : LogAction → Option SyncedLog
  | .beginWrite chunks step => s.beginWrite chunks step
  | .writeChunk => s.writeChunk
  | .failWrite written => s.failWrite written
  | .endWrite => s.endWrite
  | .requestSync bytes => some (s.ask bytes)
  | .takeRequest => s.takeRequest
  | .startSync bytes => some (s.startSync bytes)
  | .advanceSync i => s.advanceSync i
  | .failSync i => some { s with syncs := s.syncs.eraseIdx i }
  | .reopen =>
    some { s with
      totalBytes := max s.totalBytes s.file.length
      writer := none
      request := none
      syncs := []
      synced := 0 }

/-! ## What a sync has seen stays as it is -/

def OldTo (s : SyncedLog) (b time : Nat) : Prop :=
  b ≤ s.file.length ∧ ∀ c ∈ s.file.take b, c.writtenAt < time

def CallFits (s : SyncedLog) : SyncCall → Prop
  | .asked _ _ => True
  | .observed len => len ≤ s.file.length
  | .flushing len since => s.OldTo len since
  | .flushed len => s.OldTo len s.completed

structure Fits (s : SyncedLog) : Prop where
  past : ∀ c ∈ s.file, c.writtenAt < s.clock
  synced : s.OldTo s.synced s.completed
  syncs : ∀ call ∈ s.syncs, s.CallFits call

/-- How much of the file a flush that has started will be taken for. -/
def flushLen : SyncCall → Nat
  | .flushing len _ => len
  | .flushed len => len
  | _ => 0

/-- The bytes go past what is recorded as synced, and past what the flushes that have started
will record. -/
def Past (s : SyncedLog) (bytes : List UInt8) : Prop :=
  bytes = [] ∨ ∀ w ∈ s.writer, s.synced ≤ w.writtenThrough ∧ ∀ c ∈ s.syncs, flushLen c ≤ w.writtenThrough

instance (s : SyncedLog) (bytes : List UInt8) : Decidable (s.Past bytes) := inferInstanceAs (Decidable (_ ∨ _))

def WritesPast (s : SyncedLog) : LogAction → Prop
  | .writeChunk => s.Past s.nextChunk
  | .failWrite written => s.Past (s.nextChunk.take written)
  | _ => True

instance (s : SyncedLog) (a : LogAction) : Decidable (s.WritesPast a) := by
  cases a <;> unfold WritesPast <;> infer_instance

variable {s : SyncedLog}

variable {file : List LogByte} {offset : Nat}

theorem length_writeAt {bytes : List UInt8} {now : Nat} :
    file.length ≤ (writeAt file offset bytes now).length := by
  unfold writeAt
  split
  · exact le_refl _
  · simp only [List.length_append, List.length_take, List.length_replicate, List.length_map,
      List.length_drop]
    omega

variable {bytes : List UInt8} {b : Nat} {t : SyncedLog}

theorem take_writeAt (bytes : List UInt8) (now : Nat) (hb : b ≤ file.length)
    (hoffset : b ≤ offset) : (writeAt file offset bytes now).take b = file.take b := by
  unfold writeAt
  split
  · rfl
  · rw [List.append_assoc, List.append_assoc, List.take_append_of_le_length, List.take_take,
      Nat.min_eq_left hoffset]
    rw [List.length_take]
    exact le_min hoffset hb

theorem mem_writeAt {now : Nat} {c : LogByte} (h : c ∈ writeAt file offset bytes now) :
    c ∈ file ∨ c.writtenAt = now := by
  unfold writeAt at h
  split at h
  · exact Or.inl h
  · simp only [List.mem_append, List.mem_map, List.mem_replicate] at h
    rcases h with ((h | ⟨-, rfl⟩) | ⟨b, -, rfl⟩) | h
    · exact Or.inl (List.mem_of_mem_take h)
    · exact Or.inr rfl
    · exact Or.inr rfl
    · exact Or.inl (List.mem_of_mem_drop h)

theorem OldTo.mono {time time' : Nat} (h : s.OldTo b time) (hle : time ≤ time') : s.OldTo b time' :=
  ⟨h.1, fun c hc => (h.2 c hc).trans_le hle⟩

theorem OldTo.write {time : Nat} (h : s.OldTo b time) (w : RunWrite)
    (hpast : bytes = [] ∨ b ≤ w.writtenThrough) : (s.write w bytes).OldTo b time := by
  rcases hpast with rfl | hpast
  · exact h
  · refine ⟨h.1.trans length_writeAt, fun c hc => h.2 c ?_⟩
    have htake := take_writeAt bytes s.clock h.1 hpast
    rw [← htake]
    exact hc

theorem Fits.write (h : s.Fits) {w : RunWrite} (hw : s.writer = some w) (hpast : s.Past bytes) :
    (s.write w bytes).Fits := by
  have hsynced : bytes = [] ∨ s.synced ≤ w.writtenThrough := hpast.imp_right fun hp => (hp w hw).1
  have hcall : ∀ c ∈ s.syncs, bytes = [] ∨ flushLen c ≤ w.writtenThrough :=
    fun c hc => hpast.imp_right fun hp => (hp w hw).2 c hc
  refine ⟨fun c hc => ?_, h.synced.write w hsynced, fun call hmem => ?_⟩
  · show c.writtenAt < s.clock + 1
    rcases mem_writeAt hc with hc | hc
    · exact Nat.lt_succ_of_lt (h.past c hc)
    · rw [hc]
      exact Nat.lt_succ_self _
  · have hfits := h.syncs call hmem
    have hlen := hcall call hmem
    cases call with
    | asked bytes snapshot => trivial
    | observed len => exact le_trans hfits length_writeAt
    | flushing len since => exact OldTo.write hfits w hlen
    | flushed len => exact OldTo.write hfits w hlen

theorem Fits.of_eq (h : s.Fits) (hfile : t.file = s.file) (hclock : t.clock = s.clock)
    (hcompleted : t.completed = s.completed) (hsynced : t.synced = s.synced)
    (hsyncs : t.syncs = s.syncs) : t.Fits := by
  obtain ⟨file, clock, completed, total, writer, request, syncs, synced⟩ := t
  subst hfile hclock hcompleted hsynced hsyncs
  refine ⟨h.past, h.synced, fun call hcall => ?_⟩
  have hfits := h.syncs call hcall
  cases call <;> exact hfits

theorem Fits.withSyncs (h : s.Fits) {syncs : List SyncCall} (hsyncs : ∀ c ∈ syncs, s.CallFits c) :
    { s with syncs := syncs }.Fits := by
  refine ⟨h.past, h.synced, fun call hcall => ?_⟩
  have hfits := hsyncs call hcall
  cases call <;> exact hfits

theorem Fits.writeChunk (h : s.Fits) (hpast : s.Past s.nextChunk) (ht : s.writeChunk = some t) : t.Fits := by
  obtain ⟨w, hw, ht⟩ := Option.bind_eq_some_iff.1 ht
  unfold nextChunk at hpast
  rw [hw, Option.map_some, Option.getD_some] at hpast
  split at ht
  · cases ht
  next chunk chunks hchunks =>
  rw [hchunks, List.headD_cons] at hpast
  have hwritten := h.write hw hpast
  split at ht
  · dsimp only at ht
    split at ht <;> (cases ht; exact hwritten.of_eq rfl rfl rfl rfl rfl)
  · cases ht
    exact hwritten.of_eq rfl rfl rfl rfl rfl

theorem Fits.advanceSync (h : s.Fits) {i : Nat} (ht : s.advanceSync i = some t) : t.Fits := by
  obtain ⟨call, hcall, ht⟩ := Option.bind_eq_some_iff.1 ht
  have hfits := h.syncs call (List.mem_of_getElem? hcall)
  have herase : ∀ c ∈ s.syncs.eraseIdx i, s.CallFits c := fun c hc => h.syncs c (List.mem_of_mem_eraseIdx hc)
  have hset : ∀ {next}, s.CallFits next → ∀ c ∈ s.syncs.set i next, s.CallFits c := by
    intro next hnext c hc
    rcases List.mem_or_eq_of_mem_set hc with hc | rfl
    · exact h.syncs c hc
    · exact hnext
  cases call with
  | asked bytes snapshot =>
    dsimp only at ht
    split at ht <;> cases ht
    · exact h.withSyncs herase
    · exact h.withSyncs (hset (le_refl s.file.length))
  | observed len =>
    cases ht
    refine h.withSyncs (hset ⟨hfits, fun c hc => h.past c (List.mem_of_mem_take hc)⟩)
  | flushing len since =>
    cases ht
    -- the flush may have started before another one that is complete already
    have hlater : { s with completed := max s.completed since }.Fits := by
      refine ⟨h.past, h.synced.mono (le_max_left _ _), fun c hc => ?_⟩
      have hc := h.syncs c hc
      cases c with
      | flushed len => exact OldTo.mono hc (le_max_left _ _)
      | asked | observed | flushing => exact hc
    refine hlater.withSyncs fun c hc => ?_
    rcases List.mem_or_eq_of_mem_set hc with hc | rfl
    · exact hlater.syncs c hc
    · exact OldTo.mono hfits (le_max_right _ _)
  | flushed len =>
    cases ht
    have hrecorded : { s with synced := max s.synced len }.Fits := by
      refine ⟨h.past, ?_, fun c hc => ?_⟩
      · rcases max_choice s.synced len with hmax | hmax <;> (show s.OldTo (max s.synced len) _; rw [hmax])
        · exact h.synced
        · exact hfits
      · have hc := h.syncs c hc
        cases c <;> exact hc
    exact hrecorded.withSyncs fun c hc => hrecorded.syncs c (List.mem_of_mem_eraseIdx hc)

theorem Fits.startSync (h : s.Fits) (bytes : Nat) : (s.startSync bytes).Fits := by
  refine h.withSyncs fun c hc => ?_
  rcases List.mem_append.1 hc with hc | hc
  · exact h.syncs c hc
  · rw [List.mem_singleton.1 hc]
    trivial

theorem Fits.step (h : s.Fits) {a : LogAction} (hok : s.WritesPast a) (ht : s.step a = some t) : t.Fits := by
  cases a with
  | beginWrite chunks step =>
    unfold SyncedLog.step SyncedLog.beginWrite at ht
    dsimp only at ht
    split at ht <;> cases ht
    exact h.of_eq rfl rfl rfl rfl rfl
  | writeChunk => exact h.writeChunk hok ht
  | failWrite written =>
    obtain ⟨w, hw, ht⟩ := Option.bind_eq_some_iff.1 ht
    cases ht
    exact (h.write hw hok).of_eq rfl rfl rfl rfl rfl
  | endWrite =>
    obtain ⟨w, hw, ht⟩ := Option.bind_eq_some_iff.1 ht
    split at ht <;> cases ht
    exact h.of_eq rfl rfl rfl rfl rfl
  | requestSync bytes =>
    cases ht
    exact h.of_eq rfl rfl rfl rfl rfl
  | takeRequest =>
    obtain ⟨bytes, -, ht⟩ := Option.bind_eq_some_iff.1 ht
    cases ht
    exact (h.startSync bytes).of_eq rfl rfl rfl rfl rfl
  | startSync bytes =>
    cases ht
    exact h.startSync bytes
  | advanceSync i => exact h.advanceSync ht
  | failSync i =>
    cases ht
    exact h.withSyncs fun c hc => h.syncs c (List.mem_of_mem_eraseIdx hc)
  | reopen =>
    cases ht
    refine ⟨h.past, ⟨Nat.zero_le _, nofun⟩, nofun⟩

theorem fits_opened (file : List UInt8) (rowTotal : Nat) : (opened file rowTotal).Fits where
  past c hc := by
    obtain ⟨b, -, rfl⟩ := List.mem_map.1 hc
    exact Nat.zero_lt_one
  synced := ⟨Nat.zero_le _, nofun⟩
  syncs c hc := nomatch hc

/-- In every run whose writes go past what is recorded as synced and past what the flushes
under way will record: what is recorded as synced was written before a flush that completed. -/
theorem synced_durable (file : List UInt8) (rowTotal : Nat) (turns : List LogAction)
    (h : Admitted step WritesPast (opened file rowTotal) turns) (b : Nat)
    (hb : b ≤ (afterTurns step (opened file rowTotal) turns).synced) (i : Nat) (hi : i < b) :
    ∃ c, (afterTurns step (opened file rowTotal) turns).file[i]? = some c ∧
      c.writtenAt < (afterTurns step (opened file rowTotal) turns).completed := by
  have hfits := h.invariant (P := Fits) (fits_opened file rowTotal) fun s a t hs hok ht => hs.step hok ht
  obtain ⟨hlen, hold⟩ := hfits.synced
  have hlt : i < (afterTurns step (opened file rowTotal) turns).file.length := (hi.trans_le hb).trans_le hlen
  refine ⟨_, List.getElem?_eq_getElem hlt, hold _ ?_⟩
  exact List.mem_take_iff_getElem.2 ⟨i, by omega, rfl⟩

/-- The second chunk of a write fails half way, after the first has asked for a sync; the bytes
of the torn write are synced and recorded, and the next write goes over them.  The sync that
it asks for is dropped. -/
def tornThenSynced : List LogAction :=
  [.beginWrite [[1, 2, 3, 4], [5, 6, 7, 8]] (some 4), .writeChunk, .failWrite 2, .takeRequest,
    .advanceSync 0, .advanceSync 0, .advanceSync 0, .advanceSync 0,
    .beginWrite [[9, 9, 9, 9]] (some 4), .writeChunk, .endWrite, .takeRequest, .advanceSync 0]

theorem tornThenSynced_overwritten :
    (afterTurns step (opened [] 0) tornThenSynced).synced = 6 ∧
      (afterTurns step (opened [] 0) tornThenSynced).file[0]? = some ⟨9, 3⟩ ∧
      (afterTurns step (opened [] 0) tornThenSynced).completed = 3 ∧
      (afterTurns step (opened [] 0) tornThenSynced).request = none ∧
      (afterTurns step (opened [] 0) tornThenSynced).syncs = [] := by
  decide +kernel

/-- A write fails, the next one goes over what it left, and only then the log is synced. -/
def tornThenRetried : List LogAction :=
  [.beginWrite [[1, 2]] none, .failWrite 1, .beginWrite [[3, 4]] none, .writeChunk, .endWrite,
    .requestSync 2, .takeRequest, .advanceSync 0, .advanceSync 0, .advanceSync 0, .advanceSync 0]

theorem synced_durable_retried :
    Admitted step WritesPast (opened [] 0) tornThenRetried ∧
      (afterTurns step (opened [] 0) tornThenRetried).synced = 2 ∧
      ∃ c, (afterTurns step (opened [] 0) tornThenRetried).file[1]? = some c ∧
        c.writtenAt < (afterTurns step (opened [] 0) tornThenRetried).completed := by
  have hrun : Admitted step WritesPast (opened [] 0) tornThenRetried := by decide +kernel
  have hsynced : (afterTurns step (opened [] 0) tornThenRetried).synced = 2 := by decide +kernel
  exact ⟨hrun, hsynced, synced_durable [] 0 tornThenRetried hrun 2 hsynced.ge 1 (by decide)⟩

end SyncedLog

end CowStore.Durable
