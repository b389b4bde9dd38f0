import CowStore.Durable.Journal
import CowStore.Local.Segments

/-!
# The records of data logs

A record is a header of fixed layout and the payload of a segment.  It is read at a place that the
catalog names, and the header is parsed at fixed offsets once the record is known to have one.
-/

namespace CowStore.Durable

open Lib Object Local StorageError

def dataLogMagic : List UInt8 := [0x54, 0x43, 0x4f, 0x57, 0x44, 0x41, 0x54, 0x21]
def dataLogVersion : Nat := 3
def dataLogHeaderLen : Nat := 8 + 2 + 1 + 16 + 8 + 1 + 8
def dataLogChecksumOffset : Nat := 8 + 2 + 1 + 16 + 8 + 1
def dataLogKindSegment : UInt8 := 1
def dataLogKindAppendRun : UInt8 := 2

def integrityTag : SegmentPayloadIntegrity → UInt8
  | .crc32c _ => 1
  | .unchecked => 2

def integrityChecksum : SegmentPayloadIntegrity → Nat
  | .crc32c checksum => checksum
  | .unchecked => 0

def encodeTypedDataLogHeader (kind : UInt8) (identity : Nat) (integrity : SegmentPayloadIntegrity)
    (payloadLen : Nat) : Result (List UInt8) := do
  failIf (kind ≠ dataLogKindSegment ∧ kind ≠ dataLogKindAppendRun)
    (invalidArgument "unknown data-log record kind")
  return dataLogMagic ++ beBytes 2 dataLogVersion ++ [kind] ++ beBytes 16 identity ++ beBytes 8 payloadLen ++
    [integrityTag integrity] ++ beBytes 8 (integrityChecksum integrity)

def encodeTypedDataLogRecord (kind : UInt8) (identity : Nat) (integrity : SegmentPayloadIntegrity)
    (bytes : List UInt8) : Result (List UInt8) := do
  failIf (bytes.length ≥ u64Bound) (invalidArgument "data-log payload length overflows u64")
  let out ← encodeTypedDataLogHeader kind identity integrity bytes.length
  return out ++ bytes

structure DataLogSegmentData where
  segmentId : Nat
  integrity : SegmentPayloadIntegrity
  bytes : List UInt8
  deriving DecidableEq

def encodeDataLogRecord (data : DataLogSegmentData) : Result (List UInt8) :=
  encodeTypedDataLogRecord dataLogKindSegment data.segmentId data.integrity data.bytes

inductive DataLogRecordData
  | segment (data : DataLogSegmentData)
  | appendRun
  deriving DecidableEq

/-- `from_be_bytes` of the `n` bytes at the offset. -/
def beField (record : List UInt8) (offset n : Nat) : Nat := beNat ((record.drop offset).take n)

def decodeDataLogIntegrity (tag : UInt8) (expectedChecksum : Nat) : Result SegmentPayloadIntegrity :=
  if tag = 1 then
    .ok (.crc32c expectedChecksum)
  else if tag = 2 then
    if expectedChecksum = 0 then .ok .unchecked
    else .error (corrupt "unchecked data-log record has nonzero checksum")
  else
    .error (corrupt "invalid data-log integrity tag")

section

variable (crc : List UInt8 → BitVec 32)

def decodeDataLogRecord (record : List UInt8) : Result DataLogRecordData := do
  failIf (record.length < dataLogHeaderLen) (corrupt "data-log record is truncated")
  failIf (record.take 8 ≠ dataLogMagic) (corrupt "bad data-log magic")
  failIf (beField record 8 2 ≠ dataLogVersion) (corrupt "unsupported data-log version")
  let expectedRecordLen ← checkedAdd dataLogHeaderLen (beField record 27 8)
    (corrupt "data-log record length overflow")
  failIf (record.length ≠ expectedRecordLen) (corrupt "data-log record length mismatch")
  let bytes := record.drop dataLogHeaderLen
  let integrity ← decodeDataLogIntegrity (record.getD 35 0) (beField record dataLogChecksumOffset 8)
  verifySegmentPayloadIntegrity (dataLogChecksum crc) integrity bytes
  if record.getD 10 0 = dataLogKindSegment then
    return .segment ⟨beField record 11 16, integrity, bytes⟩
  else if record.getD 10 0 = dataLogKindAppendRun then
    return .appendRun
  else
    .error (corrupt "invalid data-log record kind")

def decodeSegmentDataLogRecord (record : List UInt8) : Result DataLogSegmentData := do
  match ← decodeDataLogRecord crc record with
  | .segment data => return data
  | .appendRun => .error (corrupt "expected segment data-log record, found append-run record")

/-- The payload of a segment, as the row of its placement says; `short` is the error of a read past
the end of the log. -/
def readSegmentPayload (short : StorageError) (log : List UInt8) (segmentId recordOffset recordBytes
    payloadBytes : Nat) (integrity : SegmentPayloadIntegrity) : Result (List UInt8) := do
  let record := (log.drop recordOffset).take recordBytes
  failIf (record.length < recordBytes) short
  let data ← decodeSegmentDataLogRecord crc record
  failIf (data.segmentId ≠ segmentId ∨ data.bytes.length ≠ payloadBytes ∨ data.integrity ≠ integrity)
    (corrupt "data-log record disagrees with SQLite placement")
  return data.bytes

end

/-! ## The layout -/

theorem beNat_lt (bs : List UInt8) : beNat bs < 256 ^ bs.length := by
  induction bs using List.reverseRecOn with
  | nil => exact Nat.one_pos
  | append_singleton bs b ih =>
    have hb := b.toNat_lt
    rw [beNat_concat, List.length_append, List.length_singleton, Nat.pow_succ]
    omega

theorem beBytes_beNat {bs : List UInt8} {n : Nat} (h : bs.length = n) : beBytes n (beNat bs) = bs := by
  subst h
  refine beNat_inj (length_beBytes _ _) ?_
  rw [beNat_beBytes, Nat.mod_eq_of_lt (beNat_lt bs)]

variable {record : List UInt8} {offset n : Nat}

theorem beField_lt : beField record offset n < 256 ^ n :=
  (beNat_lt _).trans_le (Nat.pow_le_pow_right (by decide) (List.length_take_le _ _))

theorem drop_eq_field (h : offset + n ≤ record.length) :
    record.drop offset = beBytes n (beField record offset n) ++ record.drop (offset + n) := by
  have hlen : ((record.drop offset).take n).length = n := by
    rw [List.length_take, List.length_drop]
    omega
  rw [beField, beBytes_beNat hlen, ← List.drop_drop, List.take_append_drop]

theorem drop_eq_byte (h : offset < record.length) :
    record.drop offset = record.getD offset 0 :: record.drop (offset + 1) := by
  rw [List.drop_eq_getElem_cons h, List.getD_eq_getElem?_getD, List.getElem?_eq_getElem h]
  rfl

/-- A record with a header is made of its fields. -/
theorem record_eq (h : dataLogHeaderLen ≤ record.length) :
    record = record.take 8 ++ (beBytes 2 (beField record 8 2) ++ record.getD 10 0 ::
      (beBytes 16 (beField record 11 16) ++ (beBytes 8 (beField record 27 8) ++ record.getD 35 0 ::
        (beBytes 8 (beField record dataLogChecksumOffset 8) ++ record.drop dataLogHeaderLen)))) := by
  simp only [dataLogHeaderLen, dataLogChecksumOffset] at h ⊢
  rw [← drop_eq_field (by omega), ← drop_eq_byte (by omega), ← drop_eq_field (by omega),
    ← drop_eq_field (by omega), ← drop_eq_byte (by omega), ← drop_eq_field (by omega), List.take_append_drop]

variable {crc : List UInt8 → BitVec 32} {data data' : DataLogSegmentData}

theorem encodeDataLogRecord_eq_ok : encodeDataLogRecord data = .ok record ↔ data.bytes.length < u64Bound ∧
      record = dataLogMagic ++ (beBytes 2 dataLogVersion ++ dataLogKindSegment ::
        (beBytes 16 data.segmentId ++ (beBytes 8 data.bytes.length ++ integrityTag data.integrity ::
          (beBytes 8 (integrityChecksum data.integrity) ++ data.bytes)))) := by
  rw [encodeDataLogRecord, encodeTypedDataLogRecord, bind_eq_ok]
  simp [encodeTypedDataLogHeader, failIf_eq_ok, bind_eq_ok, @eq_comm _ record]

theorem decodeDataLogIntegrity_eq_ok {tag : UInt8} {sum : Nat} {integrity : SegmentPayloadIntegrity} :
    decodeDataLogIntegrity tag sum = .ok integrity ↔
      tag = integrityTag integrity ∧ sum = integrityChecksum integrity := by
  unfold decodeDataLogIntegrity
  split_ifs <;> cases integrity <;> simp_all [integrityTag, integrityChecksum]

theorem decodeSegmentDataLogRecord_eq_ok :
    decodeSegmentDataLogRecord crc record = .ok data ↔ dataLogHeaderLen ≤ record.length ∧
      record.take 8 = dataLogMagic ∧ beField record 8 2 = dataLogVersion ∧
      dataLogHeaderLen + beField record 27 8 < u64Bound ∧
      record.length = dataLogHeaderLen + beField record 27 8 ∧
      decodeDataLogIntegrity (record.getD 35 0) (beField record dataLogChecksumOffset 8) =
        .ok data.integrity ∧
      verifySegmentPayloadIntegrity (dataLogChecksum crc) data.integrity data.bytes = .ok () ∧
      record.getD 10 0 = dataLogKindSegment ∧ beField record 11 16 = data.segmentId ∧
      record.drop dataLogHeaderLen = data.bytes := by
  constructor
  · intro h
    obtain ⟨decoded, hdecoded, h⟩ := bind_eq_ok.1 h
    cases decoded with
    | appendRun => cases h
    | segment decoded =>
      cases h
      simp only [decodeDataLogRecord, bind_eq_ok, failIf_eq_ok] at hdecoded
      obtain ⟨⟨⟩, hheader, ⟨⟩, hmagic, ⟨⟩, hversion, _, hadd, ⟨⟩, hlength, integrity, hintegrity,
        ⟨⟩, hverify, hkind⟩ := hdecoded
      obtain ⟨rfl, hbound⟩ := checkedAdd_eq_ok hadd
      split at hkind
      · next hsegment =>
        cases hkind
        exact ⟨Nat.not_lt.1 hheader, not_not.1 hmagic, not_not.1 hversion, hbound, not_not.1 hlength,
          hintegrity, hverify, hsegment, rfl, rfl⟩
      · split at hkind <;> cases hkind
  · rintro ⟨hheader, hmagic, hversion, hbound, hlength, hintegrity, hverify, hkind, hid, hbytes⟩
    simp only [decodeSegmentDataLogRecord, decodeDataLogRecord, failIf, checkedAdd_of_lt hbound, hmagic, hversion,
      hintegrity, hverify, hkind, hid, hbytes, ← hlength, Nat.not_lt.2 hheader, ne_eq, not_true_eq_false,
      if_false, if_true, ok_bind]
    rfl

theorem verify_eq_ok_iff {crc : List UInt8 → Nat} {integrity : SegmentPayloadIntegrity} {bytes : List UInt8} :
    verifySegmentPayloadIntegrity crc integrity bytes = .ok () ↔ Tagged crc integrity bytes := by
  refine ⟨?_, Tagged.verify⟩
  rintro h sum rfl
  exact (not_not.1 (failIf_eq_ok.1 h)).symm

/-- The fields have the machine's types. -/
def DataLogSegmentData.Fits (data : DataLogSegmentData) : Prop :=
  data.segmentId < u128Bound ∧ integrityChecksum data.integrity < u64Bound

theorem decodeSegmentDataLogRecord_iff (hlen : record.length < u64Bound) :
    decodeSegmentDataLogRecord crc record = .ok data ↔ data.Fits ∧ encodeDataLogRecord data = .ok record ∧
      Tagged (dataLogChecksum crc) data.integrity data.bytes := by
  have h64 : u64Bound = 256 ^ 8 := by decide
  have h128 : u128Bound = 256 ^ 16 := by decide
  rw [decodeSegmentDataLogRecord_eq_ok, encodeDataLogRecord_eq_ok, decodeDataLogIntegrity_eq_ok,
    verify_eq_ok_iff, DataLogSegmentData.Fits, h64, h128]
  constructor
  · rintro ⟨hheader, hmagic, hversion, -, hrecord, ⟨htag, hsum⟩, hverify, hkind, hid, hbytes⟩
    have hpayload : data.bytes.length = beField record 27 8 := by
      rw [← hbytes, List.length_drop, hrecord]
      exact Nat.add_sub_cancel_left _ _
    refine ⟨⟨hid ▸ beField_lt, hsum ▸ beField_lt⟩, ⟨hpayload ▸ beField_lt, ?_⟩, hverify⟩
    rw [← hmagic, ← hversion, ← hkind, ← hid, hpayload, ← htag, ← hsum, ← hbytes]
    exact record_eq hheader
  · rintro ⟨⟨hid, hsum⟩, ⟨hpayload, hrecord⟩, hverify⟩
    have hlength : record.length = dataLogHeaderLen + data.bytes.length := by
      rw [hrecord]
      simp [dataLogMagic, dataLogHeaderLen]
      omega
    have hheader : dataLogHeaderLen ≤ record.length := by omega
    have heq := (record_eq hheader).symm.trans hrecord
    have htake : (record.take 8).length = dataLogMagic.length := by
      rw [List.length_take, min_eq_left]
      · rfl
      · exact le_trans (by decide) hheader
    obtain ⟨hmagic, heq⟩ := List.append_inj heq htake
    rw [beBytes_append_iff beField_lt (by decide), List.cons.injEq, beBytes_append_iff beField_lt hid,
      beBytes_append_iff beField_lt hpayload, List.cons.injEq, beBytes_append_iff beField_lt hsum] at heq
    obtain ⟨hversion, hkind, hidentity, hfield, htag, hchecksum, hbytes⟩ := heq
    rw [hfield, ← hlength]
    exact ⟨hheader, hmagic, hversion, h64 ▸ hlen, rfl, ⟨htag, hchecksum⟩, hverify, hkind, hidentity, hbytes⟩

/-- A byte string is taken for a segment record exactly if it is the encoding of what it is decoded
to, with a checksum that matches; a payload is read only from such a record.  Encodings of different
data are different, and a string that differs from a record is not taken for the same one. -/
theorem segment_records_decode_uniquely (crc : List UInt8 → BitVec 32) :
    (∀ (record : List UInt8) (data : DataLogSegmentData), record.length < u64Bound →
      (decodeSegmentDataLogRecord crc record = .ok data ↔
        data.Fits ∧ encodeDataLogRecord data = .ok record ∧
          Tagged (dataLogChecksum crc) data.integrity data.bytes)) ∧
    (∀ (record : List UInt8) (data data' : DataLogSegmentData), data.Fits → data'.Fits →
      encodeDataLogRecord data = .ok record → encodeDataLogRecord data' = .ok record → data = data') ∧
    (∀ (record record' : List UInt8) (data : DataLogSegmentData), record.length < u64Bound →
      record'.length < u64Bound → decodeSegmentDataLogRecord crc record = .ok data →
      decodeSegmentDataLogRecord crc record' = .ok data → record' = record) ∧
    ∀ short log segmentId recordOffset recordBytes payloadBytes integrity bytes, recordBytes < u64Bound →
      readSegmentPayload crc short log segmentId recordOffset recordBytes payloadBytes integrity = .ok bytes →
      bytes.length = payloadBytes ∧
        encodeDataLogRecord ⟨segmentId, integrity, bytes⟩ = .ok ((log.drop recordOffset).take recordBytes) := by
  refine ⟨fun record data hlen => decodeSegmentDataLogRecord_iff hlen, ?_, ?_, ?_⟩
  · intro record data data' hfits hfits' h h'
    obtain ⟨hlen, hrecord⟩ := encodeDataLogRecord_eq_ok.1 h
    obtain ⟨hlen', hrecord'⟩ := encodeDataLogRecord_eq_ok.1 h'
    obtain ⟨-, heq⟩ := List.append_inj (hrecord.symm.trans hrecord') rfl
    rw [beBytes_append_iff (by decide) (by decide), List.cons.injEq, beBytes_append_iff hfits.1 hfits'.1,
      beBytes_append_iff hlen hlen', List.cons.injEq, beBytes_append_iff hfits.2 hfits'.2] at heq
    obtain ⟨-, -, hid, -, htag, hsum, hbytes⟩ := heq
    have hintegrity : data.integrity = data'.integrity := Except.ok.inj
      ((decodeDataLogIntegrity_eq_ok.2 ⟨rfl, rfl⟩).symm.trans (decodeDataLogIntegrity_eq_ok.2 ⟨htag, hsum⟩))
    cases data
    cases data'
    simp_all
  · intro record record' data hlen hlen' h h'
    have hencode := ((decodeSegmentDataLogRecord_iff hlen).1 h).2.1
    exact Except.ok.inj (((decodeSegmentDataLogRecord_iff hlen').1 h').2.1.symm.trans hencode)
  · intro short log segmentId recordOffset recordBytes payloadBytes integrity bytes hrecord h
    obtain ⟨⟨⟩, -, h⟩ := bind_eq_ok.1 h
    obtain ⟨data, hdata, h⟩ := bind_eq_ok.1 h
    obtain ⟨⟨⟩, hagrees, h⟩ := bind_eq_ok.1 h
    cases h
    simp only [failIf_eq_ok, not_or, not_not] at hagrees
    obtain ⟨rfl, rfl, rfl⟩ := hagrees
    have hlen := (List.length_take_le recordBytes (log.drop recordOffset)).trans_lt hrecord
    exact ⟨rfl, ((decodeSegmentDataLogRecord_iff hlen).1 hdata).2.1⟩

end CowStore.Durable
