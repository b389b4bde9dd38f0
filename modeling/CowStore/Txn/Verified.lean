import CowStore.Txn.Cuts
import CowStore.Txn.Trees

/-!
# Verified reads

A read that requires verification verifies the segments that its first walk finds, and
returns the bytes of those that its second walk finds.  So it has verified what it returns
exactly if the heads that the second walk starts from have no other segments under the
requested blocks than those of the first.
-/

namespace CowStore.Txn

open Lib Object Local Script

/-- The bytes of a read are those that segments gave it, over zeros, and each of these segments
has a checksum that matched its payload when the read verified it. -/
structure VerifiedRead (u : Setup) (acts : List TxnAct) (t bufLen : Nat) (bytes : List UInt8) : Prop where
  pieces : ∃ pieces : List (Nat × List UInt8), bytes = spliceAll (List.replicate bufLen 0) pieces ∧
    ∀ piece ∈ pieces, ∃ segmentId range, ⟨.readSegment segmentId range, .ok piece.2⟩ ∈ own t acts
  verified : ∀ segmentId (range : ByteRange) data, ⟨.readSegment segmentId range, .ok data⟩ ∈ own t acts →
    ∃ before rest record,
      acts = before ++ ⟨t, ⟨.verifySegmentPayloadForRead segmentId .requireVerified, .ok ()⟩⟩ :: rest ∧
      (u.stateAfter before).storageNodes.store.lookup segmentId = some record ∧
      record.descriptor.integrity = .crc32c (u.crc record.bytes) ∧
      data = slice record.bytes range.offset range.len

def VerifiedReads (u : Setup) (calls : Nat → TxnCall) (acts : List TxnAct) : Prop :=
  ∀ t deviceId range bufLen bytes, calls t = .readDevice deviceId range bufLen .requireVerified →
    Returned u calls acts t (.bytes bytes) → VerifiedRead u acts t bufLen bytes

/-- The segments under the blocks of `range` in the trees of the heads with which the
operations begin, after the manifest. -/
def segmentsFrom (s : TxnState) (deviceId : Nat) (range : ByteRange) : List TxnEvent → List Nat
  | ⟨.readOne (.deviceManifest _), r⟩ :: es =>
    match r.value.bind MetadataTxnValue.manifest? with
    | some manifest => (Cut.mk deviceId 1 (headReads deviceId es)).roots.flatMap
      (s.segmentsAt (requestedBlocks manifest.spec range))
    | none => []
  | _ => []

def secondWalk (es : List TxnEvent) : List TxnEvent :=
  es.drop (1 + (es.drop 1).findIdx isManifestRead)

/-- The heads that the second walk of a read starts from have no segments under the requested
blocks that those of the first walk have not. -/
def SegmentsKept (u : Setup) (calls : Nat → TxnCall) (acts : List TxnAct) : Prop :=
  ∀ t deviceId range bufLen bytes, calls t = .readDevice deviceId range bufLen .requireVerified →
    Returned u calls acts t (.bytes bytes) →
    segmentsFrom (u.stateAfter acts) deviceId range (secondWalk (own t acts)) ⊆
      segmentsFrom (u.stateAfter acts) deviceId range (own t acts)

/-! ## Payloads in a run -/

section

variable {u : Setup} {calls : Nat → TxnCall} {acts : List TxnAct} {t segmentId : Nat}

open StorageNodes

theorem keepsPayloads_onStorageNodes {α : Type} {s : TxnState} {op : SegmentOp α}
    (h : Moves KeepsPayloads op s.storageNodes) :
    KeepsPayloads s.storageNodes (s.onStorageNodes op).2.storageNodes := by
  unfold TxnState.onStorageNodes
  cases hop : op s.storageNodes with
  | ok a storageNodes => exact (wp_of_ok h hop).1
  | error err storageNodes => exact wp_of_error h hop

theorem keepsPayloads_serve {r : TxnReq} {s : TxnState} :
    KeepsPayloads s.storageNodes (u.serve r s).2.storageNodes := by
  cases r with
  | writeSegment bytes integrity =>
    exact keepsPayloads_onStorageNodes ((writeSegment_leaves ..).weaken fun _ h => h.2).moves
  | markSegmentReferenced segmentId =>
    exact keepsPayloads_onStorageNodes markSegmentReferenced_keepsPayloads
  | commit phase txn =>
    refine keepsPayloads_of_store ?_
    change (s.commit txn).2.storageNodes.store = _
    rw [TxnState.commit_snd]
  | _ => exact Std.Refl.refl _

theorem keepsPayloads_stateAfter (acts acts' : List TxnAct) :
    KeepsPayloads (u.stateAfter acts).storageNodes (u.stateAfter (acts ++ acts')).storageNodes := by
  induction acts' using List.reverseRecOn with
  | nil =>
    rw [List.append_nil]
    exact Std.Refl.refl _
  | append_singleton acts' act ih =>
    rw [← List.append_assoc, Setup.stateAfter_concat]
    exact IsTrans.trans _ _ _ ih keepsPayloads_serve

/-- The payload that a call read is the one that it verified. -/
theorem Setup.Runs.verified {range : ByteRange} {data : List UInt8} (h : u.Runs calls acts)
    (hread : (⟨.readSegment segmentId range, .ok data⟩ : TxnEvent) ∈ own t acts)
    (hverify : (⟨.verifySegmentPayloadForRead segmentId .requireVerified, .ok ()⟩ : TxnEvent) ∈ own t acts) :
    ∃ before rest record,
      acts = before ++ ⟨t, ⟨.verifySegmentPayloadForRead segmentId .requireVerified, .ok ()⟩⟩ :: rest ∧
      (u.stateAfter before).storageNodes.store.lookup segmentId = some record ∧
      record.descriptor.integrity = .crc32c (u.crc record.bytes) ∧
      data = slice record.bytes range.offset range.len := by
  obtain ⟨before, rest, hacts⟩ := List.append_of_mem (mem_own.1 hverify)
  obtain ⟨before', rest', hacts'⟩ := List.append_of_mem (mem_own.1 hread)
  have hanswer := (hacts ▸ h).answer
  have hanswer' := (hacts' ▸ h).answer
  change .ok () = (u.stateAfter before).storageNodes.verifySegmentPayloadForRead u.crc segmentId
    .requireVerified at hanswer
  change .ok data = (u.stateAfter before').storageNodes.readSegment segmentId range at hanswer'
  rw [StorageNodes.verifySegmentPayloadForRead, if_neg (by decide), eq_comm, bind_eq_ok] at hanswer
  obtain ⟨record, hrecord, hanswer⟩ := hanswer
  rw [bind_eq_ok] at hanswer
  obtain ⟨_, hchecked, hanswer⟩ := hanswer
  rw [orFail_eq_ok] at hrecord
  rw [failIf_eq_ok] at hchecked
  rw [StorageNodes.readSegment, eq_comm, bind_eq_ok] at hanswer'
  obtain ⟨record', hrecord', hanswer'⟩ := hanswer'
  simp only [bind_eq_ok, pure_eq_ok] at hanswer'
  obtain ⟨-, -, -, -, -, -, hdata⟩ := hanswer'
  rw [orFail_eq_ok] at hrecord'
  -- neither payload has changed by the end
  obtain ⟨synced, hlast⟩ := hacts ▸ keepsPayloads_stateAfter before _ segmentId record hrecord
  obtain ⟨synced', hlast'⟩ := hacts' ▸ keepsPayloads_stateAfter before' _ segmentId record' hrecord'
  have hbytes : record.bytes = record'.bytes := by
    have heq := hlast.symm.trans hlast'
    rw [Option.some.injEq, SegmentRecord.mk.injEq] at heq
    exact heq.1
  refine ⟨before, rest, record, hacts, hrecord, ?_, by rw [hbytes, Except.ok.inj hdata]⟩
  cases hintegrity : record.descriptor.integrity with
  | unchecked => exact absurd ⟨hintegrity, rfl⟩ hchecked
  | crc32c expected =>
    rw [hintegrity, verifySegmentPayloadIntegrity, failIf_eq_ok, not_not] at hanswer
    rw [hanswer]

end

/-! ## The two walks -/

section

variable {u : Setup} {calls : Nat → TxnCall} {acts : List TxnAct} {t deviceId bufLen : Nat}
  {range : ByteRange} {s : TxnState} {es : List TxnEvent}

/-- The nodes that a call has read are those of the last state. -/
theorem Setup.Runs.seesNodes (h : u.Runs calls acts) (hcount : (u.stateAfter acts).Counting)
    (hcalls : Coordinated calls) (t : Nat) : SeesNodes (u.stateAfter acts) (own t acts) := by
  intro nodeId r value hmem hvalue
  obtain ⟨before, rest, rfl⟩ := List.append_of_mem (mem_own.1 hmem)
  have hanswer : r = (u.stateAfter before).readOne _ := h.answer
  refine h.node_kept hcount hcalls ?_
  rw [← readOne_value, ← hanswer, hvalue]

theorem segmentsFrom_eq {r : VersionedMetadataTxnValue} {manifest : TxnDeviceManifest}
    {capture : List (Nat × VersionedMetadataTxnValue)} {chunks : List DeviceWriteChunk}
    (hvalue : r.value = some (.deviceManifest manifest)) (hrooted : List.Forall₂ RootedAt chunks capture)
    (hes : ∀ e ∈ es.head?, ∀ deviceId shardId, e.1 ≠ .readOne (.deviceShardHead deviceId shardId)) :
    segmentsFrom s deviceId range
        (⟨.readOne (.deviceManifest deviceId), r⟩ :: (capture.map (headRead deviceId) ++ es)) =
      chunks.flatMap fun chunk => s.segmentsAt (requestedBlocks manifest.spec range) chunk.oldRoot := by
  have hroots : (Cut.mk deviceId 1 capture).roots = chunks.map DeviceWriteChunk.oldRoot := by
    rw [Cut.roots]
    induction hrooted with
    | nil => rfl
    | cons hchunk _ ih =>
      obtain ⟨-, head, hhead, hroot⟩ := hchunk
      rw [List.filterMap_cons, hhead, List.map_cons, ← hroot, ← ih]
      rfl
  have hmanifest : r.value.bind MetadataTxnValue.manifest? = some manifest := by
    rw [hvalue]
    rfl
  simp only [segmentsFrom, hmanifest, headReads_append capture hes, hroots, List.flatMap_map]

theorem Visits.readSegment {requested : BlockRange} {blockSize : Nat} {entries : List LeafEntry}
    {parts : List (Nat × List UInt8)} (h : Visits (readEntry requested blockSize bufLen) entries es parts) :
    (∀ segmentId, (∃ range data, (⟨.readSegment segmentId range, .ok data⟩ : TxnEvent) ∈ es) ↔
      segmentId ∈ (entries.filter fun entry => entry.logicalRange.Meets requested).map LeafEntry.segmentId) ∧
    ∀ part ∈ parts, ∃ segmentId range, (⟨.readSegment segmentId range, .ok part.2⟩ : TxnEvent) ∈ es := by
  induction h with
  | nil => simp
  | read h ih => simpa using ih
  | @visit entry entries es1 es2 out1 out2 hentry h ih =>
    obtain ⟨hsegments, hparts⟩ := ih
    simp only [readEntry, returns_lift_bind, BlockRange.intersection_eq_ok] at hentry
    obtain ⟨overlap, ⟨-, rfl⟩, hentry⟩ := hentry
    by_cases hmeets : entry.logicalRange.Meets requested
    · rw [if_pos hmeets] at hentry
      simp only [returns_lift_bind, perform, returns_request_bind, pure_eq_done, returns_done] at hentry
      obtain ⟨-, -, offset, -, len, -, outputOffset, -, -, -, -, -, x, es', rfl, data, rfl, -, -, rfl,
        rfl⟩ := hentry
      refine ⟨?_, ?_⟩
      · intro segmentId
        rw [List.filter_cons_of_pos (by simpa using hmeets), List.map_cons, List.mem_cons, ← hsegments]
        constructor
        · rintro ⟨range, data', hmem⟩
          obtain heq | hmem := List.mem_cons.1 hmem
          · cases heq
            exact .inl rfl
          · exact .inr ⟨range, data', hmem⟩
        · rintro (rfl | ⟨range, data', hmem⟩)
          · exact ⟨⟨offset, len⟩, data, List.mem_cons_self⟩
          · exact ⟨range, data', List.mem_cons_of_mem _ hmem⟩
      · intro part hpart
        obtain rfl | hpart := List.mem_cons.1 hpart
        · exact ⟨entry.segmentId, ⟨offset, len⟩, List.mem_cons_self⟩
        · obtain ⟨segmentId, range, hmem⟩ := hparts part hpart
          exact ⟨segmentId, range, List.mem_cons_of_mem _ hmem⟩
    · rw [if_neg hmeets] at hentry
      obtain ⟨rfl, rfl⟩ := returns_done.1 hentry
      rw [List.filter_cons_of_neg (by simpa using hmeets)]
      exact ⟨hsegments, hparts⟩

theorem flatMap_segmentsAt {requested : BlockRange} (chunks : List DeviceWriteChunk) :
    (chunks.flatMap fun chunk => s.segmentsAt requested chunk.oldRoot) =
      ((chunks.flatMap fun chunk => s.entriesAt requested chunk.oldRoot).filter fun entry =>
        entry.logicalRange.Meets requested).map LeafEntry.segmentId := by
  rw [List.filter_flatMap, List.map_flatMap]
  rfl

theorem secondWalk_eq {e : TxnEvent} {first rest : List TxnEvent} {r : VersionedMetadataTxnValue}
    (hfirst : ∀ e ∈ first, isManifestRead e = false) :
    secondWalk (e :: (first ++ ⟨.readOne (.deviceManifest deviceId), r⟩ :: rest)) =
      ⟨.readOne (.deviceManifest deviceId), r⟩ :: rest := by
  rw [secondWalk, List.drop_succ_cons, List.drop_zero, findIdx_isManifestRead hfirst, Nat.add_comm,
    List.drop_succ_cons, List.drop_left]

/-- What a read has read and what it has verified. -/
theorem Returned.walks {bytes : List UInt8} (h : u.Runs calls acts)
    (hcount : (u.stateAfter acts).Counting) (hcalls : Coordinated calls)
    (hcall : calls t = .readDevice deviceId range bufLen .requireVerified)
    (hreturned : Returned u calls acts t (.bytes bytes)) :
    (∃ pieces : List (Nat × List UInt8), bytes = spliceAll (List.replicate bufLen 0) pieces ∧
      ∀ piece ∈ pieces, ∃ segmentId range, ⟨.readSegment segmentId range, .ok piece.2⟩ ∈ own t acts) ∧
    (∀ segmentId, (∃ range data, (⟨.readSegment segmentId range, .ok data⟩ : TxnEvent) ∈ own t acts) ↔
      segmentId ∈ segmentsFrom (u.stateAfter acts) deviceId range (secondWalk (own t acts))) ∧
    ∀ segmentId, (⟨.verifySegmentPayloadForRead segmentId .requireVerified, .ok ()⟩ : TxnEvent) ∈ own t acts ↔
      segmentId ∈ segmentsFrom (u.stateAfter acts) deviceId range (own t acts) := by
  have hsees := h.seesNodes hcount hcalls t
  rw [Returned, hcall] at hreturned
  generalize own t acts = es at hreturned hsees
  obtain ⟨bytes', es1, es2, rfl, hread, hdone⟩ := returns_bind.1 hreturned
  obtain ⟨rfl, heq⟩ := returns_done.1 hdone
  cases heq
  rw [List.append_nil] at hsees ⊢
  obtain ⟨ids, first, second, verified, hes, hids, hbytes, hverified⟩ :=
    returns_readDeviceWithVerification hread
  obtain ⟨parts1, ⟨r1, manifest1, capture1, chunks1, walked1, rfl, hvalue1, hrooted1, hwalk1⟩, hidsEq⟩ :=
    returns_segmentIdsForDeviceRead hids
  obtain ⟨parts, ⟨r, manifest, capture, chunks, walked, rfl, hvalue, hrooted, hwalk⟩, hsplice⟩ :=
    returns_readDeviceUnverified hbytes
  simp only [List.cons_append, List.append_assoc] at hes
  have hsegments1 := (visits_mapM (fun _ _ _ => visits_walkChunk) hwalk1
    (hsees.mono (by intro e; simp +contextual [hes]))).segments
  obtain ⟨hsegments, hparts⟩ := (visits_mapM (fun _ _ _ => visits_walkChunk) hwalk
    (hsees.mono (by intro e; simp +contextual [hes]))).readSegment
  rw [← flatMap_segmentsAt] at hsegments1 hsegments
  have hasks1 : ∀ e ∈ walked1, ∃ nodeId, e.1 = .readOne (.metadataNode nodeId) :=
    ((asks_mapM fun _ _ => asks_walkChunk (P := fun r => ∃ nodeId, r = .readOne (.metadataNode nodeId))
      (fun nodeId => ⟨nodeId, rfl⟩) fun _ => asks_entrySegment).steps hwalk1).1
  have hasks : ∀ e ∈ walked, (∃ nodeId, e.1 = .readOne (.metadataNode nodeId)) ∨
      ∃ segmentId range, e.1 = .readSegment segmentId range :=
    ((asks_mapM fun _ _ => asks_walkChunk
      (P := fun r => (∃ nodeId, r = .readOne (.metadataNode nodeId)) ∨
        ∃ segmentId range, r = .readSegment segmentId range)
      (fun nodeId => .inl ⟨nodeId, rfl⟩)
      fun _ => asks_readEntry fun segmentId range => .inr ⟨segmentId, range, rfl⟩).steps hwalk).1
  -- the heads with which the walks start
  have hfrom1 : segmentsFrom (u.stateAfter acts) deviceId range es1 = parts1.flatten := by
    rw [hes, segmentsFrom_eq hvalue1 hrooted1, hsegments1]
    intro e he
    cases walked1 with
    | nil =>
      cases he
      simp
    | cons e' walked1 =>
      cases he
      obtain ⟨nodeId, heq⟩ := hasks1 e List.mem_cons_self
      simp [heq]
  have hfrom : segmentsFrom (u.stateAfter acts) deviceId range (secondWalk es1) =
      chunks.flatMap fun chunk =>
        (u.stateAfter acts).segmentsAt (requestedBlocks manifest.spec range) chunk.oldRoot := by
    rw [hes, ← List.append_assoc, secondWalk_eq, segmentsFrom_eq hvalue hrooted]
    · intro e he
      obtain hmem | hmem := List.mem_append.1 (List.mem_of_mem_head? he)
      · obtain ⟨nodeId, heq⟩ | ⟨segmentId, range, heq⟩ := hasks e hmem
        · simp [heq]
        · simp [heq]
      · rw [hverified] at hmem
        obtain ⟨segmentId, -, rfl⟩ := List.mem_map.1 hmem
        simp
    · intro e he
      refine isManifestRead_eq_false ?_
      obtain hmem | hmem := List.mem_append.1 he
      · obtain ⟨read, -, rfl⟩ := List.mem_map.1 hmem
        simp [headRead]
      · obtain ⟨nodeId, heq⟩ := hasks1 e hmem
        simp [heq]
  have hmem : ∀ {e : TxnEvent}, (∀ key, e.1 ≠ .readOne key) → (e ∈ es1 ↔ e ∈ walked ∨ e ∈ verified) := by
    intro e he
    have hmanifest : ∀ r, e ≠ ⟨.readOne (.deviceManifest deviceId), r⟩ := by
      rintro r rfl
      exact he _ rfl
    have hheads : ∀ capture, e ∉ List.map (headRead deviceId) capture := by
      intro capture hmem
      obtain ⟨read, -, rfl⟩ := List.mem_map.1 hmem
      exact he _ rfl
    have hwalked1 : e ∉ walked1 := fun hmem => (hasks1 e hmem).elim fun _ => he _
    simp only [hes, List.mem_cons, List.mem_append, hmanifest, hheads, hwalked1, false_or]
  rw [hfrom1, hfrom]
  refine ⟨⟨parts.flatten, hsplice, ?_⟩, ?_, ?_⟩
  · intro piece hpiece
    obtain ⟨segmentId, range, hread⟩ := hparts piece hpiece
    exact ⟨segmentId, range, (hmem (by simp)).2 (.inl hread)⟩
  · intro segmentId
    rw [← hsegments]
    refine exists_congr fun range' => exists_congr fun data => ?_
    refine (hmem (by simp)).trans (or_iff_left fun hverify => ?_)
    rw [hverified] at hverify
    obtain ⟨id, -, heq⟩ := List.mem_map.1 hverify
    cases heq
  · intro segmentId
    have hmem_ids : segmentId ∈ ids ↔ segmentId ∈ parts1.flatten := by
      rw [hidsEq, List.mem_dedup, List.mem_insertionSort]
    rw [← hmem_ids, hmem (by simp), or_iff_right, hverified]
    · simp
    · intro hwalked
      obtain ⟨nodeId, heq⟩ | ⟨id, range', heq⟩ := hasks _ hwalked
      · cases heq
      · cases heq

/-- A read has verified what it returns exactly if its second walk starts from heads that have
no other segments under the requested blocks than those of its first. -/
theorem verified_reads_iff (h : u.Runs calls acts) (hcount : (u.stateAfter acts).Counting)
    (hcalls : Coordinated calls) : VerifiedReads u calls acts ↔ SegmentsKept u calls acts := by
  constructor
  · intro hverified t deviceId range bufLen bytes hcall hreturned segmentId hsegment
    obtain ⟨-, hread, hverify⟩ := hreturned.walks h hcount hcalls hcall
    obtain ⟨range', data, hmem⟩ := (hread segmentId).2 hsegment
    obtain ⟨before, rest, record, rfl, -⟩ :=
      (hverified t deviceId range bufLen bytes hcall hreturned).verified segmentId range' data hmem
    exact (hverify segmentId).1 (mem_own.2 (List.mem_append_right _ List.mem_cons_self))
  · intro hkept t deviceId range bufLen bytes hcall hreturned
    obtain ⟨hpieces, hread, hverify⟩ := hreturned.walks h hcount hcalls hcall
    refine ⟨hpieces, fun segmentId range' data hmem => h.verified hmem ((hverify segmentId).2 ?_)⟩
    exact hkept t deviceId range bufLen bytes hcall hreturned ((hread segmentId).1 ⟨range', data, hmem⟩)

end

/-! ## A write between the walks -/

def writeAndRead (integrity : PayloadIntegrity) : Nat → TxnCall
  | 0 => .createDevice ⟨4, 4⟩
  | 1 => .writeDevice 1 0 [1, 2, 3, 4] .acknowledged integrity
  | 2 => .readDevice 1 ⟨0, 4⟩ 4 .requireVerified
  | _ => .deviceInfo 1

theorem coordinated_writeAndRead {integrity : PayloadIntegrity} : Coordinated (writeAndRead integrity) := by
  intro t node segments
  unfold writeAndRead
  split <;> exact nofun

def writeThenRead : List Nat := List.replicate 5 0 ++ List.replicate 14 1 ++ List.replicate 8 2

theorem verified_reads_writeThenRead :
    Returned twoShards (writeAndRead .verified)
        (twoShards.schedule (writeAndRead .verified) writeThenRead).acts 2 (.bytes [1, 2, 3, 4]) ∧
      VerifiedReads twoShards (writeAndRead .verified)
        (twoShards.schedule (writeAndRead .verified) writeThenRead).acts := by
  have hrun := twoShards.runs_schedule (writeAndRead .verified) writeThenRead
  have hcount : (twoShards.stateAfter
      (twoShards.schedule (writeAndRead .verified) writeThenRead).acts).Counting := by
    rw [Setup.stateAfter_schedule]
    decide +kernel
  refine ⟨Setup.returned_schedule (by decide +kernel),
    (verified_reads_iff hrun hcount coordinated_writeAndRead).2 ?_⟩
  intro t deviceId range bufLen bytes hcall hreturned
  obtain rfl : t = 2 := by
    unfold writeAndRead at hcall
    split at hcall
    · cases hcall
    · cases hcall
    · rfl
    · cases hcall
  cases hcall
  rw [Setup.stateAfter_schedule]
  change ∀ segmentId ∈ _, segmentId ∈ _
  decide +kernel

/-- The write commits between the two walks of the read. -/
def writeBetweenWalks : List Nat :=
  List.replicate 5 0 ++ List.replicate 3 2 ++ List.replicate 14 1 ++ List.replicate 4 2

/-- The read requires verification, verifies nothing, and returns the bytes of an unchecked
segment. -/
theorem read_unverified : ∃ acts, twoShards.Runs (writeAndRead .unchecked) acts ∧
    (twoShards.stateAfter acts).Counting ∧ Coordinated (writeAndRead .unchecked) ∧
    Returned twoShards (writeAndRead .unchecked) acts 2 (.bytes [1, 2, 3, 4]) ∧
    (⟨.readSegment 1 ⟨0, 4⟩, .ok [1, 2, 3, 4]⟩ : TxnEvent) ∈ own 2 acts ∧
    ((twoShards.stateAfter acts).storageNodes.store.lookup 1).map (·.descriptor.integrity) =
      some .unchecked ∧
    ¬ VerifiedReads twoShards (writeAndRead .unchecked) acts := by
  have hread : (⟨.readSegment 1 ⟨0, 4⟩, .ok [1, 2, 3, 4]⟩ : TxnEvent) ∈
      own 2 (twoShards.schedule (writeAndRead .unchecked) writeBetweenWalks).acts := by
    refine List.mem_of_getElem? (i := 6) ?_
    rfl
  have hreturned : Returned twoShards (writeAndRead .unchecked)
      (twoShards.schedule (writeAndRead .unchecked) writeBetweenWalks).acts 2 (.bytes [1, 2, 3, 4]) :=
    Setup.returned_schedule (by decide +kernel)
  refine ⟨_, Setup.runs_schedule _ _ writeBetweenWalks, ?_, coordinated_writeAndRead, hreturned, hread,
    ?_, ?_⟩
  · rw [Setup.stateAfter_schedule]
    decide +kernel
  · rw [Setup.stateAfter_schedule]
    decide +kernel
  · intro hverified
    obtain ⟨before, rest, record, hacts, -⟩ :=
      (hverified 2 1 ⟨0, 4⟩ 4 [1, 2, 3, 4] rfl hreturned).verified 1 ⟨0, 4⟩ [1, 2, 3, 4] hread
    have hnone : ∀ act ∈ (twoShards.schedule (writeAndRead .unchecked) writeBetweenWalks).acts,
        (match act.event.1 with | .verifySegmentPayloadForRead _ _ => false | _ => true) = true := by
      decide +kernel
    cases hnone _ (by rw [hacts]; exact List.mem_append_right _ List.mem_cons_self)

end CowStore.Txn
