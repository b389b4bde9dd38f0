import CowStore.Local.Commits
import CowStore.Lib.Run

/-!
# Runs of requests on block devices

The coordinator serves requests one after the other, beside the flat devices, which take
the same requests when they were answered.  In every state of such a run the live devices
are those of the flat model, and a read returns what the flat model holds.
-/

namespace CowStore.Local

open Lib Object

variable (crc : List UInt8 → Nat) (config : LocalStoreConfig)

/-- A request, beside the flat devices: these take it only if it was answered. -/
def serve (p : Coordinator × Flat) (request : DeviceRequest) : Coordinator × Flat :=
  match perform crc config request p.1 with
  | .ok response s => (s, p.2.step request response)
  | .error _ s => (s, p.2)

def serveAll (s : Coordinator) (requests : List DeviceRequest) : Coordinator × Flat :=
  requests.foldl (serve crc config) (s, Flat.new)

def DeviceRequest.writes : DeviceRequest → Option Nat
  | .commitBlockBatch deviceId _ _ | .discardDevice deviceId _ _ | .writeZeroes deviceId _ _ =>
    some deviceId
  | _ => none

variable {crc config}

variable {s : Coordinator} {flat : Flat} {history : History} {deviceId : Nat}

theorem Inv.new {storageNodes : List Nat} (w n : Nat)
    (h : Coordinator.withStorageNodes config storageNodes = .ok s) :
    Inv crc w n s Flat.new fun _ _ => [] := by
  obtain ⟨⟨⟩, -, h⟩ := bind_eq_ok.1 h
  cases h
  refine ⟨fun _ _ => rfl, fun _ _ => ⟨rfl, rfl⟩, Nat.one_pos, ?_, ?_, ?_, rfl, ?_⟩
  · exact nofun
  · intro id _
    refine ⟨rfl, rfl, rfl, fun k checkpoint hc => ?_⟩
    cases hc.1
  · intro k id commitSeq
    refine iff_of_false nofun ?_
    rintro ⟨checkpoint, hc, -⟩
    cases hc.1
  · intro id hid
    exact absurd hid (AList.notMem_empty id)

/-- Every request keeps the invariant, and one that fails changes no flat device. -/
theorem perform_wp (hinv : Inv crc config.blockSize config.shardCount s flat history)
    (request : DeviceRequest) : wp (perform crc config request) (fun response s' => ∃ history',
      Inv crc config.blockSize config.shardCount s' (flat.step request response) history')
      (fun s' => Inv crc config.blockSize config.shardCount s' flat history) s := by
  have hwrote : ∀ {deviceId d bytes commitSeq delta s'} (f : List UInt8 → List UInt8),
      bytes = f d.bytes →
      Wrote crc config.blockSize config.shardCount s flat history deviceId d bytes commitSeq delta s' →
      ∃ history', Inv crc config.blockSize config.shardCount s' (flat.update deviceId commitSeq f) history' := by
    rintro deviceId d bytes commitSeq delta s' f rfl hwrote
    obtain ⟨shards, h, -⟩ := hwrote.step
    rw [Flat.update, hwrote.device]
    exact ⟨_, h⟩
  cases request with
  | createDevice spec =>
    rw [perform, wp_bind]
    exact wp_mono (createDevice_wp hinv spec) (fun _ _ h => h) fun _ h => h
  | commitBlockBatch deviceId writes durability =>
    rw [perform, wp_bind]
    refine wp_mono (commitBlockBatch_wp hinv deviceId writes durability) ?_ fun _ h => h
    rintro r s' ⟨d, h⟩
    exact hwrote (fun bytes => spliceAll bytes (flatWrites writes)) rfl h
  | discardDevice deviceId offset len | writeZeroes deviceId offset len =>
    rw [perform, wp_bind]
    refine wp_mono (discardDevice_wp hinv deviceId offset len) ?_ fun _ h => h
    rintro r s' ⟨d, h⟩
    exact hwrote (fun bytes => splice bytes offset (List.replicate len 0)) rfl h
  | forkDevice source target =>
    rw [perform, wp_bind]
    refine wp_mono (forkDevice_wp hinv source target) ?_ fun _ h => h
    rintro head s' ⟨d, history', hd, h⟩
    refine ⟨history', ?_⟩
    rw [Flat.step, hd]
    exact h
  | restoreDevice source point =>
    rw [perform, wp_bind]
    refine wp_mono (restoreDevice_wp hinv source point) ?_ fun _ h => h
    rintro head s' ⟨d, chosen, history', hd, hchosen, h⟩
    refine ⟨history', ?_⟩
    rw [Flat.step, hd, hchosen]
    exact h
  | deleteDevice deviceId =>
    rw [perform, wp_bind]
    refine wp_mono (deleteDevice_wp hinv deviceId) ?_ fun _ h => h
    rintro _ s' ⟨d, hd, h⟩
    refine ⟨history, ?_⟩
    rw [Flat.step, hd]
    exact h
  | checkpoint deviceId =>
    rw [perform, wp_bind]
    refine wp_mono (checkpoint_wp hinv deviceId) ?_ fun _ h => h
    rintro _ s' ⟨d, hd, h⟩
    refine ⟨history, ?_⟩
    rw [Flat.step, hd]
    exact h

theorem serveAll_inv {storageNodes : List Nat}
    (h : Coordinator.withStorageNodes config storageNodes = .ok s) (requests : List DeviceRequest) :
    ∃ history, Inv crc config.blockSize config.shardCount (serveAll crc config s requests).1
      (serveAll crc config s requests).2 history := by
  have hrun : ∀ (rs : List DeviceRequest) (p : Coordinator × Flat),
      (∃ history, Inv crc config.blockSize config.shardCount p.1 p.2 history) →
      ∃ history, Inv crc config.blockSize config.shardCount (rs.foldl (serve crc config) p).1
        (rs.foldl (serve crc config) p).2 history := by
    intro rs
    induction rs with
    | nil => exact fun _ h => h
    | cons r rs ih =>
      rintro p ⟨history, hinv⟩
      refine ih _ ?_
      have hstep := perform_wp hinv r
      unfold wp at hstep
      unfold serve
      split
      · next hr =>
        rw [hr] at hstep
        exact hstep
      · next hr =>
        rw [hr] at hstep
        exact ⟨history, hstep⟩
  exact hrun requests _ ⟨_, Inv.new config.blockSize config.shardCount h⟩

/-- The coordinator has the live devices of the flat model, and reads of them return what
the flat model holds. -/
structure Agrees (crc : List UInt8 → Nat) (s : Coordinator) (flat : Flat) : Prop where
  exists_iff : ∀ deviceId, (∃ info, s.metadata.deviceInfo deviceId = .ok info) ↔
    ∃ bytes, flat.content deviceId = some bytes
  read_eq : ∀ deviceId bytes, flat.content deviceId = some bytes → ∀ range verification out,
    s.readDeviceWithVerification crc deviceId range range.len verification = .ok out →
      out = slice bytes range.offset range.len
  read_ok : ∀ deviceId bytes info, flat.content deviceId = some bytes →
    s.metadata.deviceInfo deviceId = .ok info → ∀ range : ByteRange,
    range.validateForDevice info.spec = .ok () → ∀ verification, verification ≠ .requireVerified →
      s.readDeviceWithVerification crc deviceId range range.len verification =
        .ok (slice bytes range.offset range.len)

theorem Flat.content_eq_some {bytes : List UInt8} : flat.content deviceId = some bytes ↔
      ∃ d, flat.devices deviceId = some d ∧ d.live = true ∧ d.bytes = bytes := by
  unfold Flat.content
  cases hd : flat.devices deviceId with
  | none => simp
  | some d => cases hlive : d.live <;> simp [hlive]

theorem Inv.deviceInfo_of_content {w n : Nat} (hinv : Inv crc w n s flat history)
    {bytes : List UInt8} (h : flat.content deviceId = some bytes) : ∃ (d : FlatDevice) (head : DeviceHead),
      flat.devices deviceId = some d ∧
      s.metadata.deviceInfo deviceId = .ok ⟨deviceId, head.generation, d.spec, d.commit⟩ ∧
      ∀ {range : ByteRange}, range.validateForDevice d.spec = .ok () → ∀ verification,
        s.readDeviceWithVerification crc deviceId range range.len verification =
          .ok (slice bytes range.offset range.len) ∨ verification = .requireVerified ∧ ∃ err,
          s.readDeviceWithVerification crc deviceId range range.len verification = .error err := by
  obtain ⟨d, hd, hlive, rfl⟩ := Flat.content_eq_some.1 h
  have hdev := hinv.devices deviceId d hd
  obtain ⟨head, hhead⟩ := Table.mem_iff_lookup.1 (hdev.live.1 hlive)
  obtain ⟨hcommit, hholds⟩ := hdev.holds hhead
  refine ⟨d, head, hd, ?_, fun hvalid => Holds.read hhead hdev.spec ⟨_, hholds⟩ hvalid⟩
  rw [MetadataInner.deviceInfo, MetadataInner.getHead, hhead, orFail, ok_bind, hdev.spec, ← hcommit]
  rfl

theorem Inv.agrees {w n : Nat} (hinv : Inv crc w n s flat history) : Agrees crc s flat := by
  refine ⟨fun deviceId => ⟨?_, ?_⟩, ?_, ?_⟩
  · rintro ⟨info, hinfo⟩
    obtain ⟨head, d, hhead, hd, -⟩ := hinv.deviceInfo hinfo
    have hlive := (hinv.devices deviceId d hd).live.2 (Table.mem_iff_lookup.2 ⟨head, hhead⟩)
    exact ⟨d.bytes, Flat.content_eq_some.2 ⟨d, hd, hlive, rfl⟩⟩
  · rintro ⟨bytes, h⟩
    obtain ⟨d, head, -, hinfo, -⟩ := hinv.deviceInfo_of_content h
    exact ⟨_, hinfo⟩
  · intro deviceId bytes h range verification out hout
    obtain ⟨d, head, -, hinfo, hread⟩ := hinv.deviceInfo_of_content h
    -- a read that returned has checked its range
    have hvalid : range.validateForDevice d.spec = .ok () := by
      obtain ⟨plan, hplan, -⟩ := bind_eq_ok.1 hout
      obtain ⟨info, hinfo', hplan⟩ := bind_eq_ok.1 hplan
      cases hinfo.symm.trans hinfo'
      obtain ⟨⟨⟩, hvalid, -⟩ := bind_eq_ok.1 hplan
      exact hvalid
    rcases hread hvalid verification with hread | ⟨-, err, hread⟩
    · cases hout.symm.trans hread
      rfl
    · cases hout.symm.trans hread
  · intro deviceId bytes info h hinfo' range hvalid verification hne
    obtain ⟨d, head, -, hinfo, hread⟩ := hinv.deviceInfo_of_content h
    cases hinfo.symm.trans hinfo'
    exact (hread hvalid verification).resolve_right fun h => hne h.1

theorem Flat.devices_step_of_writes {flat : Flat} {request : DeviceRequest} {target : Nat}
    (h : request.writes = some target) (hne : deviceId ≠ target) (response : DeviceResponse) :
    (flat.step request response).devices deviceId = flat.devices deviceId := by
  have hupdate : ∀ commitSeq f, (flat.update target commitSeq f).devices deviceId =
      flat.devices deviceId := by
    intro commitSeq f
    unfold Flat.update
    split
    · exact if_neg hne
    · rfl
  cases request <;> cases h <;> cases response <;> first | exact hupdate _ _ | rfl

/-- Block device refinement: after any requests the coordinator agrees with the flat
devices, and a write to one device leaves what is read from every other as it was. -/
theorem serveAll_agrees {storageNodes : List Nat} {s : Coordinator}
    (h : Coordinator.withStorageNodes config storageNodes = .ok s) (requests : List DeviceRequest) :
    Agrees crc (serveAll crc config s requests).1 (serveAll crc config s requests).2 ∧
    ∀ request target deviceId info, request.writes = some target → deviceId ≠ target →
      (serveAll crc config s requests).1.metadata.deviceInfo deviceId = .ok info →
      ∀ range : ByteRange, range.validateForDevice info.spec = .ok () →
      ∀ verification, verification ≠ .requireVerified →
        (serveAll crc config s (requests ++ [request])).1.readDeviceWithVerification crc deviceId range
            range.len verification =
          (serveAll crc config s requests).1.readDeviceWithVerification crc deviceId range range.len
            verification := by
  have hrun : ∀ rs, ∃ history, Inv crc config.blockSize config.shardCount (serveAll crc config s rs).1
      (serveAll crc config s rs).2 history := serveAll_inv h
  obtain ⟨history, hinv⟩ := hrun requests
  refine ⟨hinv.agrees, ?_⟩
  intro request target deviceId info hwrites hne hinfo range hvalid verification hver
  obtain ⟨history', hinv'⟩ := hrun (requests ++ [request])
  obtain ⟨bytes, hbytes⟩ := (hinv.agrees.exists_iff deviceId).1 ⟨info, hinfo⟩
  have hdevices : (serveAll crc config s (requests ++ [request])).2.devices deviceId =
      (serveAll crc config s requests).2.devices deviceId := by
    unfold serveAll
    rw [List.foldl_append, List.foldl_cons, List.foldl_nil, serve]
    split
    · exact Flat.devices_step_of_writes hwrites hne _
    · rfl
  have hbytes' : (serveAll crc config s (requests ++ [request])).2.content deviceId = some bytes := by
    unfold Flat.content at hbytes ⊢
    rw [hdevices]
    exact hbytes
  obtain ⟨d, head, hd, hinfo', hread⟩ := hinv.deviceInfo_of_content hbytes
  obtain ⟨d', head', hd', -, hread'⟩ := hinv'.deviceInfo_of_content hbytes'
  cases hinfo.symm.trans hinfo'
  cases (hdevices.symm.trans hd').symm.trans hd
  rw [(hread hvalid verification).resolve_right fun h => hver h.1,
    (hread' hvalid verification).resolve_right fun h => hver h.1]

def smallConfig : LocalStoreConfig where
  shardCount := 2
  blockSize := 4
  fileRootBlocks := 4
  metadataFanout := 2
  metadataLeafBlocks := 1
  storageNode := 1
  observabilityEventCapacity := 16
  streamAutoPersistBytes := none

/-- Two devices: the fork keeps what the write to its source replaces. -/
def forkRequests : List DeviceRequest :=
  [.createDevice ⟨4, 4⟩,
    .commitBlockBatch 1 [⟨4, [1, 2, 3, 4, 5, 6, 7, 8], .verified⟩, ⟨8, [9, 9, 9, 9], .unchecked⟩]
      .acknowledged,
    .forkDevice 1 none,
    .discardDevice 1 4 4]

def smallStore : Coordinator :=
  ⟨MetadataInner.new, ⟨[1], 0, 1, ∅, ∅⟩, ∅, ⟨0, 1⟩, ∅, ∅⟩

theorem withStorageNodes_small : Coordinator.withStorageNodes smallConfig [] = .ok smallStore := rfl

theorem serveAll_agrees_fork : Coordinator.withStorageNodes smallConfig [] = .ok smallStore ∧
    (serveAll (fun _ => 0) smallConfig smallStore forkRequests).2.content 2 =
      some [0, 0, 0, 0, 1, 2, 3, 4, 9, 9, 9, 9, 0, 0, 0, 0] ∧
    Agrees (fun _ => 0) (serveAll (fun _ => 0) smallConfig smallStore forkRequests).1
      (serveAll (fun _ => 0) smallConfig smallStore forkRequests).2 :=
  ⟨withStorageNodes_small, by decide +kernel,
    (serveAll_agrees withStorageNodes_small forkRequests).1⟩

end CowStore.Local
