import CowStore.Local.Chain
import CowStore.Local.SharedCatalogs

/-!
# The state of the append streams

At most one stream of a file is active.  It has the newest epoch of the file, has published
what the file holds, and its records cover what it has accepted beyond that.  Most of what is
done to the metadata leaves the streams and the sizes of the files as they are; what changes
the size of a file moves the active stream along with it or fences it.
-/

namespace CowStore.Local

open Lib Object MetadataInner

/-! ## Files and their sizes -/

def MetadataInner.HasSize (m : MetadataInner) (keyspaceId fileId size : Nat) : Prop :=
  ∃ head, m.getFileHead keyspaceId fileId = .ok head ∧ head.size = size

/-- The catalogs are right, and no identifier is in use that was not given out. -/
structure MetadataInner.Grounded (m : MetadataInner) : Prop where
  catalogs : m.Catalogs
  keyspaceIds : ∀ keyspaceId head, m.keyspaceHeads.lookup keyspaceId = some head →
    keyspaceId < m.nextKeyspaceId
  fileIds : ∀ shardId shard, m.keyspaceCatalogShards.lookup shardId = some shard →
    ∀ fileId ∈ shard.files, fileId < m.nextFileId

variable {m m' m'' : MetadataInner} {keyspaceId fileId size : Nat}

theorem getFileHead_eq_ok {head : FileHead} : m.getFileHead keyspaceId fileId = .ok head ↔ ∃ keyspace entry,
      m.keyspaceHeads.lookup keyspaceId = some keyspace ∧
        m.keyspaceFileInShards keyspace.shardRoots fileId = .ok entry ∧ entry.head = head := by
  constructor
  · intro h
    obtain ⟨keyspace, hkeyspace, entry, hentry, h⟩ := bind2_eq_ok.1 h
    cases h
    exact ⟨keyspace, entry, orFail_eq_ok.1 hkeyspace, hentry, rfl⟩
  · rintro ⟨keyspace, entry, hkeyspace, hentry, rfl⟩
    exact bind_eq_ok.2 ⟨keyspace, orFail_eq_ok.2 hkeyspace, bind_eq_ok.2 ⟨entry, hentry, rfl⟩⟩

theorem hasSize_iff : m.HasSize keyspaceId fileId size ↔ ∃ keyspace entry,
    m.keyspaceHeads.lookup keyspaceId = some keyspace ∧
      m.keyspaceFileInShards keyspace.shardRoots fileId = .ok entry ∧ entry.head.size = size := by
  simp only [HasSize, getFileHead_eq_ok]
  constructor
  · rintro ⟨head, ⟨keyspace, entry, hkeyspace, hentry, rfl⟩, hsize⟩
    exact ⟨keyspace, entry, hkeyspace, hentry, hsize⟩
  · rintro ⟨keyspace, entry, hkeyspace, hentry, hsize⟩
    exact ⟨entry.head, ⟨keyspace, entry, hkeyspace, hentry, rfl⟩, hsize⟩

theorem MetadataInner.Grounded.entry_lt (h : m.Grounded) {shardRoots : List Nat} {entry : KeyspaceFile}
    (hentry : m.keyspaceFileInShards shardRoots fileId = .ok entry) : fileId < m.nextFileId := by
  obtain ⟨-, hlookup⟩ := keyspaceFileInShards_eq_ok.1 hentry
  cases hshard : m.keyspaceCatalogShards.lookup
      (shardRoots.getD (fileId % shardRoots.length) 0) with
  | none =>
    rw [shardFiles, hshard] at hlookup
    cases hlookup
  | some shard =>
    rw [shardFiles_of_lookup hshard] at hlookup
    exact h.fileIds _ shard hshard fileId (Table.mem_iff_lookup.2 ⟨entry, hlookup⟩)

theorem MetadataInner.Grounded.file_lt (h : m.Grounded) (hsize : m.HasSize keyspaceId fileId size) :
    fileId < m.nextFileId := by
  obtain ⟨keyspace, entry, -, hentry, -⟩ := hasSize_iff.1 hsize
  exact h.entry_lt hentry

theorem MetadataInner.HasSize.kept (h : m.Catalogs) (hsize : m.HasSize keyspaceId fileId size)
    (hhead : m'.keyspaceHeads.lookup keyspaceId = m.keyspaceHeads.lookup keyspaceId)
    (hext : m.keyspaceCatalogShards.Extends m'.keyspaceCatalogShards) :
    m'.HasSize keyspaceId fileId size := by
  obtain ⟨keyspace, entry, hkeyspace, hentry, hsize⟩ := hasSize_iff.1 hsize
  refine hasSize_iff.2 ⟨keyspace, entry, hhead.trans hkeyspace, ?_, hsize⟩
  rw [(h.heads keyspaceId keyspace hkeyspace).keyspaceFileInShards hext]
  exact hentry

/-! ## What leaves the streams alone -/

/-- The files keep their sizes, and no stream changes or is new; streams may be gone. -/
structure Kept (m m' : MetadataInner) : Prop where
  grounded : m'.Grounded
  fileIds : m.nextFileId ≤ m'.nextFileId
  streams : ∀ streamId stream, m'.appendStreams.lookup streamId = some stream →
    m.appendStreams.lookup streamId = some stream
  epochs : ∀ keyspaceId fileId, fileId < m.nextFileId →
    m'.fileWriterEpoch keyspaceId fileId = m.fileWriterEpoch keyspaceId fileId
  sizes : ∀ keyspaceId fileId size, m.HasSize keyspaceId fileId size →
    m'.HasSize keyspaceId fileId size

def Leaves (m m' : MetadataInner) : Prop := m.Grounded → Kept m m'

theorem Kept.refl (h : m.Grounded) : Kept m m :=
  ⟨h, le_rfl, fun _ _ hs => hs, fun _ _ _ => rfl, fun _ _ _ hs => hs⟩

theorem Kept.trans (h : Kept m m') (h' : Kept m' m'') : Kept m m'' where
  grounded := h'.grounded
  fileIds := h.fileIds.trans h'.fileIds
  streams id stream hs := h.streams id stream (h'.streams id stream hs)
  epochs k f hf := (h'.epochs k f (hf.trans_le h.fileIds)).trans (h.epochs k f hf)
  sizes k f n hn := h'.sizes k f n (h.sizes k f n hn)

instance : Std.Refl Leaves := ⟨fun _ h => .refl h⟩

instance : IsTrans MetadataInner Leaves := ⟨fun _ _ _ h h' hm => (h hm).trans (h' (h hm).grounded)⟩

/-- No identifier is taken back, no stream changes or is new, and new shards have files that
there are. -/
structure Opens (m m' : MetadataInner) : Prop where
  keyspaceIds : m.nextKeyspaceId ≤ m'.nextKeyspaceId
  fileIds : m.nextFileId ≤ m'.nextFileId
  epochs : m'.fileWriterEpochs = m.fileWriterEpochs
  streams : ∀ streamId stream, m'.appendStreams.lookup streamId = some stream →
    m.appendStreams.lookup streamId = some stream
  heads : (∀ keyspaceId head, m.keyspaceHeads.lookup keyspaceId = some head →
      keyspaceId < m.nextKeyspaceId) →
    ∀ keyspaceId head, m'.keyspaceHeads.lookup keyspaceId = some head → keyspaceId < m'.nextKeyspaceId
  shards : ∀ shardId shard, m'.keyspaceCatalogShards.lookup shardId = some shard →
    m.keyspaceCatalogShards.lookup shardId = some shard ∨ ∀ fileId ∈ shard.files, fileId < m'.nextFileId

instance : Std.Refl Opens :=
  ⟨fun _ => ⟨le_rfl, le_rfl, rfl, fun _ _ h => h, fun h => h, fun _ _ h => .inl h⟩⟩

instance : IsTrans MetadataInner Opens := by
  refine ⟨fun _ _ _ h h' => ⟨h.keyspaceIds.trans h'.keyspaceIds, h.fileIds.trans h'.fileIds,
    h'.epochs.trans h.epochs, fun id stream hs => h.streams id stream (h'.streams id stream hs),
    fun hm => h'.heads (h.heads hm), fun id shard hs => ?_⟩⟩
  obtain hs | hfiles := h'.shards id shard hs
  · refine (h.shards id shard hs).imp_right fun hfiles file hfile => ?_
    exact (hfiles file hfile).trans_le h'.fileIds
  · exact .inr hfiles

theorem opens_of_same (h : SameFiles m m') : Opens m m' := by
  have hkeyspaces : m'.nextKeyspaceId = m.nextKeyspaceId := congrArg FileRows.nextKeyspaceId h
  have hheads : m'.keyspaceHeads = m.keyspaceHeads := congrArg FileRows.keyspaceHeads h
  have hshards : m'.keyspaceCatalogShards = m.keyspaceCatalogShards :=
    congrArg FileRows.keyspaceCatalogShards h
  have hstreams : m'.appendStreams = m.appendStreams := congrArg FileRows.appendStreams h
  have hfiles : m'.nextFileId = m.nextFileId := congrArg FileRows.nextFileId h
  refine ⟨hkeyspaces.ge, hfiles.ge, congrArg FileRows.fileWriterEpochs h, ?_, ?_, ?_⟩
  · rw [hstreams]
    exact fun _ _ hs => hs
  · rw [hheads, hkeyspaces]
    exact fun hm => hm
  · rw [hshards]
    exact fun _ _ hs => .inl hs

theorem kept_of_opens (h : m.Grounded) {k : Option Nat} (hev : Evolves k m m')
    (hnew : ∀ id, k = some id → m.keyspaceHeads.lookup id = none) (hopens : Opens m m') : Kept m m' := by
  obtain ⟨hc, hext, hheads⟩ := hev h.catalogs
  refine ⟨⟨hc, hopens.heads h.keyspaceIds, ?_⟩, hopens.fileIds, hopens.streams, ?_, ?_⟩
  · intro shardId shard hshard file hfile
    obtain hold | hfiles := hopens.shards shardId shard hshard
    · exact (h.fileIds shardId shard hold file hfile).trans_le hopens.fileIds
    · exact hfiles file hfile
  · intro k f _
    rw [fileWriterEpoch, hopens.epochs, fileWriterEpoch]
  · intro id file n hn
    refine hn.kept h.catalogs (hheads id fun hk => ?_) hext
    obtain ⟨keyspace, -, hkeyspace, -⟩ := hasSize_iff.1 hn
    rw [hnew id hk] at hkeyspace
    cases hkeyspace

theorem leaves_of_same (h : SameFiles m m') : Leaves m m' := fun hm =>
  kept_of_opens hm (evolves_of_same (k := none) h) nofun (opens_of_same h)

/-! ## The streams -/

/-- The offsets of a stream are in order, and its records cover what is accepted and not yet
published. -/
structure AppendStreamState.InOrder (state : AppendStreamState) : Prop where
  base : state.visibleBaseSize ≤ state.publishedThrough
  published : state.publishedThrough ≤ state.acceptedTail
  durable : state.durableThrough ≤ state.acceptedTail
  records : Covers state.publishedThrough state.records state.acceptedTail

/-- What holds of the streams, as far as the size of the file `except` is not concerned. -/
structure StreamsBut (except : Option (Nat × Nat)) (m : MetadataInner) : Prop where
  grounded : m.Grounded
  keyed : ∀ streamId stream, m.appendStreams.lookup streamId = some stream →
    stream.streamId = streamId ∧ stream.fileId < m.nextFileId
  epochs : ∀ streamId stream, m.appendStreams.lookup streamId = some stream →
    stream.writerEpoch ≤ m.fileWriterEpoch stream.keyspaceId stream.fileId
  newest : ∀ streamId stream, m.appendStreams.lookup streamId = some stream →
    stream.status = .active →
    stream.writerEpoch = m.fileWriterEpoch stream.keyspaceId stream.fileId
  inOrder : ∀ streamId stream, m.appendStreams.lookup streamId = some stream →
    stream.status = .active → stream.InOrder
  sizes : ∀ streamId stream, m.appendStreams.lookup streamId = some stream →
    stream.status = .active → except ≠ some (stream.keyspaceId, stream.fileId) →
    m.HasSize stream.keyspaceId stream.fileId stream.publishedThrough
  single : ∀ first second stream other, m.appendStreams.lookup first = some stream →
    m.appendStreams.lookup second = some other → stream.status = .active → other.status = .active →
    stream.keyspaceId = other.keyspaceId → stream.fileId = other.fileId → first = second

abbrev MetadataInner.Streams (m : MetadataInner) : Prop := StreamsBut none m

variable {except : Option (Nat × Nat)}

/-- Streams that are what they were before, but for their offsets, or have ended since. -/
theorem StreamsBut.carry {but : Option (Nat × Nat)} (h : StreamsBut except m) (hgrounded : m'.Grounded)
    (hfiles : m.nextFileId ≤ m'.nextFileId) (hepochs : ∀ keyspaceId fileId, fileId < m.nextFileId →
      m'.fileWriterEpoch keyspaceId fileId = m.fileWriterEpoch keyspaceId fileId)
    (hbefore : ∀ id stream, m'.appendStreams.lookup id = some stream →
      ∃ old, m.appendStreams.lookup id = some old ∧ stream.publicStream = old.publicStream ∧
        (stream.status = .active → old.status = .active))
    (hnew : ∀ id stream, m'.appendStreams.lookup id = some stream → stream.status = .active →
      stream.InOrder ∧ (but ≠ some (stream.keyspaceId, stream.fileId) →
        m'.HasSize stream.keyspaceId stream.fileId stream.publishedThrough)) : StreamsBut but m' := by
  refine ⟨hgrounded, fun id stream hs => ?_, fun id stream hs => ?_, fun id stream hs hactive => ?_,
    fun id stream hs hactive => (hnew id stream hs hactive).1,
    fun id stream hs hactive => (hnew id stream hs hactive).2, ?_⟩
  · obtain ⟨old, hs, hpublic, -⟩ := hbefore id stream hs
    obtain ⟨-, hfile, hid, -⟩ := AppendStream.mk.inj hpublic
    rw [hid, hfile]
    exact (h.keyed id old hs).imp_right fun hlt => hlt.trans_le hfiles
  · obtain ⟨old, hs, hpublic, -⟩ := hbefore id stream hs
    obtain ⟨hkeyspace, hfile, -, hepoch, -⟩ := AppendStream.mk.inj hpublic
    rw [hkeyspace, hfile, hepoch, hepochs _ _ (h.keyed id old hs).2]
    exact h.epochs id old hs
  · obtain ⟨old, hs, hpublic, hold⟩ := hbefore id stream hs
    obtain ⟨hkeyspace, hfile, -, hepoch, -⟩ := AppendStream.mk.inj hpublic
    rw [hkeyspace, hfile, hepoch, hepochs _ _ (h.keyed id old hs).2]
    exact h.newest id old hs (hold hactive)
  · intro first second one two hone htwo hactive hactive' hk hf
    obtain ⟨old, hs, hpublic, hold⟩ := hbefore first one hone
    obtain ⟨old', hs', hpublic', hold'⟩ := hbefore second two htwo
    obtain ⟨hk1, hf1, -⟩ := AppendStream.mk.inj hpublic
    obtain ⟨hk2, hf2, -⟩ := AppendStream.mk.inj hpublic'
    exact h.single first second old old' hs hs' (hold hactive) (hold' hactive')
      (hk1.symm.trans (hk.trans hk2)) (hf1.symm.trans (hf.trans hf2))

theorem StreamsBut.kept (h : StreamsBut except m) (hkept : Kept m m') : StreamsBut except m' := by
  refine h.carry hkept.grounded hkept.fileIds hkept.epochs
    (fun id stream hs => ⟨stream, hkept.streams id stream hs, rfl, fun hactive => hactive⟩) ?_
  intro id stream hs hactive
  have hold := hkept.streams id stream hs
  exact ⟨h.inOrder id stream hold hactive,
    fun hne => hkept.sizes _ _ _ (h.sizes id stream hold hactive hne)⟩

theorem StreamsBut.leaves (h : StreamsBut except m) (hleaves : Leaves m m') : StreamsBut except m' :=
  h.kept (hleaves h.grounded)

def KeepsStreams (m m' : MetadataInner) : Prop := m.Streams → m'.Streams

instance : Std.Refl KeepsStreams := ⟨fun _ h => h⟩

instance : IsTrans MetadataInner KeepsStreams := ⟨fun _ _ _ h h' hm => h' (h hm)⟩

theorem keepsStreams_of_leaves (h : Leaves m m') : KeepsStreams m m' := fun hm => hm.leaves h

theorem along_keeps {α : Type} {x : MetadataOp α} {Q : α → MetadataInner → Prop}
    (h : Along Leaves x m Q) : Along KeepsStreams x m Q :=
  h.weaken fun _ => keepsStreams_of_leaves

theorem StreamsBut.replace (h : m.Streams) {streamId : Nat} {stream stream' : AppendStreamState}
    (hstream : m.appendStreams.lookup streamId = some stream) (hactive : stream.status = .active)
    (hpublic : stream'.publicStream = stream.publicStream) (hgrounded : m'.Grounded)
    (hfiles : m.nextFileId ≤ m'.nextFileId) (hstreams : ∀ id, m'.appendStreams.lookup id =
      if id = streamId then some stream' else m.appendStreams.lookup id) (hepochs : ∀ keyspaceId fileId,
      m'.fileWriterEpoch keyspaceId fileId = m.fileWriterEpoch keyspaceId fileId)
    (hsizes : ∀ keyspaceId fileId size, (stream.keyspaceId = keyspaceId → stream.fileId ≠ fileId) →
      m.HasSize keyspaceId fileId size → m'.HasSize keyspaceId fileId size)
    (hnew : stream'.status = .active → stream'.InOrder ∧
      m'.HasSize stream.keyspaceId stream.fileId stream'.publishedThrough) : m'.Streams := by
  -- a stream after the change is the changed one or one from before
  have hcases : ∀ id other, m'.appendStreams.lookup id = some other →
      id = streamId ∧ other = stream' ∨ id ≠ streamId ∧ m.appendStreams.lookup id = some other := by
    intro id other hother
    rw [hstreams] at hother
    split at hother
    · next heq =>
      cases hother
      exact .inl ⟨heq, rfl⟩
    · next hne => exact .inr ⟨hne, hother⟩
  refine h.carry hgrounded hfiles (fun k f _ => hepochs k f) (fun id other hother => ?_)
    fun id other hother hstatus => ?_
  · obtain ⟨rfl, rfl⟩ | ⟨-, hother⟩ := hcases id other hother
    · exact ⟨stream, hstream, hpublic, fun _ => hactive⟩
    · exact ⟨other, hother, rfl, fun hstatus => hstatus⟩
  · obtain ⟨rfl, rfl⟩ | ⟨hother', hother⟩ := hcases id other hother
    · obtain ⟨hkeyspace, hfile, -⟩ := AppendStream.mk.inj hpublic
      obtain ⟨hinOrder, hsize⟩ := hnew hstatus
      rw [hkeyspace, hfile]
      exact ⟨hinOrder, fun _ => hsize⟩
    · refine ⟨h.inOrder id other hother hstatus, fun hne => ?_⟩
      refine hsizes _ _ _ (fun hk hf => hother' ?_) (h.sizes id other hother hstatus hne)
      exact (h.single streamId id stream other hstream hother hactive hstatus hk hf).symm

variable {stream : AppendStream}

theorem activeStream_eq_ok {state : AppendStreamState} (h : m.activeStream stream = .ok state) :
    m.appendStreams.lookup stream.streamId = some state ∧
      state.publicStream = stream ∧ state.status = .active := by
  obtain ⟨found, hfound, ⟨⟩, htoken, h⟩ := bind2_eq_ok.1 h
  cases h
  have hsame := failIf_eq_ok.1 htoken
  rw [not_or, not_not, not_not] at hsame
  exact ⟨orFail_eq_ok.1 hfound, hsame⟩

theorem MetadataInner.Grounded.streams (h : m.Grounded) {fileWriterEpochs : Table (Nat × Nat) Nat}
    {appendStreams : Table Nat AppendStreamState} :
    MetadataInner.Grounded { m with fileWriterEpochs, appendStreams } :=
  ⟨⟨h.catalogs.heads, h.catalogs.roots, h.catalogs.commits, h.catalogs.shardIds⟩, h.keyspaceIds,
    h.fileIds⟩

theorem keepsStreams_set {state state' : AppendStreamState}
    (hactive : m.activeStream stream = .ok state)
    (hpublic : state'.publicStream = state.publicStream)
    (hnew : state.InOrder → state'.status = .active →
      state'.InOrder ∧ state'.publishedThrough = state.publishedThrough) :
    KeepsStreams m { m with appendStreams := m.appendStreams.insert stream.streamId state' } := by
  intro h
  obtain ⟨hlookup, -, hstatus⟩ := activeStream_eq_ok hactive
  refine h.replace hlookup hstatus hpublic h.grounded.streams le_rfl
    (fun id => Table.lookup_insert_eq _ _ _ _) (fun _ _ => rfl) (fun _ _ _ _ hn => hn) fun hs => ?_
  obtain ⟨hinOrder, hpublished⟩ := hnew (h.inOrder _ state hlookup hstatus) hs
  rw [hpublished]
  exact ⟨hinOrder, h.sizes _ state hlookup hstatus nofun⟩

/-! ## Records, durable bytes and the end of a stream -/

theorem recordAppendStreamRun_writes {combine : Nat → Nat → Nat → Nat} (stream : AppendStream)
    (ticketId : Nat) (range : ByteRange) (run : AppendLogRun) :
    wp (recordAppendStreamRun combine stream ticketId range run) (fun _ m' => ∃ state records acceptedTail,
      m.activeStream stream = .ok state ∧ state.acceptedTail < acceptedTail ∧
      (state.InOrder → AppendStreamState.InOrder { state with records, acceptedTail }) ∧
      m' = { m with
        appendStreams := m.appendStreams.insert stream.streamId
          { state with records, acceptedTail } }) (· = m) m := by
  refine wp_check rfl fun _ hlen => wp_check rfl fun _ hvalid => wp_check rfl fun _ hrun => ?_
  refine wp_step run_get (wp_check rfl fun _ _ => wp_check rfl fun state hstate => ?_)
  refine wp_check rfl fun nextTail htail => wp_check rfl fun _ hstart => wp_check rfl fun _ _ => ?_
  refine wp_check rfl fun _ _ => wp_check rfl fun records hrecords => wp_step run_set ?_
  obtain ⟨rfl, htailLt⟩ := checkedAdd_eq_ok htail
  obtain ⟨-, -, hlog, -⟩ := AppendLogRun.validate_eq_ok.1 hvalid
  have hoffset : range.offset = state.acceptedTail := not_not.1 (failIf_eq_ok.1 hstart)
  have hpos : 0 < range.len := Nat.pos_of_ne_zero (failIf_eq_ok.1 hlen)
  have hpayload : run.payloadLen = range.len := by
    have hsame := failIf_eq_ok.1 hrun
    tauto
  have hfits : AppendStreamRunRecord.Fits ⟨ticketId, range.offset, range.len, run⟩ :=
    ⟨hpos, htailLt, hpayload ▸ hlog⟩
  refine ⟨state, records, _, hstate, by omega, fun hinOrder => ?_, rfl⟩
  have hle : state.acceptedTail ≤ range.offset + range.len := by omega
  exact ⟨hinOrder.base, hinOrder.published.trans hle, hinOrder.durable.trans hle,
    AppendStreamState.pushRecord_covers (hoffset ▸ hinOrder.records) hfits hrecords⟩

theorem recordAppendStreamRun_keeps {combine : Nat → Nat → Nat → Nat} (stream : AppendStream)
    (ticketId : Nat) (range : ByteRange) (run : AppendLogRun) :
    Moves KeepsStreams (recordAppendStreamRun combine stream ticketId range run) m := by
  refine wp_mono (recordAppendStreamRun_writes stream ticketId range run) ?_ ?_
  · rintro _ _ ⟨state, records, acceptedTail, hstate, -, hinOrder, rfl⟩
    exact ⟨keepsStreams_set hstate rfl fun h _ => ⟨hinOrder h, rfl⟩, trivial⟩
  · rintro _ rfl
    exact Std.Refl.refl _

theorem markAppendStreamDurable_keeps (stream : AppendStream) :
    Moves KeepsStreams (markAppendStreamDurable stream) m := by
  refine Along.get (Along.check fun state hstate => ?_)
  refine Along.check fun durableThrough htail => ?_
  refine Along.step run_set (keepsStreams_set hstate rfl ?_) (Along.pure trivial)
  intro hinOrder _
  have hle := hinOrder.records.contiguousTail_le hinOrder.durable htail
  exact ⟨⟨hinOrder.base, hinOrder.published, hle, hinOrder.records⟩, rfl⟩

theorem markAppendStreamDurableThrough_keeps {durableThrough : Nat} :
    Moves KeepsStreams (markAppendStreamDurableThrough stream durableThrough) m := by
  refine Along.get (Along.check fun state hstate => ?_)
  split
  · exact Along.pure trivial
  · refine Along.check fun tail htail => Along.check fun _ hbound => ?_
    refine Along.step run_set (keepsStreams_set hstate rfl ?_) (Along.pure trivial)
    intro hinOrder _
    have hle := hinOrder.records.contiguousTail_le hinOrder.durable htail
    have hbound := failIf_eq_ok.1 hbound
    refine ⟨⟨hinOrder.base, hinOrder.published, ?_, hinOrder.records⟩, rfl⟩
    change durableThrough ≤ state.acceptedTail
    omega

theorem endAppendStream_keeps {status : AppendStreamStatus} (hstatus : status ≠ .active)
    (stream : AppendStream) : Moves KeepsStreams (endAppendStream status stream) m := by
  refine Along.get (Along.check fun _ _ => Along.check fun state hstate => ?_)
  exact ⟨keepsStreams_set hstate rfl fun _ hs => absurd hs hstatus, trivial⟩

/-! ## Fencing -/

def AppendStreamState.fencedFor (keyspaceId fileId : Nat) (stream : AppendStreamState) :
    AppendStreamState :=
  if stream.keyspaceId = keyspaceId ∧ stream.fileId = fileId ∧ stream.status = .active then
    { stream with status := .fenced }
  else stream

theorem fenceStreams_lookup (streamId : Nat) :
    (m.fenceStreams keyspaceId fileId).appendStreams.lookup streamId =
      (m.appendStreams.lookup streamId).map (AppendStreamState.fencedFor keyspaceId fileId) :=
  Table.lookup_foldl_insert m.appendStreams (fun stream : AppendStreamState =>
    stream.keyspaceId = keyspaceId ∧ stream.fileId = fileId ∧ stream.status = .active)
    (fun stream => { stream with status := .fenced }) streamId

theorem fencedFor_same (stream : AppendStreamState) :
    (stream.fencedFor keyspaceId fileId).publicStream = stream.publicStream := by
  unfold AppendStreamState.fencedFor
  split <;> rfl

theorem fencedFor_active {stream : AppendStreamState}
    (h : (stream.fencedFor keyspaceId fileId).status = .active) :
    stream.fencedFor keyspaceId fileId = stream ∧ stream.status = .active ∧
      (keyspaceId, fileId) ≠ (stream.keyspaceId, stream.fileId) := by
  unfold AppendStreamState.fencedFor at h ⊢
  split
  · next hfile =>
    rw [if_pos hfile] at h
    cases h
  · next hfile =>
    rw [if_neg hfile] at h
    refine ⟨rfl, h, fun heq => hfile ?_⟩
    cases heq
    exact ⟨rfl, rfl, h⟩

theorem StreamsBut.fence (h : StreamsBut (some (keyspaceId, fileId)) m) :
    (m.fenceStreams keyspaceId fileId).Streams := by
  have hbefore : ∀ id stream, (m.fenceStreams keyspaceId fileId).appendStreams.lookup id = some stream →
      ∃ old, m.appendStreams.lookup id = some old ∧ old.fencedFor keyspaceId fileId = stream := by
    intro id stream hs
    rw [fenceStreams_lookup] at hs
    exact Option.map_eq_some_iff.1 hs
  refine h.carry h.grounded.streams le_rfl (fun _ _ _ => rfl) (fun id stream hs => ?_)
    fun id stream hs hstatus => ?_
  · obtain ⟨old, hold, rfl⟩ := hbefore id stream hs
    exact ⟨old, hold, fencedFor_same old, fun hstatus => (fencedFor_active hstatus).2.1⟩
  · obtain ⟨old, hold, rfl⟩ := hbefore id stream hs
    obtain ⟨hsame, hactive, hne⟩ := fencedFor_active hstatus
    rw [hsame]
    exact ⟨h.inOrder id old hold hactive,
      fun _ => h.sizes id old hold hactive fun heq => hne (Option.some.inj heq)⟩

theorem StreamsBut.weaken (h : m.Streams) : StreamsBut except m where
  grounded := h.grounded
  keyed := h.keyed
  epochs := h.epochs
  newest := h.newest
  inOrder := h.inOrder
  sizes id stream hs hactive _ := h.sizes id stream hs hactive nofun
  single := h.single

/-- Whatever became of the size of the file, the streams are right once they are fenced. -/
theorem invalidateAppendStreamsForFile_streams (h : StreamsBut (some (keyspaceId, fileId)) m)
    (hfree : m.appendPublishInFlightForFile keyspaceId fileId = false) :
    ∃ m', invalidateAppendStreamsForFile keyspaceId fileId m = .ok () m' ∧ m'.Streams := by
  refine ⟨m.fenceStreams keyspaceId fileId, ?_, h.fence⟩
  rw [invalidateAppendStreamsForFile, run_bind_ok run_get, hfree]
  rfl

/-! ## Opening a stream -/

theorem le_foldl_max (xs : List Nat) (n : Nat) : n ≤ xs.foldl max n := by
  induction xs generalizing n with
  | nil => exact le_rfl
  | cons x xs ih => exact (le_max_left n x).trans (ih (max n x))

theorem fileWriterEpoch_insert {epoch k f : Nat}
    (h : m'.fileWriterEpochs = m.fileWriterEpochs.insert (keyspaceId, fileId) epoch) :
    m'.fileWriterEpoch k f = if (k, f) = (keyspaceId, fileId) then epoch else m.fileWriterEpoch k f := by
  simp only [fileWriterEpoch, h, Table.lookup_insert_eq]
  split <;> rfl

theorem StreamsBut.join (h : m.Streams) (stream : AppendStreamState)
    (hfenced : ∀ streamId other, m.appendStreams.lookup streamId = some other →
      other.status = .active → (stream.keyspaceId, stream.fileId) ≠ (other.keyspaceId, other.fileId))
    (hepoch : m.fileWriterEpoch stream.keyspaceId stream.fileId ≤ stream.writerEpoch)
    (hinOrder : stream.InOrder)
    (hsize : m.HasSize stream.keyspaceId stream.fileId stream.publishedThrough) :
    MetadataInner.Streams { m with
      fileWriterEpochs := m.fileWriterEpochs.insert (stream.keyspaceId, stream.fileId) stream.writerEpoch
      appendStreams := m.appendStreams.insert stream.streamId stream } := by
  have hcases : ∀ id other, (m.appendStreams.insert stream.streamId stream).lookup id = some other →
      id = stream.streamId ∧ other = stream ∨ m.appendStreams.lookup id = some other := by
    intro id other hother
    rw [Table.lookup_insert_eq] at hother
    split at hother
    · next heq =>
      cases hother
      exact .inl ⟨heq, rfl⟩
    · exact .inr hother
  refine ⟨h.grounded.streams, ?_, ?_, ?_, ?_, ?_, ?_⟩
  · intro id other hother
    obtain ⟨rfl, rfl⟩ | hother := hcases id other hother
    · exact ⟨rfl, h.grounded.file_lt hsize⟩
    · exact h.keyed id other hother
  · intro id other hother
    rw [fileWriterEpoch_insert rfl]
    obtain ⟨rfl, rfl⟩ | hother := hcases id other hother
    · rw [if_pos rfl]
    · have hold := h.epochs id other hother
      split
      · next heq =>
        obtain ⟨hk, hf⟩ := Prod.mk.inj heq
        rw [hk, hf] at hold
        exact hold.trans hepoch
      · exact hold
  · intro id other hother hstatus
    rw [fileWriterEpoch_insert rfl]
    obtain ⟨rfl, rfl⟩ | hother := hcases id other hother
    · rw [if_pos rfl]
    · rw [if_neg (hfenced id other hother hstatus).symm]
      exact h.newest id other hother hstatus
  · intro id other hother hstatus
    obtain ⟨rfl, rfl⟩ | hother := hcases id other hother
    · exact hinOrder
    · exact h.inOrder id other hother hstatus
  · intro id other hother hstatus hne
    obtain ⟨rfl, rfl⟩ | hother := hcases id other hother
    · exact hsize
    · exact h.sizes id other hother hstatus hne
  · intro first second one two hone htwo hactive hactive' hk hf
    obtain ⟨rfl, rfl⟩ | hold := hcases first one hone
    · obtain ⟨rfl, -⟩ | hold' := hcases second two htwo
      · rfl
      · exact absurd (by rw [hk, hf]) (hfenced second two hold' hactive')
    · obtain ⟨rfl, rfl⟩ | hold' := hcases second two htwo
      · exact absurd (by rw [hk, hf]) (hfenced first one hold hactive)
      · exact h.single first second one two hold hold' hactive hactive' hk hf

theorem insertAppendStream_keeps (streamId keyspaceId fileId : Nat) :
    Moves KeepsStreams (insertAppendStream streamId keyspaceId fileId) m := by
  refine Along.get (Along.check fun _ _ => Along.check fun head hhead => ?_)
  refine Along.check fun _ _ => Along.step run_set (fun h => ?_) (Along.pure trivial)
  have hfence : (m.fenceStreams keyspaceId fileId).Streams := h.weaken.fence
  refine hfence.join ⟨keyspaceId, fileId, streamId, _, _, head.version, head.size, head.size, head.size,
    head.size, .active, []⟩ ?_ ?_ ?_ ?_
  · intro id other hother hstatus
    rw [fenceStreams_lookup] at hother
    obtain ⟨old, -, rfl⟩ := Option.map_eq_some_iff.1 hother
    obtain ⟨hsame, -, hne⟩ := fencedFor_active hstatus
    rw [hsame]
    exact hne
  · exact (le_foldl_max _ _).trans (Nat.le_succ _)
  · exact ⟨le_rfl, le_rfl, le_rfl, rfl⟩
  · exact ⟨head, hhead, rfl⟩

end CowStore.Local
