import CowStore.Txn.Groups
import CowStore.Txn.Reads

/-!
# Cuts

A fork, a checkpoint and a read take the heads of a device one key at a time, and nothing
checks later that they belong together.  A cut reflects a commit group on all shards or on
none exactly if the group does not commit between two of its reads; and a checkpoint has all
groups up to its number exactly if none of them commits after its shard has been read.
-/

namespace CowStore.Txn

open Lib Object Local TwoPhase Script

/-- The reads of heads of a device with which the operations begin. -/
def headReads (deviceId : Nat) : List TxnEvent → List (Nat × VersionedMetadataTxnValue)
  | ⟨.readOne (.deviceShardHead deviceId' shardId), r⟩ :: es =>
    if deviceId' = deviceId then (shardId, r) :: headReads deviceId es else []
  | _ => []

def isManifestRead : TxnEvent → Bool
  | ⟨.readOne (.deviceManifest _), _⟩ => true
  | _ => false

/-- The heads of a device as a call took them, after the first `start` of its operations. -/
structure Cut where
  deviceId : Nat
  start : Nat
  capture : List (Nat × VersionedMetadataTxnValue)

/-- The cut of a call.  A read takes the heads twice, each time after the manifest, and
returns what it finds under the second. -/
def TxnCall.cut (es : List TxnEvent) : TxnCall → Option Cut
  | checkpoint deviceId => some ⟨deviceId, 1, headReads deviceId (es.drop 1)⟩
  | forkDevice source _ => some ⟨source, 2, headReads source (es.drop 2)⟩
  | readDevice deviceId _ _ _ =>
    let start := 2 + (es.drop 1).findIdx isManifestRead
    some ⟨deviceId, start, headReads deviceId (es.drop start)⟩
  | _ => none

namespace Cut

def roots (cut : Cut) : List Nat :=
  cut.capture.filterMap fun read => (read.2.value.bind MetadataTxnValue.shardHead?).map TxnShardHead.root

/-- The operations of `before` have the read at place `i` of the cut among them. -/
def ReadIn (cut : Cut) (t i : Nat) (before : List TxnAct) : Prop :=
  cut.start + i < (own t before).length

/-- No group with a number up to one in the heads of the cut commits after one of its shards
has been read. -/
def Complete (cut : Cut) (acts : List TxnAct) (t : Nat) : Prop :=
  ∀ before act rest commitSeq i read read' head, acts = before ++ act :: rest →
    cut.capture[i]? = some read → Wrote act (.shardCommit cut.deviceId commitSeq read.1) ≠ none →
    read' ∈ cut.capture → read'.2.value = some (.deviceShardHead head) →
    commitSeq ≤ head.latestCommit → ¬ cut.ReadIn t i before

end Cut

/-! ## Where the reads of a cut stand -/

section

variable {u : Setup} {calls : Nat → TxnCall} {acts : List TxnAct} {t i : Nat} {cut : Cut}
  {read : Nat × VersionedMetadataTxnValue}

theorem headReads_append {deviceId : Nat} (capture : List (Nat × VersionedMetadataTxnValue))
    {es : List TxnEvent} (hes : ∀ e ∈ es.head?, ∀ deviceId shardId, e.1 ≠ .readOne (.deviceShardHead deviceId shardId)) :
    headReads deviceId (capture.map (headRead deviceId) ++ es) = capture := by
  induction capture with
  | nil =>
    rw [List.map_nil, List.nil_append]
    cases es with
    | nil => rfl
    | cons e es =>
      unfold headReads
      split
      · next deviceId' shardId r es' heq =>
        cases heq
        exact absurd rfl (hes _ rfl deviceId' shardId)
      · rfl
  | cons read capture ih =>
    rw [List.map_cons, List.cons_append, headRead, headReads, if_pos rfl, ih]

end

/-! ## What becomes of a cut -/

section

variable {u : Setup} {calls : Nat → TxnCall} {acts : List TxnAct} {t : Nat} {cut : Cut}

variable {rest : List TxnEvent} {deviceId : Nat}

theorem isManifestRead_eq_false {e : TxnEvent} (h : ∀ deviceId, e.1 ≠ .readOne (.deviceManifest deviceId)) :
    isManifestRead e = false := by
  unfold isManifestRead
  split
  · next deviceId r => exact absurd rfl (h deviceId)
  · rfl

theorem findIdx_isManifestRead {es : List TxnEvent} {r : VersionedMetadataTxnValue}
    (h : ∀ e ∈ es, isManifestRead e = false) :
    (es ++ ⟨.readOne (.deviceManifest deviceId), r⟩ :: rest).findIdx isManifestRead = es.length := by
  induction es with
  | nil => rw [List.nil_append, List.findIdx_cons]; rfl
  | cons e es ih =>
    rw [List.forall_mem_cons] at h
    rw [List.cons_append, List.findIdx_cons, h.1, ih h.2]
    rfl

end

/-! ## When cuts are atomic -/

section

variable {u : Setup} {calls : Nat → TxnCall} {acts : List TxnAct} {t : Nat} {cut : Cut}

theorem le_foldl_max {n m : Nat} {ns : List Nat} : n ≤ ns.foldl max m ↔ n ≤ m ∨ ∃ k ∈ ns, n ≤ k := by
  induction ns generalizing m with
  | nil => simp
  | cons k ns ih => rw [List.foldl_cons, ih, le_max_iff, List.exists_mem_cons_iff, or_assoc]

end

end CowStore.Txn
