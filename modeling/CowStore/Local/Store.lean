import CowStore.Local.Collector
import CowStore.Local.Device

/-!
# The requests of a store

A store serves requests on devices, keyspaces, files and streams one after the other, and
the custodian runs between them.  A request that fails may have changed the store.
-/

namespace CowStore.Local

inductive StoreRequest
  | device (request : DeviceRequest)
  | createKeyspace
  | createFile (keyspaceId : Nat) (name : Option String)
  | snapshotKeyspace (source : Nat) (target : Option Nat)
  | restoreKeyspace (source : Nat) (point : RestorePoint)
  | checkpointKeyspace (keyspaceId : Nat)
  | commitFileBatch (keyspaceId fileId : Nat) (writes : List FileBatchWrite)
      (durability : WriteDurability) (integrity : PayloadIntegrity)
  | openAppendStream (keyspaceId fileId : Nat)
  | appendStream (stream : AppendStream) (data : List UInt8) (durability : WriteDurability)
      (integrity : PayloadIntegrity)
  | releaseAppendStream (stream : AppendStream)
  | abortAppendStream (stream : AppendStream)
  | submitAppendPublish (stream : AppendStream) (publishThrough : Nat)
  | waitAppendPublish (ticket : AppendPublishTicket) (durability : WriteDurability)
  | publishPlanned (ticket : AppendPublishTicket) (durability : WriteDurability)
      (durableNextCommitSeq : Nat)
  | markReachableForGc (policy : RetentionPolicy)
  | sweepMetadataAfterMark (policy : RetentionPolicy) (epoch : Nat)
  | runMetadataCustodian (policy : RetentionPolicy)
  deriving DecidableEq, Repr

section

variable (crc : List UInt8 → Nat) (combine : Nat → Nat → Nat → Nat) (config : LocalStoreConfig)

def publishPlanned (ticket : AppendPublishTicket) (durability : WriteDurability)
    (durableNextCommitSeq : Nat) : Op AppendPublishCommit := do
  let (plan, _) ← prepareAppendPublishPlanWithDrafts config ticket durability durableNextCommitSeq ∅
  applyAppendPublishPlan plan

def void {α : Type} (x : Op α) : Op Unit := do
  let _ ← x

def StoreRequest.run : StoreRequest → Op Unit
  | .device request => void (perform crc config request)
  | .createKeyspace => void (onMetadata (Local.createKeyspace config))
  | .createFile keyspaceId name => void (onMetadata (Local.createFile config keyspaceId name))
  | .snapshotKeyspace source target => void (onMetadata (Local.snapshotKeyspace source target))
  | .restoreKeyspace source point => void (onMetadata (Local.restoreKeyspace source point))
  | .checkpointKeyspace keyspaceId => void (onMetadata (Local.checkpointKeyspace keyspaceId))
  | .commitFileBatch keyspaceId fileId writes durability integrity =>
    void (commitFileBatchWithDelta crc config keyspaceId fileId writes durability integrity)
  | .openAppendStream keyspaceId fileId => void (Local.openAppendStream keyspaceId fileId)
  | .appendStream stream data durability integrity =>
    void (appendStreamWithIntegrity crc combine stream data durability integrity)
  | .releaseAppendStream stream => Local.releaseAppendStream stream
  | .abortAppendStream stream => Local.abortAppendStream stream
  | .submitAppendPublish stream publishThrough =>
    void (Local.submitAppendPublish stream publishThrough)
  | .waitAppendPublish ticket durability => void (Local.waitAppendPublish config ticket durability)
  | .publishPlanned ticket durability durableNextCommitSeq =>
    void (Local.publishPlanned config ticket durability durableNextCommitSeq)
  | .markReachableForGc policy => void (onMetadata (Local.markReachableForGc policy))
  | .sweepMetadataAfterMark policy epoch => void (Local.sweepMetadataAfterMark policy epoch)
  | .runMetadataCustodian policy => void (Local.runMetadataCustodian policy)

def StoreRequest.handle (s : Coordinator) (request : StoreRequest) : Coordinator :=
  match request.run crc combine config s with
  | .ok _ s' => s'
  | .error _ s' => s'

end

end CowStore.Local
