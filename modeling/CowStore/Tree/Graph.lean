import CowStore.Lib.Reach
import CowStore.Tree.Empty
import CowStore.Tree.RunEdit

/-!
# Stored nodes as a graph

The nodes of a store, each with its children.  A tree is whole if none of its nodes is
missing.
-/

namespace CowStore

namespace Object

def MetadataNode.childIds (node : MetadataNode) : List Nat :=
  match node.kind with
  | .internal children => children.map (·.nodeId)
  | .leaf _ _ => []

def MetadataNode.segments (node : MetadataNode) : List Nat :=
  match node.kind with
  | .internal _ => []
  | .leaf entries _ => entries.map (·.segmentId)

/-- The append logs that hold bytes of the node. -/
def MetadataNode.appendRunLogs (node : MetadataNode) : List (Nat × Nat) :=
  match node.kind with
  | .internal _ => []
  | .leaf _ runExtents => runExtents.map fun extent => (extent.run.storageNode, extent.run.logId)

end Object

namespace Tree

open Object

namespace NodeStore

def next (s : NodeStore) (nodeId : Nat) : Option (List Nat) :=
  (s.metadataNodes.lookup nodeId).map MetadataNode.childIds

def segmentsOf (s : NodeStore) (nodeIds : List Nat) : List Nat :=
  nodeIds.flatMap fun nodeId => ((s.metadataNodes.lookup nodeId).map MetadataNode.segments).getD []

end NodeStore

end Tree
end CowStore
