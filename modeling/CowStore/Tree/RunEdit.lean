import CowStore.Tree.Store

/-!
# Replacing byte ranges of a stored tree by runs

A publish of appended bytes edits the runs of the leaves and leaves their entries alone.
A child is given the share of its parent, and takes its own out of it.
-/

namespace CowStore.Tree

open Object

/-- The bytes to replace, and the runs that replace them. -/
structure RunEdit where
  range : ByteRange
  replacements : List RunBackedFileExtent
  deriving DecidableEq, Repr

def sliceWithin (range : ByteRange) (extent : RunBackedFileExtent) :
    Result (Option RunBackedFileExtent) := do
  match ← byteRangeIntersection ⟨extent.fileOffsetStart, extent.payloadLen⟩ range with
  | none => return none
  | some overlap =>
    let stop ← overlap.endExclusive
    sliceRunExtent extent overlap.offset stop

def runEdits (bs : Nat) : MappingTree.TreeEdit RunEdit where
  restrict r e := do
    let nodeRange ← blockRangeToByteRange r bs
    let overlap ← byteRangeIntersection nodeRange e.range
    return overlap.map fun range => { e with range }
  apply _ e contents := do
    let pieces ← e.replacements.mapM (sliceWithin e.range)
    let runs ← replaceRunBackedFileExtents contents.2 e.range pieces.reduceOption
    return (contents.1, runs)
  pass e _ := e

def replaceTreeByteRangeWithRunExtents (bs : Nat) (catalog : Nat → Result SegmentDescriptor)
    (rootId : Nat) (range : ByteRange) (replacements : List RunBackedFileExtent) :
    NodeOp TreeEditResult := do
  if range.len = 0 then
    return ⟨rootId, false⟩
  else
    let root ← getMetadataNode rootId
    editAt (runEdits bs) catalog (root.nodeId + 1) root ⟨range, replacements⟩

end CowStore.Tree
