import Suballoc.FreeList.Fit

/-!
# Taking a block

The chosen block is cut: the request takes what it needs from the front, and the rest stays free in
its place in the chain. A rest that has no room beyond its node is not worth keeping; then the
request takes the whole block, and the chain closes over it.
-/

namespace Suballoc.FreeList

/-- The alignment of a payload: what was asked, and at least a word for the header before it. -/
def payloadAlignment (alignment : Nat) : Nat := max alignment Word.width

/-- Cut a chosen block. The answer is the size of the block that leaves the list. -/
def cut (build : Build) (fit : Fit) : Call FreeList Nat := do
  let next := ((← get).node fit.block.offset).next
  let rest ← build.sub fit.block.size fit.needed
  if nodeSize < rest then
    let split ← build.add fit.block.offset fit.needed
    modify fun list ↦ (list.setNode split { size := rest, next }).setNext fit.previous split
    return fit.needed
  else
    modify fun list ↦ list.setNext fit.previous next
    return fit.block.size

/-- Take a block for so many bytes at an address that is a multiple of the alignment. There is none
when no free block fits; that is reported with the number of free bytes, so a checked build faults
if this number is not a word. -/
def allocate (build : Build) (size alignment : Nat) : Call FreeList (Option Nat) := do
  build.require (.alignmentNotPowerOfTwo alignment) alignment.isPowerOfTwo
  if ¬ alignment.isPowerOfTwo then return none
  match ← (← get).find build size (payloadAlignment alignment) with
  | none =>
    let _free ← (← get).available build
    return none
  | some fit =>
    let taken ← cut build fit
    let payload ← build.add fit.block.offset fit.adjustment
    let header ← build.sub payload nodeSize
    modify fun list ↦ list.setHeader header { size := taken, adjustment := fit.adjustment }
    let used ← build.add (← get).used taken
    modify fun list ↦ { list with used }
    let allocations ← build.add (← get).allocations 1
    modify fun list ↦ { list with allocations }
    return some (← (← get).region.address build payload)

end Suballoc.FreeList
