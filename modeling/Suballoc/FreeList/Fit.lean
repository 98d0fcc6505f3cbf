import Suballoc.FreeList
import Suballoc.Word.Alignment

/-!
# Finding room

A request fits a free block when the header, the padding that aligns the payload, and the payload
itself, rounded up to whole words, are no more than the block has. Rounding keeps every block that
is later split off aligned to a word.

The amounts are words, and a request whose amounts are not words fits nowhere; `demand?` says both.
-/

namespace Suballoc

/-- A free block chosen for a request. -/
structure Fit where
  /-- The free block before the chosen one, or `chainEnd`. -/
  previous : Nat
  block : FreeBlock
  /-- The distance from the start of the block to the payload. -/
  adjustment : Nat
  /-- The bytes the request takes from the block. -/
  needed : Nat
deriving DecidableEq, Repr

/-- How far into a block at an address the payload starts, and how many bytes the request takes
there in all. -/
def demand? (address size alignment : Nat) : Option (Nat × Nat) := do
  let payload ← alignUp? (← Word.add? address nodeSize) alignment
  let adjustment := payload - address
  let needed ← alignUp? (← Word.add? adjustment size) Word.width
  return (adjustment, needed)

namespace FreeList

/-- The demand of a request on a free block, if it fits. -/
def fitIn (build : Build) (base : Nat) (block : FreeBlock) (size alignment : Nat) :
    Except Fault (Option (Nat × Nat)) := do
  let address ← build.add base block.offset
  return (demand? address size alignment).filter fun demand ↦ demand.2 ≤ block.size

/-- Choose among free blocks by a test of each: the first fit is taken at once, a better fit
replaces a worse one. -/
def search (test : FreeBlock → Except Fault (Option (Nat × Nat))) (strategy : FitStrategy) :
    (best : Option Fit) → (previous : Nat) → List FreeBlock → Except Fault (Option Fit)
  | best, _, [] => .ok best
  | best, previous, block :: rest => do
    match ← test block with
    | none => search test strategy best block.offset rest
    | some (adjustment, needed) =>
      let fit : Fit := { previous, block, adjustment, needed }
      match strategy with
      | .firstFit => return some fit
      | .bestFit =>
        let better := best.all fun best ↦ block.size < best.block.size
        search test strategy (if better then some fit else best) block.offset rest

/-- The free block for a request. -/
def find (build : Build) (list : FreeList) (size alignment : Nat) : Except Fault (Option Fit) :=
  search (fun block ↦ fitIn build list.region.base block size alignment) list.strategy none chainEnd
    list.blocks

end FreeList

end Suballoc
