import Suballoc.FreeList

/-!
# Giving a block back

The header before the payload tells where the block starts and how long it is. A checked build does
not trust it: it must describe a block of the region, and that block must lie between two
neighbours of the chain. All of this is tested before anything is written, so a block that is
refused leaves no trace.

The block then takes its place in the chain and is merged with the free block after it and the one
before it, where they touch.
-/

namespace Suballoc

/-- A block that comes back, with its place in the chain. -/
structure Returned where
  start : Nat
  size : Nat
  /-- The free block before it, or `chainEnd`. -/
  previous : Nat
  /-- The free block after it, or `chainEnd`. -/
  next : Nat
deriving DecidableEq, Repr

/-- Whether a header describes a block of a region of this capacity whose payload starts at
`payload`. -/
def Header.describes (build : Build) (header : Header) (payload capacity : Nat) :
    Except Fault Bool :=
  if nodeSize ≤ header.adjustment ∧ header.adjustment ≤ payload ∧
      header.adjustment ≤ header.size then do
    let stop ← build.add (← build.sub payload header.adjustment) header.size
    return stop ≤ capacity
  else return false

namespace FreeList

/-- The last free block before an offset and the offset of the first one from there on. -/
def neighbours (list : FreeList) (start : Nat) : Option FreeBlock × Nat :=
  let before := list.blocks.takeWhile fun block ↦ block.offset < start
  let after := list.blocks.dropWhile fun block ↦ block.offset < start
  (before.getLast?, (after.head?.map FreeBlock.offset).getD chainEnd)

/-- Whether a free block ends at or before an offset. -/
def endsBefore (build : Build) (start : Nat) : Option FreeBlock → Except Fault Bool
  | none => .ok true
  | some block => do return (← build.add block.offset block.size) ≤ start

/-- Whether a block ends at or before the next free one. -/
def endsBeforeNext (build : Build) (start size next : Nat) : Except Fault Bool :=
  if next = chainEnd then .ok true else do return (← build.add start size) ≤ next

/-- The block that an address gives back. -/
def returned (build : Build) (list : FreeList) (address : Nat) : Except Fault Returned := do
  build.require .noLiveAllocations (0 < list.allocations)
  let payload := Word.sub address list.region.base
  build.require (.foreignToFreeList address) (nodeSize ≤ payload ∧ payload ≤ list.capacity)
  let header := list.header (← build.sub payload nodeSize)
  build.requireM (.corruptedHeader address) (header.describes build payload list.capacity)
  let start ← build.sub payload header.adjustment
  let (before, next) := list.neighbours start
  build.requireM (.overlapsFreeSpace start) (endsBefore build start before)
  build.requireM (.overlapsFreeSpace start) (endsBeforeNext build start header.size next)
  return { start, size := header.size, previous := (before.map FreeBlock.offset).getD chainEnd,
           next }

/-- Merge a free block with the next one, if they touch. -/
def mergeNext (build : Build) (offset : Nat) : Call FreeList Unit := do
  let node := (← get).node offset
  if node.next ≠ chainEnd then
    if (← build.add offset node.size) = node.next then
      let next := (← get).node node.next
      let size ← build.add node.size next.size
      modify fun list ↦ list.setNode offset { size, next := next.next }

/-- Merge a free block into the one before it, if they touch. -/
def mergePrevious (build : Build) (previous offset : Nat) : Call FreeList Unit := do
  if previous ≠ chainEnd then
    let before := (← get).node previous
    if (← build.add previous before.size) = offset then
      let node := (← get).node offset
      let size ← build.add before.size node.size
      modify fun list ↦ list.setNode previous { size, next := node.next }

/-- Give a block back; the null address is ignored. -/
def release (build : Build) (address : Nat) : Call FreeList Unit := do
  if address = 0 then return
  let block ← (← get).returned build address
  modify fun list ↦
    (list.setNode block.start { size := block.size, next := block.next }).setNext block.previous
      block.start
  mergeNext build block.start
  mergePrevious build block.previous block.start
  let used ← build.sub (← get).used block.size
  modify fun list ↦ { list with used }
  let allocations ← build.sub (← get).allocations 1
  modify fun list ↦ { list with allocations }

end FreeList

end Suballoc
