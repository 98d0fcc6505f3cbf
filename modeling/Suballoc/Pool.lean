import Suballoc.SlotArray
import Suballoc.Usage

/-!
# Pools

A pool hands out the slots of an array to one thread. It keeps the index of the first free slot and
the number of slots held; the rest of the free chain runs through the free slots themselves. Taking
pops the chain and giving back pushes, so the slot given back last is handed out first.

A call counts before it tests the live flag. A checked build that finds the flag already set has
therefore taken the slot off the chain when it faults, and it stays off.
-/

namespace Suballoc

/-- A pool of equal blocks. -/
structure Pool where
  slots : SlotArray
  /-- The first free slot, or `chainEnd`. -/
  head : Nat
  /-- The number of slots held. -/
  allocated : Nat

namespace Pool

/-- What a pool offers. -/
def capabilities : Capabilities := {}

/-- A pool with all its blocks free. -/
def new (build : Build) (platform : Platform) (blockSize blockCount alignment : Nat) :
    Except SetupError Pool := do
  return { slots := ← SlotArray.new build platform blockSize blockCount alignment
           head := 0
           allocated := 0 }

/-- Take a block. There is none exactly when the chain is empty. -/
def allocate (build : Build) : Call Pool (Option Nat) := do
  let index := (← get).head
  if index = chainEnd then return none
  let next ← (← get).slots.link build index
  modify fun pool ↦ { pool with head := next }
  let allocated ← build.add (← get).allocated 1
  modify fun pool ↦ { pool with allocated }
  let held := (← get).slots.isLive index
  modify fun pool ↦ { pool with slots := pool.slots.setLive index true }
  build.require (.slotStillLive index) !held
  return some (← (← get).slots.address build index)

/-- Give a block back; the null address is ignored. -/
def release (build : Build) (address : Nat) : Call Pool Unit := do
  if address = 0 then return
  build.require .noLiveBlocks (0 < (← get).allocated)
  let index ← (← get).slots.indexOf build address
  let held := (← get).slots.isLive index
  modify fun pool ↦ { pool with slots := pool.slots.setLive index false }
  build.require (.slotReleasedTwice index) held
  let offset ← (← get).slots.linkOffset build index
  modify fun pool ↦ { pool with slots := pool.slots.setLink offset pool.head, head := index }
  let allocated ← build.sub (← get).allocated 1
  modify fun pool ↦ { pool with allocated }

/-! ## Observations -/

/-- The size of a block, rounded to the alignment. -/
def blockSize (pool : Pool) : Nat := pool.slots.stride

/-- The number of blocks. -/
def capacity (pool : Pool) : Nat := pool.slots.count

/-- The number of free blocks. -/
def available (build : Build) (pool : Pool) : Except Fault Nat :=
  build.sub pool.capacity pool.allocated

/-- Whether every block is held. -/
def isFull (pool : Pool) : Bool := pool.capacity ≤ pool.allocated

/-- Whether no block is held. -/
def isEmpty (pool : Pool) : Bool := pool.allocated = 0

/-- The bytes of the region, and the bytes of the blocks held. -/
def usage (build : Build) (pool : Pool) : Except Fault Usage := do
  return { total := pool.slots.region.size, used := ← build.mul pool.allocated pool.blockSize }

/-- Whether an address is that of a block. -/
def owns (pool : Pool) (address : Nat) : Bool := pool.slots.isSlot address

end Pool

end Suballoc
