import Suballoc.SlotArray
import Suballoc.Text.Record
import Suballoc.Usage

/-!
# Shared pools

A shared pool hands out the slots of an array to many threads. A call is a sequence of atomic steps,
and other calls may come in between any two of them:

* taking pops the chain, counts the block, raises the peak and sets the live flag;
* giving back clears the live flag, takes the block off the count and pushes the chain.

The order is what keeps the count between zero and the capacity at every moment: a block is counted
after it left the chain and taken off the count before it returns there. A call that runs alone is
all its steps in a row, and that is how `allocate` and `release` are defined.

Two strategies protect the head of the chain. They differ in one respect that can be seen: the
lock-free head packs the index into 32 bits to leave room for a generation, the mutex keeps a whole
word.
-/

namespace Suballoc

/-- How the head of a shared chain is protected. -/
inductive SyncStrategy where
  /-- One compare-and-swap on a packed head. -/
  | lockFree
  /-- A lock around every pop and push. -/
  | mutex
deriving DecidableEq, Repr

namespace SyncStrategy

/-- The strategy of a pool for which none was asked. -/
def default : SyncStrategy := lockFree

/-- The name of a strategy. -/
def text : SyncStrategy → String
  | lockFree => "LockFree"
  | mutex => "Mutex"

/-- What the head holds after an index was stored in it. -/
def stored : SyncStrategy → Nat → Nat
  | mutex, index => index
  | lockFree, index =>
    let packed := index % (packedIndexLimit + 1)
    if packed = packedIndexLimit then chainEnd else packed

theorem stored_of_lt (strategy : SyncStrategy) {index : Nat} (h : index < packedIndexLimit) :
    strategy.stored index = index := by
  cases strategy with
  | mutex => rfl
  | lockFree =>
    simp only [stored]
    rw [Nat.mod_eq_of_lt (by omega), if_neg (by omega)]

theorem stored_chainEnd (strategy : SyncStrategy) : strategy.stored chainEnd = chainEnd := by
  cases strategy <;> rfl

end SyncStrategy

/-- A pool of equal blocks for many threads. -/
structure SharedPool where
  slots : SlotArray
  strategy : SyncStrategy
  /-- The first free slot, or `chainEnd`. -/
  head : Nat
  /-- The number of blocks counted as held. -/
  allocated : Nat
  /-- The largest count there has been. -/
  peak : Nat

namespace SharedPool

/-- What a shared pool offers. -/
def capabilities : Capabilities := { threadSafe := true }

/-- A shared pool with all its blocks free. A count that no packed head can name is blamed before
anything else. -/
def new (build : Build) (platform : Platform) (blockSize blockCount alignment : Nat)
    (strategy : SyncStrategy) : Except SetupError SharedPool := do
  if packedIndexLimit ≤ blockCount then throw (.invalid .tooManyBlocks)
  return { slots := ← SlotArray.new build platform blockSize blockCount alignment
           strategy
           head := 0
           allocated := 0
           peak := 0 }

/-! ## The steps of taking a block -/

/-- Pop the chain, or find it empty. -/
def pop (build : Build) : Call SharedPool (Option Nat) := do
  let index := (← get).head
  if index = chainEnd then return none
  let next ← (← get).slots.link build index
  modify fun pool ↦ { pool with head := pool.strategy.stored next }
  return some index

/-- Count a block; the answer is the new count. -/
def countUp (build : Build) : Call SharedPool Nat := do
  let before := (← get).allocated
  modify fun pool ↦ { pool with allocated := Word.add pool.allocated 1 }
  build.add before 1

/-- Raise the peak to a count. -/
def raisePeak (live : Nat) : Call SharedPool Unit :=
  modify fun pool ↦ { pool with peak := max pool.peak live }

/-- Set the live flag of a slot. -/
def markLive (build : Build) (index : Nat) : Call SharedPool Unit := do
  let held := (← get).slots.isLive index
  modify fun pool ↦ { pool with slots := pool.slots.setLive index true }
  build.require (.slotStillLive index) !held

/-! ## The steps of giving a block back -/

/-- Clear the live flag of a slot. -/
def markFree (build : Build) (index : Nat) : Call SharedPool Unit := do
  let held := (← get).slots.isLive index
  modify fun pool ↦ { pool with slots := pool.slots.setLive index false }
  build.require (.slotReleasedTwice index) held

/-- Take a block off the count. -/
def countDown (build : Build) : Call SharedPool Unit := do
  let before := (← get).allocated
  modify fun pool ↦ { pool with allocated := Word.sub pool.allocated 1 }
  build.require .noLiveBlocks (0 < before)

/-- Push a slot on the chain. -/
def push (build : Build) (index : Nat) : Call SharedPool Unit := do
  let offset ← (← get).slots.linkOffset build index
  modify fun pool ↦
    { pool with
      slots := pool.slots.setLink offset pool.head
      head := pool.strategy.stored index }

/-! ## What holders do -/

/-- Write to a block, from an offset inside it on. -/
def write (pool : SharedPool) (index offset : Nat) (values : List UInt8) : SharedPool :=
  { pool with
    slots :=
      { pool.slots with
        region := pool.slots.region.write (index * pool.slots.stride + offset) values } }

/-! ## Whole calls -/

/-- Take a block, undisturbed. -/
def allocate (build : Build) : Call SharedPool (Option Nat) := do
  match ← pop build with
  | none => return none
  | some index =>
    raisePeak (← countUp build)
    markLive build index
    return some (← (← get).slots.address build index)

/-- Give a block back, undisturbed; the null address is ignored. -/
def release (build : Build) (address : Nat) : Call SharedPool Unit := do
  if address = 0 then return
  let index ← (← get).slots.indexOf build address
  markFree build index
  countDown build
  push build index

/-! ## Observations -/

/-- The size of a block, rounded to the alignment. -/
def blockSize (pool : SharedPool) : Nat := pool.slots.stride

/-- The number of blocks. -/
def capacity (pool : SharedPool) : Nat := pool.slots.count

/-- Whether every block is held. -/
def isFull (pool : SharedPool) : Bool := pool.capacity ≤ pool.allocated

/-- The bytes of the region, and the bytes of the blocks held. -/
def usage (build : Build) (pool : SharedPool) : Except Fault Usage := do
  return { total := pool.slots.region.size, used := ← build.mul pool.allocated pool.blockSize }

/-- Whether an address is that of a block. -/
def owns (pool : SharedPool) (address : Nat) : Bool := pool.slots.isSlot address

/-- The pool for a person to read. -/
def record (pool : SharedPool) : Record where
  name := "ConcurrentPoolAllocator"
  fields := [("strategy", pool.strategy.text), ("block_size", toString pool.blockSize),
    ("capacity", toString pool.capacity), ("allocated", toString pool.allocated)]

end SharedPool

end Suballoc
