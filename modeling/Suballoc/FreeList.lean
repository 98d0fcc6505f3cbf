import Suballoc.Platform
import Suballoc.Usage

/-!
# Free lists

A free list serves requests of any size and takes them back in any order. Its memory is divided into
blocks without gaps. A free block begins with a node: its size and the offset of the next free
block, in ascending order of offsets, with `chainEnd` after the last. A block in use has a header
instead: its size and how far the payload lies from its start. The header sits right before the
payload, so an address is all that is needed to give a block back.

Neither the nodes nor the headers are kept anywhere else. `blocks` is the view of the chain that the
search for room and the return of a block work on; it reads at most one block for every byte of the
region, which only a chain that runs in a circle can exceed.
-/

namespace Suballoc

/-- Which of the free blocks that fit a request is taken. -/
inductive FitStrategy where
  /-- The one of lowest offset. -/
  | firstFit
  /-- The smallest, and among several of that size the one of lowest offset. -/
  | bestFit
deriving DecidableEq, Repr

namespace FitStrategy

/-- The strategy of a free list for which none was asked. -/
def default : FitStrategy := firstFit

/-- The name of a strategy. -/
def text : FitStrategy → String
  | firstFit => "FirstFit"
  | bestFit => "BestFit"

end FitStrategy

/-- What a free block begins with. -/
structure Node where
  /-- The size of the block. -/
  size : Nat
  /-- The offset of the next free block, or `chainEnd`. -/
  next : Nat
deriving DecidableEq, Repr

/-- What lies before the payload of a block in use. -/
structure Header where
  /-- The size of the block, header and padding included. -/
  size : Nat
  /-- The distance from the start of the block to the payload. -/
  adjustment : Nat
deriving DecidableEq, Repr

/-- A stretch of free memory. -/
structure FreeBlock where
  offset : Nat
  size : Nat
deriving DecidableEq, Repr

/-- An allocator for requests of any size. -/
structure FreeList where
  region : Region
  strategy : FitStrategy
  /-- The offset of the lowest free block, or `chainEnd`. -/
  head : Nat
  /-- The bytes of the blocks in use. -/
  used : Nat
  /-- The number of blocks in use. -/
  allocations : Nat

namespace FreeList

/-- What a free list offers. -/
def capabilities : Capabilities := { variableSize := true }

/-- The number of bytes managed. -/
def capacity (list : FreeList) : Nat := list.region.size

/-! ## Nodes and headers in memory -/

/-- The node at an offset. -/
def node (list : FreeList) (offset : Nat) : Node where
  size := list.region.word offset
  next := list.region.word (offset + Word.width)

/-- Write a node. -/
def setNode (list : FreeList) (offset : Nat) (node : Node) : FreeList :=
  { list with
    region := (list.region.setWord offset node.size).setWord (offset + Word.width) node.next }

/-- The header at an offset. -/
def header (list : FreeList) (offset : Nat) : Header where
  size := list.region.word offset
  adjustment := list.region.word (offset + Word.width)

/-- Write a header. -/
def setHeader (list : FreeList) (offset : Nat) (header : Header) : FreeList :=
  { list with
    region := (list.region.setWord offset header.size).setWord (offset + Word.width)
      header.adjustment }

/-- Let a free block, or the head when there is none before, lead to another one. -/
def setNext (list : FreeList) (previous next : Nat) : FreeList :=
  if previous = chainEnd then { list with head := next }
  else { list with region := list.region.setWord (previous + Word.width) next }

/-! ## The chain of free blocks -/

/-- The free blocks from an offset on, so many at most. -/
def blocksFrom (region : Region) : (most offset : Nat) → List FreeBlock
  | 0, _ => []
  | most + 1, offset =>
    if offset = chainEnd then []
    else
      { offset, size := region.word offset } ::
        blocksFrom region most (region.word (offset + Word.width))

/-- The free blocks, in the order of the chain. -/
def blocks (list : FreeList) : List FreeBlock :=
  blocksFrom list.region (list.capacity + 1) list.head

/-- A free list over one block that covers the whole region. -/
def new (platform : Platform) (wanted : Reservation) (strategy : FitStrategy) :
    Except SetupError FreeList := do
  if wanted.size ≤ nodeSize then throw (.invalid .capacityTooSmall)
  let region ← Region.reserve platform wanted
  let list : FreeList := { region, strategy, head := 0, used := 0, allocations := 0 }
  return list.setNode 0 { size := wanted.size, next := chainEnd }

/-! ## Observations -/

/-- The number of bytes of blocks not in use. -/
def available (build : Build) (list : FreeList) : Except Fault Nat :=
  build.sub list.capacity list.used

/-- The number of free blocks. -/
def blockCount (list : FreeList) : Nat := list.blocks.length

/-- The size of the largest free block. -/
def largest (list : FreeList) : Nat := (list.blocks.map FreeBlock.size).foldl max 0

/-- The share of the free bytes that lies outside the largest free block, from 0 to 1. -/
def fragmentation (build : Build) (list : FreeList) : Except Fault Float := do
  let available ← list.available build
  return if available = 0 then 0.0
    else 1.0 - (UInt64.ofNat list.largest).toFloat / (UInt64.ofNat available).toFloat

/-- The bytes of the region, and the bytes of the blocks in use. -/
def usage (list : FreeList) : Usage := { total := list.capacity, used := list.used }

/-- Whether an address is that of a byte of the region. -/
def owns (list : FreeList) (address : Nat) : Bool := list.region.contains address

end FreeList

end Suballoc
