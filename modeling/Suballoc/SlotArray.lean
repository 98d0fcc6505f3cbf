import Suballoc.Platform

/-!
# Slot arrays

A slot array is a region cut into equal strides. It is what both pools hand out from.

While a slot is free, its first word is the index of the next free slot, and `chainEnd` ends the
chain; while it is held, the word belongs to the holder like the rest of the slot. The array itself
does not know which slots are free: whoever keeps the head of the chain does. Only a checked build
keeps a flag per slot beside the memory, to notice a slot that is handed out twice or comes back
twice.
-/

namespace Suballoc

/-- A region cut into slots. -/
structure SlotArray where
  region : Region
  /-- The distance between the starts of neighbouring slots. -/
  stride : Nat
  /-- The number of slots. -/
  count : Nat
  /-- Which slots are held; empty in an unchecked build. -/
  live : Array Bool

namespace SlotArray

/-! ## Construction -/

/-- The stride and the region of an array of blocks. The parameters are blamed in a fixed order: a
block too small for a link, no blocks at all, whatever is wrong with a region of a single block,
and last the total size. -/
def layout (blockSize blockCount alignment : Nat) : Except SetupError (Nat × Reservation) := do
  if blockSize < Word.width then throw (.invalid .blockTooSmall)
  if blockCount = 0 then throw (.invalid .noBlocks)
  Reservation.check { size := blockSize, alignment }
  match alignUp? blockSize alignment with
  | none => throw (.invalid .blockOverflow)
  | some stride =>
    if stride * blockCount < Word.limit then
      return (stride, { size := stride * blockCount, alignment })
    else throw (.invalid .poolOverflow)

/-- Chain the slots of a region in the order of their addresses. -/
def chainSlots (region : Region) (stride count : Nat) : Region :=
  Nat.fold count
    (fun index _ region ↦
      region.setWord (index * stride) (if index + 1 < count then index + 1 else chainEnd))
    region

/-- Reserve an array of slots, all of them free and chained in the order of their addresses. -/
def new (build : Build) (platform : Platform) (blockSize blockCount alignment : Nat) :
    Except SetupError SlotArray := do
  let (stride, wanted) ← layout blockSize blockCount alignment
  let region ← Region.reserve platform wanted
  return {
    region := chainSlots region stride blockCount
    stride
    count := blockCount
    live := if build.checks then Array.replicate blockCount false else #[] }

/-! ## Slots and addresses -/

/-- The offset of a slot. -/
def offset (build : Build) (slots : SlotArray) (index : Nat) : Except Fault Nat :=
  build.mul index slots.stride

/-- The address of a slot. -/
def address (build : Build) (slots : SlotArray) (index : Nat) : Except Fault Nat := do
  slots.region.address build (← slots.offset build index)

/-- The slot that an address starts. An unchecked build rounds down to a slot. -/
def indexOf (build : Build) (slots : SlotArray) (address : Nat) : Except Fault Nat := do
  let offset := Word.sub address slots.region.base
  build.require (.foreignToPool address) (offset < slots.region.size)
  build.require (.offSlotBoundary address) (offset % slots.stride = 0)
  return offset / slots.stride

/-- Whether an address starts a slot. -/
def isSlot (slots : SlotArray) (address : Nat) : Bool :=
  match slots.region.offsetOf? address with
  | some offset => offset % slots.stride = 0
  | none => false

/-! ## The free chain -/

/-- The offset of the link of a free slot: its first word. -/
def linkOffset (build : Build) (slots : SlotArray) (index : Nat) : Except Fault Nat := do
  build.assert .indexInArray (index < slots.count)
  slots.offset build index

/-- The index that a free slot links to. -/
def link (build : Build) (slots : SlotArray) (index : Nat) : Except Fault Nat := do
  return slots.region.word (← slots.linkOffset build index)

/-- Replace the link at an offset. -/
def setLink (slots : SlotArray) (offset next : Nat) : SlotArray :=
  { slots with region := slots.region.setWord offset next }

/-! ## Live flags -/

/-- Whether a slot is recorded as held. -/
def isLive (slots : SlotArray) (index : Nat) : Bool := slots.live.getD index false

/-- Record whether a slot is held; without effect in an unchecked build. -/
def setLive (slots : SlotArray) (index : Nat) (flag : Bool) : SlotArray :=
  { slots with live := slots.live.setIfInBounds index flag }

end SlotArray

end Suballoc
