import Suballoc.Platform
import Suballoc.Usage
import Suballoc.Word.Alignment

/-!
# Stacks

A stack hands out bytes by moving a cursor up through its region. Nothing comes back one by one:
the cursor is rewound to a marker, or to the start, and everything above it is free again.

Alignment is a matter of addresses, not of offsets: the first byte of a request is the lowest
address at or above the cursor that is a multiple of the alignment. A request of no bytes gets such
an address and moves nothing.

## Why rewinding clamps

A marker is a plain value and may come from anywhere. A checked build refuses one that was taken
from another stack or lies above the cursor. An unchecked build takes any, so `rewind` never sets
the cursor beyond the capacity; the free bytes can then always be counted.
-/

namespace Suballoc

/-- A cursor position that was read from a stack. -/
structure Marker where
  /-- The bytes in use at the time. -/
  offset : Nat
  /-- The address of the region it was read in. -/
  origin : Nat
deriving DecidableEq, Repr

/-- An allocator that gives memory back in bulk. -/
structure Stack where
  region : Region
  /-- The offset of the first free byte. -/
  cursor : Nat
  /-- The highest the cursor has been. -/
  peak : Nat

namespace Stack

/-- What a stack offers. -/
def capabilities : Capabilities :=
  { individualRelease := false, rewind := true, variableSize := true }

/-- An empty stack. -/
def new (platform : Platform) (wanted : Reservation) : Except SetupError Stack := do
  return { region := ← Region.reserve platform wanted, cursor := 0, peak := 0 }

/-- The number of bytes managed. -/
def capacity (stack : Stack) : Nat := stack.region.size

/-- The number of bytes above the cursor. -/
def available (build : Build) (stack : Stack) : Except Fault Nat :=
  build.sub stack.capacity stack.cursor

/-! ## Taking memory -/

/-- The first and the last offset of a request, provided that both are words. Whether the request
fits is another question. -/
def place (build : Build) (stack : Stack) (size alignment : Nat) :
    Except Fault (Option (Nat × Nat)) := do
  match alignUp? (← build.add stack.region.base stack.cursor) alignment with
  | none => return none
  | some aligned =>
    let first ← build.sub aligned stack.region.base
    return (Word.add? first size).map fun last ↦ (first, last)

/-- Take bytes at an address that is a multiple of the alignment. There is none when they do not
fit above the cursor; that is reported with the number of bytes there. -/
def allocate (build : Build) (size alignment : Nat) : Call Stack (Option Nat) := do
  build.require (.alignmentNotPowerOfTwo alignment) alignment.isPowerOfTwo
  if ¬ alignment.isPowerOfTwo then return none
  match ← (← get).place build size alignment with
  | none => return none
  | some (first, last) =>
    if (← get).capacity < last then
      let _free ← (← get).available build
      return none
    if 0 < size then
      modify fun stack ↦ { stack with cursor := last, peak := max stack.peak last }
    return some (← (← get).region.address build first)

/-! ## Giving memory back -/

/-- The cursor, for a later rewind. -/
def mark (stack : Stack) : Marker := { offset := stack.cursor, origin := stack.region.base }

/-- Rewind to the start. -/
def reset (stack : Stack) : Stack := { stack with cursor := 0 }

/-- Rewind to a marker. -/
def rewind (build : Build) (marker : Marker) : Call Stack Unit := do
  build.require .foreignMarker (marker.origin = (← get).region.base)
  build.require (.markerAhead marker.offset (← get).cursor) (marker.offset ≤ (← get).cursor)
  modify fun stack ↦ { stack with cursor := min marker.offset stack.capacity }

/-- End a scope that was opened at a marker. Whatever rewound past the marker in the meantime keeps
its effect. -/
def close (stack : Stack) (opened : Marker) : Stack :=
  if opened.offset ≤ stack.cursor then { stack with cursor := opened.offset } else stack

/-! ## Observations -/

/-- The bytes of the region, and the bytes below the cursor, padding included. -/
def usage (stack : Stack) : Usage := { total := stack.capacity, used := stack.cursor }

/-- Whether an address is that of a byte of the region. -/
def owns (stack : Stack) (address : Nat) : Bool := stack.region.contains address

end Stack

end Suballoc
