import Suballoc.Word

/-!
# Faults

A fault is a bug of the caller, or of the engine itself, that a checked build notices. Running out
of space is not one, and neither is a bad parameter at construction: those are ordinary answers.

There are three kinds. A *violation* breaks the contract of a call and names what was wrong with
it. An *assertion* states what an engine relies on internally. An *overflow* is an arithmetic
result that is not a word. The wording of all of them is in `Fault.message` and nowhere else.
-/

namespace Suballoc

/-- Lower-case hexadecimal after `0x`, without padding: how addresses are written. -/
def hexAddress (address : Nat) : String :=
  "0x" ++ String.ofList (Nat.toDigits 16 address)

/-- A broken contract of a call. -/
inductive Violation where
  /-- A request asks for an alignment that is not a power of two. -/
  | alignmentNotPowerOfTwo (alignment : Nat)
  /-- A block comes back to a pool that has none outstanding. -/
  | noLiveBlocks
  /-- An allocation comes back to a free list that has none outstanding. -/
  | noLiveAllocations
  /-- A released address lies outside the pool's region. -/
  | foreignToPool (address : Nat)
  /-- A released address cannot follow a header inside the free list's region. -/
  | foreignToFreeList (address : Nat)
  /-- A released address lies inside a slot. -/
  | offSlotBoundary (address : Nat)
  /-- The free chain leads to a slot that a caller still holds. -/
  | slotStillLive (index : Nat)
  /-- A slot comes back that no caller holds. -/
  | slotReleasedTwice (index : Nat)
  /-- The words before a released address do not describe a block of the region. -/
  | corruptedHeader (address : Nat)
  /-- A block comes back whose bytes are already free. -/
  | overlapsFreeSpace (offset : Nat)
  /-- A marker was taken from another stack. -/
  | foreignMarker
  /-- A marker lies above the cursor it should rewind. -/
  | markerAhead (marker cursor : Nat)
deriving DecidableEq, Repr

/-- The wording of a broken contract. -/
def Violation.message : Violation → String
  | alignmentNotPowerOfTwo alignment => s!"alignment {alignment} is not a power of 2"
  | noLiveBlocks => "release on a pool with no live blocks"
  | noLiveAllocations => "release on a free-list allocator with no live allocations"
  | foreignToPool address => s!"pointer {hexAddress address} does not belong to this pool"
  | foreignToFreeList address => s!"pointer {hexAddress address} does not belong to this allocator"
  | offSlotBoundary address => s!"pointer {hexAddress address} is not on a slot boundary"
  | slotStillLive index => s!"slot {index} handed out while still live"
  | slotReleasedTwice index => s!"slot {index} released twice"
  | corruptedHeader address => s!"corrupted allocation header before {hexAddress address}"
  | overlapsFreeSpace offset =>
    s!"block at offset {offset} overlaps free space (double release?)"
  | foreignMarker => "marker belongs to a different stack allocator"
  | markerAhead marker cursor => s!"marker at {marker} is ahead of the cursor at {cursor}"

/-- Something an engine relies on when it turns an index or an offset into an address, or rounds a
number up. -/
inductive Assertion where
  /-- A chain index names a slot of the array. -/
  | indexInArray
  /-- An offset lies in the region or at its end. -/
  | offsetInRegion
  /-- What a number is rounded up to is a power of two. -/
  | powerOfTwo
deriving DecidableEq, Repr

/-- The condition, as it is printed. -/
def Assertion.condition : Assertion → String
  | indexInArray => "index < self.count"
  | offsetInRegion => "offset <= self.size()"
  | powerOfTwo => "align.is_power_of_two()"

/-- The arithmetic operations whose result may fail to be a word. -/
inductive Arithmetic where
  | add
  | subtract
  | multiply
deriving DecidableEq, Repr

/-- The name of an operation, as it is printed. -/
def Arithmetic.verb : Arithmetic → String
  | add => "add"
  | subtract => "subtract"
  | multiply => "multiply"

/-- What stops a call in a checked build. -/
inductive Fault where
  | violation (broken : Violation)
  | assertion (failed : Assertion)
  | overflow (operation : Arithmetic)
deriving DecidableEq, Repr

/-- The wording of a fault. -/
def Fault.message : Fault → String
  | violation broken => "contract violation: " ++ broken.message
  | assertion failed => "assertion failed: " ++ failed.condition
  | overflow operation => s!"attempt to {operation.verb} with overflow"

/-- A call on an engine. It ends with an answer or with a fault; either way it leaves the engine in
the state it had reached, so a fault in the middle of a call is not undone. -/
abbrev Call (State Answer : Type) : Type := EStateM Fault State Answer

/-- Pure computations that may fault are calls that leave the engine alone. -/
instance (State : Type) : MonadLift (Except Fault) (EStateM Fault State) where
  monadLift
    | .ok answer => pure answer
    | .error fault => throw fault

end Suballoc
