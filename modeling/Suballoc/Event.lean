import Suballoc.FreeList
import Suballoc.Pool
import Suballoc.SharedPool
import Suballoc.Stack

/-!
# Events

What the engines report to a log: that memory was reserved or returned, that an engine was built,
that a request found no room, and that an engine went away while callers still held memory of it.

An event is a value that carries its numbers; level, origin, wording and field names are functions
of it. Which events a call gives rise to is decided by the engine and the answer, after the fact,
so the engines themselves know nothing of logs.
-/

namespace Suballoc

/-- Something to be shown to an observer. -/
inductive Value where
  | number (value : Nat)
  | flag (value : Bool)
  | text (value : String)
  /-- A share of a whole, from 0 to 1. -/
  | share (value : Float)
  | capabilities (value : Capabilities)

/-- How much an event matters. -/
inductive Level where
  | trace
  | debug
  | warn
deriving DecidableEq, Repr

/-- The name of a level. -/
def Level.text : Level → String
  | trace => "TRACE"
  | debug => "DEBUG"
  | warn => "WARN"

/-- Something that happened. -/
inductive Event where
  | regionReserved (wanted : Reservation)
  | regionReturned (size : Nat)
  | poolBuilt (blockSize blockCount alignment : Nat)
  | sharedPoolBuilt (blockSize blockCount alignment : Nat) (strategy : SyncStrategy)
  | stackBuilt (capacity : Nat)
  | freeListBuilt (capacity : Nat) (strategy : FitStrategy)
  | poolExhausted (capacity : Nat)
  | sharedPoolExhausted (capacity : Nat)
  | stackExhausted (size alignment available : Nat)
  | noBlockFits (size alignment available blocks : Nat)
  | poolLeaked (live : Nat)
  | sharedPoolLeaked (live : Nat)
  | freeListLeaked (live used : Nat)
deriving DecidableEq, Repr

namespace Event

/-- How much it matters. -/
def level : Event → Level
  | regionReserved _ | regionReturned _ | poolBuilt .. | sharedPoolBuilt .. | stackBuilt _
  | freeListBuilt .. => .debug
  | poolExhausted _ | sharedPoolExhausted _ | stackExhausted .. | noBlockFits .. => .trace
  | poolLeaked _ | sharedPoolLeaked _ | freeListLeaked .. => .warn

/-- Where it comes from. -/
def origin : Event → String
  | regionReserved _ | regionReturned _ => "rtalloc::memory::region"
  | poolBuilt .. | poolExhausted _ | poolLeaked _ => "rtalloc::allocators::pool"
  | sharedPoolBuilt .. | sharedPoolExhausted _ | sharedPoolLeaked _ =>
    "rtalloc::allocators::concurrent_pool"
  | stackBuilt _ | stackExhausted .. => "rtalloc::allocators::stack"
  | freeListBuilt .. | noBlockFits .. | freeListLeaked .. => "rtalloc::allocators::free_list"

/-- What happened, in words. -/
def message : Event → String
  | regionReserved _ => "reserved region"
  | regionReturned _ => "released region"
  | poolBuilt .. => "created pool allocator"
  | sharedPoolBuilt .. => "created concurrent pool allocator"
  | stackBuilt _ => "created stack allocator"
  | freeListBuilt .. => "created free-list allocator"
  | poolExhausted _ => "pool exhausted"
  | sharedPoolExhausted _ => "concurrent pool exhausted"
  | stackExhausted .. => "stack allocator exhausted"
  | noBlockFits .. => "free-list allocator has no fitting block"
  | poolLeaked _ => "pool allocator dropped with live blocks"
  | sharedPoolLeaked _ => "concurrent pool allocator dropped with live blocks"
  | freeListLeaked .. => "free-list allocator dropped with live allocations"

/-- What goes with it, by name. -/
def fields : Event → List (String × Value)
  | regionReserved wanted =>
    [("size", .number wanted.size), ("alignment", .number wanted.alignment),
      ("zeroed", .flag wanted.zeroed)]
  | regionReturned size => [("size", .number size)]
  | poolBuilt blockSize blockCount alignment =>
    [("block_size", .number blockSize), ("block_count", .number blockCount),
      ("alignment", .number alignment)]
  | sharedPoolBuilt blockSize blockCount alignment strategy =>
    [("block_size", .number blockSize), ("block_count", .number blockCount),
      ("alignment", .number alignment), ("strategy", .text strategy.text)]
  | stackBuilt capacity => [("capacity", .number capacity)]
  | freeListBuilt capacity strategy =>
    [("capacity", .number capacity), ("strategy", .text strategy.text)]
  | poolExhausted capacity | sharedPoolExhausted capacity => [("capacity", .number capacity)]
  | stackExhausted size alignment available =>
    [("size", .number size), ("alignment", .number alignment), ("available", .number available)]
  | noBlockFits size alignment available blocks =>
    [("size", .number size), ("alignment", .number alignment), ("available", .number available),
      ("free_blocks", .number blocks)]
  | poolLeaked live | sharedPoolLeaked live => [("live", .number live)]
  | freeListLeaked live used => [("live", .number live), ("used", .number used)]

end Event

end Suballoc
