import Suballoc.Event
import Suballoc.FreeList.Allocate
import Suballoc.FreeList.Release
import Suballoc.Stack.Scope

/-!
# Engines

The four allocators, and a bare region beside them, as one type. This is the place for whatever is
asked of an allocator without regard to its kind: to build it from a recipe, to take and give back,
to look at its bytes and counters, and to tell which events that caused.

A question that an engine of the given kind does not answer is `none`.
-/

namespace Suballoc

/-- An engine of any kind. -/
inductive Engine where
  | pool (pool : Pool)
  | sharedPool (pool : SharedPool)
  /-- A stack with the scopes open on it. -/
  | stack (state : ScopedStack)
  | freeList (list : FreeList)
  /-- A region on its own. -/
  | region (region : Region)

/-- What an engine is built from. -/
inductive Recipe where
  | pool (blockSize blockCount alignment : Nat)
  | sharedPool (blockSize blockCount alignment : Nat) (strategy : SyncStrategy)
  | stack (wanted : Reservation)
  | freeList (wanted : Reservation) (strategy : FitStrategy)
  | region (wanted : Reservation)
deriving DecidableEq, Repr

namespace Engine

/-! ## Building and dropping -/

/-- Build an engine. -/
def new (build : Build) (platform : Platform) : Recipe → Except SetupError Engine
  | .pool blockSize blockCount alignment => do
    return .pool (← Pool.new build platform blockSize blockCount alignment)
  | .sharedPool blockSize blockCount alignment strategy => do
    return .sharedPool (← SharedPool.new build platform blockSize blockCount alignment strategy)
  | .stack wanted => do return .stack (.ofStack (← Stack.new platform wanted))
  | .freeList wanted strategy => do return .freeList (← FreeList.new platform wanted strategy)
  | .region wanted => do return .region (← Region.reserve platform wanted)

/-- The memory of an engine. -/
def memory : Engine → Region
  | .pool p => p.slots.region
  | .sharedPool p => p.slots.region
  | .stack state => state.stack.region
  | .freeList list => list.region
  | .region r => r

/-- Write to the memory of an engine, past its bookkeeping. -/
def write (offset : Nat) (values : List UInt8) : Engine → Engine
  | .pool ⟨⟨r, stride, count, live⟩, head, allocated⟩ =>
    .pool ⟨⟨r.write offset values, stride, count, live⟩, head, allocated⟩
  | .sharedPool ⟨⟨r, stride, count, live⟩, strategy, head, allocated, peak⟩ =>
    .sharedPool ⟨⟨r.write offset values, stride, count, live⟩, strategy, head, allocated, peak⟩
  | .stack ⟨⟨r, cursor, peak⟩, scopes⟩ =>
    .stack ⟨⟨r.write offset values, cursor, peak⟩, scopes⟩
  | .freeList ⟨r, strategy, head, used, allocations⟩ =>
    .freeList ⟨r.write offset values, strategy, head, used, allocations⟩
  | .region memory => .region (memory.write offset values)

/-- The events of a successful construction. -/
def builtEvents (recipe : Recipe) (engine : Engine) : List Event :=
  let memory := engine.memory
  match recipe, engine with
  | .pool _ blockCount alignment, .pool p =>
    [.regionReserved { size := memory.size, alignment },
      .poolBuilt p.blockSize blockCount alignment]
  | .sharedPool _ blockCount alignment strategy, .sharedPool p =>
    [.regionReserved { size := memory.size, alignment },
      .sharedPoolBuilt p.blockSize blockCount alignment strategy]
  | .stack wanted, _ => [.regionReserved wanted, .stackBuilt wanted.size]
  | .freeList wanted strategy, _ =>
    [.regionReserved wanted, .freeListBuilt wanted.size strategy]
  | .region wanted, _ => [.regionReserved wanted]
  | _, _ => []

/-- The events of dropping an engine: a warning if callers still hold memory of it that they would
have to give back one by one, and then the return of the region. -/
def droppedEvents (engine : Engine) : List Event :=
  let leaks : List Event :=
    match engine with
    | .pool p => if 0 < p.allocated then [.poolLeaked p.allocated] else []
    | .sharedPool p => if 0 < p.allocated then [.sharedPoolLeaked p.allocated] else []
    | .freeList list =>
      if 0 < list.allocations then [.freeListLeaked list.allocations list.used] else []
    | .stack _ | .region _ => []
  leaks ++ [.regionReturned engine.memory.size]

/-! ## Taking and giving back -/

/-- The answer of a call, and the engine it leaves. -/
def settle {State Answer : Type} (engine : State → Engine) :
    EStateM.Result Fault State Answer → Option (Except Fault Answer) × Engine
  | .ok answer state => (some (.ok answer), engine state)
  | .error fault state => (some (.error fault), engine state)

/-- Take memory. Pools look at neither size nor alignment. -/
def allocate (build : Build) (size alignment : Nat) :
    Engine → Option (Except Fault (Option Nat)) × Engine
  | .pool p => settle .pool (Pool.allocate build p)
  | .sharedPool p => settle .sharedPool (SharedPool.allocate build p)
  | .stack state => settle .stack (ScopedStack.within (Stack.allocate build size alignment) state)
  | .freeList list => settle .freeList (FreeList.allocate build size alignment list)
  | .region r => (none, .region r)

/-- The event of a request that found no room, told from the engine that had none. A request whose
amounts are not even words goes unreported by a stack. -/
def exhaustedEvents (build : Build) (size alignment : Nat) : Engine → List Event
  | .pool p => [.poolExhausted p.capacity]
  | .sharedPool p => [.sharedPoolExhausted p.capacity]
  | .stack state =>
    let s := state.stack
    if alignment.isPowerOfTwo then
      match s.place build size alignment with
      | .ok (some _) => [.stackExhausted size alignment (Word.sub s.capacity s.cursor)]
      | _ => []
    else []
  | .freeList list =>
    if alignment.isPowerOfTwo then
      [.noBlockFits size (FreeList.payloadAlignment alignment) (Word.sub list.capacity list.used)
        list.blockCount]
    else []
  | .region _ => []

/-- The bytes a caller may write after a request of so many. -/
def payloadSize (size : Nat) : Engine → Nat
  | .pool p => p.blockSize
  | .sharedPool p => p.blockSize
  | .stack _ | .freeList _ | .region _ => size

/-- Give memory back. -/
def release (build : Build) (address : Nat) : Engine → Option (Except Fault Unit) × Engine
  | .pool p => settle .pool (Pool.release build address p)
  | .sharedPool p => settle .sharedPool (SharedPool.release build address p)
  | .freeList list => settle .freeList (FreeList.release build address list)
  | .stack state => (none, .stack state)
  | .region r => (none, .region r)

/-! ## Observations -/

/-- Whether an address belongs to an allocator. -/
def owns? (address : Nat) : Engine → Option Bool
  | .pool p => p.owns address
  | .sharedPool p => p.owns address
  | .stack state => state.stack.owns address
  | .freeList list => list.owns address
  | .region _ => none

/-- The byte counts of an allocator. -/
def usage? (build : Build) : Engine → Option (Except Fault Usage)
  | .pool p => p.usage build
  | .sharedPool p => p.usage build
  | .stack state => some (.ok state.stack.usage)
  | .freeList list => some (.ok list.usage)
  | .region _ => none

/-- What an allocator offers. -/
def capabilities? : Engine → Option Capabilities
  | .pool _ => Pool.capabilities
  | .sharedPool _ => SharedPool.capabilities
  | .stack _ => Stack.capabilities
  | .freeList _ => FreeList.capabilities
  | .region _ => none

/-- The name of the type of an allocator. -/
def typeName : Engine → String
  | .pool _ => "rtalloc::allocators::pool::PoolAllocator"
  | .sharedPool _ => "rtalloc::allocators::concurrent_pool::ConcurrentPoolAllocator"
  | .stack _ => "rtalloc::allocators::stack::StackAllocator"
  | .freeList _ => "rtalloc::allocators::free_list::FreeListAllocator"
  | .region _ => "rtalloc::memory::region::Region"

end Engine

end Suballoc
