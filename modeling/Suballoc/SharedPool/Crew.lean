import Suballoc.SharedPool

/-!
# Crews

A crew is a shared pool together with the workers that use it at the same time. One step of a crew
is one atomic step of one worker: whoever picks the workers picks the interleaving, and any choice
of workers is a possible one.

A worker is described by how far it is in its current call and by the blocks it holds. It holds a
block from the last step of taking it to the first step of giving it back; in between these calls
the block is on its way and nobody may touch it.
-/

namespace Suballoc

/-- How far a worker is in its call. -/
inductive Phase where
  /-- Between two calls. -/
  | idle
  /-- A block was popped and is to be counted. -/
  | counting (index : Nat)
  /-- It was counted, and the peak is to be raised. -/
  | raising (index live : Nat)
  /-- The peak was raised, and the live flag is to be set. -/
  | marking (index : Nat)
  /-- A live flag was cleared, and the block is to be taken off the count. -/
  | uncounting (index : Nat)
  /-- It was taken off the count and is to be pushed. -/
  | pushing (index : Nat)
deriving DecidableEq, Repr

/-- Someone who uses a shared pool. -/
structure Worker where
  phase : Phase := .idle
  /-- The blocks held, the last one taken first. -/
  held : List Nat := []
deriving DecidableEq, Repr

/-- What an idle worker may do next. -/
inductive Choice where
  /-- Begin to take a block. -/
  | take
  /-- Begin to give back a block that it holds. -/
  | give (index : Nat)
  /-- Write to a block that it holds. -/
  | fill (index offset : Nat) (values : List UInt8)
deriving DecidableEq, Repr

/-- One atomic step of a worker. An idle worker begins what it chooses, if it may; a busy one goes
on with its call whatever it would choose. -/
def Worker.advance (build : Build) (choice : Choice) (worker : Worker) : Call SharedPool Worker :=
  match worker.phase with
  | .idle =>
    match choice with
    | .take => do
      match ← SharedPool.pop build with
      | none => return worker
      | some index => return { worker with phase := .counting index }
    | .give index =>
      if index ∈ worker.held then do
        SharedPool.markFree build index
        return { phase := .uncounting index, held := worker.held.erase index }
      else return worker
    | .fill index offset values => do
      if index ∈ worker.held ∧ offset + values.length ≤ (← get).slots.stride then
        modify (·.write index offset values)
      return worker
  | .counting index => do
    let live ← SharedPool.countUp build
    return { worker with phase := .raising index live }
  | .raising index live => do
    SharedPool.raisePeak live
    return { worker with phase := .marking index }
  | .marking index => do
    SharedPool.markLive build index
    return { phase := .idle, held := index :: worker.held }
  | .uncounting index => do
    SharedPool.countDown build
    return { worker with phase := .pushing index }
  | .pushing index => do
    SharedPool.push build index
    return { worker with phase := .idle }

/-- A shared pool and those who use it. -/
structure Crew where
  pool : SharedPool
  workers : List Worker

namespace Crew

/-- A crew of idle workers. -/
def assemble (pool : SharedPool) (size : Nat) : Crew where
  pool
  workers := List.replicate size {}

/-- Do something to the pool of a crew. -/
def onPool {Answer : Type} (call : Call SharedPool Answer) : Call Crew Answer :=
  fun ⟨pool, workers⟩ ↦
    match call pool with
    | .ok answer pool => .ok answer ⟨pool, workers⟩
    | .error fault pool => .error fault ⟨pool, workers⟩

/-- One atomic step of the worker of the given number. -/
def step (build : Build) (number : Nat) (choice : Choice) : Call Crew Unit := do
  match (← get).workers[number]? with
  | none => return
  | some worker =>
    let worker ← onPool (worker.advance build choice)
    modify fun crew ↦ { crew with workers := crew.workers.set number worker }

/-- One step after another, in the order of a schedule. -/
def run (build : Build) (schedule : List (Nat × Choice)) : Call Crew Unit :=
  schedule.forM fun (number, choice) ↦ step build number choice

end Crew

end Suballoc
