import Suballoc.SharedPool.Crew

/-!
# Drills

A drill is a run of a crew whose workers all follow the same plan: take several blocks, write to
each of them, give all of them back, and the same again. They advance in turn, so that their calls
overlap as much as they can. Afterwards the pool is inspected; what is found there does not depend
on the interleaving.
-/

namespace Suballoc

/-- A drill: how many workers go how many times through taking and giving back how many blocks. -/
structure Drill where
  workers : Nat
  cycles : Nat
  hold : Nat
deriving DecidableEq, Repr

/-- How much of a drill is left for a worker. -/
structure Task where
  /-- Cycles not begun. -/
  cycles : Nat
  /-- Attempts to take a block that are left in this cycle. -/
  takes : Nat := 0
  /-- Blocks written to in this cycle. -/
  fills : Nat := 0
deriving DecidableEq, Repr

/-- The next choice of an idle worker, and its task from there on; none when it has finished. -/
def Task.next (hold stamp : Nat) (task : Task) (held : List Nat) : Option (Choice × Task) :=
  if 0 < task.takes then some (.take, { task with takes := task.takes - 1 })
  else
    match held[task.fills]? with
    | some index =>
      some (.fill index 0 (Word.toBytes Word.width stamp), { task with fills := task.fills + 1 })
    | none =>
      match held with
      | index :: _ => some (.give index, task)
      | [] =>
        if 0 < task.cycles ∧ 0 < hold then
          some (.take, { cycles := task.cycles - 1, takes := hold - 1 })
        else none

namespace Crew

/-- One step of a worker on its task. -/
def work (build : Build) (hold number : Nat) (task : Task) : Call Crew Task := do
  match (← get).workers[number]? with
  | none => return task
  | some worker =>
    if worker.phase = .idle then
      match task.next hold number worker.held with
      | none => return task
      | some (choice, task) =>
        step build number choice
        return task
    else
      step build number .take
      return task

/-- One step of every worker. -/
def round (build : Build) (hold : Nat) (tasks : List Task) : Call Crew (List Task) :=
  tasks.zipIdx.mapM fun (task, number) ↦ work build hold number task

/-- So many rounds. -/
def rounds (build : Build) (hold : Nat) : Nat → List Task → Call Crew Unit
  | 0, _ => return
  | count + 1, tasks => do rounds build hold count (← round build hold tasks)

/-- A whole drill. A block costs a worker four steps to take, one to write to and three to give
back, and an attempt that finds the chain empty costs it one, so nobody needs more rounds. -/
def drill (build : Build) (plan : Drill) : Call Crew Unit :=
  rounds build plan.hold (8 * plan.hold * plan.cycles)
    (List.replicate plan.workers { cycles := plan.cycles })

end Crew

/-- What a drill leaves behind. -/
structure DrillReport where
  /-- The number of blocks counted as held after the drill. -/
  allocated : Nat
  /-- Whether the peak of the drill lies between one and the number of blocks. -/
  peakInRange : Bool
  /-- The number of different blocks that could be taken afterwards. -/
  distinct : Nat
  /-- Whether the pool was full then. -/
  full : Bool
  /-- Whether there was no further block then. -/
  exhausted : Bool
deriving DecidableEq, Repr

namespace SharedPool

/-- Take blocks until there are none left, so many at most. -/
def takeAll (build : Build) : (most : Nat) → Call SharedPool (List Nat)
  | 0 => return []
  | most + 1 => do
    match ← allocate build with
    | none => return []
    | some address => return address :: (← takeAll build most)

/-- Take every block and look at the pool then. -/
def inspect (build : Build) : Call SharedPool DrillReport := do
  let before ← get
  let addresses ← takeAll build before.capacity
  let full := (← get).isFull
  let more ← allocate build
  return {
    allocated := before.allocated
    peakInRange := 1 ≤ before.peak && before.peak ≤ before.capacity
    distinct := addresses.eraseDups.length
    full
    exhausted := more.isNone }

end SharedPool

/-- Drill a crew on a pool and look at the pool afterwards. -/
def Drill.report (build : Build) (plan : Drill) (pool : SharedPool) : Except Fault DrillReport :=
  let exercise : Call Crew DrillReport := do
    Crew.drill build plan
    Crew.onPool (SharedPool.inspect build)
  match exercise (Crew.assemble pool plan.workers) with
  | .ok report _ => .ok report
  | .error fault _ => .error fault

end Suballoc
