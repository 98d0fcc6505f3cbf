import Suballoc.Proofs.Engine.Pools
import Suballoc.Proofs.SharedPool.Strategies

/-!
# Three pools that cannot be told apart

To callers who come one at a time and keep the contract, a pool and a shared pool with either
strategy are the same engine: the same slots are handed out, the same counts are reported, and the
same bytes lie in the memory. Only a shared pool has a peak, and it is the highest count there has
been.

Callers who do not keep the contract can tell a pool from a shared pool, since the two do not test
and count in the same order. They still cannot tell the strategies apart.
-/

namespace Suballoc

open Suballoc.Tenancy (run run_cons watched watched_of_ok)

/-- What an allocator of equal blocks shows to everyone. -/
structure Sight where
  memory : Region
  allocated? : Option Nat
  isFull? : Option Bool
  /-- The bytes of the blocks held. -/
  used? : Option Nat
  owns? : Nat → Option Bool

namespace Engine

/-- The number of blocks held. -/
def allocated? : Engine → Option Nat
  | .pool p => some p.allocated
  | .sharedPool p => some p.allocated
  | _ => none

/-- Whether every block is held. -/
def isFull? : Engine → Option Bool
  | .pool p => some p.isFull
  | .sharedPool p => some p.isFull
  | _ => none

/-- Look at an allocator. -/
def sight (build : Build) (engine : Engine) : Except Fault Sight := do
  let usage? ← (engine.usage? build).sequence
  return {
    memory := engine.memory
    allocated? := engine.allocated?
    isFull? := engine.isFull?
    used? := usage?.map Usage.used
    owns? := fun address ↦ engine.owns? address }

end Engine

open Engine (sight)
open Engine.Tenancy (step)
open Call (transcript)

/-- The highest of the counts that were seen. -/
def highest (answers : List (Outcome × Sight)) (least : Nat) : Nat :=
  (answers.filterMap fun answer ↦ answer.2.allocated?).foldl max least

theorem highest_cons {outcome : Outcome} {view : Sight} {count least : Nat}
    {answers : List (Outcome × Sight)} (hcount : view.allocated? = some count) :
    highest ((outcome, view) :: answers) least = highest answers (max least count) := by
  simp only [highest, List.filterMap_cons, hcount, List.foldl_cons]

/-- What is seen of the engine of a tenancy. -/
def seenOf (build : Build) (tenancy : Engine.Tenancy) : Except Fault Sight :=
  sight build tenancy.engine

namespace Pool

variable {pool : Pool} {held : List Holding}

theorem Holds.exists_sight (h : pool.Holds held) :
    ∃ view : Sight, view.allocated? = some pool.allocated ∧ ∀ (build : Build) (guise : Guise) peak,
      sight build (guise.engine peak (pool.forBuild build)) = .ok view := by
  obtain ⟨free, owned, hrepresents, -⟩ := h
  refine ⟨⟨pool.slots.region, some pool.allocated, some pool.isFull,
    some (pool.allocated * pool.blockSize), fun address ↦ some (pool.owns address)⟩, rfl,
    fun build guise peak ↦ ?_⟩
  obtain ⟨husage, -⟩ := (hrepresents.forBuild build).usage_eq build
  have husage' : (guise.engine peak (pool.forBuild build)).usage? build = some
      (.ok { total := pool.slots.region.size, used := pool.allocated * pool.blockSize }) := by
    rw [region_forBuild, blockSize_forBuild] at husage
    cases guise <;> exact congrArg some husage
  rw [sight, husage']
  cases build <;> cases guise <;> rfl

/-- **Runs in every guise.** Whatever callers do, all guises of a pool give the same answers and the
same sights, and a guise that keeps a peak keeps the highest count. -/
theorem Holds.run_sights (build : Build) (errands : List Engine.Errand) (peak : Nat)
    (h : pool.Holds held) (hpeak : pool.allocated ≤ peak) :
    ∃ answers, ∃ next : Pool, ∃ rest, ∀ guise : Guise, guise.Fits pool.capacity →
      run (watched (seenOf build) (step build)) errands
          ⟨guise.engine peak (pool.forBuild build), held⟩ =
        .ok answers ⟨guise.engine (highest answers peak) (next.forBuild build), rest⟩ := by
  induction errands generalizing pool held peak with
  | nil => exact ⟨[], pool, held, fun _ _ ↦ rfl⟩
  | cons errand errands ih =>
    -- the peak is generalized: the rest of the run starts with the one this errand leaves
    obtain ⟨outcome, middle, left, hserves⟩ := h.serves errand
    obtain ⟨view, hcount, hsight⟩ := hserves.holds.exists_sight
    obtain ⟨answers, next, rest, hrun⟩ :=
      ih (max peak middle.allocated) hserves.holds (Nat.le_max_right _ _)
    refine ⟨(outcome, view) :: answers, next, rest, fun guise hfits ↦ ?_⟩
    rw [highest_cons hcount]
    refine run_cons ?_ (hrun guise (hserves.capacity_eq ▸ hfits))
    exact watched_of_ok (hserves.step_eq build guise peak hfits hpeak) (hsight build guise _)

/-- **Rough runs of a new pool.** In a checked build whatever is given back, and in an unchecked one
whatever of the region is, both strategies end every errand alike. -/
theorem exists_transcript_new {build : Build} {platform : Platform}
    {blockSize blockCount alignment : Nat}
    (hnew : Pool.new build platform blockSize blockCount alignment = .ok pool)
    (hplaced : pool.slots.region.Placed) (hfits : blockCount < packedIndexLimit)
    (errands : List SharedPool.Errand)
    (hstays : build = .unchecked → ∀ errand ∈ errands, errand.StaysIn pool.slots.region) :
    ∃ entries : List (Except Fault (Option Nat) × Pool × Nat), ∀ strategy,
      transcript (SharedPool.perform build) errands (pool.shared strategy 0) =
        entries.map (Prod.map id (seen strategy)) := by
  obtain ⟨hrepresents, hcapacity⟩ := represents_new hnew hplaced.base_pos hplaced.stop_lt
  rw [← hcapacity] at hfits
  cases build with
  | checked => exact Ordered.exists_transcript 0 ⟨hfits, _, hrepresents⟩ errands
  | unchecked =>
    have htame : Tame pool.slots.region pool :=
      hrepresents.tame (fun index hindex ↦ List.mem_range.mpr (hcapacity ▸ hindex)) hfits
    exact htame.exists_transcript 0 errands (hstays rfl)

end Pool

/-- **The three pools agree.** Let a pool and a shared pool with either strategy be built in the
same place. Whatever callers do who keep the contract, in either build, each errand has the same
answer and leaves the same to be seen in all three, and the peak of both shared pools is the highest
count seen. Errands of rough callers end alike with both strategies, faults included, and leave the
same pool: in a checked build whatever is given back, and in an unchecked one as long as nothing is
written and what is given back lies in the region. -/
theorem pools_agree {build : Build} {platform : Platform} {blockSize blockCount alignment : Nat}
    {pool : Pool} {lockFree mutex : SharedPool}
    (hpool : Pool.new build platform blockSize blockCount alignment = .ok pool)
    (hlockFree :
      SharedPool.new build platform blockSize blockCount alignment .lockFree = .ok lockFree)
    (hmutex : SharedPool.new build platform blockSize blockCount alignment .mutex = .ok mutex)
    (hplaced : pool.slots.region.Placed) :
    (∀ errands : List Engine.Errand, ∃ answers next rest,
      run (watched (seenOf build) (step build)) errands ⟨.pool pool, []⟩ =
          .ok answers ⟨.pool next, rest⟩ ∧
        run (watched (seenOf build) (step build)) errands ⟨.sharedPool lockFree, []⟩ =
          .ok answers ⟨.sharedPool (next.shared .lockFree (highest answers 0)), rest⟩ ∧
        run (watched (seenOf build) (step build)) errands ⟨.sharedPool mutex, []⟩ =
          .ok answers ⟨.sharedPool (next.shared .mutex (highest answers 0)), rest⟩) ∧
    ∀ errands : List SharedPool.Errand,
      (build = .unchecked → ∀ errand ∈ errands, errand.StaysIn pool.slots.region) →
      ∃ entries : List (Except Fault (Option Nat) × Pool × Nat),
        transcript (SharedPool.perform build) errands lockFree =
            entries.map (Prod.map id (Pool.seen .lockFree)) ∧
          transcript (SharedPool.perform build) errands mutex =
            entries.map (Prod.map id (Pool.seen .mutex)) := by
  obtain ⟨hfits, _, hsame, rfl⟩ := SharedPool.new_eq_ok hlockFree
  obtain rfl := Except.ok.inj (hpool.symm.trans hsame)
  obtain ⟨-, _, hsame, rfl⟩ := SharedPool.new_eq_ok hmutex
  obtain rfl := Except.ok.inj (hpool.symm.trans hsame)
  refine ⟨fun errands ↦ ?_, fun errands hstays ↦ ?_⟩
  · rw [Pool.new_forBuild] at hpool
    obtain ⟨checked, hchecked, rfl⟩ := Call.map_eq_ok.mp hpool
    rw [Pool.region_forBuild] at hplaced
    obtain ⟨hholds, hcapacity, hallocated⟩ := Pool.holds_new hchecked hplaced
    obtain ⟨answers, next, rest, hrun⟩ :=
      hholds.run_sights build errands 0 (Nat.le_of_eq hallocated)
    rw [← hcapacity] at hfits
    exact ⟨answers, next.forBuild build, rest, hrun .own trivial, hrun (.shared .lockFree) hfits,
      hrun (.shared .mutex) hfits⟩
  · obtain ⟨entries, hentries⟩ :=
      Pool.exists_transcript_new hpool hplaced hfits errands hstays
    exact ⟨entries, hentries .lockFree, hentries .mutex⟩

/-- Two of three slots are taken, one is written to and comes back. A rough caller gives a slot back
twice, the second time by an address inside it: the chain runs in a circle from then on, and the
slot is handed out again and again. -/
theorem pools_agree_circle :
    ∃ pool lockFree mutex,
      Pool.new .unchecked ⟨fun _ _ ↦ true, fun _ ↦ 4096, fun _ ↦ 9⟩ 10 3 16 = .ok pool ∧
      SharedPool.new .unchecked ⟨fun _ _ ↦ true, fun _ ↦ 4096, fun _ ↦ 9⟩ 10 3 16 .lockFree =
        .ok lockFree ∧
      SharedPool.new .unchecked ⟨fun _ _ ↦ true, fun _ ↦ 4096, fun _ ↦ 9⟩ 10 3 16 .mutex =
        .ok mutex ∧
      (∃ answers next rest,
        run (watched (seenOf .unchecked) (step .unchecked))
            [.take 1 1, .take 1 1, .fill 4097 [7], .give 4096] ⟨.pool pool, []⟩ =
          .ok answers ⟨.pool next, rest⟩ ∧
        run (watched (seenOf .unchecked) (step .unchecked))
            [.take 1 1, .take 1 1, .fill 4097 [7], .give 4096] ⟨.sharedPool lockFree, []⟩ =
          .ok answers ⟨.sharedPool (next.shared .lockFree (highest answers 0)), rest⟩) ∧
      ∃ entries : List (Except Fault (Option Nat) × Pool × Nat),
        transcript (SharedPool.perform .unchecked)
            [.take, .give 4096, .give 4101, .take, .take, .take] mutex =
              entries.map (Prod.map id (Pool.seen .mutex)) ∧
          (entries.map fun entry ↦ entry.1) =
            [.ok (some 4096), .ok none, .ok none, .ok (some 4096), .ok (some 4096),
              .ok (some 4096)] := by
  have hpool : Pool.new .unchecked ⟨fun _ _ ↦ true, fun _ ↦ 4096, fun _ ↦ 9⟩ 10 3 16 =
      .ok ⟨⟨SlotArray.chainSlots ⟨4096, 16, fillBytes 48 fun _ ↦ 9⟩ 16 3, 16, 3, #[]⟩, 0, 0⟩ := rfl
  have hshared (strategy : SyncStrategy) :
      SharedPool.new .unchecked ⟨fun _ _ ↦ true, fun _ ↦ 4096, fun _ ↦ 9⟩ 10 3 16 strategy =
        .ok ⟨⟨SlotArray.chainSlots ⟨4096, 16, fillBytes 48 fun _ ↦ 9⟩ 16 3, 16, 3, #[]⟩, strategy,
          0, 0, 0⟩ := by
    cases strategy <;> rfl
  have hplaced : (SlotArray.chainSlots ⟨4096, 16, fillBytes 48 fun _ ↦ 9⟩ 16 3).Placed :=
    ⟨by decide +kernel, by decide +kernel, by decide +kernel⟩
  obtain ⟨hkept, hrough⟩ := pools_agree hpool (hshared .lockFree) (hshared .mutex) hplaced
  obtain ⟨answers, next, rest, hown, hlockFree, -⟩ :=
    hkept [.take 1 1, .take 1 1, .fill 4097 [7], .give 4096]
  obtain ⟨entries, -, hmutex⟩ :=
    hrough [.take, .give 4096, .give 4101, .take, .take, .take] fun _ ↦ by decide +kernel
  refine ⟨_, _, _, hpool, hshared .lockFree, hshared .mutex,
    ⟨answers, next, rest, hown, hlockFree⟩, entries, hmutex, ?_⟩
  have hanswers : (transcript (SharedPool.perform .unchecked)
      [.take, .give 4096, .give 4101, .take, .take, .take]
      ⟨⟨SlotArray.chainSlots ⟨4096, 16, fillBytes 48 fun _ ↦ 9⟩ 16 3, 16, 3, #[]⟩, .mutex, 0, 0,
        0⟩).map (fun entry ↦ entry.1) =
        [.ok (some 4096), .ok none, .ok none, .ok (some 4096), .ok (some 4096),
          .ok (some 4096)] := by decide +kernel
  rw [hmutex, List.map_map] at hanswers
  exact hanswers

end Suballoc
