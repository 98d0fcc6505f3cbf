import Suballoc.Proofs.SharedPool.Crew

/-!
# Runs of a crew

A schedule picks a worker for every step, so to speak about all schedules is to speak about all
interleavings, of any number of workers and calls. No schedule brings a run to a fault; and after
each of them the chain, the blocks in the hands of workers and the count tell the same story.

Since every beginning of a schedule is a schedule, what is proved of the end of a run holds at every
moment of it.
-/

namespace Suballoc.Crew

open SlotArray (Chained Flagged)

variable {build : Build} {crew : Crew} {free : List Nat} {highest : Nat}

/-! ## Runs keep the books right -/

/-- The count at every moment of a run: before its steps and after each of them. -/
def counts (build : Build) : List (Nat × Choice) → Call Crew (List Nat)
  | [] => return [(← get).pool.allocated]
  | (number, choice) :: schedule => do
    let now := (← get).pool.allocated
    step build number choice
    return now :: (← counts build schedule)

theorem run_cons {event : Nat × Choice} {schedule : List (Nat × Choice)} {middle after : Crew}
    (hstep : step build event.1 event.2 crew = .ok () middle)
    (hrun : run build schedule middle = .ok () after) :
    run build (event :: schedule) crew = .ok () after := by
  rw [← hrun]
  exact Call.run_bind_of_ok hstep

/-- What the counts of a run have to do with the highest one before and after it. -/
structure Climbs (crew : Crew) (highest highestAfter : Nat) (seen : List Nat) : Prop where
  le : highest ≤ highestAfter
  now_mem : crew.pool.allocated ∈ seen
  seen_le : ∀ count ∈ seen, count ≤ highestAfter
  seen_le_count : ∀ count ∈ seen, count ≤ crew.pool.slots.count
  /-- A count that is higher than all before was seen. -/
  reached : highestAfter = highest ∨ highestAfter ∈ seen

namespace Climbs

variable {seen : List Nat} {highestAfter : Nat}

theorem mem (h : Climbs crew 0 highest seen) (hzero : crew.pool.allocated = 0) :
    highest ∈ seen := by
  rcases h.reached with hreached | hreached
  · rw [hreached, ← hzero]
    exact h.now_mem
  · exact hreached

theorem singleton (h : Sound build crew free highest) :
    Climbs crew highest highest [crew.pool.allocated] := by
  refine ⟨Nat.le_refl _, List.mem_singleton_self _, ?_, ?_, Or.inl rfl⟩
  · intro count hcount
    rw [List.mem_singleton.mp hcount]
    exact h.peaked.allocated_le
  · intro count hcount
    rw [List.mem_singleton.mp hcount]
    exact h.allocated_le

theorem cons {middle : Crew} (h : Sound build crew free highest)
    (hsame : middle.pool.slots.count = crew.pool.slots.count)
    (hrest : Climbs middle (max highest middle.pool.allocated) highestAfter seen) :
    Climbs crew highest highestAfter (crew.pool.allocated :: seen) := by
  have hle : highest ≤ highestAfter := Nat.le_trans (Nat.le_max_left _ _) hrest.le
  refine ⟨hle, List.mem_cons_self, ?_, ?_, ?_⟩
  · intro count hmem
    rcases List.mem_cons.mp hmem with rfl | hmem
    · exact Nat.le_trans h.peaked.allocated_le hle
    · exact hrest.seen_le count hmem
  · intro count hmem
    rcases List.mem_cons.mp hmem with rfl | hmem
    · exact h.allocated_le
    · exact hsame ▸ hrest.seen_le_count count hmem
  · -- the highest count of the rest is the one before it, or the one that this step left
    rcases hrest.reached with hreached | hreached
    · rcases Nat.le_total highest middle.pool.allocated with hmax | hmax
      · rw [Nat.max_eq_right hmax] at hreached
        exact Or.inr (List.mem_cons_of_mem _ (hreached ▸ hrest.now_mem))
      · rw [Nat.max_eq_left hmax] at hreached
        exact Or.inl hreached
    · exact Or.inr (List.mem_cons_of_mem _ hreached)

end Climbs

/-- **A run.** No schedule faults, and the books are right at its end. -/
theorem Sound.run (schedule : List (Nat × Choice)) (h : Sound build crew free highest) :
    ∃ after seen freeAfter highestAfter, Crew.run build schedule crew = .ok () after ∧
      counts build schedule crew = .ok seen after ∧
      Sound build after freeAfter highestAfter ∧
      after.pool.slots.count = crew.pool.slots.count ∧
      Climbs crew highest highestAfter seen := by
  induction schedule generalizing crew free highest with
  | nil =>
    exact ⟨crew, [crew.pool.allocated], free, highest, rfl, rfl, h, rfl, Climbs.singleton h⟩
  | cons event schedule ih =>
    obtain ⟨number, choice⟩ := event
    obtain ⟨middle, freeMiddle, hstep, hmiddle, hsame⟩ := h.step number choice
    obtain ⟨after, seen, freeAfter, highestAfter, hrun, hcounts, hafter, hcount, hclimbs⟩ :=
      ih hmiddle
    refine ⟨after, crew.pool.allocated :: seen, freeAfter, highestAfter, run_cons hstep hrun, ?_,
      hafter, hcount.trans hsame, hclimbs.cons h hsame⟩
    rw [counts]
    simp only [Call.run_bind, Call.run_get, hstep, hcounts, Call.run_pure]

/-! ## Crews at rest -/

variable {pool : SharedPool} {workers : List Worker}

theorem ownedBy_eq_nil (h : ∀ worker ∈ workers, worker.phase = .idle ∧ worker.held = []) :
    ownedBy workers = [] := by
  rw [ownedBy, List.flatMap_eq_nil_iff]
  intro worker hworker
  obtain ⟨hphase, hheld⟩ := h worker hworker
  rw [Worker.owned, hphase, hheld]
  rfl

theorem heldBy_eq_nil (h : ownedBy workers = []) : heldBy workers = [] := by
  have hsublist := heldBy_sublist workers
  rw [h] at hsublist
  exact List.sublist_nil.mp hsublist

theorem countedBy_eq_zero (h : ownedBy workers = []) : countedBy workers = 0 := by
  have hle := countedBy_le workers
  rw [h] at hle
  exact Nat.le_zero.mp hle

/-- Where nobody takes a block, the peak is as high as it will be. -/
theorem pendingBy_eq_nil (h : ∀ worker ∈ workers, ¬ worker.phase.Taking) :
    pendingBy workers = [] := by
  rw [pendingBy, List.flatMap_eq_nil_iff]
  intro worker hworker
  exact Phase.pending_of_not_taking (h worker hworker)

theorem sound_assemble (hledger : pool.Ledger build free [] [] 0) (hpeak : pool.peak = 0)
    (size : Nat) : Sound build (assemble pool size) free 0 := by
  have hfresh : ∀ worker ∈ (assemble pool size).workers, worker = {} := fun _ hworker ↦
    List.eq_of_mem_replicate hworker
  have howned : ownedBy (assemble pool size).workers = [] := by
    apply ownedBy_eq_nil
    intro worker hworker
    rw [hfresh worker hworker]
    exact ⟨rfl, rfl⟩
  have hpending : pendingBy (assemble pool size).workers = [] := by
    apply pendingBy_eq_nil
    intro worker hworker
    rw [hfresh worker hworker]
    exact not_false
  refine ⟨?_, Nat.le_of_eq hledger.allocated_eq, ?_, ?_⟩
  · rw [countedBy_eq_zero howned, heldBy_eq_nil howned, howned]
    exact hledger
  · intro count hcount
    rw [hpending, List.mem_singleton] at hcount
    exact Nat.le_of_eq (hcount.trans hpeak)
  · rw [hpending, List.mem_singleton]
    exact hpeak.symm

/-! ## Safety -/

/-- What is promised of a crew whose chain leads through `free`, after a run that saw the counts
`seen`. -/
structure Safe (build : Build) (crew : Crew) (free seen : List Nat) : Prop where
  /-- The links lead from the head through the free blocks and end. -/
  chained : Chained crew.pool.slots.region crew.pool.slots.stride crew.pool.head free
  /-- No block is held by two workers, or held and free. -/
  apart : (free ++ heldBy crew.workers).Nodup
  /-- No block gets lost: what is not free is held by a worker or on its way. -/
  shared : (free ++ ownedBy crew.workers).Perm (List.range crew.pool.capacity)
  /-- A checked build knows the blocks that are held. -/
  flagged : Flagged build crew.pool.slots fun index ↦ index ∈ heldBy crew.workers
  /-- The count is exact, so it never wrapped around. -/
  allocated_eq : crew.pool.allocated = countedBy crew.workers
  seen_le : ∀ count ∈ seen, count ≤ crew.pool.capacity
  peak_le : crew.pool.peak ≤ crew.pool.capacity
  /-- Unless someone is taking a block, the peak is the largest count there has been. -/
  peak_eq : (∀ worker ∈ crew.workers, ¬ worker.phase.Taking) → seen.max? = some crew.pool.peak
  /-- When everything has come back, nothing is counted and every block is free. -/
  returned : (∀ worker ∈ crew.workers, worker.phase = .idle ∧ worker.held = []) →
    crew.pool.allocated = 0 ∧ free.Perm (List.range crew.pool.capacity)

theorem Sound.safe {seen : List Nat} {after : Crew} (h : Sound build after free highest)
    (hclimbs : Climbs crew 0 highest seen) (hzero : crew.pool.allocated = 0)
    (hcount : after.pool.slots.count = crew.pool.slots.count) : Safe build after free seen where
  chained := h.ledger.chained
  apart := h.ledger.nodup.sublist ((List.Sublist.refl free).append (heldBy_sublist after.workers))
  shared := h.ledger.shared
  flagged := h.ledger.flagged
  allocated_eq := h.ledger.allocated_eq
  seen_le := by
    intro count hmem
    rw [SharedPool.capacity, hcount]
    exact hclimbs.seen_le_count count hmem
  peak_le := by
    rw [SharedPool.capacity, hcount]
    have hle : after.pool.peak ≤ highest := h.peaked.le_highest _ List.mem_cons_self
    exact Nat.le_trans hle (hclimbs.seen_le_count highest (hclimbs.mem hzero))
  peak_eq := by
    intro htaking
    have hpeak := h.peaked.mem
    rw [pendingBy_eq_nil htaking, List.mem_singleton] at hpeak
    rw [← hpeak]
    exact List.max?_eq_some_iff.mpr ⟨hclimbs.mem hzero, hclimbs.seen_le⟩
  returned := by
    intro hidle
    have howned := ownedBy_eq_nil hidle
    refine ⟨h.ledger.allocated_eq.trans (countedBy_eq_zero howned), ?_⟩
    have hshared := h.ledger.shared
    rwa [howned, List.append_nil] at hshared

/-- **Safety of every interleaving.** Whatever the number of workers and the schedule, no step
faults, in particular no contract check fails, and what a crew is promised holds afterwards. -/
theorem run_safe {platform : Platform} {blockSize blockCount alignment : Nat}
    {strategy : SyncStrategy}
    (hnew : SharedPool.new build platform blockSize blockCount alignment strategy = .ok pool)
    (size : Nat) (schedule : List (Nat × Choice)) :
    ∃ after free seen, run build schedule (assemble pool size) = .ok () after ∧
      counts build schedule (assemble pool size) = .ok seen after ∧
      after.pool.capacity = blockCount ∧ Safe build after free seen := by
  obtain ⟨hledger, hblocks, hpeak⟩ := SharedPool.ledger_new hnew
  obtain ⟨after, seen, free, highest, hrun, hcounts, hafter, hcount, hclimbs⟩ :=
    (sound_assemble hledger hpeak size).run schedule
  exact ⟨after, free, seen, hrun, hcounts, hcount.trans hblocks,
    hafter.safe hclimbs hledger.allocated_eq hcount⟩

/-- Two workers take one of two blocks each, their steps alternating. One of them writes over the
whole of its block and gives it back. Meanwhile the other finds no block, and then takes that one.
-/
def alternating : List (Nat × Choice) :=
  [(0, .take), (1, .take), (1, .take), (0, .take), (0, .take), (1, .take), (0, .take), (1, .take),
    (1, .take), (0, .fill 0 0 (List.replicate 16 255)), (0, .give 0), (0, .take), (1, .take),
    (0, .take), (1, .take), (1, .take), (1, .take), (1, .take)]

theorem run_safe_alternating :
    ∃ pool, SharedPool.new .checked ⟨fun _ _ ↦ true, fun _ ↦ 4096, fun _ ↦ 9⟩ 10 2 16 .lockFree =
        .ok pool ∧
      ∃ after free seen, run .checked alternating (assemble pool 2) = .ok () after ∧
        counts .checked alternating (assemble pool 2) = .ok seen after ∧
        after.pool.capacity = 2 ∧ Safe .checked after free seen := by
  have hlayout : SlotArray.layout 10 2 16 = .ok (16, { size := 32, alignment := 16 }) := rfl
  obtain ⟨slots, hslots, -⟩ : ∃ slots, SlotArray.new .checked
      ⟨fun _ _ ↦ true, fun _ ↦ 4096, fun _ ↦ 9⟩ 10 2 16 = .ok slots ∧ slots.stride = 16 :=
    SlotArray.exists_new .checked hlayout ⟨by decide, ⟨4, rfl⟩, by decide, by decide⟩ rfl
  have hnew : SharedPool.new .checked ⟨fun _ _ ↦ true, fun _ ↦ 4096, fun _ ↦ 9⟩ 10 2 16 .lockFree =
      .ok { slots, strategy := .lockFree, head := 0, allocated := 0, peak := 0 } := by
    rw [SharedPool.new, hslots]
    rfl
  exact ⟨_, hnew, run_safe hnew 2 alternating⟩

end Suballoc.Crew
