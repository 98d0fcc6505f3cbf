import Mathlib.Algebra.GroupWithZero.Nat
import Suballoc.Proofs.SharedPool
import Suballoc.SharedPool.Crew

/-!
# Every interleaving of a crew is safe

A worker owns the blocks it holds and the one that is on its way. The blocks that are owned by all
workers and those on the chain are all blocks, so no block is ever in two hands; and each worker
knows how many of its blocks are counted, so the count is a sum over workers at every moment.

The peak is behind the count while a worker has counted a block and not yet raised the peak to what
it saw. So the invariant speaks of the highest count there has been: it is the peak, or a worker is
about to raise the peak to it.

A step of a crew is a step of one worker among others, and no order of the workers matters. The step
lemmas are therefore about a crew whose first worker makes the step.
-/

namespace Suballoc

namespace Phase

/-- The block that is on its way. -/
def carried : Phase → List Nat
  | idle => []
  | counting index | raising index _ | marking index | uncounting index | pushing index => [index]

/-- How many blocks on their way are counted. -/
def counted : Phase → Nat
  | raising _ _ | marking _ | uncounting _ => 1
  | idle | counting _ | pushing _ => 0

/-- What the peak is about to be raised to. -/
def pending : Phase → List Nat
  | raising _ live => [live]
  | idle | counting _ | marking _ | uncounting _ | pushing _ => []

/-- Whether a worker is in the middle of taking a block. -/
def Taking : Phase → Prop
  | counting _ | raising _ _ | marking _ => True
  | idle | uncounting _ | pushing _ => False

theorem pending_of_not_taking {phase : Phase} (h : ¬ phase.Taking) : phase.pending = [] := by
  cases phase with
  | raising index live => exact absurd trivial h
  | idle | counting index | marking index | uncounting index | pushing index => rfl

end Phase

namespace Worker

/-- The blocks that nobody else may touch. -/
def owned (worker : Worker) : List Nat := worker.phase.carried ++ worker.held

/-- How many of its blocks are counted. -/
def counted (worker : Worker) : Nat := worker.phase.counted + worker.held.length

theorem counted_le (worker : Worker) : worker.counted ≤ worker.owned.length := by
  rw [counted, owned, List.length_append]
  cases worker.phase <;> simp [Phase.counted, Phase.carried]

end Worker

namespace Crew

/-- The blocks that workers own. -/
def ownedBy (workers : List Worker) : List Nat := workers.flatMap Worker.owned

/-- The blocks that workers hold. -/
def heldBy (workers : List Worker) : List Nat := workers.flatMap Worker.held

/-- How many blocks of workers are counted. -/
def countedBy (workers : List Worker) : Nat := (workers.map Worker.counted).sum

/-- What workers are about to raise the peak to. -/
def pendingBy (workers : List Worker) : List Nat :=
  workers.flatMap fun worker ↦ worker.phase.pending

variable {build : Build} {crew : Crew} {pool after : SharedPool} {worker next : Worker}
  {rest : List Worker} {free : List Nat} {highest : Nat}

theorem ownedBy_cons : ownedBy (worker :: rest) = worker.owned ++ ownedBy rest :=
  List.flatMap_cons

theorem heldBy_cons : heldBy (worker :: rest) = worker.held ++ heldBy rest := List.flatMap_cons

theorem countedBy_cons : countedBy (worker :: rest) = worker.counted + countedBy rest := by
  rw [countedBy, List.map_cons, List.sum_cons, countedBy]

theorem pendingBy_cons : pendingBy (worker :: rest) = worker.phase.pending ++ pendingBy rest :=
  List.flatMap_cons

theorem heldBy_sublist (workers : List Worker) : (heldBy workers).Sublist (ownedBy workers) := by
  induction workers with
  | nil => exact List.Sublist.refl []
  | cons worker rest ih =>
    rw [heldBy_cons, ownedBy_cons, Worker.owned]
    exact (List.sublist_append_right _ _).append ih

theorem countedBy_le (workers : List Worker) : countedBy workers ≤ (ownedBy workers).length := by
  induction workers with
  | nil => exact Nat.le_refl _
  | cons worker rest ih =>
    have hworker := worker.counted_le
    rw [countedBy_cons, ownedBy_cons, List.length_append]
    omega

/-- A worker that carries a block it did not count leaves room for one more in the count. -/
theorem counted_add_lt {phase carrying : Phase} {index : Nat} (hcounted : phase.counted = 0)
    (hcarried : carrying.carried = [index]) (held : List Nat) (rest : List Worker) :
    Worker.counted ⟨phase, held⟩ + countedBy rest <
      (Worker.owned ⟨carrying, held⟩ ++ ownedBy rest).length := by
  have hle := countedBy_le rest
  simp only [Worker.counted, Worker.owned, hcounted, hcarried, List.length_append,
    List.length_singleton]
  omega

/-! ## The invariant -/

/-- The highest count there has been is the largest of what the peak is and what it is about to be
raised to. -/
structure Peaked (crew : Crew) (highest : Nat) : Prop where
  allocated_le : crew.pool.allocated ≤ highest
  le_highest : ∀ count ∈ crew.pool.peak :: pendingBy crew.workers, count ≤ highest
  mem : highest ∈ crew.pool.peak :: pendingBy crew.workers

/-- The books of the pool are those of its workers, and the peak follows the count. -/
structure Sound (build : Build) (crew : Crew) (free : List Nat) (highest : Nat) : Prop where
  ledger : crew.pool.Ledger build free (ownedBy crew.workers) (heldBy crew.workers)
    (countedBy crew.workers)
  peaked : crew.Peaked highest

namespace Peaked

/-- A step that lowers the count or keeps it is none that the peak sees. -/
theorem keep (h : Peaked ⟨pool, worker :: rest⟩ highest) (hpeak : after.peak = pool.peak)
    (hle : after.allocated ≤ pool.allocated)
    (hpending : next.phase.pending = worker.phase.pending) :
    Peaked ⟨after, next :: rest⟩ highest := by
  obtain ⟨hallocated, hhighest, hmem⟩ := h
  rw [pendingBy_cons, ← hpending, ← pendingBy_cons] at hhighest hmem
  exact ⟨Nat.le_trans hle hallocated, hpeak ▸ hhighest, hpeak ▸ hmem⟩

/-- A worker that counted a block is about to raise the peak to what it saw. -/
theorem count (h : Peaked ⟨pool, worker :: rest⟩ highest) (hpeak : after.peak = pool.peak)
    (hworker : worker.phase.pending = []) (hnext : next.phase.pending = [after.allocated]) :
    Peaked ⟨after, next :: rest⟩ (max highest after.allocated) := by
  obtain ⟨-, hhighest, hmem⟩ := h
  rw [pendingBy_cons, hworker, List.nil_append, ← hpeak] at hhighest hmem
  refine ⟨Nat.le_max_right _ _, ?_, ?_⟩
  · intro count hcount
    rw [pendingBy_cons, hnext, List.singleton_append, List.mem_cons, List.mem_cons] at hcount
    rcases hcount with rfl | rfl | hcount
    · exact Nat.le_trans (hhighest _ List.mem_cons_self) (Nat.le_max_left _ _)
    · exact Nat.le_max_right _ _
    · have hle := hhighest count (List.mem_cons_of_mem _ hcount)
      exact Nat.le_trans hle (Nat.le_max_left _ _)
  · rw [pendingBy_cons, hnext, List.singleton_append, List.mem_cons, List.mem_cons]
    -- the largest is what was just counted, or it was there before
    rcases Nat.le_total highest after.allocated with hle | hle
    · exact Or.inr (Or.inl (Nat.max_eq_right hle))
    · rw [Nat.max_eq_left hle]
      exact (List.mem_cons.mp hmem).imp_right Or.inr

/-- A worker that raised the peak owes it nothing any more. -/
theorem raise {live : Nat} (h : Peaked ⟨pool, worker :: rest⟩ highest)
    (hworker : worker.phase.pending = [live]) (hnext : next.phase.pending = []) :
    Peaked ⟨{ pool with peak := max pool.peak live }, next :: rest⟩ highest := by
  obtain ⟨hallocated, hhighest, hmem⟩ := h
  rw [pendingBy_cons, hworker, List.singleton_append] at hhighest hmem
  have hpeak : pool.peak ≤ highest := hhighest _ List.mem_cons_self
  have hlive : live ≤ highest := hhighest _ (List.mem_cons_of_mem _ List.mem_cons_self)
  refine ⟨hallocated, ?_, ?_⟩
  · intro count hcount
    rw [pendingBy_cons, hnext, List.nil_append, List.mem_cons] at hcount
    rcases hcount with rfl | hcount
    · exact Nat.max_le.mpr ⟨hpeak, hlive⟩
    · exact hhighest count (List.mem_cons_of_mem _ (List.mem_cons_of_mem _ hcount))
  · rw [pendingBy_cons, hnext, List.nil_append, List.mem_cons]
    rw [List.mem_cons, List.mem_cons] at hmem
    -- the largest was the peak, or what this worker saw, or it is still to come
    rcases hmem with rfl | rfl | hmem
    · exact Or.inl (Nat.max_eq_left hlive).symm
    · exact Or.inl (Nat.max_eq_right hpeak).symm
    · exact Or.inr hmem

end Peaked

namespace Sound

theorem perm {workers workers' : List Worker} (h : Sound build ⟨pool, workers⟩ free highest)
    (hperm : workers.Perm workers') : Sound build ⟨pool, workers'⟩ free highest where
  ledger := by
    have hcounted : countedBy workers' = countedBy workers :=
      (hperm.map Worker.counted).sum_nat.symm
    rw [hcounted]
    exact h.ledger.perm (hperm.flatMap_right _) (hperm.flatMap_right _)
  peaked := by
    have hpending : (pool.peak :: pendingBy workers).Perm (pool.peak :: pendingBy workers') :=
      (hperm.flatMap_right _).cons _
    refine ⟨h.peaked.allocated_le, ?_, hpending.mem_iff.mp h.peaked.mem⟩
    intro count hcount
    exact h.peaked.le_highest count (hpending.mem_iff.mpr hcount)

theorem allocated_le (h : Sound build crew free highest) :
    crew.pool.allocated ≤ crew.pool.slots.count := by
  have hcount := h.ledger.allocated_eq
  have hlength := h.ledger.length_le
  have hle := countedBy_le crew.workers
  omega

theorem ledger_cons (h : Sound build ⟨pool, worker :: rest⟩ free highest) :
    pool.Ledger build free (worker.owned ++ ownedBy rest) (worker.held ++ heldBy rest)
      (worker.counted + countedBy rest) := by
  rw [← ownedBy_cons, ← heldBy_cons, ← countedBy_cons]
  exact h.ledger

/-- A block on its way is nobody's to hold. -/
theorem not_mem_held {index : Nat} {owned held : List Nat}
    (h : pool.Ledger build free (index :: (held ++ ownedBy rest)) owned highest) :
    index ∉ held ++ heldBy rest := by
  intro hindex
  have hnew := (List.nodup_cons.mp (List.nodup_append.mp h.nodup).2.1).1
  refine hnew (List.mem_append.mpr ?_)
  exact (List.mem_append.mp hindex).imp_right ((heldBy_sublist rest).subset ·)

/-! ## One step of the first worker -/

/-- What a step of the first worker must show: it does not fault, and the books are right again. -/
def Advances (build : Build) (pool : SharedPool) (worker : Worker) (rest : List Worker)
    (highest : Nat) (choice : Choice) : Prop :=
  ∃ next after free, worker.advance build choice pool = .ok next after ∧
    Sound build ⟨after, next :: rest⟩ free (max highest after.allocated) ∧
    after.slots.count = pool.slots.count

theorem advances_of_keep {choice : Choice} {after : SharedPool} {freeAfter : List Nat}
    (next : Worker) (h : Sound build ⟨pool, worker :: rest⟩ free highest)
    (hrun : worker.advance build choice pool = .ok next after)
    (hledger : after.Ledger build freeAfter (next.owned ++ ownedBy rest)
      (next.held ++ heldBy rest) (next.counted + countedBy rest))
    (hcount : after.slots.count = pool.slots.count) (hpeak : after.peak = pool.peak)
    (hle : next.counted ≤ worker.counted)
    (hpending : next.phase.pending = worker.phase.pending) :
    Advances build pool worker rest highest choice := by
  have hbefore := h.ledger_cons.allocated_eq
  have hafter := hledger.allocated_eq
  have hlower : after.allocated ≤ pool.allocated := by omega
  rw [← ownedBy_cons, ← heldBy_cons, ← countedBy_cons] at hledger
  refine ⟨next, after, freeAfter, hrun, ⟨hledger, ?_⟩, hcount⟩
  rw [Nat.max_eq_left (Nat.le_trans hlower h.peaked.allocated_le)]
  exact h.peaked.keep hpeak hlower hpending

variable {held : List Nat} {index live : Nat} {choice : Choice}

theorem advances_of_stay (h : Sound build ⟨pool, ⟨.idle, held⟩ :: rest⟩ free highest)
    (hrun : Worker.advance build choice ⟨.idle, held⟩ pool = .ok ⟨.idle, held⟩ pool) :
    Advances build pool ⟨.idle, held⟩ rest highest choice :=
  h.advances_of_keep _ hrun h.ledger_cons rfl rfl (Nat.le_refl _) rfl

theorem advance_take (h : Sound build ⟨pool, ⟨.idle, held⟩ :: rest⟩ free highest) :
    Advances build pool ⟨.idle, held⟩ rest highest .take := by
  cases free with
  | nil =>
    refine advances_of_stay h ?_
    rw [Worker.advance]
    simp only [Call.run_bind, h.ledger.pop_nil, Call.run_pure]
  | cons index free =>
    obtain ⟨after, hpop, hledger, hcount, hpeak⟩ := h.ledger_cons.pop_cons
    refine h.advances_of_keep ⟨.counting index, held⟩ ?_ hledger hcount hpeak (Nat.le_refl _) rfl
    rw [Worker.advance]
    simp only [Call.run_bind, hpop, Call.run_pure]

theorem advance_give (h : Sound build ⟨pool, ⟨.idle, held⟩ :: rest⟩ free highest) :
    Advances build pool ⟨.idle, held⟩ rest highest (.give index) := by
  by_cases hindex : index ∈ held
  · have hperm : held.Perm (index :: held.erase index) := List.perm_cons_erase hindex
    have hlength := hperm.length_eq
    have hledger := h.ledger_cons.perm (hperm.append_right (ownedBy rest))
      (hperm.append_right (heldBy rest))
    obtain ⟨after, hmark, hafter, hcount, hpeak⟩ :=
      hledger.markFree_run List.mem_cons_self (not_mem_held hledger)
    have hsame : Worker.counted ⟨.idle, held⟩ = Worker.counted ⟨.uncounting index,
        held.erase index⟩ := by
      rw [List.length_cons] at hlength
      simp only [Worker.counted, Phase.counted]
      omega
    rw [hsame] at hafter
    refine h.advances_of_keep ⟨.uncounting index, held.erase index⟩ ?_ hafter hcount hpeak
      (Nat.le_of_eq hsame.symm) rfl
    rw [Worker.advance]
    simp only [if_pos hindex, Call.run_bind, hmark, Call.run_pure]
  · refine advances_of_stay h ?_
    rw [Worker.advance]
    simp only [if_neg hindex, Call.run_pure]

theorem advance_fill (offset : Nat) (values : List UInt8)
    (h : Sound build ⟨pool, ⟨.idle, held⟩ :: rest⟩ free highest) :
    Advances build pool ⟨.idle, held⟩ rest highest (.fill index offset values) := by
  by_cases hmay : index ∈ held ∧ offset + values.length ≤ pool.slots.stride
  · have hledger := h.ledger_cons.write (List.mem_append_left _ hmay.1) hmay.2
    refine h.advances_of_keep ⟨.idle, held⟩ ?_ hledger rfl rfl (Nat.le_refl _) rfl
    rw [Worker.advance]
    simp only [Call.run_bind, Call.run_get, if_pos hmay, Call.run_modify, Call.run_pure]
  · refine advances_of_stay h ?_
    rw [Worker.advance]
    simp only [Call.run_bind, Call.run_get, if_neg hmay, Call.run_pure]

theorem advance_counting (h : Sound build ⟨pool, ⟨.counting index, held⟩ :: rest⟩ free highest) :
    Advances build pool ⟨.counting index, held⟩ rest highest choice := by
  obtain ⟨after, hcountUp, hledger, hcount, hpeak⟩ :=
    h.ledger_cons.countUp_run (counted_add_lt rfl rfl held rest)
  have hlive := hledger.allocated_eq
  rw [← hlive] at hcountUp
  have hsame : Worker.counted ⟨.counting index, held⟩ + countedBy rest + 1 =
      countedBy (⟨.raising index after.allocated, held⟩ :: rest) := by
    simp only [countedBy_cons, Worker.counted, Phase.counted]
    omega
  refine ⟨⟨.raising index after.allocated, held⟩, after, free, ?_, ⟨?_, ?_⟩, hcount⟩
  · unfold Worker.advance
    simp only [Call.run_bind, hcountUp, Call.run_pure]
  · rw [← hsame, ownedBy_cons, heldBy_cons]
    exact hledger
  · exact h.peaked.count hpeak rfl rfl

theorem advance_raising (h : Sound build ⟨pool, ⟨.raising index live, held⟩ :: rest⟩ free highest) :
    Advances build pool ⟨.raising index live, held⟩ rest highest choice := by
  refine ⟨⟨.marking index, held⟩, { pool with peak := max pool.peak live }, free, ?_, ⟨?_, ?_⟩, rfl⟩
  · unfold Worker.advance
    simp only [SharedPool.raisePeak, Call.run_bind, Call.run_modify, Call.run_pure]
  · exact h.ledger.raisePeak live
  · rw [Nat.max_eq_left h.peaked.allocated_le]
    exact h.peaked.raise rfl rfl

theorem advance_marking (h : Sound build ⟨pool, ⟨.marking index, held⟩ :: rest⟩ free highest) :
    Advances build pool ⟨.marking index, held⟩ rest highest choice := by
  obtain ⟨after, hmark, hledger, hcount, hpeak⟩ :=
    h.ledger_cons.markLive_run List.mem_cons_self (not_mem_held h.ledger_cons)
  have hsame : Worker.counted ⟨.marking index, held⟩ = Worker.counted ⟨.idle, index :: held⟩ := by
    simp only [Worker.counted, Phase.counted, List.length_cons]
    omega
  rw [hsame] at hledger
  refine h.advances_of_keep ⟨.idle, index :: held⟩ ?_ hledger hcount hpeak
    (Nat.le_of_eq hsame.symm) rfl
  unfold Worker.advance
  simp only [Call.run_bind, hmark, Call.run_pure]

theorem advance_uncounting
    (h : Sound build ⟨pool, ⟨.uncounting index, held⟩ :: rest⟩ free highest) :
    Advances build pool ⟨.uncounting index, held⟩ rest highest choice := by
  have hsame : Worker.counted ⟨.uncounting index, held⟩ + countedBy rest =
      Worker.counted ⟨.pushing index, held⟩ + countedBy rest + 1 := by
    simp only [Worker.counted, Phase.counted]
    omega
  obtain ⟨after, hcountDown, hledger, hcount, hpeak⟩ :=
    (hsame ▸ h.ledger_cons).countDown_run (counted_add_lt rfl rfl held rest)
  refine h.advances_of_keep ⟨.pushing index, held⟩ ?_ hledger hcount hpeak (by omega) rfl
  unfold Worker.advance
  simp only [Call.run_bind, hcountDown, Call.run_pure]

theorem advance_pushing (h : Sound build ⟨pool, ⟨.pushing index, held⟩ :: rest⟩ free highest) :
    Advances build pool ⟨.pushing index, held⟩ rest highest choice := by
  obtain ⟨after, hpush, hledger, hcount, hpeak⟩ := h.ledger_cons.push_run
  refine h.advances_of_keep ⟨.idle, held⟩ ?_ hledger hcount hpeak (Nat.le_refl _) rfl
  unfold Worker.advance
  simp only [Call.run_bind, hpush, Call.run_pure]

/-- **One step of the first worker**, whatever it is in the middle of. -/
theorem advance (worker : Worker) (choice : Choice)
    (h : Sound build ⟨pool, worker :: rest⟩ free highest) :
    Advances build pool worker rest highest choice := by
  obtain ⟨phase, held⟩ := worker
  cases phase with
  | idle =>
    cases choice with
    | take => exact h.advance_take
    | give index => exact h.advance_give
    | fill index offset values => exact h.advance_fill offset values
  | counting index => exact h.advance_counting
  | raising index live => exact h.advance_raising
  | marking index => exact h.advance_marking
  | uncounting index => exact h.advance_uncounting
  | pushing index => exact h.advance_pushing

/-! ## Steps and runs of a crew -/

theorem exists_set_perm {workers : List Worker} {number : Nat}
    (h : workers[number]? = some worker) :
    ∃ rest, workers.Perm (worker :: rest) ∧
      ∀ next, (workers.set number next).Perm (next :: rest) := by
  obtain ⟨hlt, hworker⟩ := List.getElem?_eq_some_iff.mp h
  have hset : ∀ next, (workers.set number next).Perm
      (next :: (workers.take number ++ workers.drop (number + 1))) := by
    intro next
    rw [List.set_eq_take_append_cons_drop, if_pos hlt]
    exact List.perm_middle
  refine ⟨workers.take number ++ workers.drop (number + 1), ?_, hset⟩
  have hself := hset worker
  rwa [← hworker, List.set_getElem_self, hworker] at hself

/-- **One step.** No step of any worker faults, and the books are right again. -/
theorem step (number : Nat) (choice : Choice) (h : Sound build crew free highest) :
    ∃ after freeAfter, Crew.step build number choice crew = .ok () after ∧
      Sound build after freeAfter (max highest after.pool.allocated) ∧
      after.pool.slots.count = crew.pool.slots.count := by
  obtain ⟨pool, workers⟩ := crew
  cases hworker : workers[number]? with
  | none =>
    refine ⟨⟨pool, workers⟩, free, ?_, ?_, rfl⟩
    · rw [Crew.step]
      simp only [Call.run_bind, Call.run_get, hworker, Call.run_pure]
    · rw [Nat.max_eq_left h.peaked.allocated_le]
      exact h
  | some worker =>
    -- the worker that steps comes first, and so does what it becomes
    obtain ⟨rest, hperm, hset⟩ := exists_set_perm hworker
    obtain ⟨next, after, freeAfter, hrun, hafter, hcount⟩ := (h.perm hperm).advance worker choice
    refine ⟨⟨after, workers.set number next⟩, freeAfter, ?_, hafter.perm (hset next).symm, hcount⟩
    rw [Crew.step]
    simp only [Call.run_bind, Call.run_get, hworker, onPool, hrun, Call.run_modify]

end Sound

end Crew

end Suballoc
