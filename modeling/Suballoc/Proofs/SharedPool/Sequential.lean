import Suballoc.Proofs.Pool
import Suballoc.Proofs.SharedPool

/-!
# Shared pools in one thread

A shared pool that is called from one thread at a time is a pool. Its calls are longer, since every
step has to be one that others can see, but undisturbed they do what the calls of a pool do: they
leave the same links, the same flags and the same count. What is left over is the peak, which
follows the count upwards.
-/

namespace Suballoc

/-- A shared pool in the state of a pool. -/
def Pool.shared (pool : Pool) (strategy : SyncStrategy) (peak : Nat) : SharedPool where
  slots := pool.slots
  strategy
  head := pool.head
  allocated := pool.allocated
  peak

namespace SharedPool

variable {build : Build} {pool : Pool} {free : List Nat} {index : Nat}

theorem allocate_nil (strategy : SyncStrategy) (peak : Nat) (h : pool.Represents build []) :
    allocate build (pool.shared strategy peak) = .ok none (pool.shared strategy peak) := by
  have hhead : (pool.shared strategy peak).head = chainEnd := h.chained
  rw [allocate, pop]
  simp only [Call.run_bind, Call.run_get, if_pos hhead, Call.run_pure]

/-- **Taking.** Undisturbed, a shared pool pops its chain as a pool does, and raises its peak to the
new count. -/
theorem allocate_cons (strategy : SyncStrategy) (peak : Nat)
    (h : pool.Represents build (index :: free)) (hcapacity : pool.capacity < packedIndexLimit) :
    allocate build (pool.shared strategy peak) =
      .ok (some (pool.slotAddress index))
        ((pool.popped index).shared strategy (max peak (pool.allocated + 1))) := by
  obtain ⟨hhead, hrest⟩ := h.chained
  have hindex : index < pool.slots.count := h.lt_capacity index List.mem_cons_self
  have hcount := h.allocated_add
  have hlimit := h.laid.count_lt
  rw [List.length_cons, Pool.capacity] at hcount
  have hend : index ≠ chainEnd := Nat.ne_of_lt (h.laid.lt_chainEnd hindex)
  have hstored : strategy.stored (pool.slots.region.word (index * pool.slots.stride)) =
      pool.slots.region.word (index * pool.slots.stride) :=
    stored_first hrest fun next hnext ↦
      Nat.lt_trans (h.lt_capacity next (List.mem_cons_of_mem _ hnext)) hcapacity
  have hadd : build.add pool.allocated 1 = .ok (pool.allocated + 1) :=
    Build.add_of_lt build (by omega)
  have hword : Word.add pool.allocated 1 = pool.allocated + 1 := Word.add_of_lt (by omega)
  have hflag := h.flagged.require_not_isLive hindex (not_not_intro List.mem_cons_self)
    (.slotStillLive index)
  have haddress : (pool.slots.setLive index true).address build index =
      .ok (pool.slotAddress index) := h.laid.address_eq build h.stop_lt hindex
  simp only [allocate, pop, countUp, raisePeak, markLive, Call.run_bind, Call.run_get, Pool.shared,
    ← hhead, if_neg hend, h.laid.link_eq build hindex, Call.run_lift_ok, Call.run_modify, hstored,
    hadd, hword, hflag, haddress, Call.run_pure]
  rfl

/-- **Giving back.** Undisturbed, a shared pool pushes its chain as a pool does. -/
theorem release_of_indexOf (strategy : SyncStrategy) (peak : Nat) {address : Nat}
    (h : pool.Represents build free) (hcapacity : pool.capacity < packedIndexLimit)
    (hnull : address ≠ 0) (hslot : pool.slots.indexOf build address = .ok index)
    (hindex : index < pool.capacity) (hfree : index ∉ free) :
    release build address (pool.shared strategy peak) =
      .ok () ((pool.pushed index).shared strategy peak) := by
  have hpos := h.allocated_pos hindex hfree
  have hcount := h.allocated_add
  have hlimit : pool.capacity < Word.limit := h.laid.count_lt
  have hlive : decide (0 < pool.allocated) = true := decide_eq_true hpos
  have hflag := h.flagged.require_isLive hindex hfree (.slotReleasedTwice index)
  have hoffset : (pool.slots.setLive index false).linkOffset build index =
      .ok (index * pool.slots.stride) := h.laid.linkOffset_eq build hindex
  have hword : Word.sub pool.allocated 1 = pool.allocated - 1 :=
    Word.sub_of_le hpos (by omega)
  have hstored : strategy.stored index = index :=
    strategy.stored_of_lt (Nat.lt_trans hindex hcapacity)
  simp only [release, if_neg hnull, markFree, countDown, push, Call.run_bind, Call.run_get,
    Pool.shared, hslot, Call.run_lift_ok, Call.run_modify, hflag, hlive, Build.require_true,
    hoffset, hword, hstored]
  rfl

theorem release_run (strategy : SyncStrategy) (peak : Nat) (h : pool.Represents build free)
    (hcapacity : pool.capacity < packedIndexLimit) (hindex : index < pool.capacity)
    (hfree : index ∉ free) :
    release build (pool.slotAddress index) (pool.shared strategy peak) =
      .ok () ((pool.pushed index).shared strategy peak) :=
  release_of_indexOf strategy peak h hcapacity (h.slotAddress_ne_zero index)
    (h.indexOf_slotAddress hindex) hindex hfree

/-- **Construction.** A new shared pool is a new pool whose slots a packed head can name. -/
theorem new_eq_ok {platform : Platform} {blockSize blockCount alignment : Nat}
    {strategy : SyncStrategy} {shared : SharedPool}
    (hnew : new build platform blockSize blockCount alignment strategy = .ok shared) :
    blockCount < packedIndexLimit ∧
      ∃ pool, Pool.new build platform blockSize blockCount alignment = .ok pool ∧
        shared = pool.shared strategy 0 := by
  rw [new] at hnew
  by_cases hmany : packedIndexLimit ≤ blockCount
  · rw [if_pos hmany] at hnew
    cases hnew
  · rw [if_neg hmany] at hnew
    obtain ⟨slots, hslots, hnew⟩ := Call.bind_eq_ok.mp hnew
    obtain rfl := Except.ok.inj hnew
    refine ⟨Nat.not_le.mp hmany, { slots, head := 0, allocated := 0 }, ?_, rfl⟩
    rw [Pool.new, hslots]
    rfl

end SharedPool

end Suballoc
