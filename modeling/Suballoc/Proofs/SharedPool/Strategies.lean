import Suballoc.Proofs.SharedPool.Sequential

/-!
# Strategies

The strategy of a shared pool can be seen in one place: a packed head has 32 bits for an index. As
long as a head is given the index of a slot or the end of a chain, it holds what it was given, and a
pool does the same with either strategy.

Here the callers are rough. They give back whatever address they like, and go on after a fault. Two
invariants say that no head is given anything else nevertheless, one for each build. A checked build
refuses what is not held before anything has changed, so the free slots stay on one chain. An
unchecked build takes what it is given: a slot may be pushed twice, the chain may run in a circle
and the count go round. But a link leads to a slot or ends the chain, unless someone writes over it.
-/

namespace Suballoc

namespace SharedPool

/-- Something a rough caller does to a shared pool. -/
inductive Errand where
  | take
  /-- Give back an address, whatever is there. -/
  | give (address : Nat)
  /-- Write to a slot that is recorded as held, from an offset inside it on. -/
  | fill (index offset : Nat) (values : List UInt8)
deriving DecidableEq, Repr

/-- Do it. The answer is the address that was taken, if any. -/
def perform (build : Build) : Errand → Call SharedPool (Option Nat)
  | .take => allocate build
  | .give address => do
    release build address
    return none
  | .fill index offset values => do
    modify fun pool ↦
      if pool.slots.isLive index ∧ offset + values.length ≤ pool.blockSize then
        pool.write index offset values
      else pool
    return none

/-- Whether an errand writes nothing and gives back addresses of a region at most. -/
def Errand.StaysIn (region : Region) : Errand → Prop
  | .take => True
  | .give address => address = 0 ∨ region.contains address
  | .fill _ _ _ => False

instance (region : Region) : DecidablePred (Errand.StaysIn region)
  | .take => .isTrue trivial
  | .give address => inferInstanceAs (Decidable (address = 0 ∨ region.contains address))
  | .fill _ _ _ => .isFalse id

section Performing

open Call (settled)

variable {build : Build} {pool after : SharedPool} {address index offset : Nat}
  {values : List UInt8}

theorem settled_take {answer : Option Nat} (h : allocate build pool = .ok answer after) :
    settled (perform build .take pool) = (.ok answer, after) := by
  rw [perform, h, settled]

theorem settled_give (h : release build address pool = .ok () after) :
    settled (perform build (.give address) pool) = (.ok none, after) := by
  rw [perform, Call.run_bind_of_ok h, Call.run_pure, settled]

theorem settled_give_of_error {fault : Fault}
    (h : release build address pool = .error fault after) :
    settled (perform build (.give address) pool) = (.error fault, after) := by
  rw [perform, Call.run_bind, h]
  rfl

theorem settled_fill :
    settled (perform build (.fill index offset values) pool) =
      (.ok none,
        if pool.slots.isLive index ∧ offset + values.length ≤ pool.blockSize then
          pool.write index offset values
        else pool) := rfl

theorem release_null : release build 0 pool = .ok () pool := by
  rw [release, if_pos rfl, Call.run_pure]

end Performing

end SharedPool

namespace Pool

open SharedPool
open Call (settled transcript)

variable {pool : Pool} {home : Region} {index : Nat}

/-- A pool and a peak, as a shared pool with a strategy. -/
def seen (strategy : SyncStrategy) (state : Pool × Nat) : SharedPool :=
  state.1.shared strategy state.2

/-- Both strategies end an errand alike and leave a pool that is as it should be. -/
def Alike (build : Build) (Kept : Pool → Prop) (errand : SharedPool.Errand) (state : Pool × Nat) :
    Prop :=
  ∃ answer after, Kept after.1 ∧ ∀ strategy,
    settled (perform build errand (seen strategy state)) = (answer, seen strategy after)

/-! ## Checked builds -/

/-- A pool that a shared pool of a checked build can be in. -/
def Ordered (pool : Pool) : Prop :=
  pool.capacity < packedIndexLimit ∧ ∃ free, pool.Represents .checked free

theorem Ordered.take (peak : Nat) (h : pool.Ordered) :
    Alike .checked Ordered .take (pool, peak) := by
  obtain ⟨hcapacity, free, hrepresents⟩ := h
  cases free with
  | nil =>
    exact ⟨.ok none, (pool, peak), ⟨hcapacity, [], hrepresents⟩, fun strategy ↦
      settled_take (SharedPool.allocate_nil strategy peak hrepresents)⟩
  | cons index free =>
    exact ⟨.ok (some (pool.slotAddress index)),
      (pool.popped index, max peak (pool.allocated + 1)),
      ⟨by rwa [capacity_popped], free, hrepresents.popped⟩, fun strategy ↦
      settled_take (SharedPool.allocate_cons strategy peak hrepresents hcapacity)⟩

theorem release_foreign {build : Build} (strategy : SyncStrategy) (peak : Nat) {address : Nat}
    {fault : Fault} (hnull : address ≠ 0)
    (hslot : pool.slots.indexOf build address = .error fault) :
    SharedPool.release build address (pool.shared strategy peak) =
      .error fault (pool.shared strategy peak) := by
  simp only [SharedPool.release, if_neg hnull, Call.run_bind, Call.run_get, Pool.shared, hslot,
    Call.run_lift_error]

theorem release_free (strategy : SyncStrategy) (peak : Nat) {address : Nat}
    (hnull : address ≠ 0) (hslot : pool.slots.indexOf .checked address = .ok index)
    (hlive : pool.slots.isLive index = false) :
    SharedPool.release .checked address (pool.shared strategy peak) =
      .error (.violation (.slotReleasedTwice index)) (pool.shared strategy peak) := by
  simp only [SharedPool.release, if_neg hnull, SharedPool.markFree, Call.run_bind, Call.run_get,
    Pool.shared, hslot, Call.run_lift_ok, Call.run_modify, hlive, Build.require_checked,
    Bool.false_eq_true, if_false, Call.run_lift_error, SlotArray.setLive_eq_self hlive]

/-- Giving back leaves the free slots on one chain, whatever is given back. -/
theorem Ordered.give (peak address : Nat) (h : pool.Ordered) :
    Alike .checked Ordered (.give address) (pool, peak) := by
  by_cases hnull : address = 0
  · subst hnull
    exact ⟨.ok none, (pool, peak), h, fun strategy ↦ settled_give SharedPool.release_null⟩
  · cases hslot : pool.slots.indexOf .checked address with
    | error fault =>
      exact ⟨.error fault, (pool, peak), h, fun strategy ↦
        settled_give_of_error (release_foreign strategy peak hnull hslot)⟩
    | ok index =>
      obtain ⟨hcapacity, free, hrepresents⟩ := h
      cases hlive : pool.slots.isLive index with
      | false =>
        exact ⟨.error (.violation (.slotReleasedTwice index)), (pool, peak),
          ⟨hcapacity, free, hrepresents⟩, fun strategy ↦
          settled_give_of_error (release_free strategy peak hnull hslot hlive)⟩
      | true =>
        obtain ⟨hindex, hfree⟩ := hrepresents.flagged.held_of_isLive hlive
        exact ⟨.ok none, (pool.pushed index, peak),
          ⟨by rwa [capacity_pushed], index :: free, hrepresents.pushed hindex hfree⟩, fun strategy ↦
          settled_give (SharedPool.release_of_indexOf strategy peak hrepresents hcapacity hnull
            hslot hindex hfree)⟩

theorem Ordered.fill (peak index offset : Nat) (values : List UInt8) (h : pool.Ordered) :
    Alike .checked Ordered (.fill index offset values) (pool, peak) := by
  by_cases hmay : pool.slots.isLive index ∧ offset + values.length ≤ pool.blockSize
  · obtain ⟨hcapacity, free, hrepresents⟩ := h
    obtain ⟨-, hfree⟩ := hrepresents.flagged.held_of_isLive hmay.1
    refine ⟨.ok none, (pool.write index offset values, peak),
      ⟨by rwa [capacity_write], free, hrepresents.write hfree hmay.2⟩, fun strategy ↦ ?_⟩
    rw [settled_fill]
    exact congrArg _ (if_pos hmay)
  · refine ⟨.ok none, (pool, peak), h, fun strategy ↦ ?_⟩
    rw [settled_fill]
    exact congrArg _ (if_neg hmay)

/-- **Checked runs.** Whatever is given back, both strategies end every errand alike. -/
theorem Ordered.exists_transcript (peak : Nat) (h : pool.Ordered)
    (errands : List SharedPool.Errand) :
    ∃ entries : List (Except Fault (Option Nat) × Pool × Nat), ∀ strategy,
      transcript (perform .checked) errands (pool.shared strategy peak) =
        entries.map (Prod.map id (seen strategy)) := by
  have hstep : ∀ errand (state : Pool × Nat), True → Ordered state.1 →
      Alike .checked Ordered errand state := by
    intro errand state _ hstate
    cases errand with
    | take => exact hstate.take state.2
    | give address => exact hstate.give state.2 address
    | fill index offset values => exact hstate.fill state.2 index offset values
  exact Call.exists_transcript seen (fun _ ↦ True) (fun state ↦ Ordered state.1) hstep errands
    (fun _ _ ↦ trivial) (pool, peak) h

/-! ## Unchecked builds -/

/-- What a link of an unchecked pool may be: it leads to a slot, or ends the chain. -/
def Links (pool : Pool) (next : Nat) : Prop := next = chainEnd ∨ next < pool.capacity

/-- A pool that a shared pool of an unchecked build can be in, when its region is where `home`
is. -/
structure Tame (home : Region) (pool : Pool) : Prop where
  contains_eq : pool.slots.region.contains = home.contains
  laid : pool.slots.Laid
  stop_lt : pool.slots.region.stop < Word.limit
  /-- A packed head can name every slot. -/
  capacity_lt : pool.capacity < packedIndexLimit
  links_head : pool.Links pool.head
  links_slot : ∀ index < pool.capacity,
    pool.Links (pool.slots.region.word (index * pool.slots.stride))

theorem Links.stored_eq {next : Nat} (h : pool.Links next)
    (hcapacity : pool.capacity < packedIndexLimit) (strategy : SyncStrategy) :
    strategy.stored next = next := by
  rcases h with rfl | hlt
  · exact strategy.stored_chainEnd
  · exact strategy.stored_of_lt (Nat.lt_trans hlt hcapacity)

theorem Tame.recount (h : Tame home pool) (allocated : Nat) : Tame home { pool with allocated } :=
  ⟨h.contains_eq, h.laid, h.stop_lt, h.capacity_lt, h.links_head, h.links_slot⟩

/-- Popping follows a link. -/
theorem Tame.popped (h : Tame home pool) (hindex : index < pool.capacity) :
    Tame home (pool.popped index) where
  contains_eq := by
    rw [region_popped]
    exact h.contains_eq
  laid := h.laid.congr (stride_popped pool index) (capacity_popped pool index)
    (by rw [region_popped])
  stop_lt := by
    rw [region_popped]
    exact h.stop_lt
  capacity_lt := by
    rw [capacity_popped]
    exact h.capacity_lt
  links_head := by
    rw [Links, capacity_popped]
    exact h.links_slot index hindex
  links_slot := by
    intro other hother
    rw [capacity_popped] at hother
    rw [Links, region_popped, stride_popped, capacity_popped]
    exact h.links_slot other hother

/-- Pushing writes a link to what the head was, and leaves the other links. -/
theorem Tame.pushed (h : Tame home pool) (hindex : index < pool.capacity) :
    Tame home (pool.pushed index) where
  contains_eq := by
    rw [← h.contains_eq, region_pushed]
    funext address
    rw [Region.contains, Region.contains, Region.stop, Region.base_setWord, Region.size_setWord,
      ← Region.stop]
  laid := h.laid.congr (stride_pushed pool index) (capacity_pushed pool index)
    (by rw [region_pushed, Region.size_setWord])
  stop_lt := by
    rw [region_pushed, Region.stop, Region.base_setWord, Region.size_setWord]
    exact h.stop_lt
  capacity_lt := by
    rw [capacity_pushed]
    exact h.capacity_lt
  links_head := by
    rw [Links, capacity_pushed]
    exact Or.inr hindex
  links_slot := by
    intro other hother
    rw [capacity_pushed] at hother
    have hslot := h.laid.slot_le hindex
    have hwidth := h.laid.width_le
    rw [Links, region_pushed, stride_pushed, capacity_pushed]
    -- the slot itself may link to where it was linked from: that is how a circle begins
    by_cases heq : other = index
    · subst heq
      have hhead : pool.head < Word.limit := by
        rcases h.links_head with hend | hlt
        · rw [hend]
          decide
        · exact Nat.lt_trans hlt h.laid.count_lt
      rw [Region.word_setWord (by omega) hhead]
      exact h.links_head
    · have hside := SlotArray.stop_le_or_stop_le pool.slots.stride heq
      rw [Region.word_setWord_of_disjoint (by omega)]
      exact h.links_slot other hother

/-- Taking follows the link of the first slot, whether or not that slot is held. -/
theorem Tame.allocate_run (strategy : SyncStrategy) (peak : Nat) (h : Tame home pool)
    (hhead : pool.head < pool.capacity) :
    SharedPool.allocate .unchecked (pool.shared strategy peak) =
      .ok (some (pool.slotAddress pool.head))
        (seen strategy ({ pool.popped pool.head with allocated := Word.add pool.allocated 1 },
          max peak (Word.add pool.allocated 1))) := by
  have hend : pool.head ≠ chainEnd := Nat.ne_of_lt (h.laid.lt_chainEnd hhead)
  have hstored : strategy.stored (pool.slots.region.word (pool.head * pool.slots.stride)) =
      pool.slots.region.word (pool.head * pool.slots.stride) :=
    (h.links_slot pool.head hhead).stored_eq h.capacity_lt strategy
  have haddress : (pool.slots.setLive pool.head true).address .unchecked pool.head =
      .ok (pool.slotAddress pool.head) := h.laid.address_eq .unchecked h.stop_lt hhead
  simp only [SharedPool.allocate, SharedPool.pop, SharedPool.countUp, SharedPool.raisePeak,
    SharedPool.markLive, Call.run_bind, Call.run_get, Pool.shared, if_neg hend,
    h.laid.link_eq .unchecked hhead, Call.run_lift_ok, Call.run_modify, hstored,
    Build.add_unchecked, Build.require_unchecked, haddress, Call.run_pure]
  rfl

theorem Tame.take (peak : Nat) (h : Tame home pool) :
    Alike .unchecked (Tame home) .take (pool, peak) := by
  rcases h.links_head with hend | hhead
  · refine ⟨.ok none, (pool, peak), h, fun strategy ↦ settled_take ?_⟩
    simp only [SharedPool.allocate, SharedPool.pop, Call.run_bind, Call.run_get, seen, Pool.shared,
      if_pos hend, Call.run_pure]
  · exact ⟨.ok (some (pool.slotAddress pool.head)),
      ({ pool.popped pool.head with allocated := Word.add pool.allocated 1 },
        max peak (Word.add pool.allocated 1)),
      (h.popped hhead).recount _, fun strategy ↦ settled_take (h.allocate_run strategy peak hhead)⟩

/-- Giving back pushes the slot around an address, whether or not that slot is held. -/
theorem Tame.release_run {address : Nat} (h : Tame home pool) (hnull : address ≠ 0)
    (hinside : home.contains address) :
    ∃ index < pool.capacity, ∀ strategy peak,
      SharedPool.release .unchecked address (pool.shared strategy peak) =
        .ok () (seen strategy ({ pool.pushed index with allocated := Word.sub pool.allocated 1 },
          peak)) := by
  rw [← h.contains_eq, Region.contains, Bool.and_eq_true, decide_eq_true_iff, decide_eq_true_iff,
    Region.stop] at hinside
  obtain ⟨hbase, hstop⟩ := hinside
  have hlimit := h.stop_lt
  rw [Region.stop] at hlimit
  obtain ⟨index, hfound⟩ :
      ∃ index, index = (address - pool.slots.region.base) / pool.slots.stride := ⟨_, rfl⟩
  have hindex : index < pool.capacity := hfound ▸ h.laid.div_lt (by omega)
  have hslot : pool.slots.indexOf .unchecked address = .ok index := by
    rw [hfound, SlotArray.indexOf, Word.sub_of_le hbase (by omega)]
    rfl
  have hoffset : (pool.slots.setLive index false).linkOffset .unchecked index =
      .ok (index * pool.slots.stride) := h.laid.linkOffset_eq .unchecked hindex
  refine ⟨index, hindex, fun strategy peak ↦ ?_⟩
  have hstored : strategy.stored index = index :=
    strategy.stored_of_lt (Nat.lt_trans hindex h.capacity_lt)
  simp only [SharedPool.release, if_neg hnull, SharedPool.markFree, SharedPool.countDown,
    SharedPool.push, Call.run_bind, Call.run_get, Pool.shared, hslot, Call.run_lift_ok,
    Call.run_modify, Build.require_unchecked, hoffset, hstored]
  rfl

theorem Tame.give (peak : Nat) {address : Nat} (h : Tame home pool)
    (hinside : address = 0 ∨ home.contains address) :
    Alike .unchecked (Tame home) (.give address) (pool, peak) := by
  by_cases hnull : address = 0
  · subst hnull
    exact ⟨.ok none, (pool, peak), h, fun strategy ↦ settled_give SharedPool.release_null⟩
  · obtain ⟨index, hindex, hrelease⟩ := h.release_run hnull (hinside.resolve_left hnull)
    exact ⟨.ok none, ({ pool.pushed index with allocated := Word.sub pool.allocated 1 }, peak),
      (h.pushed hindex).recount _, fun strategy ↦ settled_give (hrelease strategy peak)⟩

/-- **Unchecked runs.** Whatever of the region is given back, both strategies end every errand
alike. -/
theorem Tame.exists_transcript (peak : Nat) (h : Tame home pool) (errands : List SharedPool.Errand)
    (hstays : ∀ errand ∈ errands, errand.StaysIn home) :
    ∃ entries : List (Except Fault (Option Nat) × Pool × Nat), ∀ strategy,
      transcript (perform .unchecked) errands (pool.shared strategy peak) =
        entries.map (Prod.map id (seen strategy)) := by
  have hstep : ∀ errand (state : Pool × Nat), errand.StaysIn home → Tame home state.1 →
      Alike .unchecked (Tame home) errand state := by
    intro errand state hstays hstate
    cases errand with
    | take => exact hstate.take state.2
    | give address => exact hstate.give state.2 hstays
    | fill index offset values => exact hstays.elim
  exact Call.exists_transcript seen (SharedPool.Errand.StaysIn home)
    (fun state ↦ Tame home state.1) hstep errands hstays (pool, peak) h

theorem Represents.tame {build : Build} {free : List Nat} (h : pool.Represents build free)
    (hall : ∀ index < pool.capacity, index ∈ free) (hcapacity : pool.capacity < packedIndexLimit) :
    Tame pool.slots.region pool where
  contains_eq := rfl
  laid := h.laid
  stop_lt := h.stop_lt
  capacity_lt := hcapacity
  links_head := h.chained.first_mem.imp_right (h.lt_capacity _)
  links_slot := fun index hindex ↦
    (h.chained.link_mem (hall index hindex)).imp_right (h.lt_capacity _)

end Pool

end Suballoc
