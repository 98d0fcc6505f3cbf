import Suballoc.Pool
import Suballoc.Proofs.SlotArray

/-!
# Pools and lists of free slots

A pool represents a list of indices: its links lead through exactly these slots, its count is that
of the others, and so are the flags that a checked build keeps. Taking removes the first index,
giving back puts one in front, and holders may write whatever they like to slots that are not on
the list.

Every call is one lemma of that kind, in both builds. What callers hold is not mentioned here.
-/

namespace Suballoc.Pool

open SlotArray (Chained Flagged Laid)

/-- The address of a slot. -/
def slotAddress (pool : Pool) (index : Nat) : Nat :=
  pool.slots.region.base + index * pool.slots.stride

/-- Write to a slot, from an offset inside it on. -/
def write (pool : Pool) (index offset : Nat) (values : List UInt8) : Pool :=
  { pool with
    slots :=
      { pool.slots with
        region := pool.slots.region.write (index * pool.slots.stride + offset) values } }

/-- The pool after its first free slot was handed out. -/
def popped (pool : Pool) (index : Nat) : Pool where
  slots := pool.slots.setLive index true
  head := pool.slots.region.word (index * pool.slots.stride)
  allocated := pool.allocated + 1

/-- The pool after a slot came back. -/
def pushed (pool : Pool) (index : Nat) : Pool where
  slots := (pool.slots.setLive index false).setLink (index * pool.slots.stride) pool.head
  head := index
  allocated := pool.allocated - 1

section Updates

variable (pool : Pool) (index offset : Nat) (values : List UInt8)

theorem region_popped : (pool.popped index).slots.region = pool.slots.region := by
  rw [popped, SlotArray.region_setLive]

theorem stride_popped : (pool.popped index).slots.stride = pool.slots.stride := by
  rw [popped, SlotArray.stride_setLive]

theorem capacity_popped : (pool.popped index).capacity = pool.capacity := by
  rw [capacity, popped, SlotArray.count_setLive, capacity]

theorem region_pushed : (pool.pushed index).slots.region =
    pool.slots.region.setWord (index * pool.slots.stride) pool.head := by
  rw [pushed, SlotArray.region_setLink, SlotArray.region_setLive]

theorem stride_pushed : (pool.pushed index).slots.stride = pool.slots.stride := by
  rw [pushed, SlotArray.stride_setLink, SlotArray.stride_setLive]

theorem capacity_pushed : (pool.pushed index).capacity = pool.capacity := by
  rw [capacity, pushed, SlotArray.count_setLink, SlotArray.count_setLive, capacity]

theorem region_write : (pool.write index offset values).slots.region =
    pool.slots.region.write (index * pool.slots.stride + offset) values := by
  rw [write]

theorem stride_write : (pool.write index offset values).slots.stride = pool.slots.stride := by
  rw [write]

theorem capacity_write : (pool.write index offset values).capacity = pool.capacity := by
  rw [capacity, write, capacity]

theorem slotAddress_popped : (pool.popped index).slotAddress = pool.slotAddress := by
  funext other
  rw [slotAddress, region_popped, stride_popped, slotAddress]

theorem slotAddress_pushed : (pool.pushed index).slotAddress = pool.slotAddress := by
  funext other
  rw [slotAddress, region_pushed, Region.base_setWord, stride_pushed, slotAddress]

theorem slotAddress_write : (pool.write index offset values).slotAddress = pool.slotAddress := by
  funext other
  rw [slotAddress, region_write, Region.base_write, stride_write, slotAddress]

end Updates

/-- A pool represents a list of free slots. -/
structure Represents (build : Build) (pool : Pool) (free : List Nat) : Prop where
  laid : pool.slots.Laid
  /-- No slot is at the null address. -/
  base_pos : 0 < pool.slots.region.base
  /-- The addresses of the region and its end are words. -/
  stop_lt : pool.slots.region.stop < Word.limit
  /-- The links lead from the head through the free slots and end. -/
  chained : Chained pool.slots.region pool.slots.stride pool.head free
  nodup : free.Nodup
  lt_capacity : ∀ index ∈ free, index < pool.capacity
  /-- Held slots and free slots add up. -/
  allocated_add : pool.allocated + free.length = pool.capacity
  /-- A checked build knows the slots that are not free. -/
  flagged : Flagged build pool.slots fun index ↦ index ∉ free

namespace Represents

variable {build : Build} {pool : Pool} {free : List Nat} {index : Nat}

theorem slotAddress_inj (h : Represents build pool free) {other : Nat}
    (heq : pool.slotAddress index = pool.slotAddress other) : index = other := by
  have hstride : 0 < pool.slots.stride := Nat.lt_of_lt_of_le (by decide) h.laid.width_le
  exact Nat.eq_of_mul_eq_mul_right hstride (Nat.add_left_cancel heq)

/-- **Nothing to take.** An empty list is answered with no block. -/
theorem allocate_nil (h : Represents build pool []) : allocate build pool = .ok none pool := by
  have hhead : pool.head = chainEnd := h.chained
  rw [allocate]
  simp only [Call.run_bind, Call.run_get, if_pos hhead, Call.run_pure]

/-- **Taking.** The first slot of the list is handed out. -/
theorem allocate_cons (h : Represents build pool (index :: free)) :
    allocate build pool = .ok (some (pool.slotAddress index)) (pool.popped index) := by
  obtain ⟨hhead, -⟩ := h.chained
  have hindex : index < pool.slots.count := h.lt_capacity index List.mem_cons_self
  have hcount := h.allocated_add
  have hlimit := h.laid.count_lt
  rw [List.length_cons, capacity] at hcount
  have hend : index ≠ chainEnd := Nat.ne_of_lt (h.laid.lt_chainEnd hindex)
  have hadd : build.add pool.allocated 1 = .ok (pool.allocated + 1) :=
    Build.add_of_lt build (by omega)
  have hflag := h.flagged.require_not_isLive hindex (not_not_intro List.mem_cons_self)
    (.slotStillLive index)
  have haddress : (pool.slots.setLive index true).address build index =
      .ok (pool.slotAddress index) := h.laid.address_eq build h.stop_lt hindex
  rw [allocate]
  simp only [Call.run_bind, Call.run_get, ← hhead, if_neg hend, h.laid.link_eq build hindex,
    Call.run_lift_ok, Call.run_modify, hadd, hflag, haddress, Call.run_pure]
  rfl

theorem popped (h : Represents build pool (index :: free)) :
    Represents build (pool.popped index) free where
  laid := h.laid.congr (stride_popped pool index) (capacity_popped pool index)
    (congrArg Region.size (region_popped pool index))
  base_pos := by
    rw [region_popped]
    exact h.base_pos
  stop_lt := by
    rw [region_popped]
    exact h.stop_lt
  chained := by
    obtain ⟨-, hrest⟩ := h.chained
    rw [region_popped, stride_popped, Pool.popped]
    exact hrest
  nodup := (List.nodup_cons.mp h.nodup).2
  lt_capacity := by
    intro other hother
    rw [capacity_popped]
    exact h.lt_capacity other (List.mem_cons_of_mem _ hother)
  allocated_add := by
    have hcount := h.allocated_add
    rw [List.length_cons] at hcount
    rw [capacity_popped, Pool.popped, ← hcount]
    dsimp only
    omega
  flagged := by
    rw [Pool.popped]
    refine h.flagged.setLive (h.lt_capacity index List.mem_cons_self) ?_ ?_
    · exact iff_of_true (List.nodup_cons.mp h.nodup).1 rfl
    · intro other hother
      rw [List.mem_cons, or_iff_right hother]

theorem allocated_pos (h : Represents build pool free) (hindex : index < pool.capacity)
    (hfree : index ∉ free) : 0 < pool.allocated := by
  -- the slot and the free ones are different slots
  have hle := SlotArray.length_le_of_nodup (List.nodup_cons.mpr ⟨hfree, h.nodup⟩)
    (List.forall_mem_cons.mpr ⟨hindex, h.lt_capacity⟩)
  have hcount := h.allocated_add
  rw [List.length_cons] at hle
  omega

theorem slotAddress_ne_zero (h : Represents build pool free) (index : Nat) :
    pool.slotAddress index ≠ 0 := Nat.ne_of_gt (Nat.add_pos_left h.base_pos _)

theorem indexOf_slotAddress (h : Represents build pool free) (hindex : index < pool.capacity) :
    pool.slots.indexOf build (pool.slotAddress index) = .ok index :=
  h.laid.indexOf_eq build h.stop_lt hindex

/-- **Giving back.** A slot off the list is put in front of it. -/
theorem release_run (h : Represents build pool free) (hindex : index < pool.capacity)
    (hfree : index ∉ free) :
    release build (pool.slotAddress index) pool = .ok () (pool.pushed index) := by
  have hlive : decide (0 < pool.allocated) = true := decide_eq_true (h.allocated_pos hindex hfree)
  have hflag := h.flagged.require_isLive hindex hfree (.slotReleasedTwice index)
  have hoffset : (pool.slots.setLive index false).linkOffset build index =
      .ok (index * pool.slots.stride) := h.laid.linkOffset_eq build hindex
  have hsub : build.sub pool.allocated 1 = .ok (pool.allocated - 1) :=
    Build.sub_of_le build (of_decide_eq_true hlive)
  rw [release, if_neg (h.slotAddress_ne_zero index)]
  simp only [Call.run_bind, Call.run_get, hlive, Build.require_true, Call.run_lift_ok,
    h.indexOf_slotAddress hindex, Call.run_modify, hflag, hoffset, hsub]
  rfl

theorem pushed (h : Represents build pool free) (hindex : index < pool.capacity)
    (hfree : index ∉ free) : Represents build (pool.pushed index) (index :: free) where
  laid := h.laid.congr (stride_pushed pool index) (capacity_pushed pool index)
    (by rw [region_pushed, Region.size_setWord])
  base_pos := by
    rw [region_pushed, Region.base_setWord]
    exact h.base_pos
  stop_lt := by
    rw [region_pushed, Region.stop, Region.base_setWord, Region.size_setWord]
    exact h.stop_lt
  chained := by
    have hslot := h.laid.slot_le hindex
    have hwidth := h.laid.width_le
    rw [region_pushed, stride_pushed, Pool.pushed]
    refine h.chained.push hwidth hfree (by omega) (h.chained.first_lt fun other hother ↦ ?_)
    exact Nat.lt_trans (h.lt_capacity other hother) h.laid.count_lt
  nodup := List.nodup_cons.mpr ⟨hfree, h.nodup⟩
  lt_capacity := by
    intro other hother
    rw [capacity_pushed]
    rcases List.mem_cons.mp hother with rfl | hother
    · exact hindex
    · exact h.lt_capacity other hother
  allocated_add := by
    have hcount := h.allocated_add
    have hpos := h.allocated_pos hindex hfree
    rw [capacity_pushed, Pool.pushed, ← hcount, List.length_cons]
    dsimp only
    omega
  flagged := by
    have hflags : Flagged build (pool.slots.setLive index false) fun other ↦
        other ∉ index :: free := by
      refine h.flagged.setLive hindex ?_ ?_
      · exact iff_of_false (not_not_intro List.mem_cons_self) Bool.false_ne_true
      · intro other hother
        rw [List.mem_cons, or_iff_right hother]
    rw [Pool.pushed]
    exact hflags.congr (SlotArray.live_setLink _ _ _) (SlotArray.count_setLink _ _ _)

/-- **Writing.** What holders write to slots off the list changes nothing here. -/
theorem write {offset : Nat} {values : List UInt8} (h : Represents build pool free)
    (hfree : index ∉ free) (hfits : offset + values.length ≤ pool.slots.stride) :
    Represents build (pool.write index offset values) free where
  laid := h.laid.congr (stride_write _ _ _ _) (capacity_write _ _ _ _)
    (by rw [region_write, Region.size_write])
  base_pos := by
    rw [region_write, Region.base_write]
    exact h.base_pos
  stop_lt := by
    rw [region_write, Region.stop, Region.base_write, Region.size_write]
    exact h.stop_lt
  chained := by
    rw [region_write, stride_write, Pool.write]
    exact h.chained.write h.laid.width_le hfree hfits
  nodup := h.nodup
  lt_capacity := by
    rw [capacity_write]
    exact h.lt_capacity
  allocated_add := by
    rw [capacity_write, Pool.write]
    exact h.allocated_add
  flagged := by
    rw [Pool.write]
    exact h.flagged.congr rfl rfl

/-- A pool is full exactly when the next call for a block is answered with none. -/
theorem isFull_iff (h : Represents build pool free) :
    pool.isFull = true ↔ ∃ after, allocate build pool = .ok none after := by
  have hcount := h.allocated_add
  rw [isFull, decide_eq_true_iff]
  cases free with
  | nil => exact iff_of_true (by rw [← hcount]; exact Nat.le_refl _) ⟨pool, h.allocate_nil⟩
  | cons index free =>
    rw [List.length_cons] at hcount
    refine iff_of_false (by omega) ?_
    rintro ⟨after, hnone⟩
    rw [h.allocate_cons] at hnone
    cases hnone

theorem usage_eq (other : Build) (h : Represents build pool free) :
    pool.usage other =
        .ok { total := pool.slots.region.size, used := pool.allocated * pool.blockSize } ∧
      pool.allocated * pool.blockSize ≤ pool.slots.region.size := by
  have hcount := h.allocated_add
  rw [capacity] at hcount
  have hle : pool.allocated * pool.blockSize ≤ pool.slots.region.size := by
    rw [h.laid.size_eq, Nat.mul_comm pool.slots.stride, blockSize]
    exact Nat.mul_le_mul_right _ (by omega)
  refine ⟨?_, hle⟩
  rw [usage, Build.mul_of_lt other (Nat.lt_of_le_of_lt hle h.laid.size_lt), Call.ok_bind]
  rfl

end Represents

theorem slots_new {build : Build} {platform : Platform} {blockSize blockCount alignment : Nat}
    {pool : Pool} (hnew : new build platform blockSize blockCount alignment = .ok pool) :
    SlotArray.new build platform blockSize blockCount alignment = .ok pool.slots := by
  obtain ⟨slots, hslots, hnew⟩ := Call.bind_eq_ok.mp hnew
  obtain rfl := Except.ok.inj hnew
  exact hslots

/-- **Construction.** A new pool represents all its slots, in order. -/
theorem represents_new {build : Build} {platform : Platform}
    {blockSize blockCount alignment : Nat} {pool : Pool}
    (hnew : new build platform blockSize blockCount alignment = .ok pool)
    (hbase : 0 < pool.slots.region.base) (hstop : pool.slots.region.stop < Word.limit) :
    pool.Represents build (List.range blockCount) ∧ pool.capacity = blockCount := by
  rw [new] at hnew
  obtain ⟨slots, hslots, hnew⟩ := Call.bind_eq_ok.mp hnew
  obtain rfl := Except.ok.inj hnew
  obtain ⟨hlaid, hcount, -, hchained, hflagged⟩ := SlotArray.new_eq_ok hslots
  rw [hcount] at hchained
  refine ⟨⟨hlaid, hbase, hstop, hchained, List.nodup_range, ?_, ?_, hflagged.imp ?_⟩, hcount⟩
  · intro index hindex
    rw [capacity, hcount]
    exact List.mem_range.mp hindex
  · rw [List.length_range, Nat.zero_add, capacity, hcount]
  · intro index hindex
    rw [hcount] at hindex
    exact iff_of_false (not_not_intro (List.mem_range.mpr hindex)) not_false

end Suballoc.Pool
