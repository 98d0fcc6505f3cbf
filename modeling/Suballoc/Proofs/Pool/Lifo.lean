import Suballoc.Proofs.Pool
import Suballoc.Proofs.Tenancy

/-!
# A pool is a stack of free slots

The machine `lifo` knows nothing but a list of free indices: taking pops it, and giving back a slot
that is not on it pushes that slot. A pool gives the same answers, as addresses, on every run of
errands and in either build, and represents the machine's list after it.

The relation between the two has a part for the pool, `Represents`, and a part for its callers: each
address they hold is held once, and these are the addresses of the slots that are not on the list.
-/

namespace Suballoc

open Suballoc.Tenancy (onEngine onEngine_of_ok run replay exists_run_eq_replay)

namespace Pool

/-- Something a caller of a pool does. -/
inductive Errand where
  /-- Ask for a block. -/
  | take
  /-- Give back the block of a slot that is held. -/
  | give (index : Nat)
  /-- Give back the null address. -/
  | giveNull
  /-- Write to the block of a slot that is held, from an offset inside it on. -/
  | fill (index offset : Nat) (values : List UInt8)
deriving DecidableEq, Repr

/-- A stack of so many slots, the free ones in the order in which they will be taken. -/
def lifo (count : Nat) : Errand → List Nat → Option Nat × List Nat
  | .take, [] => (none, [])
  | .take, index :: free => (some index, free)
  | .give index, free => (none, if index < count ∧ index ∉ free then index :: free else free)
  | .giveNull, free => (none, free)
  | .fill _ _ _, free => (none, free)

/-- A pool and the addresses that callers hold. -/
abbrev Tenancy : Type := Suballoc.Tenancy Pool Nat

namespace Tenancy

/-- Run an errand; the answer is the address that was taken, if any. Errands about slots whose
address nobody holds and writes past the end of a slot are dropped. -/
def step (build : Build) : Errand → Call Tenancy (Option Nat)
  | .take => do
    let answer ← onEngine (allocate build)
    modify fun tenancy ↦ { tenancy with held := answer.toList ++ tenancy.held }
    return answer
  | .give index => do
    let address := (← get).engine.slotAddress index
    if address ∈ (← get).held then do
      onEngine (release build address)
      modify fun tenancy ↦ { tenancy with held := tenancy.held.erase address }
      return none
    else return none
  | .giveNull => do
    onEngine (release build 0)
    return none
  | .fill index offset values => do
    let tenancy ← get
    if tenancy.engine.slotAddress index ∈ tenancy.held ∧
        offset + values.length ≤ tenancy.engine.blockSize then do
      modify fun tenancy ↦ { tenancy with engine := tenancy.engine.write index offset values }
      return none
    else return none

/-- A tenancy that goes back to a pool mirrors a list of free slots. -/
structure Mirrors (build : Build) (origin : Pool) (tenancy : Tenancy) (free : List Nat) : Prop where
  represents : tenancy.engine.Represents build free
  /-- The slots are where they were. -/
  slotAddress_eq : tenancy.engine.slotAddress = origin.slotAddress
  capacity_eq : tenancy.engine.capacity = origin.capacity
  /-- No block is held twice. -/
  nodup : tenancy.held.Nodup
  /-- The blocks held are those that are not free. -/
  mem_held_iff : ∀ address, address ∈ tenancy.held ↔
    ∃ index < origin.capacity, index ∉ free ∧ address = origin.slotAddress index

namespace Mirrors

variable {build : Build} {origin : Pool} {tenancy : Tenancy} {free : List Nat} {index : Nat}

/-- The block of a slot is held exactly when the machine may take the slot back. -/
theorem slotAddress_mem_iff (h : Mirrors build origin tenancy free) :
    tenancy.engine.slotAddress index ∈ tenancy.held ↔ index < origin.capacity ∧ index ∉ free := by
  rw [h.mem_held_iff]
  constructor
  · rintro ⟨other, hother, hfree, heq⟩
    rw [← h.slotAddress_eq] at heq
    obtain rfl := h.represents.slotAddress_inj heq
    exact ⟨hother, hfree⟩
  · rintro ⟨hindex, hfree⟩
    exact ⟨index, hindex, hfree, congrFun h.slotAddress_eq index⟩

theorem step_take (h : Mirrors build origin tenancy free) :
    ∃ after, step build .take tenancy =
        .ok ((lifo origin.capacity .take free).1.map origin.slotAddress) after ∧
      Mirrors build origin after (lifo origin.capacity .take free).2 := by
  rw [step]
  cases free with
  | nil =>
    refine ⟨tenancy, ?_, h⟩
    rw [Call.run_bind_of_ok (onEngine_of_ok h.represents.allocate_nil)]
    rfl
  | cons index free =>
    have hfresh := mt h.slotAddress_mem_iff.mp fun hboth ↦ hboth.2 List.mem_cons_self
    have hindex : index < origin.capacity :=
      h.capacity_eq ▸ h.represents.lt_capacity index List.mem_cons_self
    have haddress : tenancy.engine.slotAddress index = origin.slotAddress index :=
      congrFun h.slotAddress_eq index
    refine ⟨⟨tenancy.engine.popped index, tenancy.engine.slotAddress index :: tenancy.held⟩, ?_,
      h.represents.popped, (slotAddress_popped _ _).trans h.slotAddress_eq,
      (capacity_popped _ _).trans h.capacity_eq, List.nodup_cons.mpr ⟨hfresh, h.nodup⟩, ?_⟩
    · rw [Call.run_bind_of_ok (onEngine_of_ok h.represents.allocate_cons), haddress]
      rfl
    · -- the addresses held are those of the slots that are not free, now with the one popped
      intro address
      rw [List.mem_cons, h.mem_held_iff, haddress]
      constructor
      · rintro (rfl | ⟨other, hother, hfree, rfl⟩)
        · exact ⟨index, hindex, (List.nodup_cons.mp h.represents.nodup).1, rfl⟩
        · exact ⟨other, hother, mt (List.mem_cons_of_mem index) hfree, rfl⟩
      · rintro ⟨other, hother, hfree, rfl⟩
        by_cases heq : other = index
        · exact Or.inl (congrArg origin.slotAddress heq)
        · exact Or.inr ⟨other, hother, List.not_mem_cons_of_ne_of_not_mem heq hfree, rfl⟩

theorem step_give (index : Nat) (h : Mirrors build origin tenancy free) :
    ∃ after, step build (.give index) tenancy =
        .ok ((lifo origin.capacity (.give index) free).1.map origin.slotAddress) after ∧
      Mirrors build origin after (lifo origin.capacity (.give index) free).2 := by
  rw [step, lifo]
  simp only [Call.run_bind, Call.run_get]
  by_cases hheld : tenancy.engine.slotAddress index ∈ tenancy.held
  · obtain ⟨hindex, hfree⟩ := h.slotAddress_mem_iff.mp hheld
    have hrelease := h.represents.release_run (h.capacity_eq ▸ hindex) hfree
    have haddress : tenancy.engine.slotAddress index = origin.slotAddress index :=
      congrFun h.slotAddress_eq index
    rw [if_pos hheld, if_pos ⟨hindex, hfree⟩]
    refine ⟨⟨tenancy.engine.pushed index,
      tenancy.held.erase (tenancy.engine.slotAddress index)⟩, ?_,
      h.represents.pushed (h.capacity_eq ▸ hindex) hfree,
      (slotAddress_pushed _ _).trans h.slotAddress_eq, (capacity_pushed _ _).trans h.capacity_eq,
      h.nodup.erase _, ?_⟩
    · rw [Call.run_bind_of_ok (onEngine_of_ok hrelease)]
      rfl
    · -- and without the one pushed
      intro address
      rw [h.nodup.mem_erase_iff, h.mem_held_iff, haddress]
      constructor
      · rintro ⟨hne, other, hother, hnot, rfl⟩
        refine ⟨other, hother, List.not_mem_cons_of_ne_of_not_mem ?_ hnot, rfl⟩
        exact fun heq ↦ hne (congrArg origin.slotAddress heq)
      · rintro ⟨other, hother, hnot, rfl⟩
        obtain ⟨hne, hnot⟩ := List.ne_and_not_mem_of_not_mem_cons hnot
        refine ⟨fun heq ↦ hne ?_, other, hother, hnot, rfl⟩
        rw [← h.slotAddress_eq] at heq
        exact h.represents.slotAddress_inj heq
  · rw [if_neg hheld, if_neg (mt h.slotAddress_mem_iff.mpr hheld)]
    exact ⟨tenancy, rfl, h⟩

theorem step_fill (index offset : Nat) (values : List UInt8)
    (h : Mirrors build origin tenancy free) :
    ∃ after, step build (.fill index offset values) tenancy = .ok none after ∧
      Mirrors build origin after free := by
  rw [step]
  simp only [Call.run_bind, Call.run_get]
  by_cases hmay : tenancy.engine.slotAddress index ∈ tenancy.held ∧
      offset + values.length ≤ tenancy.engine.blockSize
  · obtain ⟨-, hfree⟩ := h.slotAddress_mem_iff.mp hmay.1
    rw [if_pos hmay]
    refine ⟨⟨tenancy.engine.write index offset values, tenancy.held⟩, rfl,
      h.represents.write hfree hmay.2, (slotAddress_write _ _ _ _).trans h.slotAddress_eq,
      (capacity_write _ _ _ _).trans h.capacity_eq, h.nodup, h.mem_held_iff⟩
  · rw [if_neg hmay]
    exact ⟨tenancy, rfl, h⟩

/-- **One errand.** The pool gives the machine's answer and mirrors the list the machine is left
with. -/
theorem step (errand : Errand) (h : Mirrors build origin tenancy free) :
    ∃ after, Tenancy.step build errand tenancy =
        .ok ((lifo origin.capacity errand free).1.map origin.slotAddress) after ∧
      Mirrors build origin after (lifo origin.capacity errand free).2 := by
  cases errand with
  | take => exact h.step_take
  | give index => exact h.step_give index
  | giveNull => exact ⟨tenancy, rfl, h⟩
  | fill index offset values => exact h.step_fill index offset values

end Mirrors

/-- **Refinement.** On every run of errands, a pool gives the answers of a stack of its slots and
ends with the stack's list in its links; and it is full exactly when the next call for a block would
get none. -/
theorem run_mirrors_lifo {build : Build} {platform : Platform}
    {blockSize blockCount alignment : Nat} {pool : Pool}
    (hnew : Pool.new build platform blockSize blockCount alignment = .ok pool)
    (hbase : 0 < pool.slots.region.base) (hstop : pool.slots.region.stop < Word.limit)
    (errands : List Errand) :
    ∃ after : Tenancy,
      run (step build) errands ⟨pool, []⟩ =
          .ok ((replay (lifo blockCount) errands (List.range blockCount)).1.map
            (Option.map pool.slotAddress)) after ∧
        Mirrors build pool after (replay (lifo blockCount) errands (List.range blockCount)).2 ∧
        (after.engine.isFull = true ↔ ∃ full, allocate build after.engine = .ok none full) := by
  obtain ⟨hrepresents, hcapacity⟩ := represents_new hnew hbase hstop
  have hstart : Mirrors build pool ⟨pool, []⟩ (List.range blockCount) := by
    refine ⟨hrepresents, rfl, rfl, List.nodup_nil, fun address ↦ iff_of_false List.not_mem_nil ?_⟩
    rintro ⟨index, hindex, hfree, -⟩
    exact hfree (List.mem_range.mpr (hcapacity ▸ hindex))
  have hstep : ∀ errand tenancy free, Mirrors build pool tenancy free →
      ∃ after, step build errand tenancy =
          .ok (Option.map pool.slotAddress (lifo blockCount errand free).1) after ∧
        Mirrors build pool after (lifo blockCount errand free).2 := by
    intro errand tenancy free h
    rw [← hcapacity]
    exact h.step errand
  obtain ⟨after, hrun, hafter⟩ :=
    exists_run_eq_replay (Option.map pool.slotAddress) (Mirrors build pool) hstep errands hstart
  exact ⟨after, hrun, hafter, hafter.represents.isFull_iff⟩

/-- Two of three blocks are taken. One is written to over its whole stride, comes back and is taken
again, and then the other comes back. -/
theorem run_mirrors_lifo_three :
    ∃ pool, Pool.new .checked ⟨fun _ _ ↦ true, fun _ ↦ 4096, fun _ ↦ 9⟩ 10 3 16 = .ok pool ∧
      ∃ after : Tenancy,
        run (step .checked) [.take, .take, .fill 0 0 (List.replicate 16 255), .give 0, .giveNull,
            .take, .give 1] ⟨pool, []⟩ =
            .ok ([some 0, some 1, none, none, none, some 0, none].map
              (Option.map pool.slotAddress)) after ∧
          Mirrors .checked pool after [1, 2] ∧
          (after.engine.isFull = true ↔
            ∃ full, allocate .checked after.engine = .ok none full) := by
  have hlayout : SlotArray.layout 10 3 16 = .ok (16, { size := 48, alignment := 16 }) := rfl
  obtain ⟨slots, hslots, hstride⟩ : ∃ slots, SlotArray.new .checked
      ⟨fun _ _ ↦ true, fun _ ↦ 4096, fun _ ↦ 9⟩ 10 3 16 = .ok slots ∧ slots.stride = 16 :=
    SlotArray.exists_new .checked hlayout ⟨by decide, ⟨4, rfl⟩, by decide, by decide⟩ rfl
  obtain ⟨hlaid, hcount, -⟩ := SlotArray.new_eq_ok hslots
  have hnew : Pool.new .checked ⟨fun _ _ ↦ true, fun _ ↦ 4096, fun _ ↦ 9⟩ 10 3 16 =
      .ok { slots, head := 0, allocated := 0 } := by
    rw [Pool.new, hslots]
    rfl
  refine ⟨_, hnew, run_mirrors_lifo hnew ?_ ?_ _⟩
  · rw [SlotArray.base_new hslots]
    decide
  · rw [Region.stop, SlotArray.base_new hslots, hlaid.size_eq, hstride, hcount]
    decide

end Tenancy

end Pool

end Suballoc
