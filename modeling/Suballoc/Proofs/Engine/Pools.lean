import Mathlib.Data.List.Perm.Basic
import Suballoc.Proofs.Engine.Tenancy
import Suballoc.Proofs.Pool.Builds
import Suballoc.Proofs.SharedPool.Sequential

/-!
# Errands to pools

There are three engines over the slots of an array: a pool, and a shared pool with either strategy.
To callers who come one at a time they are one engine in three guises. `Guise.engine` puts a pool on
like a guise, and the main lemma says what an errand does once for all of them and for both builds:
it leads from one pool to the next, and the guise, the peak aside, is the same before and after.
-/

namespace Suballoc

open Suballoc.Tenancy (onEngine onEngine_of_ok)

/-- The engines that hand out slots. -/
inductive Guise where
  | own
  | shared (strategy : SyncStrategy)
deriving DecidableEq, Repr

namespace Guise

/-- A pool in a guise. Only a shared pool keeps a peak. -/
def engine (guise : Guise) (peak : Nat) (pool : Pool) : Engine :=
  match guise with
  | own => .pool pool
  | shared strategy => .sharedPool (pool.shared strategy peak)

/-- Whether so many slots can be managed. -/
def Fits (guise : Guise) (capacity : Nat) : Prop :=
  match guise with
  | own => True
  | shared _ => capacity < packedIndexLimit

section Calls

variable {build : Build} {pool : Pool} {free : List Nat} {index : Nat} (guise : Guise) (peak : Nat)

theorem memory_engine : (guise.engine peak pool).memory = pool.slots.region := by
  cases guise <;> rfl

theorem payloadSize_engine (size : Nat) :
    (guise.engine peak pool).payloadSize size = pool.blockSize := by
  cases guise <;> rfl

theorem keeps_engine (holding : Holding) : (guise.engine peak pool).keeps holding = true := by
  cases guise <;> rfl

theorem accepts_engine (marker : Marker) : (guise.engine peak pool).accepts marker = false := by
  cases guise <;> rfl

theorem onStack_engine (act : ScopedStack.Act) :
    Engine.onStack build act (guise.engine peak pool) = .ok .done (guise.engine peak pool) := by
  cases guise <;> rfl

theorem write_engine (offset : Nat) (values : List UInt8) :
    (guise.engine peak pool).write (index * pool.slots.stride + offset) values =
      guise.engine peak (pool.write index offset values) := by
  cases guise <;> rfl

theorem allocate_nil (size alignment : Nat) (h : pool.Represents build []) :
    (guise.engine peak pool).allocate build size alignment =
      (some (.ok none), guise.engine peak pool) := by
  cases guise with
  | own => rw [engine, Engine.allocate, h.allocate_nil, Engine.settle]
  | shared strategy =>
    rw [engine, Engine.allocate, SharedPool.allocate_nil strategy peak h, Engine.settle]

theorem allocate_cons (size alignment : Nat) (h : pool.Represents build (index :: free))
    (hfits : guise.Fits pool.capacity) :
    (guise.engine peak pool).allocate build size alignment =
      (some (.ok (some (pool.slotAddress index))),
        guise.engine (max peak (pool.popped index).allocated) (pool.popped index)) := by
  cases guise with
  | own => rw [engine, Engine.allocate, h.allocate_cons, Engine.settle, engine]
  | shared strategy =>
    rw [engine, Engine.allocate, SharedPool.allocate_cons strategy peak h hfits, Engine.settle]
    rfl

theorem release_engine (h : pool.Represents build free) (hfits : guise.Fits pool.capacity)
    (hindex : index < pool.capacity) (hfree : index ∉ free) :
    (guise.engine peak pool).release build (pool.slotAddress index) =
      (some (.ok ()), guise.engine peak (pool.pushed index)) := by
  cases guise with
  | own => rw [engine, Engine.release, h.release_run hindex hfree, Engine.settle, engine]
  | shared strategy =>
    rw [engine, Engine.release, SharedPool.release_run strategy peak h hfits hindex hfree,
      Engine.settle, engine]

theorem release_null :
    (guise.engine peak pool).release build 0 = (some (.ok ()), guise.engine peak pool) := by
  cases guise <;> rfl

end Calls

end Guise

namespace Pool

open Engine.Tenancy

/-- What the holder of a slot holds. -/
def holding (pool : Pool) (index : Nat) : Holding where
  address := pool.slotAddress index
  size := pool.blockSize

/-- A pool agrees with its callers: every slot is free or held, once. -/
def Holds (pool : Pool) (held : List Holding) : Prop :=
  ∃ free owned, pool.Represents .checked free ∧
    (free ++ owned).Perm (List.range pool.capacity) ∧ held.Perm (owned.map pool.holding)

/-- A pool with these free slots agrees with its callers. -/
structure Shares (pool : Pool) (free : List Nat) (held : List Holding) : Prop where
  represents : pool.Represents .checked free
  exists_owned : ∃ owned, (free ++ owned).Perm (List.range pool.capacity) ∧
    held.Perm (owned.map pool.holding)

/-- What an errand does to a pool with these free slots, of which callers hold these: it comes to an
outcome, and leads to the next pool, its free slots and what is held then. -/
inductive Effect (pool : Pool) (free : List Nat) (held : List Holding) :
    Engine.Errand → Outcome → Pool → List Nat → List Holding → Prop where
  | idle {errand : Engine.Errand} (hidle : Idle held errand) :
      Effect pool free held errand .done pool free held
  | full {size alignment : Nat} (hpow : alignment.isPowerOfTwo) (hfree : free = []) :
      Effect pool free held (.take size alignment) (.memory none) pool free held
  /-- The first free slot is handed out. -/
  | popped {size alignment index : Nat} {rest : List Nat} (hpow : alignment.isPowerOfTwo)
      (hfree : free = index :: rest) :
      Effect pool free held (.take size alignment) (.memory (some (pool.slotAddress index)))
        (pool.popped index) rest (pool.holding index :: held)
  /-- A slot that is held comes back. -/
  | pushed {address index : Nat} (hnull : address ≠ 0)
      (hfind : (held.find? fun holding ↦ holding.address = address) = some (pool.holding index)) :
      Effect pool free held (.give address) .done (pool.pushed index) (index :: free)
        (held.erase (pool.holding index))
  /-- A holder writes to a slot. -/
  | written {index offset : Nat} {values : List UInt8} (hmem : pool.holding index ∈ held)
      (hfits : offset + values.length ≤ pool.slots.stride) :
      Effect pool free held (.fill (pool.slotAddress index + offset) values) .done
        (pool.write index offset values) free held

/-- In any guise and in either build, an errand to a pool comes to an outcome and leads to the next
pool, which agrees with its callers. -/
structure Serves (errand : Engine.Errand) (pool : Pool) (held : List Holding) (outcome : Outcome)
    (next : Pool) (rest : List Holding) : Prop where
  holds : next.Holds rest
  capacity_eq : next.capacity = pool.capacity
  step_eq : ∀ (build : Build) (guise : Guise) (peak : Nat), guise.Fits pool.capacity →
    pool.allocated ≤ peak →
      step build errand ⟨guise.engine peak (pool.forBuild build), held⟩ =
        .ok outcome ⟨guise.engine (max peak next.allocated) (next.forBuild build), rest⟩

variable {pool next : Pool} {held rest : List Holding} {free free' owned : List Nat} {index : Nat}
  {errand : Engine.Errand} {outcome : Outcome}

theorem holding_popped (pool : Pool) (index : Nat) :
    (pool.popped index).holding = pool.holding := by
  funext other
  rw [holding, slotAddress_popped, blockSize, stride_popped, holding, blockSize]

theorem holding_pushed (pool : Pool) (index : Nat) :
    (pool.pushed index).holding = pool.holding := by
  funext other
  rw [holding, slotAddress_pushed, blockSize, stride_pushed, holding, blockSize]

theorem holding_write (pool : Pool) (index offset : Nat) (values : List UInt8) :
    (pool.write index offset values).holding = pool.holding := by
  funext other
  rw [holding, slotAddress_write, blockSize, stride_write, holding, blockSize]

theorem exists_offset_of_spans {address length : Nat}
    (h : (pool.holding index).spans address length = true) :
    ∃ offset, address = pool.slotAddress index + offset ∧
      offset + length ≤ pool.slots.stride := by
  obtain ⟨hle, hstop⟩ := (pool.holding index).spans_iff.mp h
  obtain ⟨offset, rfl⟩ := Nat.exists_eq_add_of_le hle
  refine ⟨offset, rfl, ?_⟩
  rw [Nat.add_assoc] at hstop
  exact Nat.le_of_add_le_add_left hstop

theorem Holds.lt_and_not_mem_free (hshared : (free ++ owned).Perm (List.range pool.capacity))
    (hindex : index ∈ owned) : index < pool.capacity ∧ index ∉ free := by
  have hnodup : (free ++ owned).Nodup := hshared.nodup_iff.mpr List.nodup_range
  refine ⟨List.mem_range.mp (hshared.mem_iff.mp (List.mem_append_right _ hindex)), fun hfree ↦ ?_⟩
  exact (List.nodup_append.mp hnodup).2.2 index hfree index hindex rfl

theorem Holds.exists_shares (h : pool.Holds held) : ∃ free, pool.Shares free held := by
  obtain ⟨free, owned, hrepresents, hshared, hheld⟩ := h
  exact ⟨free, hrepresents, owned, hshared, hheld⟩

namespace Shares

theorem holds (h : pool.Shares free held) : pool.Holds held := by
  obtain ⟨hrepresents, owned, hshared, hheld⟩ := h
  exact ⟨free, owned, hrepresents, hshared, hheld⟩

theorem exists_of_mem (h : pool.Shares free held) {holding : Holding} (hmem : holding ∈ held) :
    ∃ index, holding = pool.holding index ∧ index < pool.capacity ∧ index ∉ free := by
  obtain ⟨-, owned, hshared, hheld⟩ := h
  obtain ⟨index, hindex, rfl⟩ := List.mem_map.mp (hheld.mem_iff.mp hmem)
  exact ⟨index, rfl, Holds.lt_and_not_mem_free hshared hindex⟩

theorem allocated_eq (h : pool.Shares free held) : pool.allocated = held.length := by
  obtain ⟨hrepresents, owned, hshared, hheld⟩ := h
  have hcount := hrepresents.allocated_add
  have hall := hshared.length_eq
  rw [List.length_append, List.length_range] at hall
  rw [hheld.length_eq, List.length_map]
  omega

theorem of_mem (h : pool.Shares free held) (hmem : pool.holding index ∈ held) :
    index < pool.capacity ∧ index ∉ free := by
  obtain ⟨other, heq, hother⟩ := h.exists_of_mem hmem
  obtain rfl := h.represents.slotAddress_inj (congrArg Holding.address heq)
  exact hother

theorem release_run (h : pool.Shares free held) (hmem : pool.holding index ∈ held) (build : Build)
    (guise : Guise) (peak : Nat) (hfits : guise.Fits pool.capacity) :
    (guise.engine peak (pool.forBuild build)).release build (pool.slotAddress index) =
      (some (.ok ()), guise.engine peak ((pool.pushed index).forBuild build)) := by
  obtain ⟨hlt, hfree⟩ := h.of_mem hmem
  have hrelease := guise.release_engine peak (h.represents.forBuild build)
    (by rwa [capacity_forBuild]) (by rwa [capacity_forBuild]) hfree
  rwa [slotAddress_forBuild, pushed_forBuild] at hrelease

theorem exists_effect_take (size alignment : Nat) (h : pool.Shares free held) :
    ∃ outcome next free' rest, Effect pool free held (.take size alignment) outcome next free'
      rest := by
  by_cases hpow : alignment.isPowerOfTwo
  · cases free with
    | nil => exact ⟨_, _, _, _, .full hpow rfl⟩
    | cons index free => exact ⟨_, _, _, _, .popped hpow rfl⟩
  · exact ⟨_, _, _, _, .idle hpow⟩

theorem exists_effect_give (address : Nat) (h : pool.Shares free held) :
    ∃ outcome next free' rest, Effect pool free held (.give address) outcome next free' rest := by
  by_cases hnull : address = 0
  · exact ⟨_, _, _, _, .idle (Or.inl hnull)⟩
  · cases hfind : held.find? fun holding ↦ holding.address = address with
    | none => exact ⟨_, _, _, _, .idle (Or.inr hfind)⟩
    | some holding =>
      obtain ⟨index, rfl, -⟩ := h.exists_of_mem (List.mem_of_find?_eq_some hfind)
      exact ⟨_, _, _, _, .pushed hnull hfind⟩

theorem exists_effect_fill (address : Nat) (values : List UInt8) (h : pool.Shares free held) :
    ∃ outcome next free' rest, Effect pool free held (.fill address values) outcome next free'
      rest := by
  cases hmay : held.any (·.spans address values.length) with
  | false => exact ⟨_, _, _, _, .idle hmay⟩
  | true =>
    obtain ⟨holding, hmem, hspans⟩ := List.any_eq_true.mp hmay
    obtain ⟨index, rfl, -⟩ := h.exists_of_mem hmem
    obtain ⟨offset, rfl, hfits⟩ := exists_offset_of_spans hspans
    exact ⟨_, _, _, _, .written hmem hfits⟩

theorem exists_effect (errand : Engine.Errand) (h : pool.Shares free held) :
    ∃ outcome next free' rest, Effect pool free held errand outcome next free' rest := by
  cases errand with
  | take size alignment => exact h.exists_effect_take size alignment
  | give address => exact h.exists_effect_give address
  | fill address values => exact h.exists_effect_fill address values
  | mark | reset | rewind | openScope | endScope => exact ⟨_, _, _, _, .idle trivial⟩

end Shares

namespace Effect

theorem capacity_eq (h : Effect pool free held errand outcome next free' rest) :
    next.capacity = pool.capacity := by
  cases h with
  | idle | full => rfl
  | popped => exact capacity_popped _ _
  | pushed => exact capacity_pushed _ _
  | written => exact capacity_write _ _ _ _

theorem stride_eq (h : Effect pool free held errand outcome next free' rest) :
    next.slots.stride = pool.slots.stride := by
  cases h with
  | idle | full => rfl
  | popped => exact stride_popped _ _
  | pushed => exact stride_pushed _ _
  | written => exact stride_write _ _ _ _

theorem shares (h : Effect pool free held errand outcome next free' rest)
    (hpool : pool.Shares free held) : next.Shares free' rest := by
  cases h with
  | idle | full => exact hpool
  | @popped _ _ index _ _ hfree =>
    subst hfree
    obtain ⟨hrepresents, owned, hshared, hheld⟩ := hpool
    refine ⟨hrepresents.popped, index :: owned, ?_, ?_⟩
    · rw [capacity_popped]
      exact List.perm_middle.trans hshared
    · rw [holding_popped]
      exact hheld.cons _
  | @pushed _ index _ hfind =>
    obtain ⟨hlt, hfree⟩ := hpool.of_mem (List.mem_of_find?_eq_some hfind)
    obtain ⟨hrepresents, owned, hshared, hheld⟩ := hpool
    have hindex : index ∈ owned := by
      have hall := hshared.mem_iff.mpr (List.mem_range.mpr hlt)
      exact (List.mem_append.mp hall).resolve_left hfree
    have howned : owned.Perm (index :: owned.erase index) := List.perm_cons_erase hindex
    refine ⟨hrepresents.pushed hlt hfree, owned.erase index, ?_, ?_⟩
    · rw [capacity_pushed]
      exact (List.perm_middle.symm.trans (howned.symm.append_left free)).trans hshared
    · rw [holding_pushed]
      have herase := (hheld.trans (howned.map pool.holding)).erase (pool.holding index)
      rwa [List.map_cons, List.erase_cons_head] at herase
  | written hmem hfits =>
    obtain ⟨-, hfree⟩ := hpool.of_mem hmem
    obtain ⟨hrepresents, owned, hshared, hheld⟩ := hpool
    refine ⟨hrepresents.write hfree hfits, owned, ?_, ?_⟩
    · rw [capacity_write]
      exact hshared
    · rw [holding_write]
      exact hheld

/-- **One errand.** Its effect is what it does in any guise and in either build. -/
theorem step_eq (h : Effect pool free held errand outcome next free' rest)
    (hpool : pool.Shares free held) (build : Build) (guise : Guise) (peak : Nat)
    (hfits : guise.Fits pool.capacity) (hpeak : pool.allocated ≤ peak) :
    step build errand ⟨guise.engine peak (pool.forBuild build), held⟩ =
      .ok outcome ⟨guise.engine (max peak next.allocated) (next.forBuild build), rest⟩ := by
  have hrepresents := hpool.represents.forBuild build
  cases h with
  | idle hidle =>
    rw [Nat.max_eq_left hpeak]
    exact step_of_idle hidle (guise.release_null peak) (guise.onStack_engine peak)
      (guise.keeps_engine peak) (guise.accepts_engine peak)
  | @full size alignment hpow hfree =>
    subst hfree
    rw [Nat.max_eq_left hpeak]
    exact step_take_of_none hpow (guise.allocate_nil peak size alignment hrepresents)
  | @popped size alignment index _ hpow hfree =>
    subst hfree
    have hallocate := guise.allocate_cons peak size alignment hrepresents
      (by rwa [capacity_forBuild])
    rw [slotAddress_forBuild, popped_forBuild] at hallocate
    rw [step_take_of_some hpow hallocate, Guise.payloadSize_engine, blockSize_forBuild,
      blockSize, stride_popped]
    rfl
  | @pushed _ index hnull hfind =>
    have hpeak' : max peak (pool.pushed index).allocated = peak :=
      Nat.max_eq_left (Nat.le_trans (Nat.sub_le _ _) hpeak)
    rw [hpeak']
    exact step_give_of_held hnull hfind
      (hpool.release_run (List.mem_of_find?_eq_some hfind) build guise peak hfits)
  | @written index offset values hmem hfits =>
    have hmay : held.any (·.spans (pool.slotAddress index + offset) values.length) = true := by
      refine List.any_eq_true.mpr ⟨_, hmem, (pool.holding index).spans_iff.mpr ?_⟩
      rw [holding, Nat.add_assoc]
      exact ⟨Nat.le_add_right _ _, Nat.add_le_add_left hfits _⟩
    have hoffset : pool.slotAddress index + offset - pool.slots.region.base =
        index * (pool.forBuild build).slots.stride + offset := by
      rw [slotAddress, stride_forBuild]
      omega
    have hpeak' : max peak (pool.write index offset values).allocated = peak :=
      Nat.max_eq_left hpeak
    rw [step_fill_of_held hmay, hpeak', Guise.memory_engine, region_forBuild, hoffset,
      Guise.write_engine, write_forBuild]

end Effect

/-- **One errand.** Whatever a caller does, all guises of a pool do the same in either build, and
the pool agrees with its callers again. -/
theorem Holds.serves (errand : Engine.Errand) (h : pool.Holds held) :
    ∃ outcome next rest, Serves errand pool held outcome next rest := by
  obtain ⟨free, hpool⟩ := h.exists_shares
  obtain ⟨outcome, next, free', rest, heffect⟩ := hpool.exists_effect errand
  exact ⟨outcome, next, rest, (heffect.shares hpool).holds, heffect.capacity_eq,
    heffect.step_eq hpool⟩

theorem shares_new {platform : Platform} {blockSize blockCount alignment : Nat}
    (hnew : new .checked platform blockSize blockCount alignment = .ok pool)
    (hplaced : pool.slots.region.Placed) :
    pool.Shares (List.range blockCount) [] ∧ pool.capacity = blockCount ∧ pool.allocated = 0 := by
  obtain ⟨hrepresents, hcapacity⟩ := represents_new hnew hplaced.base_pos hplaced.stop_lt
  refine ⟨⟨hrepresents, [], ?_, List.Perm.refl _⟩, hcapacity, ?_⟩
  · rw [List.append_nil, hcapacity]
  · have hcount := hrepresents.allocated_add
    rw [List.length_range, hcapacity] at hcount
    exact Nat.add_eq_right.mp hcount

theorem holds_new {platform : Platform} {blockSize blockCount alignment : Nat}
    (hnew : new .checked platform blockSize blockCount alignment = .ok pool)
    (hplaced : pool.slots.region.Placed) :
    pool.Holds [] ∧ pool.capacity = blockCount ∧ pool.allocated = 0 := by
  obtain ⟨hshares, hcapacity, hallocated⟩ := shares_new hnew hplaced
  exact ⟨hshares.holds, hcapacity, hallocated⟩

end Pool

end Suballoc
