import Suballoc.Proofs.Engine.Builds

/-!
# Byte counts

The bytes that an engine tells are used are a bill. Memory is charged for when it is had: a pool
charges a block, a free list the block that the memory lies in, with its header and whatever could
not be left over. What is charged stays the same until the memory comes back, for a free list keeps
it in the header, and then just that is taken off the bill. So an engine that takes memory back one
by one tells the sum of what it charges for all that is held, at every moment.

A stack has no bill, only a cursor; it rises by what is had and the padding before it.
-/

namespace Suballoc

open Engine (Errand)
open Engine.Tenancy
open Suballoc.Tenancy (run run_cons)

namespace Engine

variable {engine : Engine} {held rest : List Holding} {holding : Holding} {errand : Errand}
  {outcome : Outcome}

/-! ## Bills -/

/-- The byte counts of an engine, as its counters have them. -/
def tally : Engine → Usage
  | .pool p => { total := p.slots.region.size, used := p.allocated * p.blockSize }
  | .sharedPool p => { total := p.slots.region.size, used := p.allocated * p.blockSize }
  | .stack state => state.stack.usage
  | .freeList list => list.usage
  | .region r => { total := r.size, used := 0 }

/-- What is charged for the memory at an address. -/
def charge : Engine → Nat → Nat
  | .pool p, _ => p.blockSize
  | .sharedPool p, _ => p.blockSize
  | .freeList list, address => (list.header (address - list.region.base - nodeSize)).size
  | .stack _, _ | .region _, _ => 0

/-- What is charged for all that is held. -/
def bill (engine : Engine) (held : List Holding) : Nat :=
  (held.map fun holding ↦ engine.charge holding.address).sum

/-- What an allocation costs beside its payload, at least. -/
def overhead : Engine → Nat
  | .freeList _ => nodeSize
  | .pool _ | .sharedPool _ | .stack _ | .region _ => 0

theorem bill_cons : engine.bill (holding :: held) =
    engine.charge holding.address + engine.bill held := by
  rw [bill, List.map_cons, List.sum_cons, bill]

theorem bill_erase (hmem : holding ∈ held) : engine.bill held =
    engine.charge holding.address + engine.bill (held.erase holding) := by
  rw [← bill_cons, bill, bill]
  exact ((List.perm_cons_erase hmem).map _).sum_nat

theorem bill_congr {other : Engine}
    (h : ∀ holding ∈ held, other.charge holding.address = engine.charge holding.address) :
    other.bill held = engine.bill held := by
  rw [bill, bill, List.map_congr_left h]

/-- An engine that bills its callers: what it tells is used is charged to them, each of them pays
for as much as is held, and nothing is held at the null address. -/
structure Billed (engine : Engine) (held : List Holding) : Prop where
  used_eq : engine.tally.used = engine.bill held
  size_le : ∀ holding ∈ held, holding.size + engine.overhead ≤ engine.charge holding.address
  address_pos : ∀ holding ∈ held, 0 < holding.address

end Engine

/-- A pool charges a block for each slot that is held. -/
theorem Pool.Shares.billed {pool : Pool} {free : List Nat} {held : List Holding}
    (h : pool.Shares free held) (guise : Guise) (peak : Nat) :
    (guise.engine peak pool).Billed held := by
  have hcharge (address : Nat) : (guise.engine peak pool).charge address = pool.blockSize := by
    cases guise <;> rfl
  have htally : (guise.engine peak pool).tally.used = pool.allocated * pool.blockSize := by
    cases guise <;> rfl
  have hoverhead : (guise.engine peak pool).overhead = 0 := by
    cases guise <;> rfl
  refine ⟨?_, ?_, ?_⟩
  · rw [htally, Engine.bill, h.allocated_eq]
    simp only [hcharge, List.map_const', List.sum_replicate_nat]
  · rintro _ hmem
    obtain ⟨index, rfl, -⟩ := h.exists_of_mem hmem
    rw [hcharge, hoverhead]
    exact Nat.le_refl _
  · rintro _ hmem
    obtain ⟨index, rfl, -⟩ := h.exists_of_mem hmem
    exact Nat.lt_of_lt_of_le h.represents.base_pos (Nat.le_add_right _ _)

namespace FreeList

variable {list : FreeList} {leases : List Lease} {lease : Lease}

theorem charge_holding (list : FreeList) (lease : Lease) :
    (Engine.freeList list).charge (list.holding lease).address = (list.blockOf lease).size := by
  rw [Engine.charge, holding, Nat.add_sub_cancel_left, blockOf]

theorem Tiled.billed (h : list.Tiled list.blocks leases) :
    (Engine.freeList list).Billed (leases.map list.holding) := by
  refine ⟨?_, ?_, ?_⟩
  · show list.used = _
    rw [h.used_eq, Engine.bill, blocksOf, List.map_map, List.map_map]
    refine congrArg List.sum (List.map_congr_left fun lease _ ↦ ?_)
    exact (list.charge_holding lease).symm
  · rintro _ hmem
    obtain ⟨lease, hlease, rfl⟩ := List.mem_map.mp hmem
    have hstart := (h.headed lease hlease).start_add_le
    have hstop := (h.headed lease hlease).le_stop
    rw [FreeBlock.stop] at hstop
    rw [charge_holding]
    show lease.size + nodeSize ≤ (list.blockOf lease).size
    omega
  · rintro _ hmem
    obtain ⟨lease, hlease, rfl⟩ := List.mem_map.mp hmem
    have hstart := (h.headed lease hlease).start_add_le
    have hpos := nodeSize_pos
    show 0 < list.region.base + lease.payload
    omega

end FreeList

namespace Engine

/-! ## Errands in the books -/

/-- What an errand does to what is held of an engine that takes memory back one by one. -/
inductive Turnover (engine : Engine) (held : List Holding) :
    Errand → Outcome → List Holding → Prop where
  | idle {errand : Errand} (hidle : Idle held errand) : Turnover engine held errand .done held
  | failed {size alignment : Nat} :
      Turnover engine held (.take size alignment) (.memory none) held
  | taken {size alignment address : Nat} :
      Turnover engine held (.take size alignment) (.memory (some address))
        (⟨address, engine.payloadSize size⟩ :: held)
  | given {holding : Holding} (hmem : holding ∈ held) :
      Turnover engine held (.give holding.address) .done (held.erase holding)
  | written {address : Nat} {values : List UInt8} :
      Turnover engine held (.fill address values) .done held

/-- Errands that come to nothing: a request that is not met, and a return of the null address. -/
inductive Errand.Futile : Errand → Outcome → Prop where
  | unmet (size alignment : Nat) : Futile (.take size alignment) (.memory none)
  | null (outcome : Outcome) : Futile (.give 0) outcome

/-- How an errand is entered in the books. What is held turns over; the size of the region, the kind
of engine, and what is charged for memory that stays held, are left alone. -/
structure Posts (errand : Errand) (outcome : Outcome) (before after : Tenancy) : Prop where
  turnover : Turnover before.engine before.held errand outcome after.held
  charge_eq : ∀ holding ∈ after.held, holding ∈ before.held →
    after.engine.charge holding.address = before.engine.charge holding.address
  total_eq : after.engine.tally.total = before.engine.tally.total
  overhead_eq : after.engine.overhead = before.engine.overhead
  capabilities_eq : after.engine.capabilities? = before.engine.capabilities?

namespace Posts

variable {before after : Tenancy}

theorem releases (h : Posts errand outcome before after) (hreleases : before.engine.Releases) :
    after.engine.Releases := by
  rw [Releases, h.capabilities_eq]
  exact hreleases

/-- The bill for memory that stays held stays the same. -/
theorem bill_eq (h : Posts errand outcome before after) (hafter : held ⊆ after.held)
    (hbefore : held ⊆ before.held) : after.engine.bill held = before.engine.bill held :=
  bill_congr fun holding hmem ↦ h.charge_eq holding (hafter hmem) (hbefore hmem)

theorem used_eq (h : Posts errand outcome before after)
    (hbefore : before.engine.Billed before.held) (hafter : after.engine.Billed after.held)
    (hheld : after.held = before.held) : after.engine.tally.used = before.engine.tally.used := by
  have hsub : before.held ⊆ after.held := hheld ▸ List.Subset.refl _
  have hbill := h.bill_eq hsub (List.Subset.refl before.held)
  rw [hafter.used_eq, hheld, hbill, hbefore.used_eq]

/-- **Taking.** What is charged for the memory that was had is put on the bill. -/
theorem used_of_take {size alignment address : Nat}
    (h : Posts (.take size alignment) (.memory (some address)) before after)
    (hbefore : before.engine.Billed before.held) (hafter : after.engine.Billed after.held) :
    ∃ holding ∈ after.held, holding.address = address ∧
      after.engine.tally.used = before.engine.tally.used + after.engine.charge address ∧
      before.engine.payloadSize size + before.engine.overhead ≤ after.engine.charge address := by
  obtain ⟨after, rest⟩ := after
  have hturnover := h.turnover
  cases hturnover with
  | taken =>
    have hbill := h.bill_eq (List.subset_cons_self _ _) (List.Subset.refl before.held)
    have hsize := hafter.size_le _ List.mem_cons_self
    have hused := hafter.used_eq
    refine ⟨_, List.mem_cons_self, rfl, ?_, h.overhead_eq ▸ hsize⟩
    rw [hused, bill_cons, hbill, hbefore.used_eq, Nat.add_comm]

/-- **Giving back.** What is charged for memory that comes back is taken off the bill. -/
theorem used_of_give (h : Posts (.give holding.address) outcome before after)
    (hbefore : before.engine.Billed before.held) (hafter : after.engine.Billed after.held)
    (hmem : holding ∈ before.held) : outcome = .done ∧ before.engine.tally.used =
      after.engine.tally.used + before.engine.charge holding.address := by
  obtain ⟨after, rest⟩ := after
  have hturnover := h.turnover
  generalize haddress : holding.address = address at hturnover h
  cases hturnover with
  | idle hidle =>
    -- nothing is held at the null address, and what is held is found
    rcases hidle with hnull | hfind
    · have hpos := hbefore.address_pos holding hmem
      omega
    · exact absurd (decide_eq_true haddress) (List.find?_eq_none.mp hfind holding hmem)
  | @given other hother =>
    have hsub : before.held.erase other ⊆ before.held := List.erase_subset
    have hbill := h.bill_eq (List.Subset.refl _) hsub
    have hused := hafter.used_eq
    refine ⟨rfl, ?_⟩
    rw [hused, hbill, hbefore.used_eq, bill_erase hother, Nat.add_comm]

/-- **Nothing.** What comes to nothing leaves as much in use as there was. -/
theorem used_of_futile (h : Posts errand outcome before after) (hfutile : errand.Futile outcome)
    (hbefore : before.engine.Billed before.held) (hafter : after.engine.Billed after.held) :
    after.engine.tally.used = before.engine.tally.used := by
  refine h.used_eq hbefore hafter ?_
  obtain ⟨after, rest⟩ := after
  have hturnover := h.turnover
  cases hfutile with
  | unmet =>
    cases hturnover with
    | failed => rfl
  | null =>
    generalize hnull : 0 = address at hturnover
    cases hturnover with
    | idle => rfl
    | given hmem => exact absurd hnull (Nat.ne_of_lt (hbefore.address_pos _ hmem))

theorem mem (h : Posts errand outcome before after) (hmem : holding ∈ before.held)
    (hother : errand ≠ .give holding.address) : holding ∈ after.held := by
  obtain ⟨after, rest⟩ := after
  have hturnover := h.turnover
  cases hturnover with
  | idle | failed | written => exact hmem
  | taken => exact List.mem_cons_of_mem _ hmem
  | @given other =>
    refine (List.mem_erase_of_ne ?_).mpr hmem
    rintro rfl
    exact hother rfl

end Posts

end Engine

theorem Pool.Effect.posts {pool next : Pool} {free free' : List Nat} {held rest : List Holding}
    {errand : Engine.Errand} {outcome : Outcome}
    (h : pool.Effect free held errand outcome next free' rest) (hpool : pool.Shares free held)
    (guise : Guise) (peak peak' : Nat) :
    Engine.Posts errand outcome ⟨guise.engine peak pool, held⟩
      ⟨guise.engine peak' next, rest⟩ := by
  have hstride := h.stride_eq
  have hcapacity := h.capacity_eq
  have hsize := hpool.represents.laid.size_eq
  have hsize' := (h.shares hpool).represents.laid.size_eq
  refine ⟨?_, fun holding _ _ ↦ ?_, ?_, ?_, ?_⟩
  · cases h with
    | idle hidle => exact .idle hidle
    | full => exact .failed
    | popped hpow hfree =>
      have hpayload (size : Nat) : (guise.engine peak pool).payloadSize size = pool.blockSize :=
        guise.payloadSize_engine peak size
      rw [holding, ← hpayload]
      exact .taken
    | @pushed address index hnull hfind =>
      have haddress := List.find?_some hfind
      rw [← of_decide_eq_true haddress]
      exact .given (List.mem_of_find?_eq_some hfind)
    | written => exact .written
  · cases guise <;> exact hstride
  · have hregion : next.slots.region.size = pool.slots.region.size := by
      rw [hsize', hsize, hstride, show next.slots.count = pool.slots.count from hcapacity]
    cases guise <;> exact hregion
  · cases guise <;> rfl
  · cases guise <;> rfl

theorem FreeList.Effect.posts {list next : FreeList} {leases rest : List Lease}
    {errand : Engine.Errand} {outcome : Outcome} (h : list.Effect leases errand outcome next rest)
    (htiled : list.Tiled list.blocks leases) :
    Engine.Posts errand outcome ⟨.freeList list, leases.map list.holding⟩
      ⟨.freeList next, rest.map list.holding⟩ := by
  refine ⟨?_, ?_, h.capacity_eq, rfl, rfl⟩
  · cases h with
    | idle hidle => exact .idle hidle
    | full => exact .failed
    | granted => exact .taken
    | returned hnull hfind hblocks hbetween hrelease =>
      have haddress := List.find?_some hfind
      rw [← of_decide_eq_true haddress, List.map_erase list.holding_injective]
      exact .given (List.mem_of_find?_eq_some hfind)
    | written => exact .written
  · rintro _ hafter hbefore
    obtain ⟨lease, hrest, rfl⟩ := List.mem_map.mp hafter
    have hlease := (List.mem_map_of_injective list.holding_injective).mp hbefore
    have hcharge := next.charge_holding lease
    rw [h.holding_eq] at hcharge
    rw [hcharge, list.charge_holding, blockOf, blockOf, h.header_eq htiled hlease hrest]

/-! ## Stacks -/

namespace ScopedStack.Effect

variable {state next : ScopedStack} {held rest : List Holding} {errand : Engine.Errand}
  {outcome : Outcome} {size alignment address : Nat}

/-- **Taking.** The cursor rises by no less than was asked for, and stays for nothing. -/
theorem exists_raise
    (h : state.Effect held (.take size alignment) (.memory (some address)) next rest) :
    ∃ raise, next.stack.cursor = state.stack.cursor + raise ∧
      next.stack.capacity = state.stack.capacity ∧ size ≤ raise ∧ (size = 0 → raise = 0) := by
  generalize haddress : Outcome.memory (some address) = outcome at h
  cases h with
  | idle | full => cases haddress
  | acted hact => cases hact
  | @taken _ _ first hpow hroom =>
    obtain ⟨hle, -, -, -⟩ := Stack.room?_eq_some hpow hroom
    have hcapacity : (state.stack.taken first size).capacity = state.stack.capacity := by
      rw [Stack.capacity, Stack.region_taken, Stack.capacity]
    rcases Nat.eq_zero_or_pos size with rfl | hpos
    · exact ⟨0, rfl, hcapacity, Nat.le_refl _, fun _ ↦ rfl⟩
    · refine ⟨first + size - state.stack.cursor, ?_, hcapacity, by omega, by omega⟩
      rw [Stack.taken, if_pos hpos, Nat.add_sub_cancel' (by omega)]

theorem eq_of_futile (h : state.Effect held errand outcome next rest)
    (hfutile : errand.Futile outcome) : next = state := by
  cases hfutile with
  | unmet =>
    generalize hunmet : Outcome.memory none = outcome at h
    cases h with
    | idle | full => rfl
    | taken => cases hunmet
    | acted hact => cases hact
  | null =>
    cases h with
    | idle => rfl
    | acted hact => cases hact

end ScopedStack.Effect

namespace Engine

variable {engine : Engine} {holding : Holding} {errand : Errand} {outcome : Outcome}

/-! ## Both builds -/

section Builds

variable (build : Build) (engine : Engine)

theorem payloadSize_forBuild (size : Nat) :
    (engine.forBuild build).payloadSize size = engine.payloadSize size := by
  cases build <;> cases engine <;> rfl

theorem overhead_forBuild : (engine.forBuild build).overhead = engine.overhead := by
  cases build <;> cases engine <;> rfl

theorem capabilities?_forBuild :
    (engine.forBuild build).capabilities? = engine.capabilities? := by
  cases build <;> cases engine <;> rfl

end Builds

namespace Tenancy

variable {tenancy : Tenancy}

/-- A sound allocator tells its byte counts, in either build, and uses no more bytes than it has. -/
theorem Sound.usage_eq (h : tenancy.Sound) (hallocator : tenancy.engine.capabilities?.isSome)
    (build : Build) :
    (tenancy.engine.forBuild build).usage? build = some (.ok tenancy.engine.tally) ∧
      tenancy.engine.tally.used ≤ tenancy.engine.tally.total := by
  cases h with
  | pool guise peak pool held hholds =>
    obtain ⟨free, hpool⟩ := hholds.exists_shares
    obtain ⟨husage, hle⟩ := hpool.represents.usage_eq build
    have husage' := congrArg some husage
    cases build <;> cases guise <;> exact ⟨husage', hle⟩
  | stack state held hbounded => exact ⟨by cases build <;> rfl, hbounded.cursor_le⟩
  | freeList list held hholds =>
    obtain ⟨leases, htiled, rfl⟩ := hholds
    refine ⟨by cases build <;> rfl, ?_⟩
    show list.used ≤ list.capacity
    rw [← htiled.balance]
    exact Nat.le_add_right _ _
  | region => cases hallocator

theorem Sound.billed (h : tenancy.Sound) (hreleases : tenancy.engine.Releases) :
    tenancy.engine.Billed tenancy.held := by
  cases h with
  | pool guise peak pool held hholds =>
    obtain ⟨free, hpool⟩ := hholds.exists_shares
    exact hpool.billed guise peak
  | freeList list held hholds =>
    obtain ⟨leases, htiled, rfl⟩ := hholds
    exact htiled.billed
  | stack | region => cases hreleases

/-- **One errand.** It is done in both builds alike and posted. -/
theorem Sound.exists_posts (h : tenancy.Sound) (hreleases : tenancy.engine.Releases)
    (errand : Errand) : ∃ outcome after, Sound after ∧
      (∀ build, Tenancy.step build errand (tenancy.forBuild build) =
        .ok outcome (after.forBuild build)) ∧
      Posts errand outcome tenancy after := by
  cases h with
  | pool guise peak pool held hholds hfits hpeak =>
    obtain ⟨free, hpool⟩ := hholds.exists_shares
    obtain ⟨outcome, next, free', rest, heffect⟩ := hpool.exists_effect errand
    refine ⟨outcome, ⟨guise.engine (max peak next.allocated) next, rest⟩,
      .pool _ _ _ _ (heffect.shares hpool).holds ?_ (Nat.le_max_right _ _), fun build ↦ ?_,
      heffect.posts hpool guise peak _⟩
    · rwa [heffect.capacity_eq]
    · rw [forBuild, forBuild, forBuild_engine, forBuild_engine]
      exact heffect.step_eq hpool build guise peak hfits hpeak
  | freeList list held hholds =>
    obtain ⟨leases, htiled, rfl⟩ := hholds
    obtain ⟨outcome, next, rest, heffect⟩ := htiled.exists_effect errand
    have hholds : next.Holds (rest.map list.holding) := by
      rw [← heffect.holding_eq]
      exact .of_tiled (heffect.tiled htiled)
    exact ⟨outcome, ⟨.freeList next, rest.map list.holding⟩, .freeList _ _ hholds,
      heffect.step_eq htiled, heffect.posts htiled⟩
  | stack | region => cases hreleases

/-! ## Memory that stays held -/

/-- Some memory that is held of a sound engine with so many bytes in all, and what it is charged
for. -/
structure Owes (tenancy : Tenancy) (holding : Holding) (total charge : Nat) : Prop where
  sound : tenancy.Sound
  releases : tenancy.engine.Releases
  mem : holding ∈ tenancy.held
  total_eq : tenancy.engine.tally.total = total
  charge_eq : tenancy.engine.charge holding.address = charge

namespace Owes

variable {total charge : Nat}

/-- **One errand.** Memory that does not come back is charged for as before. -/
theorem exists_step (h : Owes tenancy holding total charge)
    (hother : errand ≠ .give holding.address) : ∃ outcome after, Owes after holding total charge ∧
      ∀ build, step build errand (tenancy.forBuild build) = .ok outcome (after.forBuild build) := by
  obtain ⟨outcome, after, hafter, hstep, hposts⟩ := h.sound.exists_posts h.releases errand
  have hmem := hposts.mem h.mem hother
  refine ⟨outcome, after, ⟨hafter, hposts.releases h.releases, hmem, ?_, ?_⟩, hstep⟩
  · rw [hposts.total_eq, h.total_eq]
  · rw [hposts.charge_eq holding hmem h.mem, h.charge_eq]

/-- **A run.** Whatever else happens, memory is charged for as it was. -/
theorem exists_run (h : Owes tenancy holding total charge) (errands : List Errand)
    (hothers : ∀ errand ∈ errands, errand ≠ .give holding.address) :
    ∃ answers after, Owes after holding total charge ∧
      ∀ build, run (step build) errands (tenancy.forBuild build) =
        .ok answers (after.forBuild build) := by
  induction errands generalizing tenancy with
  | nil => exact ⟨[], tenancy, h, fun _ ↦ rfl⟩
  | cons errand rest ih =>
    obtain ⟨hfirst, hrest⟩ := List.forall_mem_cons.mp hothers
    obtain ⟨answer, middle, hmiddle, hstep⟩ := h.exists_step hfirst
    obtain ⟨answers, after, hafter, hrun⟩ := ih hmiddle hrest
    exact ⟨answer :: answers, after, hafter, fun build ↦ run_cons (hstep build) (hrun build)⟩

/-- **Giving back.** The charge is taken off the bytes used. -/
theorem exists_give (h : Owes tenancy holding total charge) : ∃ after, Sound after ∧
    after.engine.capabilities?.isSome ∧ after.engine.tally.total = total ∧
    tenancy.engine.tally.used = after.engine.tally.used + charge ∧
      ∀ build, step build (.give holding.address) (tenancy.forBuild build) =
        .ok .done (after.forBuild build) := by
  obtain ⟨outcome, after, hafter, hstep, hposts⟩ :=
    h.sound.exists_posts h.releases (.give holding.address)
  have hreleases := hposts.releases h.releases
  obtain ⟨rfl, hused⟩ :=
    hposts.used_of_give (h.sound.billed h.releases) (hafter.billed hreleases) h.mem
  refine ⟨after, hafter, ?_, hposts.total_eq.trans h.total_eq, h.charge_eq ▸ hused, hstep⟩
  exact Option.isSome_of_any hreleases

end Owes

/-! ## The accounts of a request -/

/-- What an engine tells of its bytes. -/
def Tells (build : Build) (engine : Engine) (total used : Nat) : Prop :=
  engine.usage? build = some (.ok { total, used })

theorem Sound.tells (h : tenancy.Sound) (hallocator : tenancy.engine.capabilities?.isSome)
    (build : Build) :
    Tells build (tenancy.engine.forBuild build) tenancy.engine.tally.total
      tenancy.engine.tally.used := (h.usage_eq hallocator build).1

/-- **Refund.** Whatever happens before it comes back, memory comes back for what it is charged. -/
theorem Owes.exists_refund {total charge : Nat} {build : Build} {errands : List Errand}
    {answers : List Outcome} {middle : Tenancy} (h : Owes tenancy holding total charge)
    (hothers : ∀ errand ∈ errands, errand ≠ .give holding.address)
    (hrun : run (step build) errands (tenancy.forBuild build) = .ok answers middle) :
    ∃ rest last, Tells build middle.engine total (rest + charge) ∧
      step build (.give holding.address) middle = .ok .done last ∧
      Tells build last.engine total rest := by
  obtain ⟨answers', later, hlater, hruns⟩ := h.exists_run errands hothers
  obtain ⟨last, hlast, hallocator, htotal, hpaid, hgive⟩ := hlater.exists_give
  rw [hruns build] at hrun
  cases hrun
  have htells := hlater.sound.tells (Option.isSome_of_any hlater.releases) build
  have htells' := hlast.tells hallocator build
  rw [hpaid, hlater.total_eq] at htells
  rw [htotal] at htells'
  exact ⟨_, _, htells, hgive build, htells'⟩

/-- What a request does that was answered with an address, by an engine that told of so many bytes
in all and in use. -/
structure Charges (build : Build) (before after : Tenancy) (size address total used raise : Nat) :
    Prop where
  /-- The engine told that there is room. -/
  canHold : ({ total, used } : Usage).canHold build (before.engine.payloadSize size) = .ok true
  tells : Tells build after.engine total (used + raise)
  le_raise : before.engine.payloadSize size + before.engine.overhead ≤ raise
  /-- A stack gives no bytes for nothing. -/
  raise_eq_zero : (∃ state, before.engine = .stack state) → size = 0 → raise = 0
  /-- The memory can be given back at any time later, for what it was charged. -/
  refund : before.engine.Releases →
    ∀ errands answers middle, (∀ errand ∈ errands, errand ≠ .give address) →
      run (step build) errands after = .ok answers middle →
        ∃ rest last, Tells build middle.engine total (rest + raise) ∧
          step build (.give address) middle = .ok .done last ∧ Tells build last.engine total rest

theorem Sound.exists_charges {build : Build} {size alignment address : Nat} {after : Tenancy}
    (h : tenancy.Sound) (hreleases : tenancy.engine.Releases)
    (hstep : Tenancy.step build (.take size alignment) (tenancy.forBuild build) =
      .ok (.memory (some address)) after) :
    ∃ raise, Charges build (tenancy.forBuild build) after size address
      tenancy.engine.tally.total tenancy.engine.tally.used raise := by
  obtain ⟨outcome, next, hnext, hsteps, hposts⟩ := h.exists_posts hreleases (.take size alignment)
  rw [hsteps build] at hstep
  cases hstep
  have hreleases' := hposts.releases hreleases
  have hallocator := Option.isSome_of_any hreleases'
  obtain ⟨holding, hmem, rfl, hused, hle⟩ :=
    hposts.used_of_take (h.billed hreleases) (hnext.billed hreleases')
  have hroom := (hnext.usage_eq hallocator build).2
  have htells := hnext.tells hallocator build
  rw [hused, hposts.total_eq] at hroom htells
  refine ⟨next.engine.charge holding.address, ?_, htells, ?_, ?_, ?_⟩
  · rw [Usage.canHold_of_le build (by omega : tenancy.engine.tally.used ≤ _), forBuild,
      payloadSize_forBuild, decide_eq_true (by omega)]
  · rw [forBuild, payloadSize_forBuild, overhead_forBuild]
    exact hle
  · rintro ⟨state, hstack⟩
    have hcapabilities := capabilities?_forBuild build tenancy.engine
    rw [show tenancy.engine.forBuild build = .stack state from hstack] at hcapabilities
    rw [Releases, ← hcapabilities] at hreleases
    cases hreleases
  · rintro - errands answers middle hothers hrun
    have howes : Owes next holding tenancy.engine.tally.total
        (next.engine.charge holding.address) := ⟨hnext, hreleases', hmem, hposts.total_eq, rfl⟩
    exact howes.exists_refund hothers hrun

theorem exists_charges_of_stack {build : Build} {state : ScopedStack} {held : List Holding}
    {size alignment address : Nat} {after : Tenancy} (hbounded : state.stack.Bounded)
    (hstep : step build (.take size alignment) ⟨.stack state, held⟩ =
      .ok (.memory (some address)) after) :
    ∃ raise, Charges build ⟨.stack state, held⟩ after size address state.stack.capacity
      state.stack.cursor raise := by
  obtain ⟨outcome, next, rest, heffect⟩ :=
    ScopedStack.exists_effect (.take size alignment) state held
  rw [heffect.step_eq hbounded build] at hstep
  cases hstep
  obtain ⟨raise, hcursor, hcapacity, hle, hzero⟩ := heffect.exists_raise
  have hroom := (heffect.bounded hbounded).cursor_le
  rw [hcursor, hcapacity] at hroom
  have hused : state.stack.cursor ≤ state.stack.capacity := hbounded.cursor_le
  refine ⟨raise, ?_, ?_, hle, fun _ ↦ hzero, ?_⟩
  · have hholds : size ≤ state.stack.capacity - state.stack.cursor := by omega
    rw [Usage.canHold_of_le build hused]
    exact congrArg Except.ok (decide_eq_true hholds)
  · rw [← hcursor, ← hcapacity]
    rfl
  · rintro ⟨⟩

/-- An allocator takes memory back one by one, or it is a stack. -/
theorem Sound.releases_or_stack (h : tenancy.Sound)
    (hallocator : tenancy.engine.capabilities?.isSome) :
    tenancy.engine.Releases ∨ ∃ state held, state.stack.Bounded ∧
      tenancy = ⟨.stack state, held⟩ := by
  cases h with
  | pool guise => exact Or.inl (by cases guise <;> rfl)
  | stack state held hbounded => exact Or.inr ⟨state, held, hbounded, rfl⟩
  | freeList => exact Or.inl rfl
  | region => cases hallocator

theorem Sound.tells_of_futile {build : Build} {after : Tenancy} (h : tenancy.Sound)
    (hallocator : tenancy.engine.capabilities?.isSome) (hfutile : errand.Futile outcome)
    (hstep : Tenancy.step build errand (tenancy.forBuild build) = .ok outcome after) :
    Tells build after.engine tenancy.engine.tally.total tenancy.engine.tally.used := by
  rcases h.releases_or_stack hallocator with hreleases | ⟨state, held, hbounded, rfl⟩
  · obtain ⟨outcome', next, hnext, hsteps, hposts⟩ := h.exists_posts hreleases errand
    rw [hsteps build] at hstep
    cases hstep
    have hreleases' := hposts.releases hreleases
    have hused := hposts.used_of_futile hfutile (h.billed hreleases) (hnext.billed hreleases')
    rw [← hused, ← hposts.total_eq]
    exact hnext.tells (Option.isSome_of_any hreleases') build
  · obtain ⟨outcome', next, rest, heffect⟩ := ScopedStack.exists_effect errand state held
    have hsame : Tenancy.step build errand ⟨.stack state, held⟩ = .ok outcome after := hstep
    rw [heffect.step_eq hbounded build] at hsame
    cases hsame
    rw [heffect.eq_of_futile hfutile]
    rfl

/-- **Accounts.** Take any allocator, in any state that callers who keep the contract can bring
about, in either build. It tells how many bytes it has and how many of them are used, which are no
more, so what is available can be told too. A request that is met had been told that there is room,
and raises the used bytes by no less than was asked for and, for a free list, a header; when the
memory comes back, whatever happened in between, they fall by just that. A request that is not met
and a return of the null address leave them as they were. -/
theorem Reachable.accounts {build : Build} (h : Reachable build tenancy)
    (hallocator : tenancy.engine.capabilities?.isSome) :
    ∃ total used, Tells build tenancy.engine total used ∧ used ≤ total ∧
      ({ total, used } : Usage).available build = .ok (total - used) ∧
      (∀ size alignment address after,
        step build (.take size alignment) tenancy = .ok (.memory (some address)) after →
          ∃ raise, Charges build tenancy after size address total used raise) ∧
      ∀ errand outcome after, errand.Futile outcome →
        step build errand tenancy = .ok outcome after → Tells build after.engine total used := by
  obtain ⟨sound, hsound, rfl⟩ := h.exists_sound
  replace hallocator : sound.engine.capabilities?.isSome := by
    rwa [← capabilities?_forBuild build]
  obtain ⟨husage, hle⟩ := hsound.usage_eq hallocator build
  refine ⟨_, _, husage, hle, Usage.available_of_le build hle, ?_,
    fun errand outcome after hfutile hstep ↦ hsound.tells_of_futile hallocator hfutile hstep⟩
  intro size alignment address after hstep
  rcases hsound.releases_or_stack hallocator with hreleases | ⟨state, held, hbounded, rfl⟩
  · exact hsound.exists_charges hreleases hstep
  · exact exists_charges_of_stack hbounded hstep

/-- A free list of 128 bytes charges a header and 24 bytes. -/
theorem accounts_header : ∃ engine after raise,
    Engine.new .checked ⟨fun _ _ ↦ true, fun _ ↦ 4096, fun _ ↦ 9⟩
        (.freeList { size := 128, alignment := 64 } .firstFit) = .ok engine ∧
      engine.capabilities?.isSome ∧
      step .checked (.take 24 8) ⟨engine, []⟩ = .ok (.memory (some 4112)) after ∧
      Tells .checked engine 128 0 ∧ Charges .checked ⟨engine, []⟩ after 24 4112 128 0 raise := by
  have hnew : Engine.new .checked ⟨fun _ _ ↦ true, fun _ ↦ 4096, fun _ ↦ 9⟩
      (.freeList { size := 128, alignment := 64 } .firstFit) = .ok (.freeList
        (FreeList.setNode ⟨⟨4096, 64, fillBytes 128 fun _ ↦ 9⟩, .firstFit, 0, 0, 0⟩ 0
          ⟨128, chainEnd⟩)) := rfl
  obtain ⟨answers, fresh, hrun, hreachable⟩ := exists_reachable hnew
    ⟨by decide +kernel, by decide +kernel, by decide +kernel⟩ []
  cases hrun
  obtain ⟨total, used, htells, -, -, hmet, -⟩ := hreachable.accounts rfl
  have hcapacity : (FreeList.setNode ⟨⟨4096, 64, fillBytes 128 fun _ ↦ 9⟩, .firstFit, 0, 0, 0⟩ 0
      ⟨128, chainEnd⟩).capacity = 128 := by decide +kernel
  have hcounts : Tells .checked (.freeList (FreeList.setNode
      ⟨⟨4096, 64, fillBytes 128 fun _ ↦ 9⟩, .firstFit, 0, 0, 0⟩ 0 ⟨128, chainEnd⟩)) 128 0 := by
    rw [Tells, usage?, FreeList.usage, hcapacity]
    rfl
  have heval : (Call.settled (step .checked (.take 24 8) ⟨.freeList (FreeList.setNode
      ⟨⟨4096, 64, fillBytes 128 fun _ ↦ 9⟩, .firstFit, 0, 0, 0⟩ 0 ⟨128, chainEnd⟩),
        []⟩)).1.toOption = some (.memory (some 4112)) := by decide +kernel
  have hsame := htells.symm.trans hcounts
  injection hsame with hsame
  injection hsame with hsame
  injection hsame with htotal hused
  subst htotal hused
  cases hstep : step .checked (.take 24 8) ⟨.freeList (FreeList.setNode
      ⟨⟨4096, 64, fillBytes 128 fun _ ↦ 9⟩, .firstFit, 0, 0, 0⟩ 0 ⟨128, chainEnd⟩), []⟩ with
  | error fault after =>
    rw [hstep] at heval
    cases heval
  | ok outcome after =>
    rw [hstep] at heval
    obtain rfl := Option.some.inj heval
    obtain ⟨raise, hcharges⟩ := hmet _ _ _ _ hstep
    exact ⟨_, after, raise, hnew, rfl, hstep, hcounts, hcharges⟩

end Tenancy

end Engine

end Suballoc
