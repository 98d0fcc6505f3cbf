import Suballoc.Proofs.FreeList.Return
import Suballoc.Proofs.FreeList.Take
import Suballoc.Proofs.Tenancy

/-!
# Runs of a free list

The callers of a free list take blocks, give back what they hold, or the null address, and write to
what they hold. No run of such errands faults, in either build, and after each the blocks tile the
region.

That is one lemma per errand. Writes need the only new argument: the bytes of a lease are neither a
node nor a header, so a holder can put anything there.
-/

namespace Suballoc

open Suballoc.Tenancy (onEngine onEngine_of_ok run exists_run)

namespace FreeList

/-- Something a caller of a free list does. -/
inductive Errand where
  /-- Ask for so many bytes at an alignment. -/
  | take (size alignment : Nat)
  /-- Give back the lease at an address that is held, or the null address. -/
  | give (address : Nat)
  /-- Write to the lease at an address that is held, from an offset inside it on. -/
  | fill (address offset : Nat) (values : List UInt8)
deriving DecidableEq, Repr

/-- A free list and the leases that are out. -/
abbrev Tenancy : Type := Suballoc.Tenancy FreeList Lease

/-- Write to memory, from an offset on. -/
def write (list : FreeList) (offset : Nat) (values : List UInt8) : FreeList :=
  { list with region := list.region.write offset values }

namespace Tenancy

/-- The lease at an address. -/
def leaseAt? (tenancy : Tenancy) (address : Nat) : Option Lease :=
  tenancy.held.find? fun lease ↦ tenancy.engine.region.base + lease.payload = address

/-- Run an errand; the answer is the address that was taken, if any. What a caller may not do, it
does not do: errands about addresses nobody holds and writes past the end of a lease are dropped,
and so are requests whose alignment is not a power of two. -/
def step (build : Build) : Errand → Call Tenancy (Option Nat)
  | .take size alignment =>
    if alignment.isPowerOfTwo then do
      let answer ← onEngine (allocate build size alignment)
      match answer with
      | none => return none
      | some address =>
        modify fun tenancy ↦
          { tenancy with
            held := { payload := Word.sub address tenancy.engine.region.base, size } ::
              tenancy.held }
        return some address
    else return none
  | .give address =>
    if address = 0 then do
      onEngine (release build address)
      return none
    else do
      match (← get).leaseAt? address with
      | none => return none
      | some lease =>
        onEngine (release build address)
        modify fun tenancy ↦ { tenancy with held := tenancy.held.erase lease }
        return none
  | .fill address offset values => do
    match (← get).leaseAt? address with
    | none => return none
    | some lease =>
      if offset + values.length ≤ lease.size then
        modify fun tenancy ↦
          { tenancy with engine := tenancy.engine.write (lease.payload + offset) values }
      return none

theorem leaseAt?_eq_some {tenancy : Tenancy} {lease : Lease} {address : Nat}
    (h : tenancy.leaseAt? address = some lease) :
    lease ∈ tenancy.held ∧ tenancy.engine.region.base + lease.payload = address :=
  ⟨List.mem_of_find?_eq_some h, by simpa using List.find?_some h⟩

end Tenancy

variable {list : FreeList} {free : List FreeBlock} {leases : List Lease} {lease : Lease}

/-! ## Construction -/

theorem new_eq_ok {platform : Platform} {wanted : Reservation} {strategy : FitStrategy}
    (hnew : new platform wanted strategy = .ok list) :
    nodeSize < wanted.size ∧ ∃ region, Region.reserve platform wanted = .ok region ∧
      list = setNode { region, strategy, head := 0, used := 0, allocations := 0 } 0
        { size := wanted.size, next := chainEnd } := by
  rw [new] at hnew
  by_cases hsize : wanted.size ≤ nodeSize
  · rw [if_pos hsize] at hnew
    cases hnew
  · rw [if_neg hsize] at hnew
    obtain ⟨region, hreserve, hnew⟩ := Call.bind_eq_ok.mp hnew
    exact ⟨Nat.not_le.mp hsize, region, hreserve, (Except.ok.inj hnew).symm⟩

theorem alignment_setNode (list : FreeList) (offset : Nat) (node : Node) :
    (list.setNode offset node).region.alignment = list.region.alignment := by
  simp [setNode]

theorem region_new {platform : Platform} {wanted : Reservation} {strategy : FitStrategy}
    (hnew : new platform wanted strategy = .ok list) :
    list.region.base = platform.base wanted.alignment ∧
      list.region.alignment = wanted.alignment ∧ list.region.size = wanted.size := by
  obtain ⟨-, region, hreserve, rfl⟩ := new_eq_ok hnew
  obtain ⟨-, hbase, halignment, hsize⟩ := Region.reserve_eq_ok hreserve
  refine ⟨?_, ?_, ?_⟩
  · rw [base_setNode]
    exact hbase
  · rw [alignment_setNode]
    exact halignment
  · rw [← capacity, capacity_setNode]
    exact hsize

/-- A free list is refused only for what its description says or by the platform. -/
theorem exists_new {platform : Platform} {wanted : Reservation} (strategy : FitStrategy)
    (hvalid : wanted.Valid) (hgrants : platform.grants wanted.size wanted.alignment = true)
    (hsize : nodeSize < wanted.size) : ∃ list, new platform wanted strategy = .ok list := by
  rw [new, if_neg (Nat.not_le.mpr hsize), Region.reserve,
    (Reservation.check_eq_ok_iff wanted).mpr hvalid]
  simp only [hgrants, if_true]
  exact ⟨_, rfl⟩

theorem tiled_setNode {size : Nat} (hbase : Word.width ∣ list.region.base)
    (hstop : list.region.base + list.capacity < Word.limit) (hcapacity : list.capacity = size)
    (hsize : nodeSize < size) (hhead : list.head = 0) (hused : list.used = 0)
    (hallocations : list.allocations = 0) :
    Tiled (list.setNode 0 { size, next := chainEnd }) [{ offset := 0, size }] [] := by
  have hlimit : size < Word.limit := by omega
  obtain ⟨hfirst, hsecond⟩ :=
    words_setNode list 0 { size, next := chainEnd } (by omega) hlimit (Nat.lt_succ_self chainEnd)
  have hlinked : Linked (list.setNode 0 { size, next := chainEnd }).region
      (list.setNode 0 { size, next := chainEnd }).head [{ offset := 0, size }] chainEnd := by
    rw [head_setNode, hhead]
    exact ⟨rfl, hfirst, hsecond⟩
  refine ⟨by rwa [base_setNode], by rwa [base_setNode, capacity_setNode], hlinked,
    List.pairwise_singleton _ _, ?_, ?_, ?_, ?_, ?_, ?_⟩
  · intro block hblock
    obtain rfl := List.mem_singleton.mp hblock
    exact ⟨Nat.dvd_zero _, Nat.le_of_lt hsize⟩
  · intro lease hlease
    exact absurd hlease List.not_mem_nil
  · intro i
    rw [blocksOf, List.map_nil, covering_nil, Nat.add_zero, covering_cons, covering_nil,
      Nat.zero_add, capacity_setNode, hcapacity]
    refine if_congr ?_ rfl rfl
    simp only [FreeBlock.Covers, FreeBlock.stop]
    omega
  · rw [setNode]
    exact hused
  · rw [setNode]
    exact hallocations
  · rw [capacity_setNode, hcapacity, List.map_singleton, List.sum_singleton, setNode]
    exact (congrArg (· + size) hused).trans (Nat.zero_add size)

/-- **Construction.** A new free list is one free block. -/
theorem tiled_new {platform : Platform} {wanted : Reservation} {strategy : FitStrategy}
    (hnew : new platform wanted strategy = .ok list)
    (haligned : list.region.alignment ∣ list.region.base)
    (hstop : list.region.stop < Word.limit) :
    Tiled list [{ offset := 0, size := wanted.size }] [] ∧ list.capacity = wanted.size := by
  obtain ⟨hsize, region, hreserve, rfl⟩ := new_eq_ok hnew
  obtain ⟨hvalid, -, halignment, hcapacity⟩ := Region.reserve_eq_ok hreserve
  have hword : Word.width ∣ wanted.alignment :=
    dvd_of_isPowerOfTwo_of_le isPowerOfTwo_width hvalid.isPowerOfTwo hvalid.width_le
  rw [alignment_setNode, base_setNode] at haligned
  rw [Region.stop, base_setNode, ← capacity, capacity_setNode] at hstop
  refine ⟨tiled_setNode ?_ hstop hcapacity hsize rfl rfl rfl, ?_⟩
  · exact Nat.dvd_trans hword (halignment ▸ haligned)
  · rw [capacity_setNode]
    exact hcapacity

/-! ## Writes of holders -/

/-- A tiling depends only on the nodes and the headers. -/
theorem Tiled.congr {region : Region} (h : Tiled list free leases)
    (hbase : region.base = list.region.base) (hsize : region.size = list.region.size)
    (hnodes : ∀ block ∈ free, list.region.AgreeAt region block.offset)
    (hheaders : ∀ lease ∈ leases, list.region.AgreeAt region (lease.payload - nodeSize)) :
    Tiled { list with region } free leases := by
  have hblocks : blocksOf { list with region } leases = list.blocksOf leases :=
    List.map_congr_left fun lease hlease ↦ blockOf_congr (hheaders lease hlease)
  have hcapacity : capacity { list with region } = list.capacity := hsize
  refine ⟨hbase ▸ h.base_aligned, ?_, h.linked.congr hnodes, h.apart, h.sized, fun lease hlease ↦
    (h.headed lease hlease).congr (hheaders lease hlease), ?_, ?_, h.allocations_eq, ?_⟩
  · rw [hcapacity]
    exact hbase ▸ h.stop_lt
  · intro i
    rw [hblocks, hcapacity]
    exact h.partition i
  · rw [hblocks]
    exact h.used_eq
  · rw [hcapacity]
    exact h.balance

theorem Tiled.sub_base (h : Tiled list free leases) (hlease : lease ∈ leases) :
    Word.sub (list.region.base + lease.payload) list.region.base = lease.payload := by
  have hstop := (h.headed lease hlease).le_stop
  have hinside := h.lease_stop_le hlease
  have hlt := h.stop_lt
  rw [Word.sub_of_le (Nat.le_add_right _ _) (by omega), Nat.add_sub_cancel_left]

theorem Tiled.agreeAt_write {offset : Nat} {values : List UInt8} {other : Lease}
    (h : Tiled list free leases) (hlease : lease ∈ leases)
    (hfits : offset + values.length ≤ lease.size) (hother : other ∈ leases) :
    list.region.AgreeAt (list.write (lease.payload + offset) values).region
      (other.payload - nodeSize) := by
  have hperm : leases.Perm (lease :: leases.erase lease) := List.perm_cons_erase hlease
  have hheaded := h.headed lease hlease
  have hothers := h.headed other hother
  have hstart := hheaded.start_add_le
  have hstop := hheaded.le_stop
  have hstart' := hothers.start_add_le
  have hstop' := hothers.le_stop
  intro i hle hlt
  refine Region.byteAt_write_of_not_mem ?_
  -- a header lies before the lease that is written to, or in the block of another lease
  rcases List.mem_cons.mp (hperm.mem_iff.mp hother) with rfl | hother
  · omega
  · have hside := (h.perm hperm).lease_or_lease hother
    omega

/-- **Holders write freely.** What is written inside a lease changes neither nodes nor headers. -/
theorem Tiled.write {offset : Nat} {values : List UInt8} (h : Tiled list free leases)
    (hlease : lease ∈ leases) (hfits : offset + values.length ≤ lease.size) :
    Tiled (list.write (lease.payload + offset) values) free leases := by
  have hheaded := h.headed lease hlease
  have hstart := hheaded.start_add_le
  have hstop := hheaded.le_stop
  refine h.congr (Region.base_write _ _ _) (Region.size_write _ _ _) ?_ fun _ hother ↦
    h.agreeAt_write hlease hfits hother
  intro block hblock i hle hlt
  refine Region.byteAt_write_of_not_mem ?_
  have hsize := (h.sized block hblock).2
  have hside := h.free_or_lease hblock hlease
  rw [FreeBlock.stop] at hside
  omega

/-! ## Runs -/

namespace Tenancy

variable {tenancy : Tenancy} {lease : Lease} {address : Nat}

/-- The free blocks and the leases of a tenancy tile its region. -/
def Tiled (tenancy : Tenancy) : Prop :=
  FreeList.Tiled tenancy.engine tenancy.engine.blocks tenancy.held

theorem Tiled.of_free {free : List FreeBlock}
    (h : tenancy.engine.Tiled free tenancy.held) : tenancy.Tiled := by
  rw [Tiled, h.blocks_eq]
  exact h

theorem Tiled.step_take (build : Build) (size alignment : Nat) (h : tenancy.Tiled) :
    ∃ answer after, step build (.take size alignment) tenancy = .ok answer after ∧ after.Tiled ∧
      after.engine.capacity = tenancy.engine.capacity := by
  rw [step]
  by_cases hpow : alignment.isPowerOfTwo
  · rw [if_pos hpow]
    rcases FreeList.Tiled.allocate_run size h hpow with
      hnone | ⟨before, fit, after, hblocks, hsound, -, hsome⟩
    · refine ⟨none, tenancy, ?_, h, rfl⟩
      exact Call.run_bind_of_ok (onEngine_of_ok (hnone build))
    · have htiled : tenancy.engine.Tiled (before ++ fit.block :: after) tenancy.held := by
        rw [← hblocks]
        exact h
      have hgranted := htiled.granted hsound
      -- what the callers note down is the lease that the header is about
      have hpayload : Word.sub (tenancy.engine.region.base + (fit.lease size).payload)
          (tenancy.engine.granted fit).region.base = (fit.lease size).payload := by
        have hbase : (tenancy.engine.granted fit).region.base = tenancy.engine.region.base :=
          FreeList.base_granted
        rw [← hbase]
        exact hgranted.sub_base List.mem_cons_self
      refine ⟨some (tenancy.engine.region.base + (fit.lease size).payload),
        ⟨tenancy.engine.granted fit, fit.lease size :: tenancy.held⟩, ?_,
        Tiled.of_free hgranted, FreeList.capacity_granted⟩
      rw [Call.run_bind_of_ok (onEngine_of_ok (hsome build))]
      simp only [Call.run_bind, Call.run_modify, Call.run_pure, hpayload]
      rfl
  · rw [if_neg hpow]
    exact ⟨none, tenancy, rfl, h, rfl⟩

theorem Tiled.step_give (build : Build) (address : Nat) (h : tenancy.Tiled) :
    ∃ after, step build (.give address) tenancy = .ok none after ∧ after.Tiled ∧
      after.engine.capacity = tenancy.engine.capacity := by
  rw [step]
  by_cases hnull : address = 0
  · rw [if_pos hnull]
    have hrelease : FreeList.release build address tenancy.engine = .ok () tenancy.engine := by
      rw [FreeList.release, if_pos hnull, Call.run_pure]
    refine ⟨tenancy, ?_, h, rfl⟩
    rw [Call.run_bind_of_ok (onEngine_of_ok hrelease), Call.run_pure]
  · rw [if_neg hnull]
    simp only [Call.run_bind, Call.run_get]
    cases hfind : tenancy.leaseAt? address with
    | none => exact ⟨tenancy, rfl, h, rfl⟩
    | some lease =>
      obtain ⟨hlease, rfl⟩ := leaseAt?_eq_some hfind
      have hperm : tenancy.held.Perm (lease :: tenancy.held.erase lease) :=
        List.perm_cons_erase hlease
      have htiled := FreeList.Tiled.perm h hperm
      obtain ⟨before, after, hblocks, hbetween, hrelease⟩ := htiled.release_run
      rw [hblocks] at htiled
      refine ⟨⟨tenancy.engine.returnedTo before lease after, tenancy.held.erase lease⟩, ?_,
        Tiled.of_free (htiled.returnedTo hbetween), FreeList.capacity_restored⟩
      simp only [Call.run_bind, onEngine_of_ok (hrelease build), Call.run_modify, Call.run_pure]

theorem Tiled.step_fill (build : Build) (address offset : Nat) (values : List UInt8)
    (h : tenancy.Tiled) :
    ∃ after, step build (.fill address offset values) tenancy = .ok none after ∧ after.Tiled ∧
      after.engine.capacity = tenancy.engine.capacity := by
  rw [step]
  simp only [Call.run_bind, Call.run_get]
  cases hfind : tenancy.leaseAt? address with
  | none => exact ⟨tenancy, rfl, h, rfl⟩
  | some lease =>
    obtain ⟨hlease, -⟩ := leaseAt?_eq_some hfind
    by_cases hfits : offset + values.length ≤ lease.size
    · refine ⟨⟨tenancy.engine.write (lease.payload + offset) values, tenancy.held⟩, ?_,
        Tiled.of_free (FreeList.Tiled.write h hlease hfits), Region.size_write _ _ _⟩
      simp only [if_pos hfits, Call.run_bind, Call.run_modify, Call.run_pure]
    · refine ⟨tenancy, ?_, h, rfl⟩
      simp only [if_neg hfits, Call.run_pure]

/-- **One errand.** Whatever a caller does, the blocks tile the region again, in either build. -/
theorem tiled_step (build : Build) (errand : Errand) (h : tenancy.Tiled) :
    ∃ answer after, step build errand tenancy = .ok answer after ∧ after.Tiled ∧
      after.engine.capacity = tenancy.engine.capacity := by
  cases errand with
  | take size alignment => exact h.step_take build size alignment
  | give address => exact ⟨none, h.step_give build address⟩
  | fill address offset values => exact ⟨none, h.step_fill build address offset values⟩

/-- **A run.** The blocks tile the region after any number of errands. -/
theorem tiled_run (build : Build) (errands : List Errand) (h : tenancy.Tiled) :
    ∃ answers, ∃ after : Tenancy, run (step build) errands tenancy = .ok answers after ∧
      after.Tiled ∧ after.engine.capacity = tenancy.engine.capacity :=
  exists_run
    (fun after : Tenancy ↦ after.Tiled ∧ after.engine.capacity = tenancy.engine.capacity)
    (fun errand middle hmiddle ↦ by
      obtain ⟨answer, after, hstep, hafter, hsame⟩ := tiled_step build errand hmiddle.1
      exact ⟨answer, after, hstep, hafter, hsame.trans hmiddle.2⟩)
    errands ⟨h, rfl⟩

theorem available_eq (build : Build) (h : tenancy.Tiled) :
    tenancy.engine.available build =
      .ok ((tenancy.engine.blocks.map FreeBlock.size).sum) := by
  have hbalance := h.balance
  rw [FreeList.available, Build.sub_of_le build (by omega)]
  exact congrArg Except.ok (by omega)

/-- **The tiling.** From construction on, whatever callers do, the chain leads in ascending order
through free blocks that do not touch and ends; these and the blocks of the leases, as the headers
tell, share the bytes of the region; and the counters agree with them. -/
theorem run_tiles_region {build : Build} {platform : Platform} {wanted : Reservation}
    {strategy : FitStrategy} {list : FreeList}
    (hnew : FreeList.new platform wanted strategy = .ok list)
    (haligned : list.region.alignment ∣ list.region.base)
    (hstop : list.region.stop < Word.limit) (errands : List Errand) :
    ∃ answers, ∃ after : Tenancy, run (step build) errands ⟨list, []⟩ = .ok answers after ∧
      after.engine.Tiled after.engine.blocks after.held ∧ after.engine.capacity = wanted.size ∧
      after.engine.available build = .ok ((after.engine.blocks.map FreeBlock.size).sum) := by
  obtain ⟨htiled, hcapacity⟩ := FreeList.tiled_new hnew haligned hstop
  have hstart : Tiled ⟨list, []⟩ := Tiled.of_free htiled
  obtain ⟨answers, after, hrun, hafter, hsame⟩ := tiled_run build errands hstart
  exact ⟨answers, after, hrun, hafter, hsame.trans hcapacity, available_eq build hafter⟩

/-- A ragged region, a payload of no bytes, and padding before a header. -/
theorem run_tiles_region_ragged :
    ∃ list, FreeList.new ⟨fun _ _ ↦ true, fun _ ↦ 4096, fun _ ↦ 0⟩
        { size := 201, alignment := 64 } .bestFit = .ok list ∧
      ∃ answers, ∃ after : Tenancy,
        run (step .checked) [.take 0 64, .take 10 8, .fill 4176 3 [7, 8], .give 4160, .give 0,
            .give 4176] ⟨list, []⟩ = .ok answers after ∧
          after.engine.Tiled after.engine.blocks after.held ∧ after.engine.capacity = 201 ∧
          after.engine.available .checked =
            .ok ((after.engine.blocks.map FreeBlock.size).sum) := by
  obtain ⟨list, hnew⟩ : ∃ list, FreeList.new ⟨fun _ _ ↦ true, fun _ ↦ 4096, fun _ ↦ 0⟩
      { size := 201, alignment := 64 } .bestFit = .ok list :=
    FreeList.exists_new .bestFit ⟨by decide, ⟨6, rfl⟩, by decide, by decide⟩ rfl (by decide)
  obtain ⟨hbase, halignment, hsize⟩ := FreeList.region_new hnew
  refine ⟨list, hnew, run_tiles_region hnew ?_ ?_ _⟩
  · rw [hbase, halignment]
    decide
  · rw [Region.stop, hbase, hsize]
    decide

end Tenancy

end FreeList

end Suballoc
