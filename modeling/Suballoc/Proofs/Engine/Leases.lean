import Suballoc.Proofs.Engine.Blank
import Suballoc.Proofs.FreeList.Room
import Suballoc.Proofs.FreeList.Stray

/-!
# Leases over time

What a free list does with a request or an address is settled by the tiling of its region, and the
tiling is there in every state that callers can bring about. What they want to know besides is about
addresses that they got earlier. As long as a lease is out, the header before it stays, and so does
the block that the header names; where the region lies and how large it is never changes. With that,
three promises hold at any later time: a request is placed where the strategy says, an address that
has come back is refused, and one that is still out makes room when it comes back.
-/

namespace Suballoc

open Engine.Tenancy
open Suballoc.Tenancy (run run_cons)

namespace FreeList

variable {list next : FreeList} {leases rest : List Lease} {lease : Lease} {held : List Holding}

/-- The lease of a holder. -/
def leaseOf (list : FreeList) (holding : Holding) : Lease where
  payload := holding.address - list.region.base
  size := holding.size

theorem leaseOf_holding (list : FreeList) (lease : Lease) :
    list.leaseOf (list.holding lease) = lease := by
  rw [leaseOf, holding, Nat.add_sub_cancel_left]

/-! ## Runs -/

theorem Effect.mem {errand : Engine.Errand} {outcome : Outcome}
    (h : Effect list leases errand outcome next rest) (hlease : lease ∈ leases)
    (hkept : errand ≠ .give (list.holding lease).address) : lease ∈ rest := by
  cases h with
  | idle | full | written => exact hlease
  | granted => exact List.mem_cons_of_mem _ hlease
  | @returned address _ _ other hnull hfind =>
    refine (List.mem_erase_of_ne ?_).mpr hlease
    rintro rfl
    have haddress := List.find?_some hfind
    exact hkept (congrArg _ (of_decide_eq_true haddress).symm)

/-- What errands make of a list and its leases: the blocks tile the same region, and a lease whose
address did not come back is out still, with the header that it had. -/
structure LeadsTo (list : FreeList) (leases : List Lease) (errands : List Engine.Errand)
    (next : FreeList) (rest : List Lease) : Prop where
  tiled : next.Tiled next.blocks rest
  base_eq : next.region.base = list.region.base
  capacity_eq : next.capacity = list.capacity
  strategy_eq : next.strategy = list.strategy
  keeps : ∀ lease ∈ leases, (∀ errand ∈ errands, errand ≠ .give (list.holding lease).address) →
    lease ∈ rest ∧
      next.header (lease.payload - nodeSize) = list.header (lease.payload - nodeSize)

theorem Effect.leadsTo {errand : Engine.Errand} {errands : List Engine.Errand} {outcome : Outcome}
    {last : FreeList} {left : List Lease} (h : list.Tiled list.blocks leases)
    (heffect : Effect list leases errand outcome next rest)
    (hlast : next.LeadsTo rest errands last left) :
    list.LeadsTo leases (errand :: errands) last left where
  tiled := hlast.tiled
  base_eq := hlast.base_eq.trans heffect.base_eq
  capacity_eq := hlast.capacity_eq.trans heffect.capacity_eq
  strategy_eq := hlast.strategy_eq.trans (congrArg Prod.snd heffect.site_eq)
  keeps lease hlease hnot := by
    have hrest := heffect.mem hlease (hnot errand List.mem_cons_self)
    obtain ⟨hleft, hheader⟩ := hlast.keeps lease hrest fun later hmem ↦ by
      rw [heffect.holding_eq]
      exact hnot later (List.mem_cons_of_mem _ hmem)
    exact ⟨hleft, hheader.trans (heffect.header_eq h hlease hrest)⟩

/-- **A run.** Whatever callers do, the call of each errand ends, and no lease is lost. -/
theorem Tiled.exists_run (build : Build) (errands : List Engine.Errand)
    (h : list.Tiled list.blocks leases) :
    ∃ answers next rest,
      run (step build) errands ⟨.freeList list, leases.map list.holding⟩ =
        .ok answers ⟨.freeList next, rest.map next.holding⟩ ∧
      list.LeadsTo leases errands next rest := by
  induction errands generalizing list leases with
  | nil => exact ⟨[], list, leases, rfl, h, rfl, rfl, rfl, fun _ hlease _ ↦ ⟨hlease, rfl⟩⟩
  | cons errand errands ih =>
    obtain ⟨outcome, middle, out, heffect⟩ := h.exists_effect errand
    obtain ⟨answers, next, rest, hrun, hnext⟩ := ih (heffect.tiled h)
    rw [heffect.holding_eq] at hrun
    exact ⟨outcome :: answers, next, rest, run_cons (heffect.step_eq h build) hrun,
      heffect.leadsTo h hnext⟩

end FreeList

namespace Engine.Tenancy

variable {build : Build} {list : FreeList} {held : List Holding}

theorem Reachable.holds (h : Reachable build ⟨.freeList list, held⟩) : list.Holds held := by
  obtain ⟨sound, hsound, hview⟩ := h.exists_sound
  cases hsound with
  | pool guise => cases guise <;> cases hview
  | stack | region => cases hview
  | freeList _ _ hholds =>
    cases hview
    exact hholds

theorem Reachable.tiled (h : Reachable build ⟨.freeList list, []⟩) : list.Tiled list.blocks [] := by
  obtain ⟨leases, htiled, hheld⟩ := h.holds
  rwa [List.map_eq_nil_iff.mp hheld.symm] at htiled

theorem exists_reachable_list {platform : Platform} {wanted : Reservation} {strategy : FitStrategy}
    (hnew : Engine.new build platform (.freeList wanted strategy) = .ok (.freeList list))
    (hplaced : list.region.Placed) (errands : List Engine.Errand) :
    ∃ answers next held, run (step build) errands ⟨.freeList list, []⟩ =
        .ok answers ⟨.freeList next, held⟩ ∧
      Reachable build ⟨.freeList next, held⟩ ∧ next.region.base = list.region.base ∧
      next.strategy = list.strategy := by
  obtain ⟨answers, next, rest, hrun, hnext⟩ :=
    (reachable_new hnew hplaced).tiled.exists_run build errands
  exact ⟨answers, next, _, hrun, ⟨platform, _, _, errands, answers, hnew, hplaced, hrun⟩,
    hnext.base_eq, hnext.strategy_eq⟩

/-! ## Requests -/

/-- **Exact placement.** In every state that callers can bring about, a request for an alignment
that is a power of two is turned down if no free block has room for it, and that changes nothing;
else it is placed in the block that the strategy prefers, as `FreeList.Places` tells. Any other
request is refused, by a fault or without one, and changes nothing. -/
theorem Reachable.placement_exact (h : Reachable build ⟨.freeList list, held⟩)
    (size alignment : Nat) :
    (alignment.isPowerOfTwo →
      ((∀ block ∈ list.blocks,
          ¬ block.HasRoom list.region.base size (FreeList.payloadAlignment alignment)) ∧
        ∀ build, list.allocate build size alignment = .ok none list) ∨
      ∃ before fit after next, list.Places size alignment before fit after next ∧
        ∀ build, list.allocate build size alignment =
          .ok (some (list.region.base + fit.block.offset + fit.adjustment)) next) ∧
    (¬ alignment.isPowerOfTwo → ∀ build, list.allocate build size alignment =
      match build with
      | .checked => .error (.violation (.alignmentNotPowerOfTwo alignment)) list
      | .unchecked => .ok none list) := by
  obtain ⟨leases, htiled, -⟩ := h.holds
  exact ⟨htiled.allocate_placed size, fun hpow build ↦
    FreeList.allocate_of_not_isPowerOfTwo build size list hpow⟩

/-- Of the two smallest blocks with room the first is taken, though there is a larger one before
them. -/
theorem placement_exact_tie : ∃ engine answers list held next,
    Engine.new .checked ⟨fun _ _ ↦ true, fun _ ↦ 4096, fun _ ↦ 9⟩
        (.freeList { size := 192, alignment := 64 } .bestFit) = .ok engine ∧
      run (step .checked) [.take 48 8, .take 8 8, .take 24 8, .take 8 8, .give 4112, .give 4200]
        ⟨engine, []⟩ = .ok answers ⟨.freeList list, held⟩ ∧
      list.blocks = [⟨0, 64⟩, ⟨88, 40⟩, ⟨152, 40⟩] ∧
      list.allocate .checked 24 8 = .ok (some 4200) next ∧
      next.header 88 = { size := 40, adjustment := 16 } ∧
      next.blocks = [⟨0, 64⟩, ⟨152, 40⟩] := by
  have hnew : Engine.new .checked ⟨fun _ _ ↦ true, fun _ ↦ 4096, fun _ ↦ 9⟩
      (.freeList { size := 192, alignment := 64 } .bestFit) = .ok (.freeList
        (FreeList.setNode ⟨⟨4096, 64, fillBytes 192 fun _ ↦ 9⟩, .bestFit, 0, 0, 0⟩ 0
          ⟨192, chainEnd⟩)) := rfl
  obtain ⟨answers, list, held, hrun, hreachable, hbase, hstrategy⟩ := exists_reachable_list hnew
    ⟨by decide +kernel, by decide +kernel, by decide +kernel⟩
    [.take 48 8, .take 8 8, .take 24 8, .take 8 8, .give 4112, .give 4200]
  have hspace : (Call.settled (run (step .checked)
      [.take 48 8, .take 8 8, .take 24 8, .take 8 8, .give 4112, .give 4200]
      ⟨.freeList (FreeList.setNode ⟨⟨4096, 64, fillBytes 192 fun _ ↦ 9⟩, .bestFit, 0, 0, 0⟩ 0
        ⟨192, chainEnd⟩), []⟩)).2.engine.freeSpace =
      [⟨0, 64⟩, ⟨88, 40⟩, ⟨152, 40⟩] := by decide +kernel
  rw [hrun] at hspace
  have hblocks : list.blocks = [⟨0, 64⟩, ⟨88, 40⟩, ⟨152, 40⟩] := hspace
  have hbase' : list.region.base = 4096 := hbase
  have hstrategy' : list.strategy = .bestFit := hstrategy
  have hdemands : ∀ block ∈ list.blocks,
      Demands (list.region.base + block.offset) 24 (FreeList.payloadAlignment 8) 16 40 := by
    have hneeded : IsLeast (multiplesFrom Word.width (16 + 24)) 40 :=
      (isLeast_multiplesFrom_iff (by decide)).mpr (by decide)
    rw [hblocks, hbase']
    simp only [List.forall_mem_cons]
    refine ⟨⟨?_, hneeded⟩, ⟨?_, hneeded⟩, ⟨?_, hneeded⟩, List.forall_mem_nil _⟩ <;>
      exact (isLeast_multiplesFrom_add_iff (by decide)).mpr (by decide)
  have hmem : ⟨88, 40⟩ ∈ list.blocks := by simp [hblocks]
  have hroom : FreeBlock.HasRoom ⟨88, 40⟩ list.region.base 24 (FreeList.payloadAlignment 8) :=
    ⟨16, 40, hdemands _ hmem, Nat.le_refl 40⟩
  rcases (hreachable.placement_exact 24 8).1 ⟨3, rfl⟩ with
    ⟨hnone, -⟩ | ⟨before, fit, after, next, hplaces, hmet⟩
  · exact absurd hroom (hnone _ hmem)
  · have hfit : fit.block ∈ list.blocks := by simp [hplaces.blocks_eq]
    obtain ⟨previous, block, adjustment, needed⟩ := fit
    obtain ⟨rfl, rfl⟩ := hplaces.demands.unique (hdemands _ hfit)
    have hprefers := hplaces.preferred _ hmem hroom
    rw [hstrategy'] at hprefers
    have hleast : block.size < 40 ∨ block.size = 40 ∧ block.offset ≤ 88 := hprefers
    obtain rfl : block = ⟨88, 40⟩ := by
      rw [hblocks] at hfit
      simp only [List.mem_cons, List.not_mem_nil, or_false] at hfit
      rcases hfit with rfl | rfl | rfl
      · exact absurd hleast (by decide)
      · rfl
      · exact absurd hleast (by decide)
    have hcut := hplaces.blocks_eq
    rw [hblocks] at hcut
    obtain ⟨rfl, rfl⟩ : before = [⟨0, 64⟩] ∧ after = [⟨152, 40⟩] := by
      simpa [List.cons_eq_append_iff] using hcut
    have hmet' := hmet .checked
    rw [hbase'] at hmet'
    exact ⟨_, answers, list, held, next, hnew, hrun, hblocks, hmet', hplaces.header_eq,
      hplaces.next_blocks⟩

/-! ## Addresses that came back -/

/-- An address that was held and whose header is in no block in use has its header in a free one. -/
theorem stray_of_not_covers {leases earlier : List Lease} {start : FreeList} {lease : Lease}
    (hstart : start.Tiled start.blocks earlier) (h : list.Tiled list.blocks leases)
    (hbase : list.region.base = start.region.base) (hcapacity : list.capacity = start.capacity)
    (hlease : lease ∈ earlier)
    (hfree : ∀ other ∈ leases, ¬ (list.blockOf other).Covers (lease.payload - nodeSize)) :
    list.Stray (start.holding lease).address := by
  have hheaded := hstart.headed lease hlease
  have hpayload : Word.sub (start.holding lease).address list.region.base = lease.payload := by
    rw [hbase]
    exact hstart.sub_base hlease
  have hinside : lease.payload - nodeSize < list.capacity := by
    have hle := hheaded.start_add_le
    have hstop := hheaded.le_stop
    have hcapacity' := hstart.lease_stop_le hlease
    have hnode := nodeSize_pos
    omega
  refine Or.inr (Or.inr ?_)
  rw [hpayload]
  exact ⟨hheaded.payload_aligned, h.exists_free_covers hinside hfree⟩

/-- **Stray addresses are refused.** In every state that callers can bring about, a checked build
takes back no stray address but null, and leaves the list as it was. Every address that was held at
some earlier time is stray, as soon as the first byte of its header is in no block in use. -/
theorem Reachable.stray_refused (h : Reachable build ⟨.freeList list, held⟩) :
    (∀ address, address ≠ 0 → list.Stray address →
      ∃ fault, list.release .checked address = .error fault list) ∧
    ∀ start before errands answers, Reachable build ⟨.freeList start, before⟩ →
      run (step build) errands ⟨.freeList start, before⟩ = .ok answers ⟨.freeList list, held⟩ →
      ∀ holding ∈ before,
        (∀ other ∈ held, ¬ (list.blockOf (list.leaseOf other)).Covers
          (holding.address - list.region.base - nodeSize)) →
        ∃ fault, list.release .checked holding.address = .error fault list := by
  obtain ⟨leases, htiled, rfl⟩ := h.holds
  refine ⟨fun address ↦ htiled.release_stray, ?_⟩
  intro start before errands answers hstart hrun holding hholding hfree
  obtain ⟨earlier, hearlier, rfl⟩ := hstart.holds
  obtain ⟨lease, hlease, rfl⟩ := List.mem_map.mp hholding
  -- the run that led here kept the place and the size of the region
  obtain ⟨_, next, rest, hrun', hnext⟩ := hearlier.exists_run build errands
  rw [hrun] at hrun'
  injection hrun' with _ htenancy
  injection htenancy with hengine
  obtain rfl : list = next := Engine.freeList.inj hengine
  refine htiled.release_stray (hearlier.lease_address_ne_zero hlease)
    (stray_of_not_covers hearlier htiled hnext.base_eq hnext.capacity_eq hlease
      fun other hother ↦ ?_)
  have hcovers := hfree (list.holding other) (List.mem_map_of_mem hother)
  rwa [list.leaseOf_holding, hnext.base_eq, FreeList.holding, Nat.add_sub_cancel_left] at hcovers

/-- The second of two blocks has come back and was merged into the first. Its address is refused
when it comes back again. -/
theorem stray_refused_merged : ∃ engine answers list held fault,
    Engine.new .checked ⟨fun _ _ ↦ true, fun _ ↦ 4096, fun _ ↦ 9⟩
        (.freeList { size := 128, alignment := 64 } .firstFit) = .ok engine ∧
      run (step .checked) [.take 24 8, .take 8 8, .fill 4152 [1, 2, 3], .give 4112, .give 4152]
        ⟨engine, []⟩ = .ok answers ⟨.freeList list, held⟩ ∧
      list.release .checked 4152 = .error fault list := by
  have hnew : Engine.new .checked ⟨fun _ _ ↦ true, fun _ ↦ 4096, fun _ ↦ 9⟩
      (.freeList { size := 128, alignment := 64 } .firstFit) = .ok (.freeList
        (FreeList.setNode ⟨⟨4096, 64, fillBytes 128 fun _ ↦ 9⟩, .firstFit, 0, 0, 0⟩ 0
          ⟨128, chainEnd⟩)) := rfl
  obtain ⟨answers, list, held, hrun, hreachable, hbase, -⟩ := exists_reachable_list hnew
    ⟨by decide +kernel, by decide +kernel, by decide +kernel⟩
    [.take 24 8, .take 8 8, .fill 4152 [1, 2, 3], .give 4112, .give 4152]
  have hspace : (Call.settled (run (step .checked)
      [.take 24 8, .take 8 8, .fill 4152 [1, 2, 3], .give 4112, .give 4152]
      ⟨.freeList (FreeList.setNode ⟨⟨4096, 64, fillBytes 128 fun _ ↦ 9⟩, .firstFit, 0, 0, 0⟩ 0
        ⟨128, chainEnd⟩), []⟩)).2.engine.freeSpace = [⟨0, 128⟩] := by decide +kernel
  rw [hrun] at hspace
  have hblocks : list.blocks = [⟨0, 128⟩] := hspace
  obtain ⟨fault, hfault⟩ := hreachable.stray_refused.1 4152 (by decide) (by
    refine Or.inr (Or.inr ⟨?_, ⟨0, 128⟩, ?_, ?_⟩)
    · rw [hbase]
      decide +kernel
    · rw [hblocks]
      exact List.mem_cons_self
    · rw [hbase]
      decide +kernel)
  exact ⟨_, answers, list, held, fault, hnew, hrun, hfault⟩

/-! ## Addresses that come back -/

theorem release_grants_of_kept {start : FreeList} {leases : List Lease} {lease : Lease}
    {size alignment : Nat} {errands : List Engine.Errand} {answers : List Outcome}
    (h : start.Tiled start.blocks leases) (hlease : lease ∈ leases)
    (hpow : alignment.isPowerOfTwo)
    (hroom : (start.blockOf lease).HasRoom start.region.base size
      (FreeList.payloadAlignment alignment))
    (hkept : ∀ errand ∈ errands, errand ≠ .give (start.holding lease).address)
    (hrun : run (step build) errands ⟨.freeList start, leases.map start.holding⟩ =
      .ok answers ⟨.freeList list, held⟩) :
    ∃ next, (∀ build, list.release build (start.holding lease).address = .ok () next) ∧
      (∀ build size alignment, list.Grants build size alignment →
        next.Grants build size alignment) ∧
      ∀ build, next.Grants build size alignment := by
  obtain ⟨_, last, rest, hrun', hlast⟩ := h.exists_run build errands
  rw [hrun] at hrun'
  cases hrun'
  obtain ⟨hrest, hheader⟩ := hlast.keeps lease hlease hkept
  have hblock : list.blockOf lease = start.blockOf lease := by
    rw [FreeList.blockOf, hheader, FreeList.blockOf]
  obtain ⟨next, hrelease, hgrants⟩ :=
    (hlast.tiled.perm (List.perm_cons_erase hrest)).release_grants
  refine ⟨next, ?_, fun build size alignment hbefore ↦ hgrants _ _ _ (Or.inl hbefore),
    fun build ↦ hgrants _ _ _ (Or.inr ⟨hpow, ?_⟩)⟩
  · rwa [hlast.base_eq] at hrelease
  · rwa [hblock, hlast.base_eq]

/-- **Giving back makes room.** Let a request be met in a state that callers can bring about, and
let them do whatever they do but give its address back. When it comes back then, every request that
would have been met before is met afterwards, and so is the request itself. -/
theorem Reachable.release_widens {start : FreeList} {before : List Holding}
    (h : Reachable build ⟨.freeList start, before⟩) {size alignment address : Nat}
    {middle : Engine.Tenancy}
    (htake : step build (.take size alignment) ⟨.freeList start, before⟩ =
      .ok (.memory (some address)) middle)
    {errands : List Engine.Errand} (hkept : ∀ errand ∈ errands, errand ≠ .give address)
    {answers : List Outcome}
    (hrun : run (step build) errands middle = .ok answers ⟨.freeList list, held⟩) :
    ∃ next, (∀ build, list.release build address = .ok () next) ∧
      (∀ build size alignment, list.Grants build size alignment →
        next.Grants build size alignment) ∧
      ∀ build, next.Grants build size alignment := by
  obtain ⟨leases, htiled, rfl⟩ := h.holds
  obtain ⟨outcome, granted, out, heffect⟩ := htiled.exists_effect (.take size alignment)
  have hgranted := heffect.tiled htiled
  rw [heffect.step_eq htiled build] at htake
  cases heffect with
  | idle | full => cases htake
  | @granted _ _ _ _ fit hpow hfind hblocks hsound =>
    cases htake
    have hbase : (start.granted fit).region.base = start.region.base := FreeList.base_granted
    obtain ⟨hdemands, hneeded, -⟩ :=
      htiled.placed_of_find (isPowerOfTwo_payloadAlignment hpow) (hfind build)
    -- the block of the new lease is what was taken for the request
    have hroom : ((start.granted fit).blockOf (fit.lease size)).HasRoom
        (start.granted fit).region.base size (FreeList.payloadAlignment alignment) := by
      rw [hblocks] at htiled
      rw [FreeList.blockOf_granted htiled hsound, hbase]
      exact ⟨_, _, hdemands, Fit.needed_le_taken hneeded⟩
    rw [← FreeList.holding_of_base hbase] at hkept hrun ⊢
    exact release_grants_of_kept hgranted List.mem_cons_self hpow hroom hkept hrun

/-- A block comes back between two free blocks and is merged with both. What fitted the first of
them fits still, and so does the request that the block was taken for. -/
theorem release_widens_merging : ∃ engine outcome start middle answers list held next,
    Engine.new .checked ⟨fun _ _ ↦ true, fun _ ↦ 4096, fun _ ↦ 9⟩
        (.freeList { size := 128, alignment := 64 } .firstFit) = .ok engine ∧
      step .checked (.take 8 8) ⟨engine, []⟩ = .ok outcome start ∧
      step .checked (.take 24 8) start = .ok (.memory (some 4136)) middle ∧
      run (step .checked) [.take 8 8, .take 24 8, .give 4112, .give 4176] middle =
        .ok answers ⟨.freeList list, held⟩ ∧
      list.blocks = [⟨0, 24⟩, ⟨64, 24⟩] ∧ list.release .checked 4136 = .ok () next ∧
      next.blocks = [⟨0, 88⟩] ∧ next.Grants .checked 8 8 ∧ next.Grants .checked 24 8 := by
  have hnew : Engine.new .checked ⟨fun _ _ ↦ true, fun _ ↦ 4096, fun _ ↦ 9⟩
      (.freeList { size := 128, alignment := 64 } .firstFit) = .ok (.freeList
        (FreeList.setNode ⟨⟨4096, 64, fillBytes 128 fun _ ↦ 9⟩, .firstFit, 0, 0, 0⟩ 0
          ⟨128, chainEnd⟩)) := rfl
  have hplaced : (FreeList.setNode ⟨⟨4096, 64, fillBytes 128 fun _ ↦ 9⟩, .firstFit, 0, 0, 0⟩ 0
      ⟨128, chainEnd⟩).region.Placed := ⟨by decide +kernel, by decide +kernel, by decide +kernel⟩
  obtain ⟨outcome, start, before, hstart⟩ := (reachable_new hnew hplaced).holds.serves (.take 8 8)
  have hreachable : Reachable .checked ⟨.freeList start, before⟩ :=
    ⟨_, _, _, [.take 8 8], [outcome], hnew, hplaced, run_cons (hstart.step_eq .checked) rfl⟩
  obtain ⟨granted, middle, rest, hmiddle⟩ := hreachable.holds.serves (.take 24 8)
  have htake := hmiddle.step_eq .checked
  obtain ⟨leases, hleases, rfl⟩ := hmiddle.holds
  obtain ⟨answers, list, left, hrun, hlast⟩ :=
    hleases.exists_run .checked [.take 8 8, .take 24 8, .give 4112, .give 4176]
  have hgranted : (Call.settled (step .checked (.take 24 8) (Call.settled (step .checked
      (.take 8 8) ⟨.freeList (FreeList.setNode ⟨⟨4096, 64, fillBytes 128 fun _ ↦ 9⟩, .firstFit, 0,
        0, 0⟩ 0 ⟨128, chainEnd⟩), []⟩)).2)).1.toOption = some (.memory (some 4136)) := by
    decide +kernel
  rw [hstart.step_eq] at hgranted
  change (Call.settled (step .checked (.take 24 8) ⟨.freeList start, before⟩)).1.toOption = _
    at hgranted
  rw [htake] at hgranted
  obtain rfl : granted = .memory (some 4136) := Option.some.inj hgranted
  obtain ⟨last, hend, hbase, hblocks, hmerged⟩ : ∃ last : Engine.Tenancy,
      (Call.settled (run (step .checked)
        [.take 8 8, .take 24 8, .take 8 8, .take 24 8, .give 4112, .give 4176]
        ⟨.freeList (FreeList.setNode ⟨⟨4096, 64, fillBytes 128 fun _ ↦ 9⟩, .firstFit, 0, 0, 0⟩ 0
          ⟨128, chainEnd⟩), []⟩)).2 = last ∧ last.engine.memory.base = 4096 ∧
        last.engine.freeSpace = [⟨0, 24⟩, ⟨64, 24⟩] ∧
        (last.engine.release .checked 4136).2.freeSpace = [⟨0, 88⟩] :=
    ⟨_, rfl, by decide +kernel⟩
  rw [run_cons (hstart.step_eq .checked) (run_cons htake hrun)] at hend
  subst hend
  have hgrants : list.Grants .checked 8 8 := by
    refine (hlast.tiled.grants_iff .checked).mpr ⟨⟨3, rfl⟩, ⟨0, 24⟩, ?_, 16, 24, ⟨?_, ?_⟩, ?_⟩
    · rw [show list.blocks = [⟨0, 24⟩, ⟨64, 24⟩] from hblocks]
      exact List.mem_cons_self
    · rw [show list.region.base = 4096 from hbase]
      exact (isLeast_multiplesFrom_add_iff (by decide)).mpr (by decide)
    · exact (isLeast_multiplesFrom_iff (by decide)).mpr (by decide)
    · exact Nat.le_refl 24
  obtain ⟨next, hrelease, hkept, hmet⟩ := hreachable.release_widens htake (by decide) hrun
  have hnext : next.blocks = [⟨0, 88⟩] := by
    change (settle Engine.freeList (list.release .checked 4136)).2.freeSpace = _ at hmerged
    rwa [hrelease .checked] at hmerged
  exact ⟨_, outcome, _, _, answers, list, _, next, hnew, hstart.step_eq .checked, htake, hrun,
    hblocks, hrelease .checked, hnext, hkept _ _ _ hgrants, hmet .checked⟩

end Engine.Tenancy

end Suballoc
