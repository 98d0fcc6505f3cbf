import Suballoc.Proofs.Engine.Leases
import Suballoc.Proofs.FreeList.Residue

/-!
# Addresses that come back twice

An address that has come back is refused when it comes back again, as long as no byte of its block
was handed out in between. What refuses it depends on what was left in memory. The bytes of the
block behind its first two words are as the holder left them, and these two words are written again
only by the chain; so the words where the header was are known well enough to tell the fault. It is
a broken contract, except where a header and a node have one word in common and the node is the last
of the chain: there the end of the chain is read as a size, and the sum that is to be tested is no
word.
-/

namespace Suballoc

open Engine.Tenancy
open Suballoc.Tenancy (run run_cons)

namespace FreeList

variable {list next : FreeList} {leases rest : List Lease} {lease : Lease} {block : FreeBlock}

/-- **Frame.** What callers do leaves a byte that is free before and after, unless it is in a node
of the chain. -/
theorem Effect.byteAt_eq {errand : Engine.Errand} {outcome : Outcome}
    (h : Effect list leases errand outcome next rest) (htiled : list.Tiled list.blocks leases)
    (hbefore : list.Vacant leases block) (hafter : next.Vacant rest block) {i : Nat}
    (hcovers : block.Covers i)
    (hnodes : ∀ b ∈ next.blocks, i < b.offset ∨ b.offset + nodeSize ≤ i) :
    next.region.byteAt i = list.region.byteAt i := by
  cases h with
  | idle | full => rfl
  | @granted size _ before after fit hpow hfind hblocks hsound =>
    rw [hblocks] at htiled
    rw [(htiled.granted hsound).blocks_eq] at hnodes
    refine byteAt_granted_of_nodes hsound ?_ hnodes
    rw [← blockOf_granted htiled hsound]
    exact hafter _ List.mem_cons_self i hcovers
  | returned hnull hfind hblocks hbetween =>
    have hlease := mem_of_find hfind
    have hown := htiled.perm (List.perm_cons_erase hlease)
    rw [hblocks] at hown
    rw [(hown.returnedTo hbetween).blocks_eq] at hnodes
    exact byteAt_returnedTo_of_nodes hown (hbefore _ hlease i hcovers) hnodes
  | @written offset values lease hlease hfits =>
    have hheaded := htiled.headed lease hlease
    have hstart := hheaded.start_add_le
    have hstop := hheaded.le_stop
    have hout := hbefore lease hlease i hcovers
    simp only [FreeBlock.Covers] at hout
    exact Region.byteAt_write_of_not_mem (by omega)

/-! ## After a return -/

/-- A free list some time after the block of a lease came back to it, when no byte of the block has
been handed out in between. -/
structure Since (start : FreeList) (lease : Lease) (list : FreeList) (leases : List Lease) :
    Prop where
  base_eq : list.region.base = start.region.base
  capacity_eq : list.capacity = start.capacity
  tiled : list.Tiled list.blocks leases
  vacant : list.Vacant leases (start.blockOf lease)
  residue : Residue start list (start.blockOf lease)

/-- The return of an address that is held begins such a time. -/
theorem Effect.exists_since {address : Nat} {outcome : Outcome} {holding : Holding}
    (h : Effect list leases (.give address) outcome next rest)
    (htiled : list.Tiled list.blocks leases) (hnull : address ≠ 0)
    (hheld : holding ∈ leases.map list.holding) (haddress : holding.address = address) :
    ∃ lease ∈ leases, (list.holding lease).address = address ∧ Since list lease next rest := by
  cases h with
  | idle hidle =>
    rcases hidle with hzero | hnone
    · exact absurd hzero hnull
    · exact absurd (decide_eq_true haddress) (List.find?_eq_none.mp hnone holding hheld)
  | @returned _ before after lease _ hfind hblocks hbetween =>
    have hlease := mem_of_find hfind
    have hfound := List.find?_some hfind
    have hown := htiled.perm (List.perm_cons_erase hlease)
    rw [hblocks] at hown
    refine ⟨lease, hlease, of_decide_eq_true hfound, base_restored,
      capacity_restored, (hown.returnedTo hbetween).by_blocks, ?_,
      hown.residue_returnedTo hbetween⟩
    intro other hother i hcovers hcovers'
    have hapart := hown.lease_or_lease hother
    rw [blockOf_congr (agreeAt_returnedTo hown hother)] at hcovers'
    simp only [FreeBlock.Covers] at hcovers hcovers'
    omega

/-- It lasts as long as no byte of the block is handed out. -/
theorem Since.step {start : FreeList} {earlier : List Lease} {errand : Engine.Errand}
    {outcome : Outcome} (h : Since start lease list leases)
    (hstart : start.Tiled start.blocks earlier) (hlease : lease ∈ earlier)
    (heffect : Effect list leases errand outcome next rest)
    (hvacant : next.Vacant rest (start.blockOf lease)) : Since start lease next rest where
  base_eq := heffect.base_eq.trans h.base_eq
  capacity_eq := heffect.capacity_eq.trans h.capacity_eq
  tiled := heffect.tiled h.tiled
  vacant := hvacant
  residue := by
    have hheaded := hstart.headed lease hlease
    refine h.residue.step (heffect.tiled h.tiled) heffect.capacity_eq hheaded.start_aligned
      hheaded.nodeSize_le ?_ hvacant fun _ hcovers hnodes ↦
        heffect.byteAt_eq h.tiled h.vacant hvacant hcovers hnodes
    rw [h.capacity_eq]
    exact hstart.lease_stop_le hlease

/-- The header before an address has one word in common with a node at the start of a block, and
that word ends the chain, though the block is not the first of the region. -/
def Clashes (list : FreeList) (address : Nat) (block : FreeBlock) : Prop :=
  address = list.region.base + block.offset + (nodeSize + Word.width) ∧ 0 < block.offset ∧
    list.region.word (block.offset + Word.width) = chainEnd

/-- **Refusal.** Which fault meets the address of the lease when it comes back again. -/
theorem Since.release_fault {start : FreeList} {earlier : List Lease}
    (h : Since start lease list leases) (hstart : start.Tiled start.blocks earlier)
    (hlease : lease ∈ earlier) (hspan : start.capacity ≤ Reservation.spanLimit)
    (hlive : leases ≠ []) :
    ∃ fault, list.release .checked (start.holding lease).address = .error fault list ∧
      (fault = .overflow .add ↔
        list.Clashes (start.holding lease).address (start.blockOf lease)) ∧
      (¬ list.Clashes (start.holding lease).address (start.blockOf lease) →
        ∃ broken, fault = .violation broken) := by
  have hheaded := hstart.headed lease hlease
  have hstart_le := hheaded.start_add_le
  have hstop := hheaded.le_stop
  have hinside := hstart.lease_stop_le hlease
  have hnode := nodeSize_pos
  have hcapacity := h.capacity_eq
  have hcount : 0 < list.allocations := by
    rw [h.tiled.allocations_eq]
    exact List.length_pos_iff.mpr hlive
  have hpayload : Word.sub (start.holding lease).address list.region.base = lease.payload := by
    rw [h.base_eq]
    exact hstart.sub_base hlease
  have hstray : list.Stray (start.holding lease).address :=
    stray_of_not_covers hstart h.tiled h.base_eq hcapacity hlease fun other hother ↦
      h.vacant other hother _ ⟨by omega, by omega⟩
  obtain ⟨fault, hrelease, hover, hunder⟩ := h.tiled.release_fault hcount
    (hstart.lease_address_ne_zero hlease) hpayload (by omega) (by omega) hstray
  have hclashes : (list.header (lease.payload - nodeSize)).Overflows lease.payload ↔
      list.Clashes (start.holding lease).address (start.blockOf lease) := by
    rw [h.residue.overflows_iff hstart hlease hcapacity hspan, Clashes, h.base_eq, holding]
    refine and_congr_left' ?_
    dsimp only
    omega
  rw [hclashes] at hover hunder
  refine ⟨fault, hrelease, ⟨fun hfault ↦ ?_, hover⟩, hunder⟩
  by_contra hfree
  obtain ⟨broken, hbroken⟩ := hunder hfree
  rw [hfault] at hbroken
  cases hbroken

/-- No block that somebody holds has a byte of a block. -/
def Unheld (list : FreeList) (held : List Holding) (block : FreeBlock) : Prop :=
  ∀ holding ∈ held, ∀ i, block.Covers i → ¬ (list.blockOf (list.leaseOf holding)).Covers i

theorem unheld_map_iff :
    list.Unheld (leases.map list.holding) block ↔ list.Vacant leases block := by
  simp only [Unheld, Vacant, List.forall_mem_map, leaseOf_holding]

theorem blockOf_of_payload_eq {a b : Lease} (h : a.payload = b.payload) :
    list.blockOf a = list.blockOf b := by
  rw [blockOf, blockOf, h]

theorem blockOf_leaseOf_eq {holding : Holding} {payload size adjustment : Nat}
    (haddress : holding.address = list.region.base + payload)
    (hsize : list.region.word (payload - nodeSize) = size)
    (hadjustment : list.region.word (payload - nodeSize + Word.width) = adjustment) :
    list.blockOf (list.leaseOf holding) = ⟨payload - adjustment, size⟩ := by
  rw [leaseOf, haddress, Nat.add_sub_cancel_left, blockOf, header, hsize, hadjustment]

end FreeList

namespace Engine.Tenancy

variable {build : Build}

/-- A free list in use to which an address has come back: from a new free list on, callers did what
they did, with the address held and then given back, and since then no byte of its block has been
handed out. -/
inductive CameBack (build : Build) (holding : Holding) (block : FreeBlock) :
    FreeList → List Holding → Prop where
  /-- The holder gives the address back. -/
  | given {platform : Platform} {wanted : Reservation} {strategy : FitStrategy}
      {fresh start list : FreeList} {errands : List Errand} {answers : List Outcome}
      {before held : List Holding} {outcome : Outcome}
      (hnew : Engine.new build platform (.freeList wanted strategy) = .ok (.freeList fresh))
      (hplaced : fresh.region.Placed)
      (hrun : run (step build) errands ⟨.freeList fresh, []⟩ =
        .ok answers ⟨.freeList start, before⟩)
      (hholding : holding ∈ before) (hblock : start.blockOf (start.leaseOf holding) = block)
      (hgive : step build (.give holding.address) ⟨.freeList start, before⟩ =
        .ok outcome ⟨.freeList list, held⟩) : CameBack build holding block list held
  /-- Callers go on. -/
  | later {list next : FreeList} {held rest : List Holding} {errand : Errand} {outcome : Outcome}
      (h : CameBack build holding block list held)
      (hstep : step build errand ⟨.freeList list, held⟩ = .ok outcome ⟨.freeList next, rest⟩)
      (hunheld : next.Unheld rest block) : CameBack build holding block next rest

variable {list : FreeList} {held : List Holding} {holding : Holding} {block : FreeBlock}

theorem exists_effect_of_step {next : FreeList} {leases : List Lease} {rest : List Holding}
    {errand : Errand} {outcome : Outcome} (h : list.Tiled list.blocks leases)
    (hstep : step build errand ⟨.freeList list, leases.map list.holding⟩ =
      .ok outcome ⟨.freeList next, rest⟩) :
    ∃ out, FreeList.Effect list leases errand outcome next out ∧ rest = out.map next.holding := by
  obtain ⟨outcome', next', out, heffect⟩ := h.exists_effect errand
  rw [heffect.step_eq h build] at hstep
  cases hstep
  exact ⟨out, heffect, by rw [heffect.holding_eq]⟩

/-- A new free list covers less than half of the addresses. -/
theorem capacity_le_of_new {platform : Platform} {wanted : Reservation} {strategy : FitStrategy}
    (hnew : Engine.new build platform (.freeList wanted strategy) = .ok (.freeList list)) :
    list.capacity ≤ Reservation.spanLimit := by
  obtain ⟨fresh, hfresh, hsame⟩ := Call.bind_eq_ok.mp hnew
  obtain rfl := Engine.freeList.inj (Except.ok.inj hsame)
  obtain ⟨-, region, hreserve, -⟩ := FreeList.new_eq_ok hfresh
  obtain ⟨hvalid, -⟩ := Region.reserve_eq_ok hreserve
  have hsize : fresh.capacity = wanted.size := (FreeList.region_new hfresh).2.2
  rw [hsize]
  exact Nat.le_trans hvalid.size_le (Nat.sub_le _ _)

theorem CameBack.exists_since (h : CameBack build holding block list held) :
    ∃ (start : FreeList) (earlier : List Lease) (lease : Lease) (leases : List Lease),
      start.Tiled start.blocks earlier ∧ lease ∈ earlier ∧
      start.capacity ≤ Reservation.spanLimit ∧ (start.holding lease).address = holding.address ∧
      start.blockOf lease = block ∧ start.Since lease list leases ∧
      held = leases.map list.holding := by
  induction h with
  | @given platform wanted strategy fresh start list errands answers before held outcome hnew
      hplaced hrun hholding hblock hgive =>
    obtain ⟨_, used, leases, hrun', hstart⟩ :=
      (reachable_new hnew hplaced).tiled.exists_run build errands
    rw [List.map_nil, hrun] at hrun'
    cases hrun'
    have htiled := hstart.tiled
    have hnull : holding.address ≠ 0 := by
      obtain ⟨lease, hlease, rfl⟩ := List.mem_map.mp hholding
      exact htiled.lease_address_ne_zero hlease
    obtain ⟨out, heffect, rfl⟩ := exists_effect_of_step htiled hgive
    obtain ⟨lease, hlease, haddress, hsince⟩ := heffect.exists_since htiled hnull hholding rfl
    refine ⟨start, leases, lease, out, htiled, hlease, ?_, haddress, ?_, hsince, rfl⟩
    · rw [hstart.capacity_eq]
      exact capacity_le_of_new hnew
    · rw [← hblock]
      refine FreeList.blockOf_of_payload_eq ?_
      rw [FreeList.leaseOf, ← haddress]
      exact (Nat.add_sub_cancel_left _ _).symm
  | later h hstep hunheld ih =>
    obtain ⟨start, earlier, lease, leases, hstart, hlease, hspan, haddress, rfl, hsince, rfl⟩ := ih
    obtain ⟨out, heffect, rfl⟩ := exists_effect_of_step hsince.tiled hstep
    exact ⟨start, earlier, lease, out, hstart, hlease, hspan, haddress, rfl,
      hsince.step hstart hlease heffect (FreeList.unheld_map_iff.mp hunheld), rfl⟩

theorem CameBack.unheld (h : CameBack build holding block list held) : list.Unheld held block := by
  obtain ⟨_, _, _, _, -, -, -, -, rfl, hsince, rfl⟩ := h.exists_since
  exact FreeList.unheld_map_iff.mpr hsince.vacant

/-- Whatever is held at the end of a run can be given back, and the words before it tell its
block. -/
theorem exists_cameBack {platform : Platform} {wanted : Reservation} {strategy : FitStrategy}
    {fresh : FreeList} {payload size adjustment : Nat}
    (hnew : Engine.new build platform (.freeList wanted strategy) = .ok (.freeList fresh))
    (hplaced : fresh.region.Placed) (errands : List Errand) {start : Engine.Tenancy}
    (hstart : (Call.settled (run (step build) errands ⟨.freeList fresh, []⟩)).2 = start)
    (holding : Holding) (hholding : holding ∈ start.held)
    (haddress : holding.address = start.engine.memory.base + payload)
    (hsize : start.engine.memory.word (payload - nodeSize) = size)
    (hadjustment : start.engine.memory.word (payload - nodeSize + Word.width) = adjustment) :
    ∃ list held,
      (Call.settled (step build (.give holding.address) start)).2 = ⟨.freeList list, held⟩ ∧
      CameBack build holding ⟨payload - adjustment, size⟩ list held := by
  obtain ⟨answers, used, before, hrun, hreachable, -⟩ :=
    exists_reachable_list hnew hplaced errands
  obtain ⟨outcome, list, held, hserves⟩ := hreachable.holds.serves (.give holding.address)
  have hgive := hserves.step_eq build
  rw [hrun] at hstart
  subst hstart
  refine ⟨list, held, ?_, .given hnew hplaced hrun hholding
    (FreeList.blockOf_leaseOf_eq haddress hsize hadjustment) hgive⟩
  show (Call.settled (step build (.give holding.address) ⟨.freeList used, before⟩)).2 = _
  rw [hgive]
  rfl

/-- **Double release.** When an address comes back twice, no byte of its block was handed out in
between and something is held, then a checked build refuses it and leaves the free list as it was.
It does so for a broken contract, unless the address clashes with the chain: then, and only then, a
sum overflows. -/
theorem CameBack.double_release_refused (h : CameBack build holding block list held)
    (hlive : held ≠ []) :
    ∃ fault, list.release .checked holding.address = .error fault list ∧
      (fault = .overflow .add ↔ list.Clashes holding.address block) ∧
      (¬ list.Clashes holding.address block → ∃ broken, fault = .violation broken) := by
  obtain ⟨start, earlier, lease, leases, hstart, hlease, hspan, haddress, rfl, hsince, rfl⟩ :=
    h.exists_since
  rw [← haddress]
  exact hsince.release_fault hstart hlease hspan fun hnone ↦ hlive (by rw [hnone]; rfl)

/-- The header of a block lies half in the node that is written there, but a block behind it is
free as well. -/
theorem double_release_refused_between : ∃ list held fault,
    CameBack .checked ⟨4144, 8⟩ ⟨24, 32⟩ list held ∧ held ≠ [] ∧
      list.release .checked 4144 = .error fault list ∧ ∃ broken, fault = .violation broken := by
  have hnew : Engine.new .checked ⟨fun _ _ ↦ true, fun _ ↦ 4096, fun _ ↦ 9⟩
      (.freeList { size := 128, alignment := 64 } .firstFit) = .ok (.freeList
        (FreeList.setNode ⟨⟨4096, 64, fillBytes 128 fun _ ↦ 9⟩, .firstFit, 0, 0, 0⟩ 0
          ⟨128, chainEnd⟩)) := rfl
  obtain ⟨list, held, hgiven, hback⟩ :
      ∃ list held, _ ∧ CameBack .checked ⟨4144, 8⟩ ⟨48 - 24, 32⟩ list held :=
    exists_cameBack hnew ⟨by decide +kernel, by decide +kernel, by decide +kernel⟩
      [.take 8 8, .take 8 16, .take 8 8] rfl _ (by decide +kernel) (by decide +kernel)
      (by decide +kernel) (by decide +kernel)
  have hheld : held = [⟨4168, 8⟩, ⟨4112, 8⟩] := by
    rw [show held = _ from (congrArg Suballoc.Tenancy.held hgiven).symm]
    decide +kernel
  have hword : list.region.word 32 = 80 := by
    rw [show list.region = _ from
      (congrArg (fun tenancy : Engine.Tenancy ↦ tenancy.engine.memory) hgiven).symm]
    decide +kernel
  -- the null address may come back in between
  have hlater : CameBack .checked ⟨4144, 8⟩ ⟨24, 32⟩ list held :=
    hback.later (step_give_null rfl) hback.unheld
  have hlive : held ≠ [] := by
    rw [hheld]
    exact List.cons_ne_nil _ _
  have hfree : ¬ list.Clashes 4144 ⟨24, 32⟩ := by
    rintro ⟨-, -, hend⟩
    have hnext : list.region.word (24 + Word.width) = 80 := hword
    rw [hnext] at hend
    cases hend
  obtain ⟨fault, hrelease, -, hbroken⟩ := hlater.double_release_refused hlive
  exact ⟨list, held, fault, hlater, hlive, hrelease, hbroken hfree⟩

/-- The same without a block behind it in use: the node is the last one, and the end of the chain is
read as the size of a block. -/
theorem double_release_overflows : ∃ list held,
    CameBack .checked ⟨4144, 8⟩ ⟨24, 32⟩ list held ∧ held ≠ [] ∧
      (Engine.release .checked 4144 (.freeList list)).1 = some (.error (.overflow .add)) := by
  have hnew : Engine.new .checked ⟨fun _ _ ↦ true, fun _ ↦ 4096, fun _ ↦ 9⟩
      (.freeList { size := 128, alignment := 64 } .firstFit) = .ok (.freeList
        (FreeList.setNode ⟨⟨4096, 64, fillBytes 128 fun _ ↦ 9⟩, .firstFit, 0, 0, 0⟩ 0
          ⟨128, chainEnd⟩)) := rfl
  obtain ⟨list, held, hgiven, hback⟩ :
      ∃ list held, _ ∧ CameBack .checked ⟨4144, 8⟩ ⟨48 - 24, 32⟩ list held :=
    exists_cameBack hnew ⟨by decide +kernel, by decide +kernel, by decide +kernel⟩
      [.take 8 8, .take 8 16] rfl _ (by decide +kernel) (by decide +kernel)
      (by decide +kernel) (by decide +kernel)
  refine ⟨list, held, hback, ?_, ?_⟩
  · rw [show held = _ from (congrArg Suballoc.Tenancy.held hgiven).symm]
    decide +kernel
  · rw [show Engine.freeList list = _ from (congrArg Suballoc.Tenancy.engine hgiven).symm]
    decide +kernel

end Engine.Tenancy

end Suballoc
