import Suballoc.Proofs.Engine.Builds
import Suballoc.Proofs.SharedPool.Strategies

/-!
# What pools refuse

A checked pool looks at an address that is given back before it believes it. The address has to be
that of a slot, and the slot has to be held; the count is tested as well, by a pool before anything
else and by a shared pool after the live flag was cleared.

The callers here give back whatever they like and go on after a fault. The tests are exact for them:
what is held, or null, is taken back, and anything else is refused by a violation that leaves the
engine as it was. The live flag may be cleared before the fault, but only that of a slot which is
not held, and there it was clear already.
-/

namespace Suballoc

open Suballoc.Tenancy (onEngine onEngine_of_ok)

/-! ## Addresses of slots -/

namespace SlotArray

variable {slots : SlotArray} {address index : Nat}

theorem indexOf_checked (slots : SlotArray) (address : Nat) :
    slots.indexOf .checked address =
      if Word.sub address slots.region.base < slots.region.size then
        if Word.sub address slots.region.base % slots.stride = 0 then
          .ok (Word.sub address slots.region.base / slots.stride)
        else .error (.violation (.offSlotBoundary address))
      else .error (.violation (.foreignToPool address)) := by
  simp only [indexOf, Build.require_checked, decide_eq_true_iff]
  split
  · split <;> rfl
  · rfl

/-- The tests of an address are contracts. -/
theorem exists_violation_of_indexOf {fault : Fault}
    (h : slots.indexOf .checked address = .error fault) : ∃ broken, fault = .violation broken := by
  rw [indexOf_checked] at h
  split at h
  · split at h
    · cases h
    · exact ⟨_, (Except.error.inj h).symm⟩
  · exact ⟨_, (Except.error.inj h).symm⟩

theorem Laid.of_indexOf (h : slots.Laid) (hstop : slots.region.stop < Word.limit)
    (hword : address < Word.limit) (hslot : slots.indexOf .checked address = .ok index) :
    index < slots.count ∧ address = slots.region.base + index * slots.stride := by
  rw [Region.stop] at hstop
  rw [indexOf_checked] at hslot
  split at hslot
  next hinside =>
    split at hslot
    next hstart =>
      obtain rfl := Except.ok.inj hslot
      refine ⟨h.div_lt hinside, ?_⟩
      rw [Nat.div_mul_cancel (Nat.dvd_of_mod_eq_zero hstart)]
      -- an address below the region goes round to an offset behind it
      rcases Nat.lt_or_ge address slots.region.base with hbelow | hbase
      · rw [Word.sub_of_lt hbelow (by omega)] at hinside
        omega
      · rw [Word.sub_of_le hbase hword, Nat.add_sub_cancel' hbase]
    next => cases hslot
  next => cases hslot

end SlotArray

/-! ## Refusals -/

namespace Pool

variable {pool : Pool} {free : List Nat} {address : Nat} {broken : Violation}

/-- What a pool has against an address: it starts no slot, or a slot that is not held. -/
inductive Refuses (pool : Pool) (address : Nat) : Violation → Prop where
  | foreign {broken : Violation}
      (hslot : pool.slots.indexOf .checked address = .error (.violation broken)) :
      Refuses pool address broken
  | free {index : Nat} (hslot : pool.slots.indexOf .checked address = .ok index)
      (hlive : pool.slots.isLive index = false) :
      Refuses pool address (.slotReleasedTwice index)

/-- A pool has something against every address but those of slots that are not free. -/
theorem Represents.exists_refuses (h : pool.Represents .checked free)
    (hword : address < Word.limit)
    (hfree : ∀ index < pool.capacity, address = pool.slotAddress index → index ∈ free) :
    ∃ broken, pool.Refuses address broken := by
  cases hslot : pool.slots.indexOf .checked address with
  | error fault =>
    obtain ⟨broken, rfl⟩ := SlotArray.exists_violation_of_indexOf hslot
    exact ⟨broken, .foreign hslot⟩
  | ok index =>
    obtain ⟨hindex, haddress⟩ := h.laid.of_indexOf h.stop_lt hword hslot
    have hlive : pool.slots.isLive index = false := by
      rw [Bool.eq_false_iff]
      intro hlive
      exact (h.flagged.held_of_isLive hlive).2 (hfree index hindex haddress)
    exact ⟨_, .free hslot hlive⟩

/-- **Refusal.** A pool that has something against an address ends with a violation and is as it
was. With nothing held, it is the count that is blamed. -/
theorem Refuses.release_eq (h : pool.Refuses address broken) (hnull : address ≠ 0) :
    release .checked address pool =
      .error (.violation (if 0 < pool.allocated then broken else .noLiveBlocks)) pool := by
  by_cases hpos : 0 < pool.allocated
  · rw [if_pos hpos]
    cases h with
    | foreign hslot =>
      simp only [release, if_neg hnull, Call.run_bind, Call.run_get, decide_eq_true hpos,
        Build.require_true, Call.run_lift_ok, hslot, Call.run_lift_error]
    | @free index hslot hlive =>
      have hflag : Build.checked.require (.slotReleasedTwice index) (pool.slots.isLive index) =
          .error (.violation (.slotReleasedTwice index)) := by
        rw [hlive]
        rfl
      simp only [release, if_neg hnull, Call.run_bind, Call.run_get, decide_eq_true hpos,
        Build.require_true, Call.run_lift_ok, hslot, Call.run_modify, hflag, Call.run_lift_error,
        SlotArray.setLive_eq_self hlive]
  · rw [if_neg hpos]
    simp only [release, if_neg hnull, Call.run_bind, Call.run_get, decide_eq_false hpos,
      Build.require_checked, Bool.false_eq_true, if_false, Call.run_lift_error]

/-- A shared pool blames the address first, whatever the count. -/
theorem Refuses.release_shared_eq (strategy : SyncStrategy) (peak : Nat)
    (h : pool.Refuses address broken) (hnull : address ≠ 0) :
    SharedPool.release .checked address (pool.shared strategy peak) =
      .error (.violation broken) (pool.shared strategy peak) := by
  cases h with
  | foreign hslot => exact release_foreign strategy peak hnull hslot
  | free hslot hlive => exact release_free strategy peak hnull hslot hlive

end Pool

theorem Guise.release_refused (guise : Guise) (peak : Nat) {pool : Pool} {address : Nat}
    {broken : Violation} (h : pool.Refuses address broken) (hnull : address ≠ 0) :
    ∃ broken, (guise.engine peak pool).release .checked address =
      (some (.error (.violation broken)), guise.engine peak pool) := by
  cases guise with
  | own =>
    exact ⟨_, by rw [engine, Engine.release, h.release_eq hnull, Engine.settle]⟩
  | shared strategy =>
    exact ⟨broken, by
      rw [engine, Engine.release, h.release_shared_eq strategy peak hnull, Engine.settle]⟩

/-! ## What is held comes back -/

/-- Whether callers may give an address back to slots: it is null, or that of a slot they hold. -/
def SlotArray.Returnable (slots : SlotArray) (held : List Holding) (address : Nat) : Prop :=
  address = 0 ∨ ∃ index < slots.count, address = slots.region.base + index * slots.stride ∧
    ∃ holding ∈ held, holding.address = address

namespace Pool

variable {pool : Pool} {free : List Nat} {held : List Holding} {address : Nat}

theorem Shares.find?_null (h : pool.Shares free held) :
    (held.find? fun holding ↦ holding.address = 0) = none := by
  refine List.find?_eq_none.mpr fun holding hmem haddress ↦ ?_
  obtain ⟨index, rfl, -⟩ := h.exists_of_mem hmem
  exact absurd (of_decide_eq_true haddress) (h.represents.slotAddress_ne_zero index)

theorem Shares.exists_refuses (h : pool.Shares free held) (hword : address < Word.limit)
    (hno : ¬ pool.slots.Returnable held address) : ∃ broken, pool.Refuses address broken := by
  obtain ⟨hrepresents, owned, hshared, hheld⟩ := h
  refine hrepresents.exists_refuses hword fun index hindex haddress ↦ ?_
  rcases List.mem_append.mp (hshared.mem_iff.mpr (List.mem_range.mpr hindex)) with hfree | howned
  · exact hfree
  · have hmem := hheld.mem_iff.mpr (List.mem_map_of_mem howned)
    exact absurd (Or.inr ⟨index, hindex, haddress, _, hmem, haddress.symm⟩) hno

end Pool

namespace Engine

/-- The slots of an engine that hands out slots. -/
def slots? : Engine → Option SlotArray
  | .pool p => some p.slots
  | .sharedPool p => some p.slots
  | .stack _ | .freeList _ | .region _ => none

theorem slots?_engine (guise : Guise) (peak : Nat) (pool : Pool) :
    (guise.engine peak pool).slots? = some pool.slots := by
  cases guise <;> rfl

namespace Tenancy

variable {tenancy : Tenancy} {engine : Engine} {slots : SlotArray} {held : List Holding}
  {address : Nat}

/-! ## Rough callers -/

/-- What is held when memory at an address has come back. -/
def without (held : List Holding) (address : Nat) : List Holding :=
  match held.find? fun holding ↦ holding.address = address with
  | some holding => held.erase holding
  | none => held

/-- Give back an address, whatever is there. -/
def giveRoughly (build : Build) (address : Nat) : Call Tenancy Outcome := do
  let _ ← onEngine (asked (Engine.release build address))
  modify fun tenancy ↦ { tenancy with held := without tenancy.held address }
  return .done

/-- Run an errand of callers who check nothing before they give an address back. -/
def roughStep (build : Build) : Errand → Call Tenancy Outcome
  | .give address => giveRoughly build address
  | errand => step build errand

theorem settled_giveRoughly {after : Engine}
    (h : engine.release .checked address = (some (.ok ()), after)) :
    Call.settled (giveRoughly .checked address ⟨engine, held⟩) =
      (.ok .done, ⟨after, without held address⟩) := by
  rw [giveRoughly, Call.run_bind_of_ok (onEngine_of_ok (asked_of_eq h))]
  rfl

theorem settled_giveRoughly_of_error {fault : Fault} {after : Engine}
    (h : engine.release .checked address = (some (.error fault), after)) :
    Call.settled (giveRoughly .checked address ⟨engine, held⟩) = (.error fault, ⟨after, held⟩) := by
  rw [giveRoughly, Call.run_bind, onEngine, asked, h]
  rfl

/-- An engine that hands out slots and agrees with its callers. -/
inductive Pooled : Tenancy → Prop where
  | mk (guise : Guise) (peak : Nat) (pool : Pool) (free : List Nat) (held : List Holding)
      (shares : pool.Shares free held) (fits : guise.Fits pool.capacity)
      (allocated_le : pool.allocated ≤ peak) : Pooled ⟨guise.engine peak pool, held⟩

theorem Sound.pooled (h : tenancy.Sound) (hslots : tenancy.engine.slots? = some slots) :
    tenancy.Pooled := by
  cases h with
  | pool guise peak pool held hholds hfits hpeak =>
    obtain ⟨free, hpool⟩ := hholds.exists_shares
    exact ⟨_, _, _, free, _, hpool, hfits, hpeak⟩
  | stack => cases hslots
  | freeList => cases hslots
  | region => cases hslots

namespace Pooled

theorem exists_slots (h : tenancy.Pooled) : ∃ slots, tenancy.engine.slots? = some slots := by
  obtain ⟨guise, peak, pool, free, held⟩ := h
  exact ⟨_, slots?_engine guise peak pool⟩

theorem release_of_returnable (h : tenancy.Pooled) (hslots : tenancy.engine.slots? = some slots)
    (hmay : slots.Returnable tenancy.held address) :
    ∃ next, tenancy.engine.release .checked address = (some (.ok ()), next) ∧
      Pooled ⟨next, without tenancy.held address⟩ := by
  obtain ⟨guise, peak, pool, free, held, hshares, hfits, hpeak⟩ := h
  by_cases hnull : address = 0
  · subst hnull
    refine ⟨_, guise.release_null peak, ?_⟩
    rw [without, hshares.find?_null]
    exact ⟨_, _, _, _, _, hshares, hfits, hpeak⟩
  · obtain ⟨-, -, -, wanted, hwanted, hat⟩ := hmay.resolve_left hnull
    have hsome : (held.find? fun holding ↦ holding.address = address).isSome :=
      List.find?_isSome.mpr ⟨wanted, hwanted, decide_eq_true hat⟩
    obtain ⟨holding, hfind⟩ := Option.isSome_iff_exists.mp hsome
    have hmem := List.mem_of_find?_eq_some hfind
    obtain ⟨index, rfl, -⟩ := hshares.exists_of_mem hmem
    have heffect : pool.Effect free held (.give address) .done (pool.pushed index) (index :: free)
        (held.erase (pool.holding index)) := .pushed hnull hfind
    have hrelease := hshares.release_run hmem .checked guise peak hfits
    have haddress : (pool.holding index).address = address := by simpa using List.find?_some hfind
    refine ⟨guise.engine peak (pool.pushed index), haddress ▸ hrelease, ?_⟩
    rw [without, hfind]
    refine ⟨guise, peak, _, _, _, heffect.shares hshares, ?_, Nat.le_trans (Nat.sub_le _ _) hpeak⟩
    rwa [heffect.capacity_eq]

theorem release_of_not_returnable (h : tenancy.Pooled)
    (hslots : tenancy.engine.slots? = some slots) (hword : address < Word.limit)
    (hno : ¬ slots.Returnable tenancy.held address) :
    ∃ broken, tenancy.engine.release .checked address =
      (some (.error (.violation broken)), tenancy.engine) := by
  obtain ⟨guise, peak, pool, free, held, hshares, hfits, hpeak⟩ := h
  rw [slots?_engine] at hslots
  obtain rfl := Option.some.inj hslots
  obtain ⟨broken, hrefuses⟩ := hshares.exists_refuses hword hno
  exact guise.release_refused peak hrefuses fun hnull ↦ hno (Or.inl hnull)

/-- An errand within the contract leaves the engine in agreement with its callers. -/
theorem step (h : tenancy.Pooled) (errand : Errand) :
    Pooled (Call.settled (Tenancy.step .checked errand tenancy)).2 := by
  obtain ⟨guise, peak, pool, free, held, hshares, hfits, hpeak⟩ := h
  obtain ⟨outcome, next, free', rest, heffect⟩ := hshares.exists_effect errand
  have hstep : Tenancy.step .checked errand ⟨guise.engine peak pool, held⟩ = .ok outcome
      ⟨guise.engine (max peak next.allocated) next, rest⟩ :=
    heffect.step_eq hshares .checked guise peak hfits hpeak
  rw [hstep]
  exact ⟨_, _, _, _, _, heffect.shares hshares, heffect.capacity_eq ▸ hfits, Nat.le_max_right _ _⟩

/-- So does giving back whatever one likes. -/
theorem giveRoughly (h : tenancy.Pooled) (hword : address < Word.limit) :
    Pooled (Call.settled (giveRoughly .checked address tenancy)).2 := by
  obtain ⟨slots, hslots⟩ := h.exists_slots
  by_cases hmay : slots.Returnable tenancy.held address
  · obtain ⟨next, hrelease, hnext⟩ := h.release_of_returnable hslots hmay
    rw [settled_giveRoughly hrelease]
    exact hnext
  · obtain ⟨broken, hrelease⟩ := h.release_of_not_returnable hslots hword hmay
    rw [settled_giveRoughly_of_error hrelease]
    exact h

/-- **Rough runs.** An engine that hands out slots agrees with its callers after any run. -/
theorem aftermath (h : tenancy.Pooled) (errands : List Errand)
    (hwords : ∀ address, .give address ∈ errands → address < Word.limit) :
    Pooled (Call.aftermath (roughStep .checked) errands tenancy) := by
  refine Call.aftermath_of_step Pooled errands (fun errand hmem tenancy h ↦ ?_) h
  cases errand with
  | give address => exact h.giveRoughly (hwords address hmem)
  | take | fill | mark | reset | rewind | openScope | endScope =>
    rw [roughStep]
    · exact h.step _
    · nofun

end Pooled

/-- **The tests are exact.** Whatever callers gave back and whatever became of it, an engine that
hands out slots completes a release exactly if the address is null or that of a slot that is held;
otherwise it ends with a violation, and the whole engine is as it was. -/
theorem release_exact {platform : Platform} {recipe : Recipe}
    (hnew : Engine.new .checked platform recipe = .ok engine)
    (hslots : engine.slots?.isSome) (hplaced : engine.memory.Placed) (errands : List Errand)
    (hwords : ∀ address, .give address ∈ errands → address < Word.limit) :
    let after := Call.aftermath (roughStep .checked) errands ⟨engine, []⟩
    ∃ slots, after.engine.slots? = some slots ∧ ∀ address < Word.limit,
      ((∃ next, after.engine.release .checked address = (some (.ok ()), next)) ↔
        slots.Returnable after.held address) ∧
      (¬ slots.Returnable after.held address → ∃ broken,
        after.engine.release .checked address =
          (some (.error (.violation broken)), after.engine)) := by
  intro after
  obtain ⟨fresh, hfresh⟩ := Option.isSome_iff_exists.mp hslots
  have hafter : after.Pooled := ((sound_new hnew hplaced).pooled hfresh).aftermath errands hwords
  obtain ⟨slots, hslots⟩ := hafter.exists_slots
  refine ⟨slots, hslots, fun address hword ↦ ⟨⟨fun hreturns ↦ ?_, fun hmay ↦ ?_⟩, ?_⟩⟩
  · by_contra hno
    obtain ⟨next, hreturns⟩ := hreturns
    obtain ⟨broken, hrefused⟩ := hafter.release_of_not_returnable hslots hword hno
    rw [hrefused] at hreturns
    cases hreturns
  · obtain ⟨next, hrelease, -⟩ := hafter.release_of_returnable hslots hmay
    exact ⟨next, hrelease⟩
  · exact hafter.release_of_not_returnable hslots hword

/-- A shared pool of two blocks gets one of them back twice, and an address inside the other. It
still takes back what is held, and not what is free. -/
theorem release_exact_twice :
    ∃ engine, Engine.new .checked ⟨fun _ _ ↦ true, fun _ ↦ 4096, fun _ ↦ 9⟩
        (.sharedPool 16 2 8 .lockFree) = .ok engine ∧
      let after := Call.aftermath (roughStep .checked)
        [.take 16 8, .take 16 8, .give 4096, .give 4096, .fill 4112 [1], .give 4120] ⟨engine, []⟩
      after.held = [⟨4112, 16⟩] ∧
      (∃ next, after.engine.release .checked 4112 = (some (.ok ()), next)) ∧
      ∃ broken, after.engine.release .checked 4096 =
        (some (.error (.violation broken)), after.engine) := by
  have hnew : Engine.new .checked ⟨fun _ _ ↦ true, fun _ ↦ 4096, fun _ ↦ 9⟩
      (.sharedPool 16 2 8 .lockFree) = .ok (.sharedPool
        ⟨⟨SlotArray.chainSlots ⟨4096, 8, fillBytes 32 fun _ ↦ 9⟩ 16 2, 16, 2, #[false, false]⟩,
          .lockFree, 0, 0, 0⟩) := rfl
  have hplaced : (SlotArray.chainSlots ⟨4096, 8, fillBytes 32 fun _ ↦ 9⟩ 16 2).Placed :=
    ⟨by decide +kernel, by decide +kernel, by decide +kernel⟩
  have hwords : ∀ address, Errand.give address ∈
      [.take 16 8, .take 16 8, .give 4096, .give 4096, .fill 4112 [1], .give 4120] →
        address < Word.limit := by
    simp [Word.limit]
  refine ⟨_, hnew, ?_⟩
  intro after
  have hheld : after.held = [⟨4112, 16⟩] := by decide +kernel
  have hplace : after.engine.slots?.map
      (fun slots ↦ (slots.count, slots.region.base, slots.stride)) = some (2, 4096, 16) := by
    decide +kernel
  obtain ⟨slots, hslots, hexact⟩ := release_exact hnew rfl hplaced _ hwords
  replace hslots : after.engine.slots? = some slots := hslots
  rw [hslots] at hplace
  obtain ⟨hcount, hbase, hstride⟩ : slots.count = 2 ∧ slots.region.base = 4096 ∧
      slots.stride = 16 := by
    simpa using hplace
  refine ⟨hheld, (hexact 4112 (by decide)).1.mpr ?_, (hexact 4096 (by decide)).2 ?_⟩
  · refine Or.inr ⟨1, by omega, by omega, ⟨4112, 16⟩, ?_, rfl⟩
    exact hheld ▸ List.mem_singleton_self _
  · rintro (hnull | ⟨-, -, -, holding, hmem, haddress⟩)
    · cases hnull
    · rw [show _ = _ from hheld, List.mem_singleton] at hmem
      rw [hmem] at haddress
      cases haddress

end Tenancy

end Engine

end Suballoc
