import Suballoc.Proofs.FreeList.Demand
import Suballoc.Proofs.FreeList.Take

/-!
# Where a request is placed

A search goes by the chain and keeps the best fit so far, so where a request ends up is a matter of
the order of visits. What callers rely on says nothing about visits: of all free blocks with room
for the request, the strategy takes the one that it prefers to every other, and when there is none
with room the request is turned down.

The chain ascends, and that is all the argument needs: a later fit replaces an earlier one only if
its block is smaller, so among blocks of one size the lowest stays.
-/

namespace Suballoc

/-! ## Choosing -/

namespace FitStrategy

/-- Whether a strategy takes the first of two blocks rather than the second. -/
def Prefers (a b : FreeBlock) : FitStrategy → Prop
  | .firstFit => a.offset ≤ b.offset
  | .bestFit => a.size < b.size ∨ a.size = b.size ∧ a.offset ≤ b.offset

theorem Prefers.refl (strategy : FitStrategy) (block : FreeBlock) :
    strategy.Prefers block block := by
  cases strategy with
  | firstFit => exact Nat.le_refl _
  | bestFit => exact Or.inr ⟨rfl, Nat.le_refl _⟩

variable {strategy : FitStrategy} {fits : List Fit} {fit : Fit}

/-- The smaller of two fits' blocks, when the first lies lower, is preferred to both; and whatever
is preferred to it is. -/
theorem Prefers.of_best {best next : Fit} {block : FreeBlock}
    (hlower : best.block.offset < next.block.offset)
    (h : bestFit.Prefers block
      (if next.block.size < best.block.size then next else best).block) :
    bestFit.Prefers block best.block ∧ bestFit.Prefers block next.block := by
  simp only [Prefers] at h ⊢
  split at h <;> omega

/-- Going on from a best fit, the search ends with one that is preferred to it and to all later
ones. -/
theorem prefers_of_foldl {best : Fit}
    (hordered : (best :: fits).Pairwise fun a b ↦ a.block.offset < b.block.offset)
    (h : bestFit.choose (some best) fits = some fit) :
    ∀ other ∈ best :: fits, bestFit.Prefers fit.block other.block := by
  induction fits generalizing best with
  | nil =>
    obtain rfl := Option.some.inj h
    intro other hother
    obtain rfl := List.mem_singleton.mp hother
    exact .refl _ _
  | cons next rest ih =>
    obtain ⟨hbest, hrest⟩ := List.pairwise_cons.mp hordered
    obtain ⟨hnext, hlater⟩ := List.pairwise_cons.mp hrest
    rw [choose, List.foldl_cons] at h
    simp only [Option.all_some, decide_eq_true_eq, ← apply_ite some] at h
    -- the better of the two lies below all that are still to come
    have hkept := ih (List.pairwise_cons.mpr ⟨?_, hlater⟩) h
    · have hboth := Prefers.of_best (hbest next List.mem_cons_self) (hkept _ List.mem_cons_self)
      intro other hother
      rcases List.mem_cons.mp hother with rfl | hother
      · exact hboth.1
      · rcases List.mem_cons.mp hother with rfl | hother
        · exact hboth.2
        · exact hkept other (List.mem_cons_of_mem _ hother)
    · intro other hother
      split
      · exact hnext other hother
      · exact hbest other (List.mem_cons_of_mem _ hother)

/-- **Choosing.** Of fits in ascending order a strategy picks the one it prefers to every other. -/
theorem prefers_of_choose
    (hordered : fits.Pairwise fun a b ↦ a.block.offset < b.block.offset)
    (h : strategy.choose none fits = some fit) :
    ∀ other ∈ fits, strategy.Prefers fit.block other.block := by
  cases fits with
  | nil => cases strategy <;> cases h
  | cons first rest =>
    cases strategy with
    | firstFit =>
      obtain rfl := Option.some.inj h
      intro other hother
      rcases List.mem_cons.mp hother with rfl | hother
      · exact .refl _ _
      · exact Nat.le_of_lt (List.rel_of_pairwise_cons hordered hother)
    | bestFit => exact prefers_of_foldl hordered h

theorem choose_eq_none_iff : strategy.choose none fits = none ↔ fits = [] := by
  constructor
  · intro h
    cases fits with
    | nil => rfl
    | cons first rest =>
      cases strategy with
      | firstFit => cases h
      | bestFit =>
        -- from a best fit on there is always one
        have hsome : ∀ (fits : List Fit) (best : Fit), bestFit.choose (some best) fits ≠ none := by
          intro fits
          induction fits with
          | nil =>
            intro best h
            cases h
          | cons next rest ih =>
            intro best
            rw [choose, List.foldl_cons]
            simp only [Option.all_some, decide_eq_true_eq, ← apply_ite some]
            exact ih _
        exact absurd h (hsome rest first)
  · rintro rfl
    cases strategy <;> rfl

end FitStrategy

namespace FreeList

variable {list : FreeList} {free : List FreeBlock} {leases : List Lease} {fit : Fit}
  {base size alignment previous : Nat} {blocks : List FreeBlock} {block : FreeBlock}

/-! ## All fits -/

theorem map_block_fits_sublist :
    ((fits base size alignment previous blocks).map Fit.block).Sublist blocks := by
  induction blocks generalizing previous with
  | nil => exact List.nil_sublist _
  | cons block rest ih =>
    rw [fits]
    split
    · exact ih.cons _
    · exact ih.cons_cons _

theorem fits_ordered (h : blocks.Pairwise fun a b ↦ a.offset < b.offset) :
    (fits base size alignment previous blocks).Pairwise
      fun a b ↦ a.block.offset < b.block.offset := by
  have hblocks : ((fits base size alignment previous blocks).map Fit.block).Pairwise
      fun a b ↦ a.offset < b.offset := h.sublist map_block_fits_sublist
  rwa [List.pairwise_map] at hblocks

theorem exists_mem_fits (hpow : alignment.isPowerOfTwo)
    (hwords : ∀ block ∈ blocks, base + block.stop < Word.limit) (hblock : block ∈ blocks)
    (hroom : block.HasRoom base size alignment) :
    ∃ fit ∈ fits base size alignment previous blocks, fit.block = block := by
  induction blocks generalizing previous with
  | nil => exact absurd hblock List.not_mem_nil
  | cons first rest ih =>
    rw [fits]
    rcases List.mem_cons.mp hblock with rfl | hrest
    · obtain ⟨adjustment, needed, hdemands⟩ := hroom
      rw [(FreeBlock.filter_demand?_eq_some_iff hpow (hwords _ List.mem_cons_self)).mpr hdemands]
      exact ⟨_, List.mem_cons_self, rfl⟩
    · obtain ⟨fit, hfit, hsame⟩ := ih (fun b hb ↦ hwords b (List.mem_cons_of_mem _ hb)) hrest
      refine ⟨fit, ?_, hsame⟩
      split
      · exact hfit
      · exact List.mem_cons_of_mem _ hfit

/-! ## The search -/

namespace Tiled

theorem block_stop_lt (h : list.Tiled free leases) :
    ∀ block ∈ list.blocks, list.region.base + block.stop < Word.limit := by
  intro block hblock
  rw [h.blocks_eq] at hblock
  have hstop := h.free_stop_le hblock
  have hlt := h.stop_lt
  omega

theorem placed_of_find {build : Build} (h : list.Tiled free leases)
    (hpow : alignment.isPowerOfTwo) (hfind : list.find build size alignment = .ok (some fit)) :
    Demands (list.region.base + fit.block.offset) size alignment fit.adjustment fit.needed ∧
      fit.needed ≤ fit.block.size ∧
      ∀ block ∈ list.blocks, block.HasRoom list.region.base size alignment →
        list.strategy.Prefers fit.block block := by
  obtain ⟨-, -, -, -, hdemand, hfits⟩ := find_eq_some (fun _ hblock ↦ h.address_lt hblock) hfind
  refine ⟨((demand?_eq_some_iff hpow).mp hdemand).1, hfits, fun block hblock hroom ↦ ?_⟩
  rw [find, search_eq build list.strategy none fun _ hblock ↦ h.address_lt hblock] at hfind
  obtain ⟨other, hother, rfl⟩ := exists_mem_fits hpow h.block_stop_lt hblock hroom
  refine FitStrategy.prefers_of_choose (fits_ordered ?_) (Except.ok.inj hfind) other hother
  rw [h.blocks_eq]
  exact h.apart.imp fun hlt ↦ Nat.lt_of_le_of_lt (Nat.le_add_right _ _) hlt

theorem find_eq_none_iff (build : Build) (h : list.Tiled free leases)
    (hpow : alignment.isPowerOfTwo) :
    list.find build size alignment = .ok none ↔
      ∀ block ∈ list.blocks, ¬ block.HasRoom list.region.base size alignment := by
  rw [find, search_eq build list.strategy none fun _ hblock ↦ h.address_lt hblock, Except.ok.injEq,
    FitStrategy.choose_eq_none_iff]
  constructor
  · intro hnone block hblock hroom
    obtain ⟨fit, hfit, -⟩ := exists_mem_fits hpow h.block_stop_lt hblock hroom
    rw [hnone] at hfit
    exact absurd hfit List.not_mem_nil
  · intro hnone
    by_contra hsome
    obtain ⟨fit, hfit⟩ := List.exists_mem_of_ne_nil _ hsome
    obtain ⟨before, after, hblocks, -, hdemand, hfits⟩ := exists_of_mem_fits hfit
    refine hnone fit.block ?_ ⟨_, _, ((demand?_eq_some_iff hpow).mp hdemand).1, hfits⟩
    rw [hblocks]
    exact List.mem_append_right _ List.mem_cons_self

end Tiled

/-! ## The call -/

theorem allocate_of_not_isPowerOfTwo (build : Build) (size : Nat) (list : FreeList)
    (hpow : ¬ alignment.isPowerOfTwo) :
    allocate build size alignment list =
      match build with
      | .checked => .error (.violation (.alignmentNotPowerOfTwo alignment)) list
      | .unchecked => .ok none list := by
  rw [allocate]
  cases build <;> simp [hpow, Build.require_checked]

/-- How a request for memory is met: from a fit of a free block between others, it leads from one
list to the next. -/
structure Places (list : FreeList) (size alignment : Nat) (before : List FreeBlock) (fit : Fit)
    (after : List FreeBlock) (next : FreeList) : Prop where
  blocks_eq : list.blocks = before ++ fit.block :: after
  demands : Demands (list.region.base + fit.block.offset) size (payloadAlignment alignment)
    fit.adjustment fit.needed
  needed_le : fit.needed ≤ fit.block.size
  /-- No other block with room would have been taken. -/
  preferred : ∀ block ∈ list.blocks,
    block.HasRoom list.region.base size (payloadAlignment alignment) →
      list.strategy.Prefers fit.block block
  /-- What is recorded is what was taken: the bytes needed, or the whole block. -/
  header_eq : next.header (fit.block.offset + fit.adjustment - nodeSize) =
    { size := fit.taken.size, adjustment := fit.adjustment }
  /-- The rest of the block takes its place in the chain, if it is larger than a node; all others
  stay. -/
  next_blocks : next.blocks = before ++ fit.rest ++ after
  used_eq : next.used = list.used + fit.taken.size
  allocations_eq : next.allocations = list.allocations + 1
  /-- The address is one of those that were asked for. -/
  aligned : alignment ∣ list.region.base + fit.block.offset + fit.adjustment
  /-- Header and payload lie in the block that was taken. -/
  nodeSize_le : nodeSize ≤ fit.adjustment
  le_size : fit.adjustment + size ≤ fit.taken.size

/-- **Placement.** A request that no free block has room for is turned down and changes nothing.
Any other is met from the block that the strategy prefers, with the least padding that there can be
and no more bytes than whole words need, unless too little would be left. -/
theorem Tiled.allocate_placed (h : list.Tiled free leases) (size : Nat)
    (hpow : alignment.isPowerOfTwo) :
    ((∀ block ∈ list.blocks, ¬ block.HasRoom list.region.base size (payloadAlignment alignment)) ∧
        ∀ build, allocate build size alignment list = .ok none list) ∨
      ∃ before fit after next, list.Places size alignment before fit after next ∧
        ∀ build, allocate build size alignment list =
          .ok (some (list.region.base + fit.block.offset + fit.adjustment)) next := by
  have hpow' := isPowerOfTwo_payloadAlignment hpow
  obtain ⟨found, hfind⟩ :
      ∃ found, ∀ build, list.find build size (payloadAlignment alignment) = .ok found :=
    find_eq_ok fun _ hblock ↦ h.address_lt hblock
  cases found with
  | none =>
    refine Or.inl ⟨(h.find_eq_none_iff .checked hpow').mp (hfind .checked), fun build ↦ ?_⟩
    exact h.allocate_of_find_none build hpow (hfind build)
  | some fit =>
    right
    obtain ⟨before, after, rfl, hsound, -⟩ := h.sound_of_find hpow (hfind .checked)
    obtain ⟨hdemands, hneeded, hprefers⟩ := h.placed_of_find hpow' (hfind .checked)
    refine ⟨before, fit, after, list.granted fit, ?_, fun build ↦ ?_⟩
    · refine ⟨h.blocks_eq, hdemands, hneeded, hprefers, header_granted h hsound,
        (h.granted hsound).blocks_eq, rfl, rfl, ?_, hdemands.nodeSize_le, ?_⟩
      · exact Nat.dvd_trans (dvd_of_isPowerOfTwo_of_le hpow hpow' (Nat.le_max_left _ _))
          hdemands.dvd
      · exact Nat.le_trans hdemands.le_needed (Fit.needed_le_taken hneeded)
    · rw [Nat.add_assoc]
      exact h.allocate_of_find build hsound hpow (hfind build)

end FreeList

end Suballoc
