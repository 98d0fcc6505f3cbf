import Suballoc.FreeList.Allocate
import Suballoc.Proofs.FreeList.Demand

/-!
# Finding room

The search walks the chain once and keeps what it has found in its arguments. Here it is taken
apart: `fits` lists every way in which a request fits a free block, and `choose` picks one of them
by strategy. A search is the second applied to the first, in both builds, because the addresses of
free blocks are words.

The test of a single block is exact: no sum that leaves the range of a word on the way hides a
request that fits.
-/

namespace Suballoc

/-! ## Alignments of payloads and choices -/

theorem isPowerOfTwo_payloadAlignment {alignment : Nat} (h : alignment.isPowerOfTwo) :
    (FreeList.payloadAlignment alignment).isPowerOfTwo := isPowerOfTwo_max h isPowerOfTwo_width

theorem width_dvd_payloadAlignment {alignment : Nat} (h : alignment.isPowerOfTwo) :
    Word.width ∣ FreeList.payloadAlignment alignment :=
  dvd_of_isPowerOfTwo_of_le isPowerOfTwo_width (isPowerOfTwo_payloadAlignment h)
    (Nat.le_max_right _ _)

/-- The fit that a strategy picks, when the blocks before gave a best one already. -/
def FitStrategy.choose (best : Option Fit) (fits : List Fit) : FitStrategy → Option Fit
  | .firstFit => fits.head?.or best
  | .bestFit =>
    fits.foldl
      (fun best fit ↦
        if best.all fun best ↦ fit.block.size < best.block.size then some fit else best)
      best

theorem FitStrategy.mem_of_choose {strategy : FitStrategy} {best : Option Fit} {fits : List Fit}
    {fit : Fit} (h : strategy.choose best fits = some fit) : best = some fit ∨ fit ∈ fits := by
  cases strategy with
  | firstFit =>
    rcases Option.or_eq_some_iff.mp h with h | ⟨-, h⟩
    · exact Or.inr (List.mem_of_head? h)
    · exact Or.inl h
  | bestFit =>
    rw [choose] at h
    induction fits generalizing best with
    | nil => exact Or.inl h
    | cons first rest ih =>
      rw [List.foldl_cons] at h
      -- the fold goes on with the first fit or with the best one before it
      rcases ih h with hbest | hmem
      · split at hbest
        · exact Or.inr (Option.some.inj hbest ▸ List.mem_cons_self)
        · exact Or.inl hbest
      · exact Or.inr (List.mem_cons_of_mem _ hmem)

namespace FreeList

/-! ## Fits -/

/-- The ways in which a request fits free blocks, in the order of the chain. -/
def fits (base size alignment : Nat) : (previous : Nat) → List FreeBlock → List Fit
  | _, [] => []
  | previous, block :: rest =>
    let others := fits base size alignment block.offset rest
    match (demand? (base + block.offset) size alignment).filter
        fun demand ↦ demand.2 ≤ block.size with
    | none => others
    | some (adjustment, needed) => { previous, block, adjustment, needed } :: others

variable {base size alignment previous : Nat} {blocks : List FreeBlock} {fit : Fit}

/-- A fit is a fit of one of the blocks, and knows the block before it. -/
theorem exists_of_mem_fits (h : fit ∈ fits base size alignment previous blocks) :
    ∃ before after, blocks = before ++ fit.block :: after ∧
      fit.previous = (before.getLast?.map FreeBlock.offset).getD previous ∧
      demand? (base + fit.block.offset) size alignment = some (fit.adjustment, fit.needed) ∧
      fit.needed ≤ fit.block.size := by
  induction blocks generalizing previous with
  | nil => exact absurd h List.not_mem_nil
  | cons block rest ih =>
    -- a fit further on knows the same block before it, unless it is the next one
    have hlater (hmem : fit ∈ fits base size alignment block.offset rest) :
        ∃ before after, block :: rest = before ++ fit.block :: after ∧
          fit.previous = (before.getLast?.map FreeBlock.offset).getD previous ∧
          demand? (base + fit.block.offset) size alignment = some (fit.adjustment, fit.needed) ∧
          fit.needed ≤ fit.block.size := by
      obtain ⟨before, after, rfl, hprevious, hdemand⟩ := ih hmem
      refine ⟨block :: before, after, rfl, ?_, hdemand⟩
      rw [hprevious, List.getLast?_cons]
      cases before.getLast? <;> rfl
    rw [fits] at h
    split at h
    · exact hlater h
    · rename_i adjustment needed hdemand
      rcases List.mem_cons.mp h with rfl | hmem
      · obtain ⟨hdemand, hneeded⟩ := Option.filter_eq_some_iff.mp hdemand
        exact ⟨[], rest, rfl, rfl, hdemand, of_decide_eq_true hneeded⟩
      · exact hlater hmem

/-! ## The test of a block -/

theorem fitIn_eq (build : Build) {block : FreeBlock} (hword : base + block.offset < Word.limit) :
    fitIn build base block size alignment =
      .ok ((demand? (base + block.offset) size alignment).filter
        fun demand ↦ demand.2 ≤ block.size) := by
  rw [fitIn, Build.add_of_lt build hword]
  rfl

/-- **The test of a block is exact.** In a region whose end is a word, a request fits a block whose
start is a whole number of words exactly if what it asks in exact integers is no more than the block
has, and the answer is what it asks, in whole words. Where a sum or a rounding on the way is not a
word, the request is larger than the block. This rests on rounding up: the answer of it is the least
multiple of the alignment from the value on, and there is none exactly if that is not a word. -/
theorem fitIn_exact (build : Build) {block : FreeBlock} (hbase : Word.width ∣ base)
    (hoffset : Word.width ∣ block.offset) (hstop : base + block.stop < Word.limit)
    (hpow : alignment.isPowerOfTwo) (hwidth : Word.width ≤ alignment) (size : Nat) :
    (∃ adjustment needed,
      IsLeast (shiftsFrom alignment (base + block.offset) nodeSize) adjustment ∧
      IsLeast (multiplesFrom Word.width (adjustment + size)) needed ∧
      Word.width ∣ adjustment ∧ Word.width ∣ needed ∧
      fitIn build base block size alignment =
        .ok (if needed ≤ block.size then some (adjustment, needed) else none) ∧
      (demand? (base + block.offset) size alignment = none → block.size < needed)) ∧
    ∀ value rounding, rounding.isPowerOfTwo → rounding < Word.limit →
      ∃ least, IsLeast (multiplesFrom rounding value) least ∧
        alignUp? value rounding = if least < Word.limit then some least else none := by
  constructor
  · obtain ⟨adjustment, needed, hdemands⟩ :=
      Demands.exists_demands (base + block.offset) size (Nat.pos_of_isPowerOfTwo hpow)
    have hfilter := FreeBlock.filter_demand?_eq_ite hpow hstop hdemands
    have hword : base + block.offset < Word.limit := by
      rw [FreeBlock.stop] at hstop
      omega
    have hpayload : Word.width ∣ base + block.offset + adjustment :=
      (dvd_of_isPowerOfTwo_of_le isPowerOfTwo_width hpow hwidth).trans hdemands.dvd
    refine ⟨adjustment, needed, hdemands.isLeast_adjustment, hdemands.isLeast_needed,
      (Nat.dvd_add_right (Nat.dvd_add hbase hoffset)).mp hpayload, hdemands.width_dvd, ?_, ?_⟩
    · rw [fitIn_eq build hword, hfilter]
    · intro hnone
      by_contra hfits
      rw [hnone, if_pos (Nat.not_lt.mp hfits)] at hfilter
      cases hfilter
  · intro value rounding hrounding hword
    exact ⟨_, isLeast_roundedUp value (Nat.pos_of_isPowerOfTwo hrounding),
      alignUp?_eq_ite value hrounding (Nat.le_of_lt hword)⟩

/-- In a region on the last page of addresses, a block that ends a word before the addresses do is
filled to its last byte, and one byte more does not fit. The next multiple of a page is no word, and
neither is the sum of the largest size and a header. -/
theorem fitIn_exact_last_page : ∃ block : FreeBlock, block = ⟨8, 4080⟩ ∧
    0xfffffffffffff000 + block.stop < Word.limit ∧
    fitIn .checked 0xfffffffffffff000 block 2040 2048 = .ok (some (2040, 4080)) ∧
    fitIn .checked 0xfffffffffffff000 block 2041 2048 = .ok none ∧
    fitIn .checked 0xfffffffffffff000 block 0 4096 = .ok none ∧
    fitIn .checked 0xfffffffffffff000 block (Word.limit - 1) 8 = .ok none := by
  have hexact (size adjustment needed : Nat) {alignment : Nat} (hpow : alignment.isPowerOfTwo)
      (hwidth : Word.width ≤ alignment)
      (hadjustment : alignment ∣ 0xfffffffffffff008 + adjustment ∧ nodeSize ≤ adjustment ∧
        adjustment < nodeSize + alignment)
      (hneeded : Word.width ∣ needed ∧ adjustment + size ≤ needed ∧
        needed < adjustment + size + Word.width) :
      fitIn .checked 0xfffffffffffff000 ⟨8, 4080⟩ size alignment =
        .ok (if needed ≤ 4080 then some (adjustment, needed) else none) := by
    obtain ⟨⟨shift, total, hshift, htotal, -, -, hfit, -⟩, -⟩ :=
      fitIn_exact .checked (by decide : Word.width ∣ 0xfffffffffffff000)
        (by decide : Word.width ∣ (⟨8, 4080⟩ : FreeBlock).offset) (by decide) hpow hwidth size
    obtain rfl : shift = adjustment := hshift.unique (isLeast_shiftsFrom_iff.mpr
      ((isLeast_multiplesFrom_add_iff (Nat.pos_of_isPowerOfTwo hpow)).mpr hadjustment))
    obtain rfl : total = needed :=
      htotal.unique ((isLeast_multiplesFrom_iff (by decide)).mpr hneeded)
    exact hfit
  refine ⟨_, rfl, by decide, ?_, ?_, ?_, ?_⟩
  · exact hexact 2040 2040 4080 ⟨11, rfl⟩ (by decide) (by decide) (by decide)
  · exact hexact 2041 2040 4088 ⟨11, rfl⟩ (by decide) (by decide) (by decide)
  · exact hexact 0 4088 4088 ⟨12, rfl⟩ (by decide) (by decide) (by decide)
  · exact hexact (Word.limit - 1) 16 (Word.limit + 16) ⟨3, rfl⟩ (by decide) (by decide) (by decide)

/-! ## The search -/

/-- A search is a choice among the fits. -/
theorem search_eq (build : Build) (strategy : FitStrategy) (best : Option Fit)
    (hwords : ∀ block ∈ blocks, base + block.offset < Word.limit) :
    search (fun block ↦ fitIn build base block size alignment) strategy best previous blocks =
      .ok (strategy.choose best (fits base size alignment previous blocks)) := by
  induction blocks generalizing previous best with
  | nil => cases strategy <;> rfl
  | cons block rest ih =>
    have hrest : ∀ b ∈ rest, base + b.offset < Word.limit := fun b hb ↦
      hwords b (List.mem_cons_of_mem _ hb)
    rw [search]
    dsimp only
    rw [fitIn_eq build (hwords block List.mem_cons_self), fits]
    cases (demand? (base + block.offset) size alignment).filter
        fun demand ↦ demand.2 ≤ block.size with
    | none => exact ih best hrest
    | some demand =>
      obtain ⟨adjustment, needed⟩ := demand
      cases strategy with
      | firstFit => rfl
      | bestFit => exact ih _ hrest

theorem find_eq_ok {list : FreeList}
    (hwords : ∀ block ∈ list.blocks, list.region.base + block.offset < Word.limit) :
    ∃ found, ∀ build, list.find build size alignment = .ok found :=
  ⟨_, fun build ↦ search_eq build list.strategy none hwords⟩

/-- **The search is sound.** What is found is a free block with enough room for the request. -/
theorem find_eq_some {build : Build} {list : FreeList}
    (hwords : ∀ block ∈ list.blocks, list.region.base + block.offset < Word.limit)
    (h : list.find build size alignment = .ok (some fit)) :
    ∃ before after, list.blocks = before ++ fit.block :: after ∧
      fit.previous = lastOffset before ∧
      demand? (list.region.base + fit.block.offset) size alignment =
        some (fit.adjustment, fit.needed) ∧
      fit.needed ≤ fit.block.size := by
  rw [find, search_eq build list.strategy none hwords] at h
  rcases FitStrategy.mem_of_choose (Except.ok.inj h) with hnone | hmem
  · exact absurd hnone (by simp)
  · exact exists_of_mem_fits hmem

end FreeList

end Suballoc
