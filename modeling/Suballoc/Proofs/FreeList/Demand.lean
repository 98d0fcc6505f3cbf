import Suballoc.FreeList.Fit
import Suballoc.Proofs.FreeList.Chain
import Suballoc.Proofs.Word.Alignment

/-!
# What a request asks of a block

Whether a request fits a free block is computed with four roundings and sums of words, any of which
can fail. In exact integers it is two minima: the payload is the lowest address of its alignment
behind a header, and the request takes the least number of whole words that reaches from the block's
start to the payload's end. In a region whose end is a word the two say the same, since what is no
longer a word is too large for every block.

Said so, two laws are plain. A request that fits a block fits every block around it. And it asks
the same of two blocks whose addresses differ by a multiple of its alignment.
-/

namespace Suballoc

/-- What a request asks of a block at an address: the payload is this far from the block's start,
and so many bytes are taken in all. -/
structure Demands (address size alignment adjustment needed : Nat) : Prop where
  isLeast_payload : IsLeast (multiplesFrom alignment (address + nodeSize)) (address + adjustment)
  isLeast_needed : IsLeast (multiplesFrom Word.width (adjustment + size)) needed

namespace Demands

variable {address size alignment adjustment needed : Nat}

theorem nodeSize_le (h : Demands address size alignment adjustment needed) :
    nodeSize ≤ adjustment := Nat.le_of_add_le_add_left h.isLeast_payload.1.2

theorem dvd (h : Demands address size alignment adjustment needed) :
    alignment ∣ address + adjustment := h.isLeast_payload.1.1

theorem le_needed (h : Demands address size alignment adjustment needed) :
    adjustment + size ≤ needed := h.isLeast_needed.1.2

theorem width_dvd (h : Demands address size alignment adjustment needed) : Word.width ∣ needed :=
  h.isLeast_needed.1.1

/-- The adjustment is the least distance behind a header at which the payload is aligned. -/
theorem isLeast_adjustment (h : Demands address size alignment adjustment needed) :
    IsLeast (shiftsFrom alignment address nodeSize) adjustment :=
  isLeast_shiftsFrom_iff.mpr h.isLeast_payload

theorem unique {adjustment' needed' : Nat} (h : Demands address size alignment adjustment needed)
    (h' : Demands address size alignment adjustment' needed') :
    adjustment = adjustment' ∧ needed = needed' := by
  obtain rfl : adjustment = adjustment' :=
    Nat.add_left_cancel (h.isLeast_payload.unique h'.isLeast_payload)
  exact ⟨rfl, h.isLeast_needed.unique h'.isLeast_needed⟩

theorem exists_demands (address size : Nat) (hpos : 0 < alignment) :
    ∃ adjustment needed, Demands address size alignment adjustment needed := by
  obtain ⟨payload, hpayload⟩ := exists_isLeast_multiplesFrom (address + nodeSize) hpos
  have hle : address ≤ payload := Nat.le_trans (Nat.le_add_right _ _) hpayload.1.2
  obtain ⟨needed, hneeded⟩ := exists_isLeast_multiplesFrom (payload - address + size)
    (Nat.pos_of_isPowerOfTwo isPowerOfTwo_width)
  refine ⟨payload - address, needed, ?_, hneeded⟩
  rwa [Nat.add_sub_cancel' hle]

/-- Only the remainder of the address matters. -/
theorem of_modEq {address' : Nat} (hpos : 0 < alignment)
    (hmod : address ≡ address' [MOD alignment])
    (h : Demands address size alignment adjustment needed) :
    Demands address' size alignment adjustment needed :=
  ⟨(isLeast_multiplesFrom_add_congr hpos hmod).mp h.isLeast_payload, h.isLeast_needed⟩

/-- **Nesting.** Of a block that starts so many whole words earlier, a request asks that many bytes
more at most. -/
theorem needed_le_add {shift adjustment' needed' : Nat} (hshift : Word.width ∣ shift)
    (h : Demands (address + shift) size alignment adjustment needed)
    (h' : Demands address size alignment adjustment' needed') : needed' ≤ shift + needed := by
  -- the later payload is also a payload for the earlier block
  have hpayload : address + adjustment' ≤ address + shift + adjustment := by
    refine h'.isLeast_payload.2 ⟨h.dvd, ?_⟩
    have := h.nodeSize_le
    omega
  have hneeded := h.le_needed
  exact h'.isLeast_needed.2 ⟨Nat.dvd_add hshift h.width_dvd, by omega⟩

end Demands

/-- The computed demand is the exact one, as far as it is in words. -/
theorem demand?_eq_some_iff {address size alignment adjustment needed : Nat}
    (hpow : alignment.isPowerOfTwo) :
    demand? address size alignment = some (adjustment, needed) ↔
      Demands address size alignment adjustment needed ∧ address + adjustment < Word.limit ∧
        needed < Word.limit := by
  have hnode := nodeSize_pos
  simp only [demand?, Word.add?, Option.bind_eq_bind, Option.bind_eq_some_iff,
    Option.ite_none_right_eq_some, Option.some_inj]
  constructor
  · rintro ⟨room, ⟨hroom, rfl⟩, payload, hpayload, total, ⟨htotal, rfl⟩, rounded, hrounded, hpair⟩
    obtain ⟨rfl, rfl⟩ := Prod.mk.inj (Option.some.inj hpair)
    obtain ⟨hleast, hword⟩ := (alignUp?_eq_some_iff_isLeast hpow (by omega)).mp hpayload
    have hle : address + nodeSize ≤ payload := hleast.1.2
    obtain ⟨hleast', hword'⟩ :=
      (alignUp?_eq_some_iff_isLeast isPowerOfTwo_width (by omega)).mp hrounded
    rw [← Nat.add_sub_cancel' (show address ≤ payload by omega)] at hleast hword
    exact ⟨⟨hleast, hleast'⟩, hword, hword'⟩
  · rintro ⟨h, hword, hword'⟩
    have hle := h.nodeSize_le
    have hle' := h.le_needed
    refine ⟨address + nodeSize, ⟨by omega, rfl⟩, address + adjustment, ?_, adjustment + size,
      ⟨by omega, by rw [Nat.add_sub_cancel_left]⟩, needed, ?_, ?_⟩
    · exact (alignUp?_eq_some_iff_isLeast hpow (by omega)).mpr ⟨h.isLeast_payload, hword⟩
    · exact (alignUp?_eq_some_iff_isLeast isPowerOfTwo_width (by omega)).mpr
        ⟨h.isLeast_needed, hword'⟩
    · rw [Nat.add_sub_cancel_left]
      rfl

/-! ## Blocks with room -/

namespace FreeBlock

/-- A block lies in another one. -/
def Within (inner outer : FreeBlock) : Prop :=
  outer.offset ≤ inner.offset ∧ inner.stop ≤ outer.stop

/-- A request fits a block of a region that starts at `base`. -/
def HasRoom (block : FreeBlock) (base size alignment : Nat) : Prop :=
  ∃ adjustment needed,
    Demands (base + block.offset) size alignment adjustment needed ∧ needed ≤ block.size

variable {block inner outer : FreeBlock} {base base' size alignment adjustment needed : Nat}

theorem Within.refl (block : FreeBlock) : block.Within block := ⟨Nat.le_refl _, Nat.le_refl _⟩

theorem Within.trans {middle : FreeBlock} (h : inner.Within middle) (h' : middle.Within outer) :
    inner.Within outer := ⟨Nat.le_trans h'.1 h.1, Nat.le_trans h.2 h'.2⟩

/-- In a region whose end is a word, a block passes the test of the search exactly if the request
fits it. -/
theorem filter_demand?_eq_some_iff (hpow : alignment.isPowerOfTwo)
    (hstop : base + block.stop < Word.limit) :
    ((demand? (base + block.offset) size alignment).filter fun demand ↦ demand.2 ≤ block.size) =
        some (adjustment, needed) ↔
      Demands (base + block.offset) size alignment adjustment needed ∧ needed ≤ block.size := by
  rw [Option.filter_eq_some_iff, demand?_eq_some_iff hpow, decide_eq_true_iff]
  rw [stop] at hstop
  constructor
  · rintro ⟨⟨hdemands, -, -⟩, hfits⟩
    exact ⟨hdemands, hfits⟩
  · rintro ⟨hdemands, hfits⟩
    have hle := hdemands.le_needed
    exact ⟨⟨hdemands, by omega, by omega⟩, hfits⟩

theorem filter_demand?_eq_ite (hpow : alignment.isPowerOfTwo)
    (hstop : base + block.stop < Word.limit)
    (h : Demands (base + block.offset) size alignment adjustment needed) :
    ((demand? (base + block.offset) size alignment).filter fun demand ↦ demand.2 ≤ block.size) =
      if needed ≤ block.size then some (adjustment, needed) else none := by
  by_cases hfits : needed ≤ block.size
  · rw [if_pos hfits]
    exact (filter_demand?_eq_some_iff hpow hstop).mpr ⟨h, hfits⟩
  · rw [if_neg hfits, Option.eq_none_iff_forall_ne_some]
    rintro ⟨adjustment', needed'⟩ hpasses
    obtain ⟨h', hfits'⟩ := (filter_demand?_eq_some_iff hpow hstop).mp hpasses
    -- what passes asks the same, and does not fit
    obtain ⟨-, rfl⟩ := h.unique h'
    exact hfits hfits'

/-- **Larger blocks serve better.** A request that fits a block fits every block around it, whatever
the alignment and however ragged the ends. -/
theorem HasRoom.mono (h : inner.HasRoom base size alignment) (hpos : 0 < alignment)
    (hinner : Word.width ∣ inner.offset) (houter : Word.width ∣ outer.offset)
    (hwithin : inner.Within outer) : outer.HasRoom base size alignment := by
  obtain ⟨hoffset, hstop⟩ := hwithin
  obtain ⟨adjustment, needed, hdemands, hfits⟩ := h
  obtain ⟨adjustment', needed', hdemands'⟩ :=
    Demands.exists_demands (base + outer.offset) size hpos
  refine ⟨adjustment', needed', hdemands', ?_⟩
  have hshift : base + inner.offset = base + outer.offset + (inner.offset - outer.offset) := by
    omega
  rw [hshift] at hdemands
  have hle := hdemands.needed_le_add (Nat.dvd_sub hinner houter) hdemands'
  simp only [stop] at hstop
  omega

end FreeBlock

end Suballoc
