import Suballoc.Proofs.Call
import Suballoc.Proofs.Word.Alignment
import Suballoc.SlotArray

/-!
# The chain of free slots in memory

Both pools thread their free slots through the slots themselves. `Chained` says that the links lead
from one index through given slots and end; it is what relates memory to a list of free indices, and
the pools are proved by following that list.

The links share their words with the bytes of holders, one at a time. So every lemma about a write
says whose slot it is in: a write to a slot off the chain leaves the chain alone, whatever is
written, and a push is such a write as well.
-/

namespace Suballoc

namespace SlotArray

/-! ## The stretches of slots -/

theorem mul_add_le_mul {i j : Nat} (stride : Nat) (h : i < j) :
    i * stride + stride ≤ j * stride := by
  rw [← Nat.succ_mul]
  exact Nat.mul_le_mul_right stride h

theorem stop_le_or_stop_le {i j : Nat} (stride : Nat) (h : i ≠ j) :
    i * stride + stride ≤ j * stride ∨ j * stride + stride ≤ i * stride := by
  rcases Nat.lt_or_gt_of_ne h with h | h
  · exact Or.inl (mul_add_le_mul stride h)
  · exact Or.inr (mul_add_le_mul stride h)

theorem length_le_of_nodup {indices : List Nat} {count : Nat} (hnodup : indices.Nodup)
    (hlt : ∀ index ∈ indices, index < count) : indices.length ≤ count := by
  have hsub : indices ⊆ List.range count := fun index hindex ↦
    List.mem_range.mpr (hlt index hindex)
  have hle := hnodup.length_le_of_subset hsub
  rwa [List.length_range] at hle

/-- Each slot has room for a link and lies in a region whose offsets are words. -/
structure Laid (slots : SlotArray) : Prop where
  width_le : Word.width ≤ slots.stride
  size_eq : slots.region.size = slots.stride * slots.count
  size_lt : slots.region.size < Word.limit

namespace Laid

variable {slots : SlotArray} {index : Nat}

theorem congr {after : SlotArray} (h : slots.Laid) (hstride : after.stride = slots.stride)
    (hcount : after.count = slots.count) (hsize : after.region.size = slots.region.size) :
    after.Laid := by
  obtain ⟨hwidth, hsizes, hlt⟩ := h
  rw [← hsize] at hlt
  rw [← hsize, ← hstride, ← hcount] at hsizes
  rw [← hstride] at hwidth
  exact ⟨hwidth, hsizes, hlt⟩

theorem slot_le (h : slots.Laid) (hindex : index < slots.count) :
    index * slots.stride + slots.stride ≤ slots.region.size := by
  rw [h.size_eq, Nat.mul_comm slots.stride]
  exact mul_add_le_mul slots.stride hindex

theorem lt_chainEnd (h : slots.Laid) (hindex : index < slots.count) : index < chainEnd := by
  have hslot := h.slot_le hindex
  have hstride := Nat.le_mul_of_pos_right index (Nat.lt_of_lt_of_le (by decide) h.width_le)
  have hwidth : 0 < slots.stride := Nat.lt_of_lt_of_le (by decide) h.width_le
  have hsize := h.size_lt
  unfold chainEnd
  omega

theorem count_lt (h : slots.Laid) : slots.count < Word.limit := by
  have hle := Nat.le_mul_of_pos_left slots.count (Nat.lt_of_lt_of_le (by decide) h.width_le)
  have hsize := h.size_eq
  have hlt := h.size_lt
  omega

theorem offset_eq (build : Build) (h : slots.Laid) (hindex : index < slots.count) :
    slots.offset build index = .ok (index * slots.stride) := by
  have hslot := h.slot_le hindex
  have hsize := h.size_lt
  exact Build.mul_of_lt build (by omega)

theorem linkOffset_eq (build : Build) (h : slots.Laid) (hindex : index < slots.count) :
    slots.linkOffset build index = .ok (index * slots.stride) := by
  rw [linkOffset, decide_eq_true hindex, Build.assert_true, Call.ok_bind, h.offset_eq build hindex]

theorem link_eq (build : Build) (h : slots.Laid) (hindex : index < slots.count) :
    slots.link build index = .ok (slots.region.word (index * slots.stride)) := by
  rw [link, h.linkOffset_eq build hindex, Call.ok_bind]
  rfl

theorem address_eq (build : Build) (h : slots.Laid) (hstop : slots.region.stop < Word.limit)
    (hindex : index < slots.count) :
    slots.address build index = .ok (slots.region.base + index * slots.stride) := by
  have hslot := h.slot_le hindex
  rw [address, h.offset_eq build hindex, Call.ok_bind, Region.address_of_le build (by omega) hstop]

theorem indexOf_eq (build : Build) (h : slots.Laid) (hstop : slots.region.stop < Word.limit)
    (hindex : index < slots.count) :
    slots.indexOf build (slots.region.base + index * slots.stride) = .ok index := by
  have hslot := h.slot_le hindex
  have hwidth : 0 < slots.stride := Nat.lt_of_lt_of_le (by decide) h.width_le
  rw [Region.stop] at hstop
  have hoffset : Word.sub (slots.region.base + index * slots.stride) slots.region.base =
      index * slots.stride := by
    rw [Word.sub_of_le (Nat.le_add_right _ _) (by omega), Nat.add_sub_cancel_left]
  have hinside : index * slots.stride < slots.region.size := by omega
  rw [indexOf]
  simp only [hoffset, hinside, Nat.mul_mod_left, decide_true, Build.require_true, Call.ok_bind,
    Nat.mul_div_cancel _ hwidth]
  rfl

theorem div_lt (h : slots.Laid) {offset : Nat} (hoffset : offset < slots.region.size) :
    offset / slots.stride < slots.count := by
  rw [h.size_eq] at hoffset
  exact Nat.div_lt_of_lt_mul hoffset

end Laid

/-! ## Updates -/

section Updates

variable (slots : SlotArray) (index offset next : Nat) (flag : Bool)

@[simp] theorem region_setLink :
    (slots.setLink offset next).region = slots.region.setWord offset next := by
  rw [setLink]

@[simp] theorem stride_setLink : (slots.setLink offset next).stride = slots.stride := by
  rw [setLink]

@[simp] theorem count_setLink : (slots.setLink offset next).count = slots.count := by
  rw [setLink]

@[simp] theorem live_setLink : (slots.setLink offset next).live = slots.live := by
  rw [setLink]

@[simp] theorem region_setLive : (slots.setLive index flag).region = slots.region := by
  rw [setLive]

@[simp] theorem stride_setLive : (slots.setLive index flag).stride = slots.stride := by
  rw [setLive]

@[simp] theorem count_setLive : (slots.setLive index flag).count = slots.count := by
  rw [setLive]

end Updates

/-! ## The chain -/

/-- The links of free slots lead from an index through some slots and end. -/
def Chained (region : Region) (stride : Nat) : (first : Nat) → List Nat → Prop
  | first, [] => first = chainEnd
  | first, index :: rest =>
    index = first ∧ Chained region stride (region.word (index * stride)) rest

namespace Chained

variable {a b region : Region} {stride first index offset : Nat} {free : List Nat}
  {values : List UInt8}

/-- A chain depends only on the links of its slots. -/
theorem congr (h : Chained a stride first free)
    (hsame : ∀ i ∈ free, b.word (i * stride) = a.word (i * stride)) :
    Chained b stride first free := by
  induction free generalizing first with
  | nil => exact h
  | cons index rest ih =>
    obtain ⟨rfl, hrest⟩ := h
    refine ⟨rfl, ?_⟩
    rw [hsame index List.mem_cons_self]
    exact ih hrest fun i hi ↦ hsame i (List.mem_cons_of_mem _ hi)

/-- **Separation.** Whatever is written to a slot off the chain, the chain stays. -/
theorem write (h : Chained region stride first free) (hwidth : Word.width ≤ stride)
    (hindex : index ∉ free) (hfits : offset + values.length ≤ stride) :
    Chained (region.write (index * stride + offset) values) stride first free := by
  refine h.congr fun i hi ↦ Region.word_write_of_disjoint ?_
  have hother : i ≠ index := fun heq ↦ hindex (heq ▸ hi)
  have hside := stop_le_or_stop_le stride hother
  omega

theorem first_lt (h : Chained region stride first free) (hwords : ∀ i ∈ free, i < Word.limit) :
    first < Word.limit := by
  cases free with
  | nil =>
    obtain rfl : first = chainEnd := h
    decide
  | cons index rest =>
    obtain ⟨rfl, -⟩ := h
    exact hwords index List.mem_cons_self

theorem first_mem (h : Chained region stride first free) : first = chainEnd ∨ first ∈ free := by
  cases free with
  | nil => exact Or.inl h
  | cons index rest =>
    obtain ⟨rfl, -⟩ := h
    exact Or.inr List.mem_cons_self

theorem link_mem (h : Chained region stride first free) (hindex : index ∈ free) :
    region.word (index * stride) = chainEnd ∨ region.word (index * stride) ∈ free := by
  induction free generalizing first with
  | nil => exact absurd hindex List.not_mem_nil
  | cons head rest ih =>
    obtain ⟨rfl, hrest⟩ := h
    rcases List.mem_cons.mp hindex with rfl | hindex
    · exact hrest.first_mem.imp_right (List.mem_cons_of_mem _)
    · exact (ih hrest hindex).imp_right (List.mem_cons_of_mem _)

/-- **Pushing.** A slot off the chain becomes its first slot once it links to the one before. -/
theorem push (h : Chained region stride first free) (hwidth : Word.width ≤ stride)
    (hindex : index ∉ free) (hfits : index * stride + Word.width ≤ region.size)
    (hfirst : first < Word.limit) :
    Chained (region.setWord (index * stride) first) stride index (index :: free) := by
  have hwrite : Chained (region.write (index * stride + 0) (Word.toBytes Word.width first)) stride
      first free := h.write hwidth hindex (by rw [Word.length_toBytes]; omega)
  -- linking is a write to the slot itself, which the chain before it does not see
  rw [Nat.add_zero, ← Region.setWord] at hwrite
  refine ⟨rfl, ?_⟩
  rwa [Region.word_setWord hfits hfirst]

end Chained

/-! ## Live flags -/

/-- A checked build keeps a flag per slot that tells whether it is held; an unchecked one keeps
none. -/
structure Flagged (build : Build) (slots : SlotArray) (Held : Nat → Prop) : Prop where
  size_eq : slots.live.size = if build.checks then slots.count else 0
  isLive_iff : build.checks → ∀ index < slots.count, slots.isLive index = true ↔ Held index

theorem flagged_replicate {build : Build} {slots : SlotArray}
    (hlive : slots.live = if build.checks then Array.replicate slots.count false else #[]) :
    Flagged build slots fun _ ↦ False := by
  constructor
  · rw [hlive]
    split
    · exact Array.size_replicate
    · rfl
  · intro hchecks index hindex
    rw [if_pos hchecks] at hlive
    rw [isLive, hlive, Array.getD_eq_getD_getElem?, Array.getElem?_replicate, if_pos hindex]
    simp

theorem isLive_setLive (slots : SlotArray) (index other : Nat) (flag : Bool) :
    (slots.setLive index flag).isLive other =
      if index = other ∧ index < slots.live.size then flag else slots.isLive other := by
  simp only [isLive, setLive, Array.getD_eq_getD_getElem?, Array.getElem?_setIfInBounds]
  by_cases heq : index = other
  · subst heq
    by_cases hlt : index < slots.live.size <;> simp [hlt]
  · simp [heq]

theorem setLive_eq_self {slots : SlotArray} {index : Nat} (h : slots.isLive index = false) :
    slots.setLive index false = slots := by
  have hlive : slots.live.setIfInBounds index false = slots.live := by
    refine Array.ext Array.size_setIfInBounds fun i hi hlt ↦ ?_
    rw [Array.getElem_setIfInBounds]
    by_cases heq : index = i
    · subst heq
      rw [isLive, Array.getD_eq_getD_getElem?, Array.getElem?_eq_getElem hlt, Option.getD_some] at h
      rw [if_pos rfl, h]
    · rw [if_neg heq]
  rw [setLive, hlive]

namespace Flagged

variable {build : Build} {slots after : SlotArray} {Held HeldAfter : Nat → Prop} {index : Nat}
  {flag : Bool}

theorem congr (h : Flagged build slots Held) (hlive : after.live = slots.live)
    (hcount : after.count = slots.count) : Flagged build after Held := by
  obtain ⟨hsize, hflags⟩ := h
  constructor
  · rw [hlive, hcount, hsize]
  · intro hchecks index hindex
    rw [isLive, hlive]
    exact hflags hchecks index (hcount ▸ hindex)

theorem imp (h : Flagged build slots Held)
    (hsame : ∀ index < slots.count, (HeldAfter index ↔ Held index)) :
    Flagged build slots HeldAfter where
  size_eq := h.size_eq
  isLive_iff := fun hchecks index hindex ↦
    (h.isLive_iff hchecks index hindex).trans (hsame index hindex).symm

theorem setLive (h : Flagged build slots Held) (hindex : index < slots.count)
    (hhere : HeldAfter index ↔ flag = true)
    (helsewhere : ∀ other, other ≠ index → (HeldAfter other ↔ Held other)) :
    Flagged build (slots.setLive index flag) HeldAfter where
  size_eq := by
    rw [SlotArray.setLive, Array.size_setIfInBounds]
    exact h.size_eq
  isLive_iff := by
    intro hchecks other hother
    have hsize := h.size_eq
    rw [if_pos hchecks] at hsize
    rw [isLive_setLive]
    by_cases heq : index = other
    · rw [if_pos ⟨heq, hsize ▸ hindex⟩, ← heq, hhere]
    · rw [if_neg fun hboth ↦ heq hboth.1, helsewhere other (Ne.symm heq)]
      exact h.isLive_iff hchecks other hother

theorem held_of_isLive (h : Flagged .checked slots Held) (hlive : slots.isLive index = true) :
    index < slots.count ∧ Held index := by
  have hsize : slots.live.size = slots.count := h.size_eq
  rcases Nat.lt_or_ge index slots.count with hindex | hout
  · exact ⟨hindex, (h.isLive_iff rfl index hindex).mp hlive⟩
  · rw [isLive, Array.getD_eq_getD_getElem?, Array.getElem?_eq_none (by omega)] at hlive
    cases hlive

theorem require_isLive (h : Flagged build slots Held) (hindex : index < slots.count)
    (hheld : Held index) (broken : Violation) :
    build.require broken (slots.isLive index) = .ok () := by
  cases build with
  | unchecked => rfl
  | checked => rw [(h.isLive_iff rfl index hindex).mpr hheld, Build.require_true]

theorem require_not_isLive (h : Flagged build slots Held) (hindex : index < slots.count)
    (hheld : ¬ Held index) (broken : Violation) :
    build.require broken (!slots.isLive index) = .ok () := by
  cases build with
  | unchecked => rfl
  | checked =>
    have hlive : slots.isLive index = false :=
      Bool.eq_false_iff.mpr fun hlive ↦ hheld ((h.isLive_iff rfl index hindex).mp hlive)
    rw [hlive, Bool.not_false, Build.require_true]

end Flagged

/-! ## Construction -/

theorem size_fold_setWord (region : Region) (stride : Nat) (link : Nat → Nat) (n : Nat) :
    (Nat.fold n (fun index _ region ↦ region.setWord (index * stride) (link index)) region).size =
      region.size := by
  induction n with
  | zero => rfl
  | succ n ih => rw [Nat.fold_succ, Region.size_setWord, ih]

/-- Linking slots one after another leaves each with its own link. -/
theorem word_fold_setWord {region : Region} {stride : Nat} (hwidth : Word.width ≤ stride)
    (link : Nat → Nat) (hlink : ∀ i, link i < Word.limit) (n : Nat)
    (hfits : n * stride ≤ region.size) :
    ∀ i < n, (Nat.fold n (fun index _ region ↦ region.setWord (index * stride) (link index))
      region).word (i * stride) = link i := by
  induction n with
  | zero =>
    intro i hi
    exact absurd hi (Nat.not_lt_zero i)
  | succ n ih =>
    rw [Nat.succ_mul] at hfits
    intro i hi
    rw [Nat.fold_succ]
    -- the links before end where the slot that is linked last starts
    rcases Nat.lt_succ_iff_lt_or_eq.mp hi with hi | rfl
    · have hbelow := mul_add_le_mul stride hi
      rw [Region.word_setWord_of_disjoint (by omega), ih (by omega) i hi]
    · exact Region.word_setWord (by rw [size_fold_setWord]; omega) (hlink i)

theorem base_chainSlots (region : Region) (stride count : Nat) :
    (chainSlots region stride count).base = region.base := by
  have hfold (link : Nat → Nat) (n : Nat) :
      (Nat.fold n (fun index _ region ↦ region.setWord (index * stride) (link index)) region).base =
        region.base := by
    induction n with
    | zero => rfl
    | succ n ih => rw [Nat.fold_succ, Region.base_setWord, ih]
  rw [chainSlots, hfold]

/-- Links to the next slot, up to the last one, chain all slots from any of them on. -/
theorem chained_range' {region : Region} {stride count : Nat}
    (hwords : ∀ i < count, region.word (i * stride) = if i + 1 < count then i + 1 else chainEnd)
    (n : Nat) : ∀ first, first + (n + 1) = count →
      Chained region stride first (List.range' first (n + 1)) := by
  induction n with
  | zero =>
    intro first hcount
    refine ⟨rfl, ?_⟩
    rw [hwords first (by omega), if_neg (by omega)]
    rfl
  | succ n ih =>
    intro first hcount
    refine ⟨rfl, ?_⟩
    rw [hwords first (by omega), if_pos (by omega)]
    exact ih (first + 1) (by omega)

theorem layout_eq_ok {blockSize blockCount alignment stride : Nat} {wanted : Reservation}
    (h : layout blockSize blockCount alignment = .ok (stride, wanted)) :
    0 < blockCount ∧ Word.width ≤ stride ∧ wanted.size = stride * blockCount ∧
      wanted.alignment = alignment ∧ stride * blockCount < Word.limit := by
  rw [layout] at h
  by_cases hsmall : blockSize < Word.width
  · rw [if_pos hsmall] at h
    cases h
  rw [if_neg hsmall] at h
  by_cases hnone : blockCount = 0
  · rw [if_pos hnone] at h
    cases h
  rw [if_neg hnone] at h
  obtain ⟨_, hcheck, h⟩ := Call.bind_eq_ok.mp h
  have hvalid := (Reservation.check_eq_ok_iff _).mp hcheck
  cases hstride : alignUp? blockSize alignment with
  | none =>
    rw [hstride] at h
    cases h
  | some found =>
    have hle := (alignUp?_eq_some hvalid.isPowerOfTwo hstride).2.1
    rw [hstride] at h
    by_cases hfits : found * blockCount < Word.limit
    · simp only [if_pos hfits] at h
      cases h
      exact ⟨Nat.pos_of_ne_zero hnone, Nat.le_trans (Nat.not_lt.mp hsmall) hle, rfl, rfl, hfits⟩
    · simp only [if_neg hfits] at h
      cases h

/-- **Construction.** A new array chains all its slots, in order, and records none as held. -/
theorem new_eq_ok {build : Build} {platform : Platform} {blockSize blockCount alignment : Nat}
    {slots : SlotArray} (h : new build platform blockSize blockCount alignment = .ok slots) :
    slots.Laid ∧ slots.count = blockCount ∧ 0 < blockCount ∧
      Chained slots.region slots.stride 0 (List.range slots.count) ∧
      Flagged build slots (fun _ ↦ False) := by
  rw [new] at h
  obtain ⟨⟨stride, wanted⟩, hlayout, h⟩ := Call.bind_eq_ok.mp h
  obtain ⟨region, hreserve, h⟩ := Call.bind_eq_ok.mp h
  obtain rfl := Except.ok.inj h
  obtain ⟨hcount, hwidth, hsize, -, hlimit⟩ := layout_eq_ok hlayout
  obtain ⟨-, -, -, hregion⟩ := Region.reserve_eq_ok hreserve
  have hle := Nat.le_mul_of_pos_left blockCount (Nat.lt_of_lt_of_le (by decide) hwidth)
  have hlink : ∀ i, (if i + 1 < blockCount then i + 1 else chainEnd) < Word.limit := by
    intro i
    split
    · omega
    · decide
  have hroom : blockCount * stride = region.size := by
    rw [hregion, hsize, Nat.mul_comm]
  have hwords := word_fold_setWord hwidth _ hlink blockCount (Nat.le_of_eq hroom)
  have hsize' : (chainSlots region stride blockCount).size = stride * blockCount := by
    rw [chainSlots, size_fold_setWord, hregion, hsize]
  refine ⟨⟨hwidth, hsize', hsize'.symm ▸ hlimit⟩, rfl, hcount, ?_, flagged_replicate rfl⟩
  obtain ⟨n, rfl⟩ := Nat.exists_eq_add_of_lt hcount
  rw [Nat.zero_add, List.range_eq_range']
  rw [Nat.zero_add] at hwords
  exact chained_range' hwords n 0 (Nat.zero_add _)

theorem base_new {build : Build} {platform : Platform} {blockSize blockCount alignment : Nat}
    {slots : SlotArray} (h : new build platform blockSize blockCount alignment = .ok slots) :
    slots.region.base = platform.base alignment := by
  rw [new] at h
  obtain ⟨⟨stride, wanted⟩, hlayout, h⟩ := Call.bind_eq_ok.mp h
  obtain ⟨region, hreserve, h⟩ := Call.bind_eq_ok.mp h
  obtain rfl := Except.ok.inj h
  obtain ⟨-, -, -, halignment, -⟩ := layout_eq_ok hlayout
  obtain ⟨-, hbase, -, -⟩ := Region.reserve_eq_ok hreserve
  rw [base_chainSlots, hbase, halignment]

/-- An array is refused only for its parameters or by the platform. -/
theorem exists_new (build : Build) {platform : Platform} {blockSize blockCount alignment : Nat}
    {stride : Nat} {wanted : Reservation}
    (hlayout : layout blockSize blockCount alignment = .ok (stride, wanted))
    (hvalid : wanted.Valid) (hgrants : platform.grants wanted.size wanted.alignment = true) :
    ∃ slots, new build platform blockSize blockCount alignment = .ok slots ∧
      slots.stride = stride := by
  have hcheck := (Reservation.check_eq_ok_iff wanted).mpr hvalid
  simp only [new, hlayout, Call.ok_bind, Region.reserve, hcheck, hgrants, if_true]
  exact ⟨_, rfl, rfl⟩

end SlotArray

end Suballoc
