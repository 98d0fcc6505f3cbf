import Suballoc.Proofs.Construction
import Suballoc.Proofs.SlotArray

/-!
# Which arrays of slots can be built

The parameters of an array pass a validation, a rounding, a multiplication and another validation,
and each has a limit of its own. In exact integers they come to one condition: all blocks, each
rounded up to the alignment, and one alignment more, span no more than half of the addresses. The
same limits decide what is complained of when the condition fails; `complaints` lists them in the
order in which they are looked at.

Two complaints are not among them, that a block overflows when it is rounded and that an allocation
interface does not take a description, for neither can be made: the construction in words, which
would make them, ends like the plain one.
-/

namespace Suballoc

namespace SlotArray

variable {blockSize blockCount alignment : Nat}

/-! ## The plain construction -/

/-- The complaints about blocks and their layout, in exact integers. -/
def layoutComplaints (blockSize blockCount alignment : Nat) : List (Bool × BadParameter) :=
  [(blockSize < Word.width, .blockTooSmall),
    (blockCount = 0, .noBlocks),
    (¬ alignment.isPowerOfTwo, .alignmentNotPowerOfTwo alignment),
    (alignment < Word.width, .alignmentBelowWord),
    (Reservation.spanLimit < blockSize + alignment, .regionTooLarge blockSize),
    (Word.limit ≤ roundedUp blockSize alignment * blockCount, .poolOverflow)]

/-- The complaints about the parameters of a pool, in exact integers. -/
def complaints (blockSize blockCount alignment : Nat) : List (Bool × BadParameter) :=
  let size := roundedUp blockSize alignment * blockCount
  layoutComplaints blockSize blockCount alignment ++
    [(decide (Reservation.spanLimit < size + alignment), .regionTooLarge size)]

/-- The parameters of arrays that memory can hold. -/
structure Representable (blockSize blockCount alignment : Nat) : Prop where
  /-- A block has room for a link. -/
  width_le : Word.width ≤ blockSize
  count_pos : 1 ≤ blockCount
  isPowerOfTwo : alignment.isPowerOfTwo
  width_le_alignment : Word.width ≤ alignment
  /-- All blocks, rounded up, and one alignment more are at most half of the addresses. -/
  span_le : ∃ stride, IsLeast (multiplesFrom alignment blockSize) stride ∧
    stride * blockCount + alignment ≤ Reservation.spanLimit

/-- No complaint applies exactly to what memory can hold. -/
theorem verdict_complaints_eq_ok_iff :
    verdict (complaints blockSize blockCount alignment) = .ok () ↔
      Representable blockSize blockCount alignment := by
  have hhalf : Reservation.spanLimit < Word.limit := by decide
  rw [verdict_eq_ok_iff]
  simp only [complaints, layoutComplaints, List.cons_append, List.nil_append,
    List.forall_mem_cons, decide_eq_false_iff_not, not_not, Nat.not_lt]
  constructor
  · rintro ⟨hsmall, hnone, hpow, hwidth, -, -, hspan, -⟩
    exact ⟨hsmall, Nat.pos_of_ne_zero hnone, hpow, hwidth, _,
      isLeast_roundedUp blockSize (Nat.pos_of_isPowerOfTwo hpow), hspan⟩
  · rintro ⟨hsmall, hcount, hpow, hwidth, stride, hstride, hspan⟩
    obtain rfl : stride = roundedUp blockSize alignment :=
      hstride.unique (isLeast_roundedUp blockSize (Nat.pos_of_isPowerOfTwo hpow))
    -- one block spans no more than all of them
    have hle : blockSize ≤ roundedUp blockSize alignment * blockCount :=
      hstride.1.2.trans (Nat.le_mul_of_pos_right _ hcount)
    exact ⟨hsmall, by omega, hpow, hwidth, by omega, by omega, hspan, by simp⟩

/-- A new array, with all its slots free. -/
def fresh (build : Build) (platform : Platform) (blockSize blockCount alignment : Nat) :
    SlotArray :=
  let stride := roundedUp blockSize alignment
  { region := chainSlots (.given platform { size := stride * blockCount, alignment }) stride
      blockCount
    stride
    count := blockCount
    live := if build.checks then Array.replicate blockCount false else #[] }

theorem layout_eq_verdict (hword : alignment < Word.limit) :
    layout blockSize blockCount alignment =
      (verdict (layoutComplaints blockSize blockCount alignment)).map fun _ ↦
        (roundedUp blockSize alignment,
          { size := roundedUp blockSize alignment * blockCount, alignment }) := by
  rw [layout, layoutComplaints]
  by_cases hsmall : blockSize < Word.width
  · rw [if_pos hsmall, verdict_cons_of_pos hsmall]
    rfl
  rw [if_neg hsmall, verdict_cons_of_neg hsmall]
  by_cases hnone : blockCount = 0
  · rw [if_pos hnone, verdict_cons_of_pos hnone]
    rfl
  rw [if_neg hnone, verdict_cons_of_neg hnone]
  have hcheck : Reservation.check { size := blockSize, alignment } =
      verdict (Reservation.complaints { size := blockSize, alignment }) :=
    Reservation.check_eq_verdict (Nat.lt_of_lt_of_le (by decide) (Nat.not_lt.mp hsmall)) hword
  -- the complaints about a region of a single block come before the one about the whole size
  change _ = (verdict (Reservation.complaints { size := blockSize, alignment } ++ _)).map _
  rw [verdict_append, hcheck]
  cases hverdict : verdict (Reservation.complaints { size := blockSize, alignment }) with
  | error problem => rfl
  | ok =>
    have hvalid := (Reservation.check_eq_ok_iff _).mp (hcheck.trans hverdict)
    have hstride : alignUp? blockSize alignment = some (roundedUp blockSize alignment) :=
      hvalid.alignUp?_eq
    rw [hstride]
    by_cases hover : Word.limit ≤ roundedUp blockSize alignment * blockCount
    · rw [verdict_cons_of_pos hover]
      simp only [if_neg (Nat.not_lt.mpr hover)]
      rfl
    · rw [verdict_cons_of_neg hover]
      simp only [if_pos (Nat.not_le.mp hover)]
      rfl

theorem new_eq_verdict (build : Build) {platform : Platform}
    (hgrants : ∀ wanted : Reservation, wanted.Valid →
      platform.grants wanted.size wanted.alignment = true)
    (hword : alignment < Word.limit) :
    new build platform blockSize blockCount alignment =
      (verdict (complaints blockSize blockCount alignment)).map fun _ ↦
        fresh build platform blockSize blockCount alignment := by
  have hlayout : layout blockSize blockCount alignment = _ := layout_eq_verdict hword
  rw [new, hlayout, complaints, verdict_append]
  cases hverdict : verdict (layoutComplaints blockSize blockCount alignment) with
  | error problem => rfl
  | ok =>
    rw [hverdict] at hlayout
    obtain ⟨hcount, hstride, -⟩ := layout_eq_ok hlayout
    have hsize : 0 < roundedUp blockSize alignment * blockCount :=
      Nat.mul_pos (Nat.lt_of_lt_of_le (by decide) hstride) hcount
    have hnone := verdict_eq_ok_iff.mp hverdict
    simp only [layoutComplaints, List.forall_mem_cons, decide_eq_false_iff_not] at hnone
    obtain ⟨-, -, hpow, hwidth, -⟩ := hnone
    simp only [Except.map, Call.ok_bind]
    rw [Region.reserve_eq_verdict hgrants hsize hword, Reservation.complaints,
      verdict_cons_of_neg hpow, verdict_cons_of_neg hwidth]
    dsimp only
    generalize verdict _ = last
    cases last <;> rfl

/-! ## The construction in words -/

/-- Lay blocks out in words. -/
def layoutInWords (build : Build) (blockSize blockCount alignment : Nat) :
    Construction (Nat × Reservation) := do
  if blockSize < Word.width then throw (.invalid .blockTooSmall)
  if blockCount = 0 then throw (.invalid .noBlocks)
  Reservation.checkInWords build { size := blockSize, alignment }
  match ← alignUpInWords build blockSize alignment with
  | none => throw (.invalid .blockOverflow)
  | some stride =>
    if stride * blockCount < Word.limit then
      return (stride, { size := stride * blockCount, alignment })
    else throw (.invalid .poolOverflow)

theorem layoutInWords_run (build : Build) (hword : alignment < Word.limit) :
    (layoutInWords build blockSize blockCount alignment).run =
      .ok (layout blockSize blockCount alignment) := by
  rw [layoutInWords, layout]
  by_cases hsmall : blockSize < Word.width
  · rw [if_pos hsmall, if_pos hsmall]
    rfl
  rw [if_neg hsmall, if_neg hsmall]
  by_cases hnone : blockCount = 0
  · rw [if_pos hnone, if_pos hnone]
    rfl
  rw [if_neg hnone, if_neg hnone]
  refine Construction.run_bind_eq (Reservation.checkInWords_run build hword) fun _ hcheck ↦ ?_
  have hvalid := (Reservation.check_eq_ok_iff _).mp hcheck
  rw [alignUpInWords_eq build blockSize hvalid.isPowerOfTwo, Construction.lift_ok_bind]
  cases alignUp? blockSize alignment with
  | none => rfl
  | some stride =>
    dsimp only
    split <;> rfl

/-- Link a slot to the one after it, or end the chain with it, in words. -/
def linkInWords (build : Build) (slots : SlotArray) (index : Nat) : Except Fault SlotArray := do
  let next ← if (← build.add index 1) < slots.count then build.add index 1 else pure chainEnd
  return slots.setLink (← slots.linkOffset build index) next

theorem Laid.linkInWords_eq (build : Build) {slots : SlotArray} (h : slots.Laid) {index : Nat}
    (hindex : index < slots.count) :
    linkInWords build slots index = .ok (slots.setLink (index * slots.stride)
      (if index + 1 < slots.count then index + 1 else chainEnd)) := by
  have hcount := h.count_lt
  have hnext : build.add index 1 = .ok (index + 1) := Build.add_of_lt build (by omega)
  rw [linkInWords, hnext, Call.ok_bind, h.linkOffset_eq build hindex]
  split <;> rfl

theorem Laid.foldlM_linkInWords (build : Build) {slots : SlotArray} (h : slots.Laid) {n : Nat}
    (hn : n ≤ slots.count) :
    (List.range n).foldlM (linkInWords build) slots =
      .ok { slots with
        region := Nat.fold n (fun index _ region ↦ region.setWord (index * slots.stride)
          (if index + 1 < slots.count then index + 1 else chainEnd)) slots.region } := by
  induction n with
  | zero => rfl
  | succ n ih =>
    have hlaid : Laid { slots with
        region := Nat.fold n (fun index _ region ↦ region.setWord (index * slots.stride)
          (if index + 1 < slots.count then index + 1 else chainEnd)) slots.region } :=
      h.congr rfl rfl (size_fold_setWord _ _ _ _)
    rw [List.range_succ, List.foldlM_append, ih (Nat.le_of_succ_le hn), Call.ok_bind,
      List.foldlM_cons, hlaid.linkInWords_eq build hn, Call.ok_bind, Nat.fold_succ]
    rfl

/-- Chain the slots of an array in the order of their addresses, in words. -/
def chainInWords (build : Build) (slots : SlotArray) : Except Fault SlotArray :=
  (List.range slots.count).foldlM (linkInWords build) slots

theorem Laid.chainInWords_eq (build : Build) {slots : SlotArray} (h : slots.Laid) :
    chainInWords build slots =
      .ok { slots with region := chainSlots slots.region slots.stride slots.count } :=
  h.foldlM_linkInWords build (Nat.le_refl _)

/-- Reserve an array of slots, in words. -/
def newInWords (build : Build) (platform : Platform) (blockSize blockCount alignment : Nat) :
    Construction SlotArray := do
  let (stride, wanted) ← layoutInWords build blockSize blockCount alignment
  let region ← Region.reserveInWords build platform wanted
  let live := if build.checks then Array.replicate blockCount false else #[]
  chainInWords build { region, stride, count := blockCount, live }

/-- Nothing in the construction of an array leaves the range of a word. -/
theorem newInWords_run (build : Build) (platform : Platform) (hword : alignment < Word.limit) :
    (newInWords build platform blockSize blockCount alignment).run =
      .ok (new build platform blockSize blockCount alignment) := by
  rw [newInWords, new]
  refine Construction.run_bind_eq (layoutInWords_run build hword) fun laid hlayout ↦ ?_
  obtain ⟨stride, wanted⟩ := laid
  obtain ⟨-, hstride, hsize, halignment, hlimit⟩ := layout_eq_ok hlayout
  refine Construction.run_bind_eq (Region.reserveInWords_run build (halignment ▸ hword))
    fun region hreserve ↦ ?_
  obtain ⟨-, -, -, hregion⟩ := Region.reserve_eq_ok hreserve
  have hlaid (live : Array Bool) : Laid { region, stride, count := blockCount, live } :=
    ⟨hstride, hregion.trans hsize, (hregion.trans hsize) ▸ hlimit⟩
  dsimp only
  rw [(hlaid _).chainInWords_eq build]
  rfl

end SlotArray

end Suballoc
