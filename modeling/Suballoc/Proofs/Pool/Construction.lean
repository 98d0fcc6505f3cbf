import Suballoc.Pool
import Suballoc.Proofs.SlotArray.Construction
import Suballoc.SharedPool

/-!
# Which pools can be built

A pool can be built exactly if memory can hold its array of slots. A shared pool also needs a packed
head that can name every slot, and that is looked at before anything else.
-/

namespace Suballoc

variable {platform : Platform} {blockSize blockCount alignment : Nat}

/-! ## Pools -/

namespace Pool

theorem new_eq_verdict (build : Build)
    (hgrants : ∀ wanted : Reservation, wanted.Valid →
      platform.grants wanted.size wanted.alignment = true)
    (hword : alignment < Word.limit) :
    new build platform blockSize blockCount alignment =
      (verdict (SlotArray.complaints blockSize blockCount alignment)).map fun _ ↦
        { slots := .fresh build platform blockSize blockCount alignment, head := 0
          allocated := 0 } := by
  rw [new, SlotArray.new_eq_verdict build hgrants hword]
  cases verdict (SlotArray.complaints blockSize blockCount alignment) <;> rfl

/-- A new pool, in words. -/
def newInWords (build : Build) (platform : Platform) (blockSize blockCount alignment : Nat) :
    Construction Pool := do
  return { slots := ← SlotArray.newInWords build platform blockSize blockCount alignment
           head := 0
           allocated := 0 }

theorem newInWords_run (build : Build) (platform : Platform) (hword : alignment < Word.limit) :
    (newInWords build platform blockSize blockCount alignment).run =
      .ok (new build platform blockSize blockCount alignment) :=
  Construction.run_bind_eq (SlotArray.newInWords_run build platform hword) fun _ _ ↦ rfl

end Pool

/-! ## Shared pools -/

namespace SharedPool

/-- The complaints about the parameters of a shared pool. -/
def complaints (blockSize blockCount alignment : Nat) : List (Bool × BadParameter) :=
  (packedIndexLimit ≤ blockCount, .tooManyBlocks) ::
    SlotArray.complaints blockSize blockCount alignment

theorem verdict_complaints_eq_ok_iff :
    verdict (complaints blockSize blockCount alignment) = .ok () ↔
      blockCount < 2 ^ 32 - 1 ∧ SlotArray.Representable blockSize blockCount alignment := by
  have hlimit : packedIndexLimit = 2 ^ 32 - 1 := rfl
  rw [← SlotArray.verdict_complaints_eq_ok_iff, complaints]
  by_cases hmany : packedIndexLimit ≤ blockCount
  · rw [verdict_cons_of_pos hmany]
    exact iff_of_false (by simp) (by omega)
  · rw [verdict_cons_of_neg hmany, and_iff_right (by omega)]

theorem new_eq_verdict (build : Build) (strategy : SyncStrategy)
    (hgrants : ∀ wanted : Reservation, wanted.Valid →
      platform.grants wanted.size wanted.alignment = true)
    (hword : alignment < Word.limit) :
    new build platform blockSize blockCount alignment strategy =
      (verdict (complaints blockSize blockCount alignment)).map fun _ ↦
        { slots := .fresh build platform blockSize blockCount alignment, strategy, head := 0
          allocated := 0, peak := 0 } := by
  rw [new, complaints]
  by_cases hmany : packedIndexLimit ≤ blockCount
  · rw [if_pos hmany, verdict_cons_of_pos hmany]
    rfl
  · rw [if_neg hmany, verdict_cons_of_neg hmany, SlotArray.new_eq_verdict build hgrants hword]
    cases verdict (SlotArray.complaints blockSize blockCount alignment) <;> rfl

/-- A new shared pool, in words. -/
def newInWords (build : Build) (platform : Platform) (blockSize blockCount alignment : Nat)
    (strategy : SyncStrategy) : Construction SharedPool := do
  if packedIndexLimit ≤ blockCount then throw (.invalid .tooManyBlocks)
  return { slots := ← SlotArray.newInWords build platform blockSize blockCount alignment
           strategy
           head := 0
           allocated := 0
           peak := 0 }

theorem newInWords_run (build : Build) (platform : Platform) (strategy : SyncStrategy)
    (hword : alignment < Word.limit) :
    (newInWords build platform blockSize blockCount alignment strategy).run =
      .ok (new build platform blockSize blockCount alignment strategy) := by
  rw [newInWords, new]
  by_cases hmany : packedIndexLimit ≤ blockCount
  · rw [if_pos hmany, if_pos hmany]
    rfl
  · rw [if_neg hmany, if_neg hmany]
    exact Construction.run_bind_eq (SlotArray.newInWords_run build platform hword) fun _ _ ↦ rfl

end SharedPool

/-! ## Both -/

/-- **Exactly the pools that memory can hold are built.** On a platform that grants what passes the
checks, a pool is built for the parameters of an array that memory can hold and for no others, and a
shared pool for those of them with fewer slots than a packed head has names for. What is refused is
refused for the first complaint that applies; the parameters at fault are those of the list. Neither
construction computes anything that is not a word, and neither complains of a rounded block or of a
description of memory. -/
theorem pools_built_exactly
    (hgrants : ∀ wanted : Reservation, wanted.Valid →
      platform.grants wanted.size wanted.alignment = true)
    (hword : alignment < Word.limit) (blockSize blockCount : Nat) (build : Build)
    (strategy : SyncStrategy) :
    BuiltExactly (Pool.new build platform blockSize blockCount alignment)
      (Pool.newInWords build platform blockSize blockCount alignment)
      (SlotArray.Representable blockSize blockCount alignment)
      (SlotArray.complaints blockSize blockCount alignment) ∧
    BuiltExactly (SharedPool.new build platform blockSize blockCount alignment strategy)
      (SharedPool.newInWords build platform blockSize blockCount alignment strategy)
      (blockCount < 2 ^ 32 - 1 ∧ SlotArray.Representable blockSize blockCount alignment)
      (SharedPool.complaints blockSize blockCount alignment) ∧
    (SharedPool.complaints blockSize blockCount alignment).map (fun entry ↦ entry.2.name) =
      ["block_count", "block_size", "block_count", "alignment", "alignment", "size", "block_count",
        "size"] ∧
    ∀ complaint ∈ [BadParameter.blockOverflow, Reservation.notDescribable],
      (Pool.newInWords build platform blockSize blockCount alignment).run ≠
        .ok (.error (.invalid complaint)) ∧
      (SharedPool.newInWords build platform blockSize blockCount alignment strategy).run ≠
        .ok (.error (.invalid complaint)) := by
  have hpool : BuiltExactly _ _ _ (SlotArray.complaints blockSize blockCount alignment) :=
    .of_verdict (Pool.newInWords_run build platform hword) (Pool.new_eq_verdict build hgrants hword)
      SlotArray.verdict_complaints_eq_ok_iff
  have hshared : BuiltExactly _ _ _ (SharedPool.complaints blockSize blockCount alignment) :=
    .of_verdict (SharedPool.newInWords_run build platform strategy hword)
      (SharedPool.new_eq_verdict build strategy hgrants hword)
      SharedPool.verdict_complaints_eq_ok_iff
  have hothers : ∀ complaint ∈ [BadParameter.blockOverflow, Reservation.notDescribable],
      ∀ entry ∈ SharedPool.complaints blockSize blockCount alignment, entry.2 ≠ complaint := by
    simp [SharedPool.complaints, SlotArray.complaints, SlotArray.layoutComplaints,
      Reservation.notDescribable]
  refine ⟨hpool, hshared, rfl, fun complaint hcomplaint ↦ ⟨hpool.run_ne ?_, hshared.run_ne ?_⟩⟩
  · exact fun entry hentry ↦ hothers complaint hcomplaint entry (List.mem_cons_of_mem _ hentry)
  · exact hothers complaint hcomplaint

/-- Words in slots of one word each fill half of the addresses but for one of them, and a single
block fills a half of that half; one more word, or one more byte, is too much. A shared pool has
fewer slots, and which of its limits are passed is told apart. -/
theorem pools_built_exactly_at_half : ∃ platform : Platform,
    (∃ pool, Pool.new .checked platform 8 (2 ^ 60 - 1) 8 = .ok pool) ∧
    Pool.new .checked platform 8 (2 ^ 60) 8 = .error (.invalid (.regionTooLarge (2 ^ 63))) ∧
    Pool.new .checked platform 8 (2 ^ 61) 8 = .error (.invalid .poolOverflow) ∧
    (∃ pool, Pool.new .checked platform (2 ^ 62) 1 (2 ^ 62) = .ok pool) ∧
    Pool.new .checked platform (2 ^ 62 + 1) 1 (2 ^ 62) =
      .error (.invalid (.regionTooLarge (2 ^ 62 + 1))) ∧
    (∃ pool, SharedPool.new .checked platform 8 (2 ^ 32 - 2) 8 .mutex = .ok pool) ∧
    SharedPool.new .checked platform 8 (2 ^ 60) 8 .lockFree = .error (.invalid .tooManyBlocks) := by
  refine ⟨⟨fun _ _ ↦ true, fun _ ↦ 4096, fun _ ↦ 0⟩, ?_⟩
  have hword (blockSize blockCount : Nat) :=
    @pools_built_exactly ⟨fun _ _ ↦ true, fun _ ↦ 4096, fun _ ↦ 0⟩ 8 (fun _ _ ↦ rfl) (by decide)
      blockSize blockCount .checked
  have hhuge (blockSize : Nat) :=
    @pools_built_exactly ⟨fun _ _ ↦ true, fun _ ↦ 4096, fun _ ↦ 0⟩ (2 ^ 62) (fun _ _ ↦ rfl)
      (by decide) blockSize 1 .checked .mutex
  have hstride : IsLeast (multiplesFrom 8 8) 8 :=
    (isLeast_multiplesFrom_iff (by decide)).mpr (by decide)
  refine ⟨(hword _ _ .mutex).1.built_iff.mpr ?_, ((hword _ _ .mutex).1.refused_iff _).mpr ?_,
    ((hword _ _ .mutex).1.refused_iff _).mpr ?_, (hhuge _).1.built_iff.mpr ?_,
    ((hhuge _).1.refused_iff _).mpr ?_, (hword _ _ .mutex).2.1.built_iff.mpr ?_,
    ((hword _ _ .lockFree).2.1.refused_iff _).mpr ?_⟩
  · exact ⟨by decide, by decide, ⟨3, rfl⟩, by decide, 8, hstride, by decide⟩
  · decide
  · decide
  · exact ⟨by decide, by decide, ⟨62, rfl⟩, by decide, 2 ^ 62,
      (isLeast_multiplesFrom_iff (by decide)).mpr (by decide), by decide⟩
  · decide
  · exact ⟨by decide, by decide, by decide, ⟨3, rfl⟩, by decide, 8, hstride, by decide⟩
  · decide

end Suballoc
