import Suballoc.Proofs.FreeList.Relink
import Suballoc.Proofs.FreeList.Tiling

/-!
# Merging lists of blocks

Neighbours may touch a block that comes back, and only then do they merge with it. What that does is
a fact about lists of blocks, without any memory: merging keeps every byte's count and every sum,
and it restores the rule that no two free blocks touch.

`Between` is what the search for neighbours promises about a place, and all that merging needs.
-/

namespace Suballoc

namespace FreeBlock

variable {block b : FreeBlock} {after : List FreeBlock}

/-- What merging makes are blocks that were there, the first of them perhaps longer. -/
theorem of_mem_mergeAfter (h : b ∈ block.mergeAfter after) :
    b ∈ after ∨ b.offset = block.offset ∧ block.size ≤ b.size := by
  cases after with
  | nil =>
    obtain rfl := List.mem_singleton.mp h
    exact Or.inr ⟨rfl, Nat.le_refl _⟩
  | cons next rest =>
    rw [mergeAfter] at h
    split at h
    · rcases List.mem_cons.mp h with rfl | h
      · exact Or.inr ⟨rfl, Nat.le_add_right _ _⟩
      · exact Or.inl (List.mem_cons_of_mem _ h)
    · rcases List.mem_cons.mp h with rfl | h
      · exact Or.inr ⟨rfl, Nat.le_refl _⟩
      · exact Or.inl h

theorem exists_mergeAfter (block : FreeBlock) (after : List FreeBlock) :
    ∃ first rest, block.mergeAfter after = first :: rest ∧ first.offset = block.offset := by
  cases after with
  | nil => exact ⟨block, [], rfl, rfl⟩
  | cons next rest =>
    rw [mergeAfter]
    split
    · exact ⟨_, rest, rfl, rfl⟩
    · exact ⟨block, next :: rest, rfl, rfl⟩

theorem covering_mergeAfter (block : FreeBlock) (after : List FreeBlock) (i : Nat) :
    covering (block.mergeAfter after) i = covering (block :: after) i := by
  cases after with
  | nil => rfl
  | cons next rest =>
    rw [mergeAfter]
    split
    · rename_i htouch
      rw [covering_cons, covering_cons, covering_cons, Nat.add_assoc]
      refine congrArg (covering rest i + ·) (covers_add_covers ?_ ?_ ?_ i).symm
      · rfl
      · exact htouch.symm
      · simp only [stop] at htouch ⊢
        omega
    · rfl

theorem apart_mergeAfter (hle : ∀ b ∈ after, block.stop ≤ b.offset)
    (hsize : ∀ b ∈ after, 0 < b.size) (h : after.Pairwise fun a b ↦ a.stop < b.offset) :
    (block.mergeAfter after).Pairwise fun a b ↦ a.stop < b.offset := by
  cases after with
  | nil => exact List.pairwise_singleton _ _
  | cons next rest =>
    obtain ⟨hnext, hrest⟩ := List.pairwise_cons.mp h
    rw [mergeAfter]
    split
    · rename_i htouch
      -- the merged block ends where the next one did
      refine List.pairwise_cons.mpr ⟨?_, hrest⟩
      intro b hb
      have hlater := hnext b hb
      simp only [stop] at htouch hlater ⊢
      omega
    · rename_i htouch
      have hfirst := hle next List.mem_cons_self
      refine List.pairwise_cons.mpr ⟨?_, h⟩
      intro b hb
      rcases List.mem_cons.mp hb with rfl | hb
      · omega
      · have hlater := hnext b hb
        rw [stop] at hlater
        omega

end FreeBlock

/-! ## The place of a block -/

/-- A block lies between two stretches of a chain. -/
structure Between (before : List FreeBlock) (block : FreeBlock) (after : List FreeBlock) :
    Prop where
  apart : (before ++ after).Pairwise fun a b ↦ a.stop < b.offset
  stop_le : ∀ a ∈ before, a.stop ≤ block.offset
  le_offset : ∀ b ∈ after, block.stop ≤ b.offset

namespace Between

variable {before after : List FreeBlock} {block : FreeBlock}

theorem ordered (h : Between before block after) :
    (before ++ block :: after).Pairwise fun a b ↦ a.stop ≤ b.offset := by
  obtain ⟨hbefore, hafter, hcross⟩ := List.pairwise_append.mp h.apart
  refine List.pairwise_append.mpr ⟨hbefore.imp Nat.le_of_lt, List.pairwise_cons.mpr
    ⟨h.le_offset, hafter.imp Nat.le_of_lt⟩, ?_⟩
  intro a ha b hb
  rcases List.mem_cons.mp hb with rfl | hb
  · exact h.stop_le a ha
  · exact Nat.le_of_lt (hcross a ha b hb)

/-- **No two touch.** Merging on both sides leaves blocks that are apart. -/
theorem apart_mergeBetween (h : Between before block after)
    (hsize : ∀ b ∈ before ++ block :: after, 0 < b.size) :
    (mergeBetween before block after).Pairwise fun a b ↦ a.stop < b.offset := by
  obtain ⟨hbefore, hafter, hcross⟩ := List.pairwise_append.mp h.apart
  have hblock : 0 < block.size := hsize block (List.mem_append_right _ List.mem_cons_self)
  have hmerged := FreeBlock.apart_mergeAfter h.le_offset
    (fun b hb ↦ hsize b (List.mem_append_right _ (List.mem_cons_of_mem _ hb))) hafter
  rcases List.eq_nil_or_concat' before with rfl | ⟨front, last, rfl⟩
  · rwa [mergeBetween_nil]
  · obtain ⟨hfront, -, hfrontlast⟩ := List.pairwise_append.mp hbefore
    have hlast := h.stop_le last (List.mem_append_right _ List.mem_cons_self)
    have hbehind : ∀ b ∈ block.mergeAfter after, last.stop ≤ b.offset ∧ 0 < b.size := by
      intro b hb
      rcases FreeBlock.of_mem_mergeAfter hb with hb | ⟨hoffset, hle⟩
      · exact ⟨Nat.le_of_lt (hcross last (List.mem_append_right _ List.mem_cons_self) b hb),
          hsize b (List.mem_append_right _ (List.mem_cons_of_mem _ hb))⟩
      · exact ⟨hoffset ▸ hlast, by omega⟩
    rw [mergeBetween_concat]
    -- the last block before the place is merged with what the first merge made
    refine List.pairwise_append.mpr ⟨hfront, FreeBlock.apart_mergeAfter
      (fun b hb ↦ (hbehind b hb).1) (fun b hb ↦ (hbehind b hb).2) hmerged, ?_⟩
    intro a ha b hb
    have halast := hfrontlast a ha last List.mem_cons_self
    rcases FreeBlock.of_mem_mergeAfter hb with hb | ⟨hoffset, -⟩
    · have hle := (hbehind b hb).1
      rw [FreeBlock.stop] at hle
      omega
    · rwa [hoffset]

theorem covering_mergeBetween (before : List FreeBlock) (block : FreeBlock)
    (after : List FreeBlock) (i : Nat) :
    covering (mergeBetween before block after) i = covering (before ++ block :: after) i := by
  rcases List.eq_nil_or_concat' before with rfl | ⟨front, last, rfl⟩
  · rw [mergeBetween_nil, FreeBlock.covering_mergeAfter, List.nil_append]
  · rw [mergeBetween_concat, covering_append, FreeBlock.covering_mergeAfter, covering_cons,
      FreeBlock.covering_mergeAfter, covering_append, covering_append, covering_cons _ [],
      covering_nil]
    omega

theorem sum_mergeBetween (before : List FreeBlock) (block : FreeBlock) (after : List FreeBlock) :
    ((mergeBetween before block after).map FreeBlock.size).sum =
      ((before ++ block :: after).map FreeBlock.size).sum := by
  rcases List.eq_nil_or_concat' before with rfl | ⟨front, last, rfl⟩
  · rw [mergeBetween_nil, FreeBlock.sum_mergeAfter, List.nil_append, List.map_cons, List.sum_cons]
  · simp only [mergeBetween_concat, List.map_append, List.sum_append, FreeBlock.sum_mergeAfter,
      List.map_cons, List.sum_cons, List.map_nil, List.sum_nil]
    omega

theorem of_mem_mergeBetween {b : FreeBlock} (h : b ∈ mergeBetween before block after) :
    ∃ c ∈ before ++ block :: after, b.offset = c.offset ∧ c.size ≤ b.size := by
  have hmerge (hb : b ∈ block.mergeAfter after) :
      ∃ c ∈ before ++ block :: after, b.offset = c.offset ∧ c.size ≤ b.size := by
    rcases FreeBlock.of_mem_mergeAfter hb with hb | hb
    · exact ⟨b, List.mem_append_right _ (List.mem_cons_of_mem _ hb), rfl, Nat.le_refl _⟩
    · exact ⟨block, List.mem_append_right _ List.mem_cons_self, hb⟩
  rcases List.eq_nil_or_concat' before with rfl | ⟨front, last, rfl⟩
  · exact hmerge h
  · rw [mergeBetween_concat] at h
    rcases List.mem_append.mp h with hb | hb
    · exact ⟨b, List.mem_append_left _ (List.mem_append_left _ hb), rfl, Nat.le_refl _⟩
    · rcases FreeBlock.of_mem_mergeAfter hb with hb | hb
      · exact hmerge hb
      · exact ⟨last, List.mem_append_left _ (List.mem_append_right _ List.mem_cons_self), hb⟩

end Between

end Suballoc
