import Suballoc.Proofs.FreeList.Placement
import Suballoc.Proofs.FreeList.Return

/-!
# Giving back makes room

A block that comes back is merged with its free neighbours, so other blocks may grow downwards: they
start at a lower address, where a request needs other padding and another number of whole words.
Still nothing that fitted before fits no longer. Every block that was free, and the block that came
back, lies in a block that is free now, and what fits a block fits every block around it.
-/

namespace Suballoc

/-! ## Merged blocks -/

theorem FreeBlock.exists_within_mergeAfter {block b : FreeBlock} {after : List FreeBlock}
    (h : b ∈ block :: after) : ∃ outer ∈ block.mergeAfter after, b.Within outer := by
  cases after with
  | nil => exact ⟨b, h, .refl b⟩
  | cons next rest =>
    rw [mergeAfter]
    split
    · rename_i htouch
      -- the block and the next one lie in what they were merged into
      have hmerged : ∀ c, c = block ∨ c = next →
          c.Within { offset := block.offset, size := block.size + next.size } := by
        rintro c (rfl | rfl)
        · exact ⟨Nat.le_refl _, Nat.add_le_add_left (Nat.le_add_right _ _) _⟩
        · simp only [Within, stop] at htouch ⊢
          omega
      rcases List.mem_cons.mp h with rfl | h
      · exact ⟨_, List.mem_cons_self, hmerged b (Or.inl rfl)⟩
      · rcases List.mem_cons.mp h with rfl | h
        · exact ⟨_, List.mem_cons_self, hmerged b (Or.inr rfl)⟩
        · exact ⟨b, List.mem_cons_of_mem _ h, .refl b⟩
    · exact ⟨b, h, .refl b⟩

theorem exists_within_mergeBetween {before after : List FreeBlock} {block b : FreeBlock}
    (h : b ∈ before ++ block :: after) :
    ∃ outer ∈ mergeBetween before block after, b.Within outer := by
  rcases List.eq_nil_or_concat' before with rfl | ⟨front, last, rfl⟩
  · rw [mergeBetween_nil]
    exact FreeBlock.exists_within_mergeAfter h
  · rw [mergeBetween_concat]
    rw [List.append_assoc, List.singleton_append] at h
    rcases List.mem_append.mp h with hfront | hback
    · exact ⟨b, List.mem_append_left _ hfront, .refl b⟩
    · -- first the block is merged with those behind it, then the last one before it with these
      have hfirst : ∃ middle ∈ last :: block.mergeAfter after, b.Within middle := by
        rcases List.mem_cons.mp hback with rfl | hback
        · exact ⟨b, List.mem_cons_self, .refl b⟩
        · obtain ⟨middle, hmiddle, hwithin⟩ := FreeBlock.exists_within_mergeAfter hback
          exact ⟨middle, List.mem_cons_of_mem _ hmiddle, hwithin⟩
      obtain ⟨middle, hmiddle, hwithin⟩ := hfirst
      obtain ⟨outer, houter, hwithin'⟩ := FreeBlock.exists_within_mergeAfter hmiddle
      exact ⟨outer, List.mem_append_right _ houter, hwithin.trans hwithin'⟩

namespace FreeList

variable {list : FreeList} {free before after : List FreeBlock} {leases : List Lease}
  {lease : Lease} {size alignment : Nat}

/-! ## Requests that are met -/

/-- A request that would be met. -/
def Grants (build : Build) (list : FreeList) (size alignment : Nat) : Prop :=
  ∃ address next, allocate build size alignment list = .ok (some address) next

/-- A request is met if and only if some free block has room for it. -/
theorem Tiled.grants_iff (build : Build) (h : list.Tiled free leases) :
    list.Grants build size alignment ↔ alignment.isPowerOfTwo ∧
      ∃ block ∈ free, block.HasRoom list.region.base size (payloadAlignment alignment) := by
  by_cases hpow : alignment.isPowerOfTwo
  · rw [and_iff_right hpow, ← h.blocks_eq]
    rcases h.allocate_placed size hpow with ⟨hnone, hrun⟩ | ⟨_, fit, _, next, hplaces, hrun⟩
    · refine iff_of_false ?_ ?_
      · rintro ⟨address, next, hsome⟩
        rw [hrun build] at hsome
        cases hsome
      · rintro ⟨block, hblock, hroom⟩
        exact hnone block hblock hroom
    · refine iff_of_true ⟨_, next, hrun build⟩ ⟨fit.block, ?_, _, _, hplaces.demands,
        hplaces.needed_le⟩
      rw [hplaces.blocks_eq]
      exact List.mem_append_right _ List.mem_cons_self
  · refine iff_of_false ?_ fun h ↦ hpow h.1
    rintro ⟨address, next, hsome⟩
    rw [allocate_of_not_isPowerOfTwo build size list hpow] at hsome
    cases build <;> cases hsome

theorem Tiled.grants_returnedTo (build : Build) {block : FreeBlock}
    (h : list.Tiled (before ++ after) (lease :: leases))
    (hbetween : Between before (list.blockOf lease) after) (hpow : alignment.isPowerOfTwo)
    (hblock : block ∈ before ++ list.blockOf lease :: after)
    (hroom : block.HasRoom list.region.base size (payloadAlignment alignment)) :
    (list.returnedTo before lease after).Grants build size alignment := by
  have hreturned := h.returnedTo hbetween
  obtain ⟨outer, houter, hwithin⟩ := exists_within_mergeBetween hblock
  refine (hreturned.grants_iff build).mpr ⟨hpow, outer, houter, ?_⟩
  rw [FreeList.returnedTo, base_restored]
  exact hroom.mono (Nat.pos_of_isPowerOfTwo (isPowerOfTwo_payloadAlignment hpow))
    (h.sized_of_mem hblock).1 (hreturned.sized outer houter).1 hwithin

/-- **Giving back.** What was met before a block came back is met afterwards, and so is what the
block has room for. -/
theorem Tiled.release_grants (h : list.Tiled free (lease :: leases)) :
    ∃ next, (∀ build, release build (list.region.base + lease.payload) list = .ok () next) ∧
      ∀ build size alignment, list.Grants build size alignment ∨ alignment.isPowerOfTwo ∧
          (list.blockOf lease).HasRoom list.region.base size (payloadAlignment alignment) →
        next.Grants build size alignment := by
  obtain ⟨before, after, rfl, hbetween, hrelease⟩ := h.release_run
  refine ⟨_, hrelease, fun build size alignment hmet ↦ ?_⟩
  rcases hmet with hgrants | ⟨hpow, hroom⟩
  · obtain ⟨hpow, block, hblock, hroom⟩ := (h.grants_iff build).mp hgrants
    refine h.grants_returnedTo build hbetween hpow ?_ hroom
    exact List.perm_middle.mem_iff.mpr (List.mem_cons_of_mem _ hblock)
  · exact h.grants_returnedTo build hbetween hpow
      (List.mem_append_right _ List.mem_cons_self) hroom

end FreeList

end Suballoc
