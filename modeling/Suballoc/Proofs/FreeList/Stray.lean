import Suballoc.Proofs.FreeList.Return

/-!
# Stray addresses are refused

An address that comes back twice, or that was never handed out, has no header before it: what is
read there may be a node, half of one, an old header that still makes sense, or whatever a caller
left. So no argument can go by what the words are. A checked build refuses all of them all the same,
since whatever block the words describe, it would hold the bytes before the address, and the block
is accepted only between two free blocks.

The two neighbours are all that is tested, and they speak for the whole chain: it is in order, so a
block that ends before one of them and starts after the other overlaps no free block at all.
-/

namespace Suballoc

namespace FreeList

variable {list : FreeList} {free : List FreeBlock} {leases : List Lease} {block : FreeBlock}
  {start size address : Nat}

/-! ## Neighbours -/

theorem stop_le_of_getLast? {last : FreeBlock}
    (hordered : free.Pairwise fun a b ↦ a.stop < b.offset) (hlast : free.getLast? = some last)
    (hblock : block ∈ free) : block.stop ≤ last.stop := by
  obtain ⟨front, rfl⟩ := List.getLast?_eq_some_iff.mp hlast
  rcases List.mem_append.mp hblock with hfront | hsame
  · have hlt := (List.pairwise_append.mp hordered).2.2 block hfront last List.mem_cons_self
    exact Nat.le_trans (Nat.le_of_lt hlt) (Nat.le_add_right _ _)
  · obtain rfl := List.mem_singleton.mp hsame
    exact Nat.le_refl _

theorem offset_le_of_head? {first : FreeBlock}
    (hordered : free.Pairwise fun a b ↦ a.stop < b.offset) (hfirst : free.head? = some first)
    (hblock : block ∈ free) : first.offset ≤ block.offset := by
  obtain ⟨rest, rfl⟩ := List.head?_eq_some_iff.mp hfirst
  rcases List.mem_cons.mp hblock with rfl | hrest
  · exact Nat.le_refl _
  · have hlt := List.rel_of_pairwise_cons hordered hrest
    exact Nat.le_trans (Nat.le_add_right _ _) (Nat.le_of_lt hlt)

/-- A block that a checked build takes back starts at or after the end of the free block before
it. -/
theorem stop_le_of_endsBefore (h : endsBefore .checked start (some block) = .ok true) :
    block.stop ≤ start := by
  obtain ⟨stop, hstop, hle⟩ := Call.bind_eq_ok.mp h
  obtain ⟨-, rfl⟩ := Build.add_checked_eq_ok_iff.mp hstop
  exact of_decide_eq_true (Except.ok.inj hle)

theorem le_of_endsBeforeNext {next : Nat} (hnext : next ≠ chainEnd)
    (h : endsBeforeNext .checked start size next = .ok true) : start + size ≤ next := by
  rw [endsBeforeNext, if_neg hnext] at h
  obtain ⟨stop, hstop, hle⟩ := Call.bind_eq_ok.mp h
  obtain ⟨-, rfl⟩ := Build.add_checked_eq_ok_iff.mp hstop
  exact of_decide_eq_true (Except.ok.inj hle)

/-- **The neighbours speak for all.** A block that passes the test of its neighbours overlaps no
free block. -/
theorem Tiled.stop_le_or_le_offset (h : list.Tiled free leases)
    (hbefore : endsBefore .checked start (list.neighbours start).1 = .ok true)
    (hnext : endsBeforeNext .checked start size (list.neighbours start).2 = .ok true)
    (hblock : block ∈ list.blocks) : block.stop ≤ start ∨ start + size ≤ block.offset := by
  rw [neighbours, h.blocks_eq] at hbefore hnext
  rw [h.blocks_eq, ← List.takeWhile_append_dropWhile (p := fun block : FreeBlock ↦
    decide (block.offset < start)) (l := free)] at hblock
  rcases List.mem_append.mp hblock with hblock | hblock
  · left
    obtain ⟨last, hlast⟩ := Option.ne_none_iff_exists'.mp
      (mt List.getLast?_eq_none_iff.mp (List.ne_nil_of_mem hblock))
    have hend := stop_le_of_getLast? (h.apart.sublist (List.takeWhile_sublist _)) hlast hblock
    dsimp only at hbefore
    rw [hlast] at hbefore
    exact Nat.le_trans hend (stop_le_of_endsBefore hbefore)
  · right
    obtain ⟨next, hfirst⟩ := Option.ne_none_iff_exists'.mp
      (mt List.head?_eq_none_iff.mp (List.ne_nil_of_mem hblock))
    have hstart := offset_le_of_head? (h.apart.sublist (List.dropWhile_sublist _)) hfirst hblock
    have hmem : next ∈ free := (List.dropWhile_sublist _).mem (List.mem_of_head? hfirst)
    have hends : next.offset ≠ chainEnd :=
      Nat.ne_of_lt (lt_chainEnd_of_le (h.spaced.fits next hmem) h.capacity_lt)
    dsimp only at hnext
    rw [hfirst] at hnext
    exact Nat.le_trans (le_of_endsBeforeNext hends hnext) hstart

/-! ## What is accepted -/

/-- What a checked build makes sure of before it takes a block back: there is a header before the
address, in the region, and the block it describes holds the header and lies between its
neighbours. -/
theorem exists_of_returned {returned : Returned}
    (h : list.returned .checked address = .ok returned) :
    nodeSize ≤ Word.sub address list.region.base ∧
      Word.sub address list.region.base ≤ list.capacity ∧
      ∃ start size, start + nodeSize ≤ Word.sub address list.region.base ∧
        Word.sub address list.region.base ≤ start + size ∧
        endsBefore .checked start (list.neighbours start).1 = .ok true ∧
        endsBeforeNext .checked start size (list.neighbours start).2 = .ok true := by
  simp only [FreeList.returned, Call.bind_eq_ok, Build.require_checked_eq_ok_iff,
    Build.requireM_checked_eq_ok_iff, Build.sub_checked_eq_ok_iff, decide_eq_true_eq] at h
  obtain ⟨-, -, -, ⟨hle, hcapacity⟩, offset, ⟨-, hoffset⟩, -, hdescribes, start, ⟨hstart, rfl⟩, -,
    hbefore, -, hnext, -⟩ := h
  rw [Header.describes] at hdescribes
  split at hdescribes
  · rename_i hheader
    exact ⟨hle, hcapacity, _, _, by omega, by omega, hbefore, hnext⟩
  · cases hdescribes

/-! ## What is refused -/

/-- An address that nobody holds, as far as the free list can tell: it lies outside of the region,
or it is that of a word and a free block has the first of the bytes where a header would be. -/
def Stray (list : FreeList) (address : Nat) : Prop :=
  let payload := Word.sub address list.region.base
  payload < nodeSize ∨ list.capacity < payload ∨
    Word.width ∣ payload ∧ ∃ block ∈ list.blocks, block.Covers (payload - nodeSize)

theorem Tiled.returned_stray (h : list.Tiled free leases) (hstray : list.Stray address) :
    ∃ fault, list.returned .checked address = .error fault := by
  cases hreturned : list.returned .checked address with
  | error fault => exact ⟨fault, rfl⟩
  | ok returned =>
    obtain ⟨hle, hcapacity, start, size, hstart, hstop, hbefore, hnext⟩ :=
      exists_of_returned hreturned
    rcases hstray with hlow | hhigh | ⟨-, block, hblock, hcovers⟩
    · omega
    · omega
    · -- the accepted block would have the byte that the free block has
      have hside := h.stop_le_or_le_offset hbefore hnext hblock
      simp only [FreeBlock.Covers] at hcovers
      have hnode := nodeSize_pos
      omega

/-- What fails before anything is written leaves the list as it was. -/
theorem release_of_returned {fault : Fault} (hnull : address ≠ 0)
    (hreturned : list.returned .checked address = .error fault) :
    release .checked address list = .error fault list := by
  rw [release, if_neg hnull]
  simp only [Call.run_bind, Call.run_get, hreturned, Call.run_lift_error]

/-- **Stray addresses.** Other than null, a checked build takes none of them back, whatever the
bytes are, and leaves the list as it was. -/
theorem Tiled.release_stray (h : list.Tiled free leases) (hnull : address ≠ 0)
    (hstray : list.Stray address) : ∃ fault, release .checked address list = .error fault list := by
  obtain ⟨fault, hreturned⟩ := h.returned_stray hstray
  exact ⟨fault, release_of_returned hnull hreturned⟩

end FreeList

end Suballoc
