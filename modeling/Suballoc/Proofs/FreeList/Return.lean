import Mathlib.Data.List.TakeWhile
import Suballoc.Proofs.FreeList.Merge

/-!
# Giving a block back keeps the tiling

A block that comes back is found by its header, and its place by its neighbours: the chain comes
apart into the free blocks that end at or before the block and those that start at or after its end.
From there on a release is `restored`, a function of the list and the place.

The block joins the chain first and is merged then, on one side after the other. So the chain is
followed through three states, and the invariant is stated for the last one only.
-/

namespace Suballoc

namespace FreeList

variable {list : FreeList} {free before after : List FreeBlock} {leases : List Lease}
  {lease : Lease}

/-! ## The list after a release -/

/-- The list with the free block at an offset merged into the one before it, if there is one. -/
def mergedInto (list : FreeList) (previous : Nat) : FreeList :=
  if previous = chainEnd then list else list.merged previous

/-- The list after a block came back to its place between two others. -/
def restored (list : FreeList) (previous : Nat) (block : FreeBlock) (next : Nat) : FreeList :=
  let merged := ((list.linkIn previous block next).merged block.offset).mergedInto previous
  { merged with used := list.used - block.size, allocations := list.allocations - 1 }

variable {previous next : Nat} {block : FreeBlock}

theorem region_restored : (list.restored previous block next).region =
    (((list.linkIn previous block next).merged block.offset).mergedInto previous).region := by
  rw [restored]

theorem head_restored : (list.restored previous block next).head =
    (((list.linkIn previous block next).merged block.offset).mergedInto previous).head := by
  rw [restored]

theorem base_restored : (list.restored previous block next).region.base = list.region.base := by
  rw [region_restored, mergedInto]
  split
  · rw [base_merged, base_linkIn]
  · rw [base_merged, base_merged, base_linkIn]

theorem capacity_restored : (list.restored previous block next).capacity = list.capacity := by
  rw [capacity, region_restored, ← capacity, mergedInto]
  split
  · rw [capacity_merged, capacity_linkIn]
  · rw [capacity_merged, capacity_merged, capacity_linkIn]

theorem byteAt_restored {i : Nat} (hnode : i < block.offset ∨ block.offset + nodeSize ≤ i)
    (hprevious : previous ≠ chainEnd → i < previous ∨ previous + nodeSize ≤ i) :
    (list.restored previous block next).region.byteAt i = list.region.byteAt i := by
  rw [region_restored, mergedInto]
  split
  · rw [byteAt_merged hnode, byteAt_linkIn hnode hprevious]
  · rename_i hends
    rw [byteAt_merged (hprevious hends), byteAt_merged hnode, byteAt_linkIn hnode hprevious]

/-! ## The chain after a release -/

/-- A block that is not on the chain of a list can take its place there. -/
structure Place (list : FreeList) (before : List FreeBlock) (block : FreeBlock)
    (after : List FreeBlock) : Prop where
  spaced : Spaced list.capacity (before ++ block :: after)
  stop_le : ∀ b ∈ before ++ block :: after, b.stop ≤ list.capacity
  capacity_lt : list.capacity < Word.limit
  sum_le : ((before ++ block :: after).map FreeBlock.size).sum ≤ list.capacity
  linked : Linked list.region list.head (before ++ after) chainEnd

namespace Place

/-- First the block joins the chain. -/
theorem linked_linkIn (h : Place list before block after) :
    Linked (list.linkIn (lastOffset before) block (firstOffset after)).region
      (list.linkIn (lastOffset before) block (firstOffset after)).head (before ++ block :: after)
      chainEnd := by
  obtain ⟨middle, hbefore, hafter⟩ := linked_append.mp h.linked
  obtain rfl := hafter.start_eq
  have hcapacity := h.capacity_lt
  have hstop := h.stop_le block (List.mem_append_right _ List.mem_cons_self)
  rw [FreeBlock.stop] at hstop
  refine FreeList.linked_linkIn h.spaced hcapacity (by omega) ?_ hbefore hafter
  -- the next offset is a word: the end of the chain, or an offset in the region
  cases after with
  | nil => decide
  | cons next rest =>
    have hnext := h.stop_le next (by simp)
    rw [FreeBlock.stop] at hnext
    rw [firstOffset_cons]
    omega

/-- Then it is merged with the one after it. -/
theorem linked_merged (h : Place list before block after) :
    Linked ((list.linkIn (lastOffset before) block (firstOffset after)).merged block.offset).region
      ((list.linkIn (lastOffset before) block (firstOffset after)).merged block.offset).head
      (before ++ block.mergeAfter after) chainEnd := by
  have hcapacity := h.capacity_lt
  have hsum := h.sum_le
  rw [List.map_append, List.sum_append, List.map_cons, List.sum_cons] at hsum
  refine FreeList.linked_merged ?_ ?_ (by omega) h.linked_linkIn
  · rw [capacity_linkIn]
    exact h.spaced
  · rwa [capacity_linkIn]

/-- Last it is merged with the one before it. -/
theorem linked_restored (h : Place list before block after) :
    Linked (list.restored (lastOffset before) block (firstOffset after)).region
      (list.restored (lastOffset before) block (firstOffset after)).head
      (mergeBetween before block after) chainEnd := by
  rw [region_restored, head_restored]
  rcases List.eq_nil_or_concat' before with rfl | ⟨front, last, rfl⟩
  · rw [lastOffset_nil, mergedInto, if_pos rfl]
    exact h.linked_merged
  · have hcapacity := h.capacity_lt
    have hsum := h.sum_le
    have hlinked := h.linked_merged
    have hspaced := h.spaced.mergeAfter
    have hlast := h.spaced.fits last (by simp)
    rw [List.append_assoc, List.singleton_append] at hlinked hspaced
    simp only [List.map_append, List.sum_append, List.map_cons, List.sum_cons, List.map_nil,
      List.sum_nil] at hsum
    rw [lastOffset_concat] at hlinked ⊢
    rw [mergedInto, if_neg (Nat.ne_of_lt (lt_chainEnd_of_le hlast hcapacity)),
      mergeBetween_concat]
    -- seen from the last block before the place, this is a merge with the next one again
    refine FreeList.linked_merged ?_ ?_ ?_ hlinked
    · rwa [capacity_merged, capacity_linkIn]
    · rwa [capacity_merged, capacity_linkIn]
    · rw [FreeBlock.sum_mergeAfter]
      omega

end Place

/-! ## The place of a lease's block -/

theorem le_offset_of_mem_dropWhile {start : Nat} {blocks : List FreeBlock} {b : FreeBlock}
    (hordered : blocks.Pairwise fun a b ↦ a.stop < b.offset)
    (hb : b ∈ blocks.dropWhile fun block ↦ block.offset < start) : start ≤ b.offset := by
  induction blocks with
  | nil => exact absurd hb List.not_mem_nil
  | cons first rest ih =>
    obtain ⟨hfirst, hrest⟩ := List.pairwise_cons.mp hordered
    by_cases hlt : first.offset < start
    · rw [List.dropWhile_cons, if_pos (decide_eq_true hlt)] at hb
      exact ih hrest hb
    · rw [List.dropWhile_cons, if_neg (by simpa using hlt)] at hb
      rcases List.mem_cons.mp hb with rfl | hb
      · exact Nat.not_lt.mp hlt
      · have := hfirst b hb
        rw [FreeBlock.stop] at this
        omega

/-- The block of a lease has its place among the free blocks. -/
theorem Tiled.exists_between (h : Tiled list free (lease :: leases)) :
    ∃ before after, free = before ++ after ∧ Between before (list.blockOf lease) after := by
  have hcut := List.takeWhile_append_dropWhile (p := fun block : FreeBlock ↦
    decide (block.offset < (list.blockOf lease).offset)) (l := free)
  have hsize := (h.headed lease List.mem_cons_self).nodeSize_le
  have hpos := nodeSize_pos
  have hside {b : FreeBlock} (hb : b ∈ free) : b.stop ≤ (list.blockOf lease).offset ∨
      (list.blockOf lease).stop ≤ b.offset := h.free_or_lease hb List.mem_cons_self
  -- a free block starts before the lease's block or not, and by the tiling it ends accordingly
  refine ⟨_, _, hcut.symm, by rw [hcut]; exact h.apart, ?_, ?_⟩
  · intro a ha
    have hlt : a.offset < (list.blockOf lease).offset := by
      simpa using List.mem_takeWhile_imp ha
    rcases hside ((List.takeWhile_sublist _).mem ha) with hstop | hstop
    · exact hstop
    · rw [FreeBlock.stop] at hstop
      omega
  · intro b hb
    have hmem := (List.dropWhile_sublist _).mem hb
    have hle := le_offset_of_mem_dropWhile h.apart hb
    rcases hside hmem with hstop | hstop
    · have := (h.sized b hmem).2
      rw [FreeBlock.stop] at hstop
      omega
    · exact hstop

theorem Tiled.neighbours_eq (h : Tiled list (before ++ after) leases)
    (hbetween : Between before block after) (hpos : 0 < block.size) :
    list.neighbours block.offset = (before.getLast?, firstOffset after) := by
  have hbefore : ∀ a ∈ before, decide (a.offset < block.offset) = true := by
    intro a ha
    have hstop := hbetween.stop_le a ha
    have hsize := (h.sized a (List.mem_append_left _ ha)).2
    have hnode := nodeSize_pos
    rw [FreeBlock.stop] at hstop
    exact decide_eq_true (by omega)
  rw [neighbours, h.blocks_eq, List.takeWhile_append_of_pos hbefore,
    List.dropWhile_append_of_pos hbefore]
  cases after with
  | nil => simp
  | cons next rest =>
    have hnext : ¬ next.offset < block.offset := by
      have hstop := hbetween.le_offset next List.mem_cons_self
      rw [FreeBlock.stop] at hstop
      omega
    simp [hnext]

theorem Tiled.sized_of_mem (h : Tiled list (before ++ after) (lease :: leases)) {b : FreeBlock}
    (hb : b ∈ before ++ list.blockOf lease :: after) :
    Word.width ∣ b.offset ∧ nodeSize ≤ b.size := by
  rcases List.mem_cons.mp (List.perm_middle.mem_iff.mp hb) with rfl | hb
  · have hheaded := h.headed lease List.mem_cons_self
    exact ⟨hheaded.start_aligned, hheaded.nodeSize_le⟩
  · exact h.sized b hb

theorem Tiled.place (h : Tiled list (before ++ after) (lease :: leases))
    (hbetween : Between before (list.blockOf lease) after) :
    Place list before (list.blockOf lease) after := by
  have hstop : ∀ b ∈ before ++ list.blockOf lease :: after, b.stop ≤ list.capacity := by
    intro b hb
    rcases List.mem_cons.mp (List.perm_middle.mem_iff.mp hb) with rfl | hb
    · exact h.lease_stop_le List.mem_cons_self
    · exact h.free_stop_le hb
  refine ⟨Spaced.of_ordered hbetween.ordered (fun b hb ↦ (h.sized_of_mem hb).2) hstop, hstop,
    h.capacity_lt, ?_, h.linked⟩
  have hbalance := h.balance
  have hused := h.used_eq_add
  rw [List.map_append, List.sum_append] at hbalance
  rw [List.map_append, List.sum_append, List.map_cons, List.sum_cons]
  omega

/-! ## The tiling after a release -/

/-- The list after the block of a lease came back to its place. -/
def returnedTo (list : FreeList) (before : List FreeBlock) (lease : Lease)
    (after : List FreeBlock) : FreeList :=
  list.restored (lastOffset before) (list.blockOf lease) (firstOffset after)

/-- **Frame.** A release changes bytes of free blocks and of the block that comes back only. -/
theorem byteAt_returnedTo (h : Tiled list (before ++ after) (lease :: leases)) {i : Nat}
    (hblock : ¬ (list.blockOf lease).Covers i)
    (hfree : ∀ block ∈ before ++ after, ¬ block.Covers i) :
    (list.returnedTo before lease after).region.byteAt i = list.region.byteAt i := by
  have hsize := (h.headed lease List.mem_cons_self).nodeSize_le
  refine byteAt_restored ?_ ?_
  · simp only [FreeBlock.Covers, FreeBlock.stop] at hblock
    omega
  · intro hends
    obtain ⟨last, hmem, hoffset⟩ := exists_mem_of_lastOffset_ne hends
    have hlast := hfree last (List.mem_append_left _ hmem)
    have hsize := (h.sized last (List.mem_append_left _ hmem)).2
    simp only [FreeBlock.Covers, FreeBlock.stop] at hlast
    omega

theorem agreeAt_returnedTo (h : Tiled list (before ++ after) (lease :: leases)) {other : Lease}
    (hother : other ∈ leases) :
    list.region.AgreeAt (list.returnedTo before lease after).region
      (other.payload - nodeSize) := by
  have hmem : other ∈ lease :: leases := List.mem_cons_of_mem _ hother
  refine h.agreeAt_of_outside hmem fun i hcovers ↦ byteAt_returnedTo h ?_ ?_
  · intro hblock
    have hapart := h.lease_or_lease hother
    simp only [FreeBlock.Covers] at hblock hcovers
    omega
  · exact fun block hblock hfree ↦ h.not_covers_of_free hblock hmem hfree hcovers

theorem blocksOf_returnedTo (h : Tiled list (before ++ after) (lease :: leases)) :
    (list.returnedTo before lease after).blocksOf leases = list.blocksOf leases :=
  List.map_congr_left fun _ hother ↦ blockOf_congr (agreeAt_returnedTo h hother)

/-- **Giving back keeps the tiling.** The block of the lease joins the free blocks. -/
theorem Tiled.returnedTo (h : Tiled list (before ++ after) (lease :: leases))
    (hbetween : Between before (list.blockOf lease) after) :
    Tiled (list.returnedTo before lease after)
      (mergeBetween before (list.blockOf lease) after) leases where
  base_aligned := by
    rw [FreeList.returnedTo, base_restored]
    exact h.base_aligned
  stop_lt := by
    rw [FreeList.returnedTo, base_restored, capacity_restored]
    exact h.stop_lt
  linked := (h.place hbetween).linked_restored
  apart := hbetween.apart_mergeBetween fun _ hb ↦
    Nat.lt_of_lt_of_le nodeSize_pos (h.sized_of_mem hb).2
  sized := by
    intro block hblock
    obtain ⟨part, hpart, hoffset, hsize⟩ := Between.of_mem_mergeBetween hblock
    obtain ⟨haligned, hnode⟩ := h.sized_of_mem hpart
    rw [hoffset]
    exact ⟨haligned, Nat.le_trans hnode hsize⟩
  headed := fun other hother ↦
    (h.headed other (List.mem_cons_of_mem _ hother)).congr (agreeAt_returnedTo h hother)
  partition := by
    intro i
    have hcount := h.partition i
    rw [blocksOf, List.map_cons, covering_cons, covering_append, ← blocksOf] at hcount
    rw [blocksOf_returnedTo h, Between.covering_mergeBetween, covering_append, covering_cons,
      FreeList.returnedTo, capacity_restored]
    omega
  used_eq := by
    have hused := h.used_eq_add
    rw [blocksOf_returnedTo h, FreeList.returnedTo, restored]
    dsimp only
    omega
  allocations_eq := by
    have hcount := h.allocations_eq
    rw [List.length_cons] at hcount
    rw [FreeList.returnedTo, restored]
    dsimp only
    omega
  balance := by
    have hbalance := h.balance
    have hused := h.used_eq_add
    rw [List.map_append, List.sum_append] at hbalance
    rw [Between.sum_mergeBetween, List.map_append, List.sum_append, List.map_cons, List.sum_cons,
      FreeList.returnedTo, capacity_restored, restored]
    dsimp only
    omega

/-! ## The call -/

/-- The header before a lease passes the test of a checked build. -/
theorem Tiled.describes_eq (build : Build) (h : Tiled list free leases) (hlease : lease ∈ leases) :
    (list.header (lease.payload - nodeSize)).describes build lease.payload list.capacity =
      .ok true := by
  have hheaded := h.headed lease hlease
  have hadjustment := hheaded.adjustment_le
  have hstart := hheaded.start_add_le
  have hstop := hheaded.le_stop
  have hinside := h.lease_stop_le hlease
  have hcapacity := h.capacity_lt
  simp only [blockOf, FreeBlock.stop] at hstart hstop hinside
  have hsub : build.sub lease.payload (list.header (lease.payload - nodeSize)).adjustment =
      .ok (lease.payload - (list.header (lease.payload - nodeSize)).adjustment) :=
    Build.sub_of_le build hadjustment
  have hadd : build.add (lease.payload - (list.header (lease.payload - nodeSize)).adjustment)
      (list.header (lease.payload - nodeSize)).size =
        .ok (lease.payload - (list.header (lease.payload - nodeSize)).adjustment +
          (list.header (lease.payload - nodeSize)).size) :=
    Build.add_of_lt build (by omega)
  rw [Header.describes, if_pos ⟨by omega, hadjustment, by omega⟩, hsub, Call.ok_bind, hadd,
    Call.ok_bind, decide_eq_true hinside]
  rfl

theorem endsBefore_eq (build : Build) (h : Between before block after)
    (hword : block.offset < Word.limit) :
    endsBefore build block.offset before.getLast? = .ok true := by
  rcases List.eq_nil_or_concat' before with rfl | ⟨front, last, rfl⟩
  · rfl
  · have hstop := h.stop_le last (List.mem_append_right _ List.mem_cons_self)
    have hadd : build.add last.offset last.size = .ok last.stop :=
      Build.add_of_lt build (Nat.lt_of_le_of_lt hstop hword)
    rw [List.getLast?_concat, endsBefore, hadd, Call.ok_bind, decide_eq_true hstop]
    rfl

theorem endsBeforeNext_eq (build : Build) (h : Between before block after)
    (hword : block.stop < Word.limit) :
    endsBeforeNext build block.offset block.size (firstOffset after) = .ok true := by
  cases after with
  | nil => rfl
  | cons next rest =>
    have hstop := h.le_offset next List.mem_cons_self
    have hadd : build.add block.offset block.size = .ok block.stop := Build.add_of_lt build hword
    rw [firstOffset_cons, endsBeforeNext]
    split
    · rfl
    · rw [hadd, Call.ok_bind, decide_eq_true hstop]
      rfl

theorem Tiled.returned_eq (build : Build) (h : Tiled list (before ++ after) (lease :: leases))
    (hbetween : Between before (list.blockOf lease) after) :
    list.returned build (list.region.base + lease.payload) =
      .ok { start := (list.blockOf lease).offset
            size := (list.blockOf lease).size
            previous := lastOffset before
            next := firstOffset after } := by
  have hheaded := h.headed lease List.mem_cons_self
  have hadjustment := hheaded.adjustment_le
  have hstart := hheaded.start_add_le
  have hstop := hheaded.le_stop
  have hinside := h.lease_stop_le List.mem_cons_self
  have hlt := h.stop_lt
  have hcount := h.allocations_eq
  have hneighbours := h.neighbours_eq hbetween (Nat.lt_of_lt_of_le nodeSize_pos hheaded.nodeSize_le)
  rw [List.length_cons] at hcount
  have hpayload : Word.sub (list.region.base + lease.payload) list.region.base = lease.payload := by
    rw [Word.sub_of_le (Nat.le_add_right _ _) (by omega), Nat.add_sub_cancel_left]
  have hword : (list.blockOf lease).stop < Word.limit := by omega
  have hlive : decide (0 < list.allocations) = true := decide_eq_true (by omega)
  have hown : decide (nodeSize ≤ lease.payload ∧ lease.payload ≤ list.capacity) = true :=
    decide_eq_true ⟨by omega, by omega⟩
  have hheader : build.sub lease.payload nodeSize = .ok (lease.payload - nodeSize) :=
    Build.sub_of_le build (by omega)
  have hsub : build.sub lease.payload (list.header (lease.payload - nodeSize)).adjustment =
      .ok (list.blockOf lease).offset := Build.sub_of_le build hadjustment
  simp only [FreeList.returned, hlive, Build.require_true, Call.ok_bind, hpayload, hown, hheader,
    h.describes_eq build List.mem_cons_self, Build.requireM_ok_true, hsub, hneighbours,
    endsBefore_eq build hbetween (Nat.lt_of_le_of_lt (Nat.le_add_right _ _) hword)]
  have hafter := endsBeforeNext_eq build hbetween hword
  rw [show (list.header (lease.payload - nodeSize)).size = (list.blockOf lease).size from rfl,
    hafter, Build.requireM_ok_true, Call.ok_bind]
  rfl

theorem used_mergedInto (list : FreeList) (previous : Nat) :
    (list.mergedInto previous).used = list.used := by
  rw [mergedInto]
  split
  · rfl
  · exact used_merged _ _

theorem allocations_mergedInto (list : FreeList) (previous : Nat) :
    (list.mergedInto previous).allocations = list.allocations := by
  rw [mergedInto]
  split
  · rfl
  · exact allocations_merged _ _

theorem Place.mergeNext_run (build : Build) (h : Place list before block after) :
    mergeNext build block.offset (list.linkIn (lastOffset before) block (firstOffset after)) =
      .ok () ((list.linkIn (lastOffset before) block (firstOffset after)).merged block.offset) := by
  have hcapacity := h.capacity_lt
  have hstop := h.stop_le block (by simp)
  have hsum := h.sum_le
  rw [List.map_append, List.sum_append, List.map_cons, List.sum_cons] at hsum
  exact FreeList.mergeNext_run build (by omega) (by omega) h.linked_linkIn

/-- The second merge runs to its end, whether there is a block before or not. -/
theorem Place.mergePrevious_run (build : Build) (h : Place list before block after) :
    mergePrevious build (lastOffset before) block.offset
        ((list.linkIn (lastOffset before) block (firstOffset after)).merged block.offset) =
      .ok () (((list.linkIn (lastOffset before) block (firstOffset after)).merged
        block.offset).mergedInto (lastOffset before)) := by
  rcases List.eq_nil_or_concat' before with rfl | ⟨front, last, rfl⟩
  · rw [lastOffset_nil, mergePrevious, mergedInto, if_pos rfl, if_neg (not_not_intro rfl),
      Call.run_pure]
  · obtain ⟨first, rest, hmerged, hoffset⟩ := block.exists_mergeAfter after
    have hcapacity := h.capacity_lt
    have hsum := h.sum_le
    have hlinked := h.linked_merged
    have hsizes := FreeBlock.sum_mergeAfter block after
    have hlast := h.spaced.fits last (by simp)
    have hblock := h.spaced.block_fits
    have hstop := h.stop_le last (by simp)
    rw [hmerged, List.map_cons, List.sum_cons] at hsizes
    rw [hmerged, List.append_assoc, List.singleton_append] at hlinked
    simp only [List.map_append, List.sum_append, List.map_cons, List.sum_cons, List.map_nil,
      List.sum_nil] at hsum
    have hend : last.offset ≠ chainEnd := Nat.ne_of_lt (lt_chainEnd_of_le hlast hcapacity)
    rw [lastOffset_concat] at hlinked ⊢
    rw [mergedInto, if_neg hend, ← hoffset]
    rw [← hoffset] at hlinked
    refine FreeList.mergePrevious_run build (by omega) (by omega) hend ?_ hlinked
    rw [hoffset]
    exact Nat.ne_of_lt (lt_chainEnd_of_le hblock hcapacity)

theorem Tiled.release_of_between (build : Build)
    (h : Tiled list (before ++ after) (lease :: leases))
    (hbetween : Between before (list.blockOf lease) after) :
    release build (list.region.base + lease.payload) list =
      .ok () (list.returnedTo before lease after) := by
  have hplace := h.place hbetween
  have hused := h.used_eq_add
  have hcount := h.allocations_eq
  rw [List.length_cons] at hcount
  have hreturned := h.returned_eq build hbetween
  have hnext := hplace.mergeNext_run build
  have hprevious := hplace.mergePrevious_run build
  have hsub : build.sub list.used (list.blockOf lease).size =
      .ok (list.used - (list.blockOf lease).size) := Build.sub_of_le build (by omega)
  have hone : build.sub list.allocations 1 = .ok (list.allocations - 1) :=
    Build.sub_of_le build (by omega)
  rw [release, if_neg (h.lease_address_ne_zero List.mem_cons_self)]
  simp only [Call.run_bind, Call.run_get, hreturned, Call.run_lift_ok, Call.run_modify]
  rw [← linkIn, hnext]
  simp only [hprevious, used_mergedInto, used_merged, used_linkIn, hsub, Call.run_lift_ok,
    allocations_mergedInto, allocations_merged, allocations_linkIn, hone]
  rw [FreeList.returnedTo, restored]

/-- **Giving back.** The call of a holder runs to its end, in the same way in both builds. -/
theorem Tiled.release_run (h : Tiled list free (lease :: leases)) :
    ∃ before after, free = before ++ after ∧ Between before (list.blockOf lease) after ∧
      ∀ build, release build (list.region.base + lease.payload) list =
        .ok () (list.returnedTo before lease after) := by
  obtain ⟨before, after, rfl, hbetween⟩ := h.exists_between
  exact ⟨before, after, rfl, hbetween, fun build ↦ h.release_of_between build hbetween⟩

end FreeList

end Suballoc
