import Suballoc.Proofs.FreeList.Relink
import Suballoc.Proofs.FreeList.Search
import Suballoc.Proofs.FreeList.Tiling

/-!
# Taking a block keeps the tiling

An allocation that finds room is `granted`, a function of the list and the fit. It moves one free
block from the chain to the caller, whole or without its rest, and it writes only where that block
and the node before it were. So leases and their headers are untouched, and the tiling changes by
one equation: the block that is taken and the rest that stays make up the block that was chosen.
-/

namespace Suballoc

namespace Fit

/-- The block that leaves the chain. -/
def taken (fit : Fit) : FreeBlock where
  offset := fit.block.offset
  size := if nodeSize < fit.block.size - fit.needed then fit.needed else fit.block.size

/-- The rest of the chosen block, where it is worth keeping. -/
def rest (fit : Fit) : List FreeBlock :=
  if nodeSize < fit.block.size - fit.needed then
    [{ offset := fit.block.offset + fit.needed, size := fit.block.size - fit.needed }]
  else []

/-- The lease of a caller whose request was answered with a fit. -/
def lease (fit : Fit) (size : Nat) : Lease where
  payload := fit.block.offset + fit.adjustment
  size

/-- What makes a fit usable for a request: it knows the blocks before it, and its amounts are whole
words that leave room for a header and for the bytes asked for. -/
structure Sound (fit : Fit) (before : List FreeBlock) (size : Nat) : Prop where
  previous_eq : fit.previous = lastOffset before
  nodeSize_le : nodeSize ≤ fit.adjustment
  le_needed : fit.adjustment + size ≤ fit.needed
  needed_le : fit.needed ≤ fit.block.size
  adjustment_aligned : Word.width ∣ fit.adjustment
  needed_aligned : Word.width ∣ fit.needed

variable {fit : Fit}

theorem sum_rest (h : fit.needed ≤ fit.block.size) :
    fit.taken.size + (fit.rest.map FreeBlock.size).sum = fit.block.size := by
  rw [taken, rest]
  split
  · simp only [List.map_singleton, List.sum_singleton]
    omega
  · rfl

theorem covering_rest (h : fit.needed ≤ fit.block.size) (i : Nat) :
    (covering fit.rest i + if fit.taken.Covers i then 1 else 0) =
      if fit.block.Covers i then 1 else 0 := by
  rw [taken, rest]
  split
  · rw [covering_cons, covering_nil, Nat.zero_add]
    refine FreeBlock.covers_add_covers ?_ ?_ ?_ i
    · rfl
    · rfl
    · simp only [FreeBlock.stop]
      omega
  · rw [covering_nil, Nat.zero_add]

theorem needed_le_taken (h : fit.needed ≤ fit.block.size) : fit.needed ≤ fit.taken.size := by
  rw [taken]
  split
  · exact Nat.le_refl _
  · exact h

theorem taken_le (h : fit.needed ≤ fit.block.size) : fit.taken.size ≤ fit.block.size := by
  have := sum_rest h
  omega

theorem of_mem_rest {block : FreeBlock} (h : block ∈ fit.rest) :
    block = { offset := fit.block.offset + fit.needed, size := fit.block.size - fit.needed } ∧
      nodeSize < fit.block.size - fit.needed ∧ block.stop = fit.block.stop := by
  rw [rest] at h
  split at h
  · obtain rfl := List.mem_singleton.mp h
    refine ⟨rfl, ‹_›, ?_⟩
    simp only [FreeBlock.stop]
    omega
  · exact absurd h List.not_mem_nil

theorem mem_or_mem_rest {before after : List FreeBlock} {block : FreeBlock}
    (h : block ∈ before ++ fit.rest ++ after) :
    block ∈ before ++ fit.block :: after ∨ block ∈ fit.rest := by
  rcases List.mem_append.mp h with h | hafter
  · exact (List.mem_append.mp h).imp_left (List.mem_append_left _)
  · exact Or.inl (List.mem_append_right _ (List.mem_cons_of_mem _ hafter))

theorem apart_rest {before after : List FreeBlock}
    (hapart : (before ++ fit.block :: after).Pairwise fun a b ↦ a.stop < b.offset) :
    (before ++ fit.rest ++ after).Pairwise fun a b ↦ a.stop < b.offset := by
  obtain ⟨hbefore, htail, hcross⟩ := List.pairwise_append.mp hapart
  obtain ⟨hblock, hafter⟩ := List.pairwise_cons.mp htail
  have hrest : fit.rest.Pairwise fun a b ↦ a.stop < b.offset := by
    rw [rest]
    split
    · exact List.pairwise_singleton _ _
    · exact List.Pairwise.nil
  rw [List.append_assoc]
  refine List.pairwise_append.mpr
    ⟨hbefore, List.pairwise_append.mpr ⟨hrest, hafter, ?_⟩, ?_⟩
  · intro a ha b hb
    rw [(of_mem_rest ha).2.2]
    exact hblock b hb
  · intro a ha b hb
    rcases List.mem_append.mp hb with hb | hb
    · have hlt := hcross a ha fit.block List.mem_cons_self
      obtain ⟨rfl, -, -⟩ := of_mem_rest hb
      exact Nat.lt_of_lt_of_le hlt (Nat.le_add_right _ _)
    · exact hcross a ha b (List.mem_cons_of_mem _ hb)

end Fit

namespace FreeList

/-! ## The list after an allocation -/

/-- The list without the part of a free block that a fit takes. -/
def cutOut (list : FreeList) (fit : Fit) : FreeList :=
  let next := (list.node fit.block.offset).next
  if nodeSize < fit.block.size - fit.needed then
    list.linkIn fit.previous
      { offset := fit.block.offset + fit.needed, size := fit.block.size - fit.needed } next
  else list.setNext fit.previous next

/-- The list after an allocation that is answered with a fit. -/
def granted (list : FreeList) (fit : Fit) : FreeList :=
  let headed := (list.cutOut fit).setHeader (fit.block.offset + fit.adjustment - nodeSize)
    { size := fit.taken.size, adjustment := fit.adjustment }
  { headed with used := list.used + fit.taken.size, allocations := list.allocations + 1 }

variable {list : FreeList} {free before after : List FreeBlock} {leases : List Lease} {fit : Fit}
  {size : Nat}

@[simp] theorem base_cutOut : (list.cutOut fit).region.base = list.region.base := by
  rw [cutOut]
  split
  · exact base_linkIn _ _ _ _
  · exact base_setNext _ _ _

@[simp] theorem capacity_cutOut : (list.cutOut fit).capacity = list.capacity := by
  rw [cutOut]
  split
  · exact capacity_linkIn _ _ _ _
  · exact capacity_setNext _ _ _

@[simp] theorem used_cutOut : (list.cutOut fit).used = list.used := by
  rw [cutOut]
  split
  · exact used_linkIn _ _ _ _
  · exact used_setNext _ _ _

@[simp] theorem allocations_cutOut : (list.cutOut fit).allocations = list.allocations := by
  rw [cutOut]
  split
  · exact allocations_linkIn _ _ _ _
  · exact allocations_setNext _ _ _

theorem region_granted : (list.granted fit).region =
    ((list.cutOut fit).setHeader (fit.block.offset + fit.adjustment - nodeSize)
      { size := fit.taken.size, adjustment := fit.adjustment }).region := by
  rw [granted]

theorem head_granted : (list.granted fit).head = (list.cutOut fit).head := by
  rw [granted, head_setHeader]

theorem base_granted : (list.granted fit).region.base = list.region.base := by
  rw [region_granted, base_setHeader, base_cutOut]

theorem capacity_granted : (list.granted fit).capacity = list.capacity := by
  rw [capacity, region_granted, ← capacity, capacity_setHeader, capacity_cutOut]

/-- Cutting writes to nodes that are on the chain afterwards. -/
theorem byteAt_cutOut_of_nodes {i : Nat} (hsound : fit.Sound before size)
    (hnodes : ∀ block ∈ before ++ fit.rest, i < block.offset ∨ block.offset + nodeSize ≤ i) :
    (list.cutOut fit).region.byteAt i = list.region.byteAt i := by
  have hprevious : fit.previous ≠ chainEnd → i < fit.previous ∨ fit.previous + nodeSize ≤ i := by
    intro hends
    rw [hsound.previous_eq] at hends ⊢
    obtain ⟨last, hmem, hoffset⟩ := exists_mem_of_lastOffset_ne hends
    rw [← hoffset]
    exact hnodes last (List.mem_append_left _ hmem)
  rw [Fit.rest] at hnodes
  rw [cutOut]
  split
  · rename_i hrest
    rw [if_pos hrest] at hnodes
    exact byteAt_linkIn (hnodes _ (List.mem_append_right _ List.mem_cons_self)) hprevious
  · exact byteAt_setNext hprevious

theorem byteAt_cutOut {i : Nat} (hsound : fit.Sound before size)
    (hblock : ¬ fit.block.Covers i)
    (hbefore : ∀ block ∈ before, i < block.offset ∨ block.offset + nodeSize ≤ i) :
    (list.cutOut fit).region.byteAt i = list.region.byteAt i := by
  refine byteAt_cutOut_of_nodes hsound fun block hmem ↦ ?_
  rcases List.mem_append.mp hmem with hmem | hrest
  · exact hbefore block hmem
  · obtain ⟨rfl, hlt, -⟩ := Fit.of_mem_rest hrest
    simp only [FreeBlock.Covers, FreeBlock.stop] at hblock
    dsimp only
    omega

/-- The header of the new lease lies in the block that is taken. -/
theorem byteAt_granted_of_cutOut {i : Nat} (hsound : fit.Sound before size)
    (h : i < fit.block.offset ∨ fit.block.offset + fit.needed ≤ i) :
    (list.granted fit).region.byteAt i = (list.cutOut fit).region.byteAt i := by
  have hheader := hsound.nodeSize_le
  have hneeded := hsound.le_needed
  rw [region_granted]
  exact byteAt_setHeader (by omega)

theorem sized_rest (h : Tiled list (before ++ fit.block :: after) leases)
    (hsound : fit.Sound before size) {block : FreeBlock}
    (hblock : block ∈ before ++ fit.rest ++ after) :
    Word.width ∣ block.offset ∧ nodeSize ≤ block.size := by
  rcases Fit.mem_or_mem_rest hblock with hblock | hrest
  · exact h.sized block hblock
  · obtain ⟨rfl, hlt, -⟩ := Fit.of_mem_rest hrest
    have haligned := (h.sized fit.block (List.mem_append_right _ List.mem_cons_self)).1
    exact ⟨Nat.dvd_add haligned hsound.needed_aligned, Nat.le_of_lt hlt⟩

theorem stop_rest_le (h : Tiled list (before ++ fit.block :: after) leases) {block : FreeBlock}
    (hblock : block ∈ before ++ fit.rest ++ after) : block.stop ≤ list.capacity := by
  rcases Fit.mem_or_mem_rest hblock with hblock | hrest
  · exact h.free_stop_le hblock
  · rw [(Fit.of_mem_rest hrest).2.2]
    exact h.free_stop_le (List.mem_append_right _ List.mem_cons_self)

/-- The chain after a block was cut leads through the rest instead. -/
theorem linked_cutOut (h : Tiled list (before ++ fit.block :: after) leases)
    (hsound : fit.Sound before size) :
    Linked (list.cutOut fit).region (list.cutOut fit).head (before ++ fit.rest ++ after)
      chainEnd := by
  have hspaced : Spaced list.capacity (before ++ fit.rest ++ after) :=
    Spaced.of_ordered ((Fit.apart_rest h.apart).imp Nat.le_of_lt)
      (fun block hblock ↦ (sized_rest h hsound hblock).2) fun block hblock ↦ stop_rest_le h hblock
  have hstop := h.free_stop_le (List.mem_append_right before List.mem_cons_self)
  have hcapacity := h.capacity_lt
  rw [Fit.rest] at hspaced ⊢
  rw [cutOut, hsound.previous_eq]
  -- a rest is put in where the block was; without one the chain closes over it
  by_cases hrest : nodeSize < fit.block.size - fit.needed
  · rw [if_pos hrest, List.append_assoc, List.singleton_append] at hspaced
    rw [if_pos hrest, if_pos hrest, List.append_assoc, List.singleton_append]
    obtain ⟨hbefore, hafter⟩ := h.linked.split
    refine linked_linkIn hspaced hcapacity ?_ (Region.word_lt _ _) hbefore ?_
    · simp only [FreeBlock.stop] at hstop ⊢
      omega
    · rwa [h.linked.node_eq]
  · rw [if_neg hrest, if_neg hrest, List.append_nil]
    exact linked_unlink h.spaced hcapacity h.linked

/-- **Frame.** An allocation changes bytes of free blocks only. -/
theorem byteAt_granted (h : Tiled list (before ++ fit.block :: after) leases)
    (hsound : fit.Sound before size) {i : Nat}
    (hfree : ∀ block ∈ before ++ fit.block :: after, ¬ block.Covers i) :
    (list.granted fit).region.byteAt i = list.region.byteAt i := by
  have hblock := hfree fit.block (List.mem_append_right _ List.mem_cons_self)
  have hneeded := hsound.needed_le
  rw [byteAt_granted_of_cutOut hsound, byteAt_cutOut hsound hblock]
  · intro block hbefore
    have hout := hfree block (List.mem_append_left _ hbefore)
    have hsize := (h.sized block (List.mem_append_left _ hbefore)).2
    simp only [FreeBlock.Covers, FreeBlock.stop] at hout
    omega
  · simp only [FreeBlock.Covers, FreeBlock.stop] at hblock
    omega

theorem linked_granted (h : Tiled list (before ++ fit.block :: after) leases)
    (hsound : fit.Sound before size) :
    Linked (list.granted fit).region (list.granted fit).head (before ++ fit.rest ++ after)
      chainEnd := by
  have hneeded := hsound.needed_le
  rw [head_granted]
  refine (linked_cutOut h hsound).congr fun block hblock i hle hlt ↦
    byteAt_granted_of_cutOut hsound ?_
  -- the header lies behind the nodes before it and ends before the rest and the nodes after it
  rcases List.mem_append.mp hblock with hblock | hafter
  · rcases List.mem_append.mp hblock with hbefore | hrest
    · have := h.spaced.front_le hbefore
      omega
    · obtain ⟨rfl, -, -⟩ := Fit.of_mem_rest hrest
      exact Or.inr hle
  · have := List.rel_of_pairwise_cons (List.pairwise_append.mp h.apart).2.1 hafter
    simp only [FreeBlock.stop] at this
    omega

/-! ## The leases after an allocation -/

theorem header_granted (h : Tiled list (before ++ fit.block :: after) leases)
    (hsound : fit.Sound before size) :
    (list.granted fit).header ((fit.lease size).payload - nodeSize) =
      { size := fit.taken.size, adjustment := fit.adjustment } := by
  have hstop := h.free_stop_le (List.mem_append_right before List.mem_cons_self)
  have hcapacity := h.capacity_lt
  have htaken := Fit.taken_le hsound.needed_le
  have hadjustment := hsound.nodeSize_le
  have hneeded := hsound.le_needed
  have hfits := hsound.needed_le
  simp only [FreeBlock.stop] at hstop
  rw [header, region_granted, ← header, Fit.lease]
  refine header_setHeader ?_ ?_ ?_
  · rw [capacity_cutOut]
    omega
  · exact Nat.lt_of_le_of_lt htaken (by omega)
  · show fit.adjustment < Word.limit
    omega

theorem blockOf_granted (h : Tiled list (before ++ fit.block :: after) leases)
    (hsound : fit.Sound before size) : (list.granted fit).blockOf (fit.lease size) = fit.taken := by
  rw [blockOf, header_granted h hsound, Fit.lease, Nat.add_sub_cancel]
  rfl

theorem agreeAt_granted (h : Tiled list (before ++ fit.block :: after) leases)
    (hsound : fit.Sound before size) {lease : Lease} (hlease : lease ∈ leases) :
    list.region.AgreeAt (list.granted fit).region (lease.payload - nodeSize) :=
  h.agreeAt_of_outside hlease fun _ hcovers ↦ byteAt_granted h hsound fun _ hblock hfree ↦
    h.not_covers_of_free hblock hlease hfree hcovers

theorem blocksOf_granted (h : Tiled list (before ++ fit.block :: after) leases)
    (hsound : fit.Sound before size) :
    (list.granted fit).blocksOf (fit.lease size :: leases) = fit.taken :: list.blocksOf leases := by
  rw [blocksOf, List.map_cons, blockOf_granted h hsound, blocksOf]
  exact congrArg _ (List.map_congr_left fun lease hlease ↦
    blockOf_congr (agreeAt_granted h hsound hlease))

/-! ## The tiling after an allocation -/

/-- **Taking keeps the tiling.** The chosen block becomes a lease and a rest. -/
theorem Tiled.granted (h : Tiled list (before ++ fit.block :: after) leases)
    (hsound : fit.Sound before size) :
    Tiled (list.granted fit) (before ++ fit.rest ++ after) (fit.lease size :: leases) where
  base_aligned := by
    rw [base_granted]
    exact h.base_aligned
  stop_lt := by
    rw [base_granted, capacity_granted]
    exact h.stop_lt
  linked := linked_granted h hsound
  apart := Fit.apart_rest h.apart
  sized := fun _ hblock ↦ sized_rest h hsound hblock
  headed := by
    intro lease hlease
    rcases List.mem_cons.mp hlease with rfl | hlease
    · have hblock := blockOf_granted h hsound
      have haligned := (h.sized fit.block (List.mem_append_right _ List.mem_cons_self)).1
      have htaken := Fit.needed_le_taken hsound.needed_le
      have hneeded := hsound.le_needed
      refine ⟨?_, ?_, ?_, ?_, Nat.dvd_add haligned hsound.adjustment_aligned⟩
      · rw [header_granted h hsound]
        exact Nat.le_add_left _ _
      · rw [hblock]
        exact Nat.add_le_add_left hsound.nodeSize_le _
      · rw [hblock]
        show fit.block.offset + fit.adjustment + size ≤ fit.block.offset + fit.taken.size
        omega
      · rw [hblock]
        exact haligned
    · exact (h.headed lease hlease).congr (agreeAt_granted h hsound hlease)
  partition := by
    intro i
    have hcount := h.partition i
    have hcut := Fit.covering_rest hsound.needed_le i
    rw [covering_append, covering_cons] at hcount
    rw [blocksOf_granted h hsound, capacity_granted, covering_cons, covering_append,
      covering_append]
    omega
  used_eq := by
    rw [blocksOf_granted h hsound, List.map_cons, List.sum_cons, ← h.used_eq, Nat.add_comm]
    rw [FreeList.granted]
  allocations_eq := by
    rw [List.length_cons, ← h.allocations_eq, FreeList.granted]
  balance := by
    have hbalance := h.balance
    have hsum := Fit.sum_rest hsound.needed_le
    rw [List.map_append, List.sum_append, List.map_cons, List.sum_cons] at hbalance
    rw [capacity_granted, List.map_append, List.sum_append, List.map_append, List.sum_append,
      FreeList.granted]
    dsimp only
    omega

/-! ## The call -/

variable {alignment : Nat}

theorem cut_run (build : Build) (h : Tiled list (before ++ fit.block :: after) leases)
    (hsound : fit.Sound before size) :
    cut build fit list = .ok fit.taken.size (list.cutOut fit) := by
  have hstop := h.free_stop_le (List.mem_append_right before List.mem_cons_self)
  have hcapacity := h.capacity_lt
  have hneeded := hsound.needed_le
  simp only [FreeBlock.stop] at hstop
  have hrest : build.sub fit.block.size fit.needed = .ok (fit.block.size - fit.needed) :=
    Build.sub_of_le build hneeded
  have hsplit : build.add fit.block.offset fit.needed = .ok (fit.block.offset + fit.needed) :=
    Build.add_of_lt build (by omega)
  rw [cut, cutOut, Fit.taken]
  simp only [Call.run_bind, Call.run_get, hrest, Call.run_lift_ok]
  by_cases hlarge : nodeSize < fit.block.size - fit.needed
  · simp only [if_pos hlarge, Call.run_bind, hsplit, Call.run_lift_ok, Call.run_modify,
      Call.run_pure]
    rfl
  · simp only [if_neg hlarge, Call.run_bind, Call.run_modify, Call.run_pure]

theorem Tiled.address_lt (h : Tiled list free leases) {block : FreeBlock}
    (hblock : block ∈ list.blocks) : list.region.base + block.offset < Word.limit := by
  rw [h.blocks_eq] at hblock
  have hstop := h.free_stop_le hblock
  have hlt := h.stop_lt
  rw [FreeBlock.stop] at hstop
  omega

theorem Tiled.sound_of_find {build : Build} (h : Tiled list free leases)
    (hpow : alignment.isPowerOfTwo)
    (hfind : list.find build size (payloadAlignment alignment) = .ok (some fit)) :
    ∃ before after, free = before ++ fit.block :: after ∧ fit.Sound before size ∧
      payloadAlignment alignment ∣ list.region.base + (fit.lease size).payload := by
  obtain ⟨before, after, hblocks, hprevious, hdemand, hneeded⟩ :=
    find_eq_some (fun _ hblock ↦ h.address_lt hblock) hfind
  obtain ⟨hdemands, -, -⟩ :=
    (demand?_eq_some_iff (isPowerOfTwo_payloadAlignment hpow)).mp hdemand
  rw [h.blocks_eq] at hblocks
  obtain rfl := hblocks
  have haligned := (h.sized fit.block (List.mem_append_right _ List.mem_cons_self)).1
  refine ⟨before, after, rfl, ⟨hprevious, hdemands.nodeSize_le, hdemands.le_needed, hneeded, ?_,
    hdemands.width_dvd⟩, ?_⟩
  · exact (Nat.dvd_add_right (Nat.dvd_add h.base_aligned haligned)).mp
      (Nat.dvd_trans (width_dvd_payloadAlignment hpow) hdemands.dvd)
  · rw [Fit.lease, ← Nat.add_assoc]
    exact hdemands.dvd

theorem Tiled.used_add_taken_le (h : Tiled list (before ++ fit.block :: after) leases)
    (hsound : fit.Sound before size) : list.used + fit.taken.size ≤ list.capacity := by
  have hbalance := h.balance
  have htaken := Fit.taken_le hsound.needed_le
  rw [List.map_append, List.sum_append, List.map_cons, List.sum_cons] at hbalance
  omega

theorem Tiled.address_granted (build : Build)
    (h : Tiled list (before ++ fit.block :: after) leases) (hsound : fit.Sound before size) :
    (list.granted fit).region.address build (fit.lease size).payload =
      .ok (list.region.base + (fit.lease size).payload) := by
  have hstop := h.free_stop_le (List.mem_append_right before List.mem_cons_self)
  have hlt := h.stop_lt
  have hneeded := hsound.needed_le
  have hle := hsound.le_needed
  simp only [FreeBlock.stop] at hstop
  have hpayload : (fit.lease size).payload ≤ list.capacity := by
    show fit.block.offset + fit.adjustment ≤ list.capacity
    omega
  have hcapacity : (list.granted fit).region.size = list.capacity := capacity_granted
  rw [Region.address_of_le build, base_granted]
  · rwa [hcapacity]
  · rwa [Region.stop, base_granted, hcapacity]

theorem Tiled.allocate_of_find (build : Build)
    (h : Tiled list (before ++ fit.block :: after) leases) (hsound : fit.Sound before size)
    (hpow : alignment.isPowerOfTwo)
    (hfind : list.find build size (payloadAlignment alignment) = .ok (some fit)) :
    allocate build size alignment list =
      .ok (some (list.region.base + (fit.lease size).payload)) (list.granted fit) := by
  have hstop := h.free_stop_le (List.mem_append_right before List.mem_cons_self)
  have hlt := h.stop_lt
  have hneeded := hsound.needed_le
  have hadjustment := hsound.nodeSize_le
  have hle := hsound.le_needed
  have hroom := h.used_add_taken_le hsound
  have hcount := (h.granted hsound).length_lt
  have haddress := h.address_granted build hsound
  simp only [FreeBlock.stop] at hstop
  rw [List.length_cons, ← h.allocations_eq] at hcount
  -- no step of the arithmetic leaves the words, since all amounts lie in the region
  have hpayload : build.add fit.block.offset fit.adjustment =
      .ok (fit.block.offset + fit.adjustment) := Build.add_of_lt build (by omega)
  have hheader : build.sub (fit.block.offset + fit.adjustment) nodeSize =
      .ok (fit.block.offset + fit.adjustment - nodeSize) := Build.sub_of_le build (by omega)
  have hused : build.add list.used fit.taken.size = .ok (list.used + fit.taken.size) :=
    Build.add_of_lt build (by omega)
  have hallocations : build.add list.allocations 1 = .ok (list.allocations + 1) :=
    Build.add_of_lt build hcount
  rw [region_granted, Fit.lease] at haddress
  rw [allocate]
  simp only [Call.run_bind, hpow, decide_true, Build.require_true, Call.run_lift_ok,
    not_true_eq_false, if_false, Call.run_get, hfind, cut_run build h hsound, hpayload, hheader,
    Call.run_modify, used_setHeader, used_cutOut, hused, allocations_setHeader,
    allocations_cutOut, hallocations, haddress, Call.run_pure]
  rw [FreeList.granted, Fit.lease]

theorem Tiled.allocate_of_find_none (build : Build) (h : Tiled list free leases)
    (hpow : alignment.isPowerOfTwo)
    (hfind : list.find build size (payloadAlignment alignment) = .ok none) :
    allocate build size alignment list = .ok none list := by
  have hbalance := h.balance
  have havailable : list.available build = .ok (list.capacity - list.used) :=
    Build.sub_of_le build (by omega)
  rw [allocate]
  simp only [Call.run_bind, hpow, decide_true, Build.require_true, Call.run_lift_ok,
    not_true_eq_false, if_false, Call.run_get, hfind, havailable, Call.run_pure]

/-- **Allocating.** A call either finds nothing and changes nothing, or answers with the address of
a lease that it took from a free block. It never faults, and the build does not matter. -/
theorem Tiled.allocate_run (size : Nat) (h : Tiled list free leases)
    (hpow : alignment.isPowerOfTwo) :
    (∀ build, allocate build size alignment list = .ok none list) ∨
      ∃ before fit after, free = before ++ fit.block :: after ∧ fit.Sound before size ∧
        payloadAlignment alignment ∣ list.region.base + (fit.lease size).payload ∧
        ∀ build, allocate build size alignment list =
          .ok (some (list.region.base + (fit.lease size).payload)) (list.granted fit) := by
  obtain ⟨found, hfind⟩ :
      ∃ found, ∀ build, list.find build size (payloadAlignment alignment) = .ok found :=
    find_eq_ok fun _ hblock ↦ h.address_lt hblock
  cases found with
  | none => exact Or.inl fun build ↦ h.allocate_of_find_none build hpow (hfind build)
  | some fit =>
    right
    obtain ⟨before, after, rfl, hsound, hdvd⟩ := h.sound_of_find hpow (hfind .checked)
    exact ⟨before, fit, after, rfl, hsound, hdvd, fun build ↦
      h.allocate_of_find build hsound hpow (hfind build)⟩

end FreeList

end Suballoc
