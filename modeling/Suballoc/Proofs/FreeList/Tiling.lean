import Suballoc.Proofs.FreeList.Chain

/-!
# Tilings

What a free list keeps true: its free blocks and its blocks in use tile the region. Nothing in the
state lists the blocks in use. They are known only to the callers that hold them, so the invariant
is a relation between a free list, the blocks on its chain, and the leases that are out.

The tiling is stated byte by byte, as a count of the blocks that cover an offset, rather than by an
order of all blocks. Counts add up over lists, so cutting a block or merging two is one equation
between counts, and the order of the blocks in use never has to be known.
-/

namespace Suballoc

/-- An allocation that a caller holds. -/
structure Lease where
  /-- The offset of its first byte. -/
  payload : Nat
  /-- The bytes that were asked for. -/
  size : Nat
deriving DecidableEq, Repr

/-! ## Counting the blocks over a byte -/

/-- The number of blocks that the byte at an offset belongs to. -/
def covering (blocks : List FreeBlock) (i : Nat) : Nat :=
  blocks.countP fun block ↦ block.Covers i

@[simp] theorem covering_nil (i : Nat) : covering [] i = 0 := rfl

@[simp] theorem covering_cons (block : FreeBlock) (rest : List FreeBlock) (i : Nat) :
    covering (block :: rest) i = covering rest i + if block.Covers i then 1 else 0 := by
  simp [covering, List.countP_cons]

@[simp] theorem covering_append (front back : List FreeBlock) (i : Nat) :
    covering (front ++ back) i = covering front i + covering back i := List.countP_append

theorem covering_pos_iff {blocks : List FreeBlock} {i : Nat} :
    0 < covering blocks i ↔ ∃ block ∈ blocks, block.Covers i := by
  simp [covering, List.countP_pos_iff]

theorem covering_pos {blocks : List FreeBlock} {block : FreeBlock} {i : Nat}
    (hmem : block ∈ blocks) (hcovers : block.Covers i) : 0 < covering blocks i :=
  covering_pos_iff.mpr ⟨block, hmem, hcovers⟩

theorem covering_perm {a b : List FreeBlock} (h : a.Perm b) (i : Nat) :
    covering a i = covering b i := h.countP_eq _

namespace FreeBlock

theorem stop_le_or_stop_le {a b : FreeBlock} (ha : 0 < a.size) (hb : 0 < b.size)
    (h : ∀ i, a.Covers i → ¬ b.Covers i) : a.stop ≤ b.offset ∨ b.stop ≤ a.offset := by
  have hmax := h (max a.offset b.offset)
  simp only [Covers, stop] at hmax ⊢
  omega

theorem stop_le_of_covers {block : FreeBlock} {bound : Nat} (hpos : 0 < block.size)
    (h : ∀ i, block.Covers i → i < bound) : block.stop ≤ bound := by
  have hlast := h (block.stop - 1)
  simp only [Covers, stop] at hlast ⊢
  omega

/-- **Cutting.** Where one block ends and the next begins, both together cover what one block over
both covers. -/
theorem covers_add_covers {front back whole : FreeBlock} (hoffset : whole.offset = front.offset)
    (hcut : back.offset = front.stop) (hstop : whole.stop = back.stop) (i : Nat) :
    ((if back.Covers i then 1 else 0) + if front.Covers i then 1 else 0) =
      if whole.Covers i then 1 else 0 := by
  have hwhole : whole.Covers i ↔ front.Covers i ∨ back.Covers i := by
    simp only [Covers, stop] at hcut hstop ⊢
    omega
  by_cases hfront : front.Covers i
  · have hback : ¬ back.Covers i := by
      simp only [Covers, stop] at hcut hfront ⊢
      omega
    rw [if_neg hback, if_pos hfront, if_pos (hwhole.mpr (Or.inl hfront))]
  · rw [if_neg hfront, Nat.add_zero]
    exact if_congr (by rw [hwhole, or_iff_right hfront]) rfl rfl

end FreeBlock

namespace FreeList

theorem Spaced.of_ordered {size : Nat} {blocks : List FreeBlock}
    (hordered : blocks.Pairwise fun a b ↦ a.stop ≤ b.offset)
    (hsized : ∀ block ∈ blocks, nodeSize ≤ block.size)
    (hstop : ∀ block ∈ blocks, block.stop ≤ size) : Spaced size blocks where
  apart := hordered.imp_of_mem fun {a b} ha _ hab ↦ by
    have := hsized a ha
    rw [FreeBlock.stop] at hab
    omega
  fits := by
    intro a ha
    have := hsized a ha
    have hstop := hstop a ha
    rw [FreeBlock.stop] at hstop
    omega

/-! ## Leases and their blocks -/

/-- The block in use that a lease lies in, as the header before the lease tells. -/
def blockOf (list : FreeList) (lease : Lease) : FreeBlock :=
  let header := list.header (lease.payload - nodeSize)
  { offset := lease.payload - header.adjustment, size := header.size }

/-- The blocks in use. -/
def blocksOf (list : FreeList) (leases : List Lease) : List FreeBlock := leases.map list.blockOf

/-- The header before a lease describes a block that holds the header and the lease, and the block
starts where a node can lie. -/
structure Headed (list : FreeList) (lease : Lease) : Prop where
  adjustment_le : (list.header (lease.payload - nodeSize)).adjustment ≤ lease.payload
  start_add_le : (list.blockOf lease).offset + nodeSize ≤ lease.payload
  le_stop : lease.payload + lease.size ≤ (list.blockOf lease).stop
  start_aligned : Word.width ∣ (list.blockOf lease).offset
  payload_aligned : Word.width ∣ lease.payload

theorem blockOf_congr {a b : FreeList} {lease : Lease}
    (h : a.region.AgreeAt b.region (lease.payload - nodeSize)) :
    b.blockOf lease = a.blockOf lease := by
  rw [blockOf, blockOf, header_congr h]

theorem Headed.congr {a b : FreeList} {lease : Lease} (hheaded : a.Headed lease)
    (h : a.region.AgreeAt b.region (lease.payload - nodeSize)) : b.Headed lease := by
  obtain ⟨hadjustment, hstart, hstop, haligned, hpayload⟩ := hheaded
  rw [← header_congr h] at hadjustment
  rw [← blockOf_congr h] at hstart hstop haligned
  exact ⟨hadjustment, hstart, hstop, haligned, hpayload⟩

theorem Headed.nodeSize_le {list : FreeList} {lease : Lease} (h : list.Headed lease) :
    nodeSize ≤ (list.blockOf lease).size := by
  have hstart := h.start_add_le
  have hstop := h.le_stop
  unfold FreeBlock.stop at hstop
  omega

/-! ## The invariant -/

/-- The free blocks on the chain and the blocks of the leases tile the region, and the counters
agree with them. -/
structure Tiled (list : FreeList) (free : List FreeBlock) (leases : List Lease) : Prop where
  /-- The region starts at a word. -/
  base_aligned : Word.width ∣ list.region.base
  /-- Every address of the region, and its end, is a word. -/
  stop_lt : list.region.base + list.capacity < Word.limit
  /-- The chain leads from the head through the free blocks and ends. -/
  linked : Linked list.region list.head free chainEnd
  /-- The free blocks ascend, and no two of them touch. -/
  apart : free.Pairwise fun a b ↦ a.stop < b.offset
  /-- A free block starts at a word and has room for its node. -/
  sized : ∀ block ∈ free, Word.width ∣ block.offset ∧ nodeSize ≤ block.size
  /-- Every lease has its header. -/
  headed : ∀ lease ∈ leases, list.Headed lease
  /-- Each byte of the region belongs to one block, and no block has another byte. -/
  partition : ∀ i, covering free i + covering (list.blocksOf leases) i =
    if i < list.capacity then 1 else 0
  used_eq : list.used = ((list.blocksOf leases).map FreeBlock.size).sum
  allocations_eq : list.allocations = leases.length
  /-- Used bytes and free bytes add up. -/
  balance : list.used + (free.map FreeBlock.size).sum = list.capacity

namespace Tiled

variable {list : FreeList} {free : List FreeBlock} {leases : List Lease} {block : FreeBlock}
  {lease : Lease}

theorem perm {others : List Lease} (h : Tiled list free leases) (hperm : leases.Perm others) :
    Tiled list free others where
  base_aligned := h.base_aligned
  stop_lt := h.stop_lt
  linked := h.linked
  apart := h.apart
  sized := h.sized
  headed := fun lease hlease ↦ h.headed lease (hperm.mem_iff.mpr hlease)
  partition := by
    intro i
    have hmap : (list.blocksOf leases).Perm (list.blocksOf others) := hperm.map _
    rw [← covering_perm hmap]
    exact h.partition i
  used_eq := by
    have hmap : (list.blocksOf leases).Perm (list.blocksOf others) := hperm.map _
    rw [h.used_eq, (hmap.map FreeBlock.size).sum_nat]
  allocations_eq := by rw [h.allocations_eq, hperm.length_eq]
  balance := h.balance

theorem used_eq_add (h : Tiled list free (lease :: leases)) :
    list.used =
      (list.blockOf lease).size + ((list.blocksOf leases).map FreeBlock.size).sum := by
  rw [h.used_eq, blocksOf, List.map_cons, List.map_cons, List.sum_cons, blocksOf]

/-! ### Bounds -/

theorem length_le_sum {blocks : List FreeBlock} (hsized : ∀ block ∈ blocks, 0 < block.size) :
    blocks.length ≤ (blocks.map FreeBlock.size).sum := by
  induction blocks with
  | nil => exact Nat.le_refl _
  | cons block rest ih =>
    have hhead := hsized block List.mem_cons_self
    have htail := ih fun b hb ↦ hsized b (List.mem_cons_of_mem _ hb)
    rw [List.length_cons, List.map_cons, List.sum_cons]
    omega

theorem lt_capacity (h : Tiled list free leases) {i : Nat}
    (hpos : 0 < covering free i + covering (list.blocksOf leases) i) : i < list.capacity := by
  have hcount := h.partition i
  by_contra hout
  rw [if_neg hout] at hcount
  omega

theorem lt_capacity_of_free (h : Tiled list free leases) (hblock : block ∈ free) {i : Nat}
    (hcovers : block.Covers i) : i < list.capacity :=
  h.lt_capacity (Nat.add_pos_left (covering_pos hblock hcovers) _)

theorem lt_capacity_of_lease (h : Tiled list free leases) (hlease : lease ∈ leases) {i : Nat}
    (hcovers : (list.blockOf lease).Covers i) : i < list.capacity :=
  h.lt_capacity (Nat.add_pos_right _ (covering_pos (List.mem_map_of_mem hlease) hcovers))

theorem free_stop_le (h : Tiled list free leases) (hblock : block ∈ free) :
    block.stop ≤ list.capacity := by
  have hpos := Nat.lt_of_lt_of_le nodeSize_pos (h.sized block hblock).2
  exact FreeBlock.stop_le_of_covers hpos fun _ hcovers ↦ h.lt_capacity_of_free hblock hcovers

theorem lease_stop_le (h : Tiled list free leases) (hlease : lease ∈ leases) :
    (list.blockOf lease).stop ≤ list.capacity := by
  have hpos := Nat.lt_of_lt_of_le nodeSize_pos (h.headed lease hlease).nodeSize_le
  exact FreeBlock.stop_le_of_covers hpos fun _ hcovers ↦ h.lt_capacity_of_lease hlease hcovers

/-- The payload of a lease lies behind its header, so its address is not the null address. -/
theorem lease_address_ne_zero (h : Tiled list free leases) (hlease : lease ∈ leases) :
    list.region.base + lease.payload ≠ 0 := by
  have hstart := (h.headed lease hlease).start_add_le
  have hnode := nodeSize_pos
  omega

theorem capacity_lt (h : Tiled list free leases) : list.capacity < Word.limit := by
  have := h.stop_lt
  omega

theorem spaced (h : Tiled list free leases) : Spaced list.capacity free :=
  Spaced.of_ordered (h.apart.imp Nat.le_of_lt) (fun block hblock ↦ (h.sized block hblock).2)
    fun _ hblock ↦ h.free_stop_le hblock

/-- The view of the chain shows the free blocks. -/
theorem blocks_eq (h : Tiled list free leases) : list.blocks = free := by
  have hlength := length_le_sum fun block hblock ↦
    Nat.lt_of_lt_of_le nodeSize_pos (h.sized block hblock).2
  have hbalance := h.balance
  -- there are no more blocks than bytes, so the view reads far enough
  refine h.linked.blocksFrom_eq (fun block hblock ↦ ?_) (by omega)
  exact Nat.ne_of_lt (lt_chainEnd_of_le (h.spaced.fits block hblock) h.capacity_lt)

theorem length_lt (h : Tiled list free leases) : leases.length < Word.limit := by
  have hsized : ∀ block ∈ list.blocksOf leases, 0 < block.size := by
    intro block hblock
    obtain ⟨lease, hlease, rfl⟩ := List.mem_map.mp hblock
    exact Nat.lt_of_lt_of_le nodeSize_pos (h.headed lease hlease).nodeSize_le
  have hlength := length_le_sum hsized
  have hbalance := h.balance
  have hcapacity := h.capacity_lt
  rw [← h.used_eq, blocksOf, List.length_map] at hlength
  omega

/-! ### Separation -/

theorem not_covers_of_free (h : Tiled list free leases) (hblock : block ∈ free)
    (hlease : lease ∈ leases) {i : Nat} (hcovers : block.Covers i) :
    ¬ (list.blockOf lease).Covers i := by
  intro hleased
  have hfree := covering_pos hblock hcovers
  have hused := covering_pos (List.mem_map_of_mem hlease) hleased
  have hcount := h.partition i
  rw [blocksOf] at hcount
  -- the byte would be counted twice
  split at hcount <;> omega

theorem exists_free_covers (h : Tiled list free leases) {i : Nat} (hlt : i < list.capacity)
    (hunused : ∀ lease ∈ leases, ¬ (list.blockOf lease).Covers i) :
    ∃ block ∈ free, block.Covers i := by
  have hcount := h.partition i
  rw [if_pos hlt] at hcount
  have hnone : ¬ 0 < covering (list.blocksOf leases) i := by
    intro hpos
    obtain ⟨block, hblock, hcovers⟩ := covering_pos_iff.mp hpos
    obtain ⟨lease, hlease, rfl⟩ := List.mem_map.mp hblock
    exact hunused lease hlease hcovers
  exact covering_pos_iff.mp (by omega)

theorem free_or_lease (h : Tiled list free leases) (hblock : block ∈ free)
    (hlease : lease ∈ leases) :
    block.stop ≤ (list.blockOf lease).offset ∨ (list.blockOf lease).stop ≤ block.offset := by
  have hfree := (h.sized block hblock).2
  have hused := (h.headed lease hlease).nodeSize_le
  have hpos := nodeSize_pos
  exact FreeBlock.stop_le_or_stop_le (by omega) (by omega) fun i hcovers ↦
    h.not_covers_of_free hblock hlease hcovers

theorem lease_or_lease {other : Lease} (h : Tiled list free (lease :: leases))
    (hother : other ∈ leases) :
    (list.blockOf lease).stop ≤ (list.blockOf other).offset ∨
      (list.blockOf other).stop ≤ (list.blockOf lease).offset := by
  have hlease := (h.headed lease List.mem_cons_self).nodeSize_le
  have hsize := (h.headed other (List.mem_cons_of_mem _ hother)).nodeSize_le
  have hpos := nodeSize_pos
  refine FreeBlock.stop_le_or_stop_le (by omega) (by omega) fun i hcovers hothers ↦ ?_
  have hothers := covering_pos (List.mem_map_of_mem hother) hothers
  have hcount := h.partition i
  rw [blocksOf, List.map_cons, covering_cons, if_pos hcovers] at hcount
  split at hcount <;> omega

/-- The header of a lease lies in its block. -/
theorem agreeAt_of_outside {region : Region} (h : Tiled list free leases) (hlease : lease ∈ leases)
    (hsame : ∀ i, (list.blockOf lease).Covers i → region.byteAt i = list.region.byteAt i) :
    list.region.AgreeAt region (lease.payload - nodeSize) := by
  intro i hle hlt
  refine hsame i ?_
  have hstart := (h.headed lease hlease).start_add_le
  have hstop := (h.headed lease hlease).le_stop
  simp only [FreeBlock.Covers]
  omega

end Tiled

end FreeList

end Suballoc
