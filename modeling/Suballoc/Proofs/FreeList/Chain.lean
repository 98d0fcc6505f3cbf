import Mathlib.Algebra.GroupWithZero.Nat
import Mathlib.Data.List.Basic
import Suballoc.FreeList

/-!
# The chain of free blocks in memory

A free list keeps no record of its free blocks but the nodes they begin with. `Linked` says that the
nodes of a region lead from one offset through given blocks to another, and it is the only link
between memory and lists of blocks: a segment of a chain, in the sense that two segments that meet
are one.

The lemmas come in pairs. A write elsewhere leaves a segment alone; a write of the next pointer of
the last block, or of the head when there is none, turns the segment to another end.
-/

namespace Suballoc

namespace FreeBlock

/-- The offset after the last byte of a block. -/
def stop (block : FreeBlock) : Nat := block.offset + block.size

/-- Whether the byte at an offset belongs to a block. -/
def Covers (block : FreeBlock) (i : Nat) : Prop := block.offset ≤ i ∧ i < block.stop

instance (block : FreeBlock) (i : Nat) : Decidable (block.Covers i) :=
  inferInstanceAs (Decidable (_ ∧ _))

end FreeBlock

/-- The offset of the first of some blocks, or `chainEnd`. -/
def firstOffset (blocks : List FreeBlock) : Nat :=
  (blocks.head?.map FreeBlock.offset).getD chainEnd

/-- The offset of the last of some blocks, or `chainEnd`. -/
def lastOffset (blocks : List FreeBlock) : Nat :=
  (blocks.getLast?.map FreeBlock.offset).getD chainEnd

@[simp] theorem firstOffset_nil : firstOffset [] = chainEnd := rfl

@[simp] theorem firstOffset_cons (block : FreeBlock) (rest : List FreeBlock) :
    firstOffset (block :: rest) = block.offset := rfl

@[simp] theorem lastOffset_nil : lastOffset [] = chainEnd := rfl

@[simp] theorem lastOffset_concat (blocks : List FreeBlock) (block : FreeBlock) :
    lastOffset (blocks ++ [block]) = block.offset := by
  rw [lastOffset, List.getLast?_append, List.getLast?_singleton]
  rfl

/-! ## Bytes at a node

Nodes and headers have the same size, so one notion of agreement serves both. -/

/-- Two regions hold the same bytes where a node, or a header, lies. -/
def Region.AgreeAt (a b : Region) (offset : Nat) : Prop :=
  ∀ i, offset ≤ i → i < offset + nodeSize → b.byteAt i = a.byteAt i

theorem nodeSize_eq : nodeSize = Word.width + Word.width := rfl

theorem nodeSize_pos : 0 < nodeSize := by decide

theorem Region.AgreeAt.word_eq {a b : Region} {offset : Nat} (h : a.AgreeAt b offset) :
    b.word offset = a.word offset :=
  Region.word_congr fun i hle hlt ↦ h i hle (by rw [nodeSize_eq]; omega)

theorem Region.AgreeAt.word_add_eq {a b : Region} {offset : Nat} (h : a.AgreeAt b offset) :
    b.word (offset + Word.width) = a.word (offset + Word.width) :=
  Region.word_congr fun i hle hlt ↦ h i (by omega) (by rw [nodeSize_eq]; omega)

namespace FreeList

theorem header_congr {a b : FreeList} {offset : Nat} (h : a.region.AgreeAt b.region offset) :
    b.header offset = a.header offset := by
  rw [header, header, h.word_eq, h.word_add_eq]

section Writes

variable (list : FreeList) (offset previous next : Nat) (node : Node) (header : Header)

@[simp] theorem base_setNode : (list.setNode offset node).region.base = list.region.base := by
  simp [setNode]

@[simp] theorem capacity_setNode : (list.setNode offset node).capacity = list.capacity := by
  simp [setNode, capacity]

@[simp] theorem head_setNode : (list.setNode offset node).head = list.head := by
  rw [setNode]

@[simp] theorem used_setNode : (list.setNode offset node).used = list.used := by
  rw [setNode]

@[simp] theorem allocations_setNode :
    (list.setNode offset node).allocations = list.allocations := by
  rw [setNode]

@[simp] theorem base_setHeader : (list.setHeader offset header).region.base = list.region.base := by
  simp [setHeader]

@[simp] theorem capacity_setHeader : (list.setHeader offset header).capacity = list.capacity := by
  simp [setHeader, capacity]

@[simp] theorem head_setHeader : (list.setHeader offset header).head = list.head := by
  rw [setHeader]

@[simp] theorem used_setHeader : (list.setHeader offset header).used = list.used := by
  rw [setHeader]

@[simp] theorem allocations_setHeader :
    (list.setHeader offset header).allocations = list.allocations := by
  rw [setHeader]

@[simp] theorem base_setNext : (list.setNext previous next).region.base = list.region.base := by
  rw [setNext]
  split
  · rfl
  · exact Region.base_setWord _ _ _

@[simp] theorem capacity_setNext : (list.setNext previous next).capacity = list.capacity := by
  rw [setNext]
  split
  · rfl
  · exact Region.size_setWord _ _ _

@[simp] theorem used_setNext : (list.setNext previous next).used = list.used := by
  rw [setNext]
  split <;> rfl

@[simp] theorem allocations_setNext :
    (list.setNext previous next).allocations = list.allocations := by
  rw [setNext]
  split <;> rfl

theorem words_setNode (hfits : offset + nodeSize ≤ list.capacity) (hsize : node.size < Word.limit)
    (hnext : node.next < Word.limit) :
    (list.setNode offset node).region.word offset = node.size ∧
      (list.setNode offset node).region.word (offset + Word.width) = node.next := by
  rw [capacity, nodeSize_eq] at hfits
  constructor
  · rw [setNode, Region.word_setWord_of_disjoint (by omega), Region.word_setWord (by omega) hsize]
  · rw [setNode, Region.word_setWord (by rw [Region.size_setWord]; omega) hnext]

variable {list offset previous next node header} {i : Nat}

theorem byteAt_setNode (h : i < offset ∨ offset + nodeSize ≤ i) :
    (list.setNode offset node).region.byteAt i = list.region.byteAt i := by
  rw [nodeSize_eq] at h
  rw [setNode, Region.byteAt_setWord_of_not_mem (by omega),
    Region.byteAt_setWord_of_not_mem (by omega)]

theorem byteAt_setHeader (h : i < offset ∨ offset + nodeSize ≤ i) :
    (list.setHeader offset header).region.byteAt i = list.region.byteAt i := by
  rw [nodeSize_eq] at h
  rw [setHeader, Region.byteAt_setWord_of_not_mem (by omega),
    Region.byteAt_setWord_of_not_mem (by omega)]

/-- Turning a next pointer changes at most the node it belongs to. -/
theorem byteAt_setNext (h : previous ≠ chainEnd → i < previous ∨ previous + nodeSize ≤ i) :
    (list.setNext previous next).region.byteAt i = list.region.byteAt i := by
  rw [nodeSize_eq] at h
  rw [setNext]
  split
  · rfl
  · rename_i hprevious
    have := h hprevious
    exact Region.byteAt_setWord_of_not_mem (by omega)

theorem header_setHeader (hfits : offset + nodeSize ≤ list.capacity)
    (hsize : header.size < Word.limit) (hadjustment : header.adjustment < Word.limit) :
    (list.setHeader offset header).header offset = header := by
  rw [capacity, nodeSize_eq] at hfits
  have hfirst : (list.setHeader offset header).region.word offset = header.size := by
    rw [setHeader, Region.word_setWord_of_disjoint (by omega),
      Region.word_setWord (by omega) hsize]
  have hsecond :
      (list.setHeader offset header).region.word (offset + Word.width) = header.adjustment := by
    rw [setHeader, Region.word_setWord (by rw [Region.size_setWord]; omega) hadjustment]
  rw [FreeList.header, hfirst, hsecond]

end Writes

/-! ## Segments of a chain -/

/-- The offset of a node in a region is none that ends a chain. -/
theorem lt_chainEnd_of_le {offset size : Nat} (hfits : offset + nodeSize ≤ size)
    (hsize : size < Word.limit) : offset < chainEnd := by
  have := nodeSize_pos
  unfold chainEnd
  omega

/-- The nodes of a region lead from an offset through some blocks to another offset. -/
def Linked (region : Region) : (start : Nat) → List FreeBlock → (stop : Nat) → Prop
  | start, [], stop => start = stop
  | start, block :: rest, stop =>
    block.offset = start ∧ region.word start = block.size ∧
      Linked region (region.word (start + Word.width)) rest stop

/-- Two segments that meet are one. -/
theorem linked_append {region : Region} {start stop : Nat} {front back : List FreeBlock} :
    Linked region start (front ++ back) stop ↔
      ∃ middle, Linked region start front middle ∧ Linked region middle back stop := by
  induction front generalizing start with
  | nil => simp [Linked]
  | cons block front ih =>
    rw [List.cons_append, Linked, ih]
    constructor
    · rintro ⟨hoffset, hsize, middle, hfront, hback⟩
      exact ⟨middle, ⟨hoffset, hsize, hfront⟩, hback⟩
    · rintro ⟨middle, ⟨hoffset, hsize, hfront⟩, hback⟩
      exact ⟨hoffset, hsize, middle, hfront, hback⟩

theorem Linked.shift {region : Region} {start stop : Nat} {before after : List FreeBlock}
    {block : FreeBlock} (h : Linked region start (before ++ block :: after) stop) :
    Linked region start ((before ++ [block]) ++ after) stop := by
  rwa [List.append_assoc]

theorem Linked.start_eq {region : Region} {start : Nat} {blocks : List FreeBlock}
    (h : Linked region start blocks chainEnd) : start = firstOffset blocks := by
  cases blocks with
  | nil => exact h
  | cons block rest => exact h.1.symm

theorem Linked.word_eq {region : Region} {start stop : Nat} {before after : List FreeBlock}
    {block : FreeBlock} (h : Linked region start (before ++ block :: after) stop) :
    region.word block.offset = block.size := by
  obtain ⟨_, -, rfl, hsize, -⟩ := linked_append.mp h
  exact hsize

theorem Linked.word_add_eq {region : Region} {start : Nat} {before after : List FreeBlock}
    {block : FreeBlock} (h : Linked region start (before ++ block :: after) chainEnd) :
    region.word (block.offset + Word.width) = firstOffset after := by
  obtain ⟨_, -, rfl, -, hafter⟩ := linked_append.mp h
  exact hafter.start_eq

theorem Linked.split {region : Region} {start : Nat} {before after : List FreeBlock}
    {block : FreeBlock} (h : Linked region start (before ++ block :: after) chainEnd) :
    Linked region start before block.offset ∧
      Linked region (firstOffset after) after chainEnd := by
  obtain ⟨_, hbefore, rfl, -, hafter⟩ := linked_append.mp h
  exact ⟨hbefore, hafter.start_eq ▸ hafter⟩

/-- A segment depends only on its own nodes. -/
theorem Linked.congr {a b : Region} {start stop : Nat} {blocks : List FreeBlock}
    (h : Linked a start blocks stop) (hagree : ∀ block ∈ blocks, a.AgreeAt b block.offset) :
    Linked b start blocks stop := by
  induction blocks generalizing start with
  | nil => exact h
  | cons block rest ih =>
    obtain ⟨rfl, hsize, hrest⟩ := h
    have hhere := hagree block List.mem_cons_self
    refine ⟨rfl, hhere.word_eq.trans hsize, ?_⟩
    rw [hhere.word_add_eq]
    exact ih hrest fun other hother ↦ hagree other (List.mem_cons_of_mem _ hother)

/-- The view of a chain that ends is the blocks it leads through, when it may read enough of
them. -/
theorem Linked.blocksFrom_eq {region : Region} {start most : Nat} {blocks : List FreeBlock}
    (h : Linked region start blocks chainEnd) (hends : ∀ block ∈ blocks, block.offset ≠ chainEnd)
    (hmost : blocks.length < most) : blocksFrom region most start = blocks := by
  induction blocks generalizing start most with
  | nil =>
    obtain ⟨most, rfl⟩ := Nat.exists_eq_add_of_lt hmost
    have hend : start = chainEnd := h
    rw [blocksFrom, if_pos hend]
  | cons block rest ih =>
    obtain ⟨rfl, hsize, hrest⟩ := h
    rw [List.length_cons] at hmost
    obtain ⟨most, rfl⟩ : ∃ k, most = k + 1 := ⟨most - 1, by omega⟩
    rw [blocksFrom, if_neg (hends block List.mem_cons_self), hsize,
      ih hrest (fun b hb ↦ hends b (List.mem_cons_of_mem _ hb)) (by omega)]

/-- Blocks whose nodes fit into so many bytes and do not overlap, in ascending order. -/
structure Spaced (size : Nat) (blocks : List FreeBlock) : Prop where
  apart : blocks.Pairwise fun a b ↦ a.offset + nodeSize ≤ b.offset
  fits : ∀ block ∈ blocks, block.offset + nodeSize ≤ size

theorem Spaced.of_append_left {size : Nat} {front back : List FreeBlock}
    (h : Spaced size (front ++ back)) : Spaced size front :=
  ⟨(List.pairwise_append.mp h.apart).1,
    fun block hblock ↦ h.fits block (List.mem_append_left _ hblock)⟩

theorem Spaced.front_le {size : Nat} {front back : List FreeBlock} {block a : FreeBlock}
    (h : Spaced size (front ++ block :: back)) (ha : a ∈ front) :
    a.offset + nodeSize ≤ block.offset :=
  (List.pairwise_append.mp h.apart).2.2 a ha block List.mem_cons_self

theorem Spaced.le_back {size : Nat} {front back : List FreeBlock} {block b : FreeBlock}
    (h : Spaced size (front ++ block :: back)) (hb : b ∈ back) :
    block.offset + nodeSize ≤ b.offset :=
  List.rel_of_pairwise_cons (List.pairwise_append.mp h.apart).2.1 hb

theorem Spaced.block_fits {size : Nat} {front back : List FreeBlock} {block : FreeBlock}
    (h : Spaced size (front ++ block :: back)) : block.offset + nodeSize ≤ size :=
  h.fits block (List.mem_append_right _ List.mem_cons_self)

end FreeList

end Suballoc
