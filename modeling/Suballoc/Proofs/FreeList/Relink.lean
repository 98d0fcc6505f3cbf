import Suballoc.FreeList.Release
import Suballoc.Proofs.Call
import Suballoc.Proofs.FreeList.Chain

/-!
# Changing the chain

A free list changes its chain in three ways: it puts a node between two others, it closes the chain
over a block that leaves, and it merges a block with the one after it. Each is one statement about
segments here; the same insertion serves a rest that stays free and a block that comes back.

Merging with the block before is no fourth way. The block before leads to the merged one, so it is
the one before that is merged with the one after it.
-/

namespace Suballoc

namespace FreeBlock

/-- A free block in front of others, merged with the first of them if they touch. -/
def mergeAfter (block : FreeBlock) : List FreeBlock → List FreeBlock
  | [] => [block]
  | next :: rest =>
    if block.stop = next.offset then
      { offset := block.offset, size := block.size + next.size } :: rest
    else block :: next :: rest

theorem sum_mergeAfter (block : FreeBlock) (after : List FreeBlock) :
    ((block.mergeAfter after).map size).sum = block.size + (after.map size).sum := by
  cases after with
  | nil => simp [mergeAfter]
  | cons next rest =>
    rw [mergeAfter]
    split <;> simp [Nat.add_assoc]

end FreeBlock

/-- A block between others, merged on both sides where they touch. -/
def mergeBetween (before : List FreeBlock) (block : FreeBlock) (after : List FreeBlock) :
    List FreeBlock :=
  match before.getLast? with
  | none => block.mergeAfter after
  | some last => before.dropLast ++ last.mergeAfter (block.mergeAfter after)

@[simp] theorem mergeBetween_nil (block : FreeBlock) (after : List FreeBlock) :
    mergeBetween [] block after = block.mergeAfter after := rfl

@[simp] theorem mergeBetween_concat (front : List FreeBlock) (last block : FreeBlock)
    (after : List FreeBlock) : mergeBetween (front ++ [last]) block after =
      front ++ last.mergeAfter (block.mergeAfter after) := by
  simp [mergeBetween]

namespace FreeList

/-! ## Where the blocks before a place end -/

theorem exists_mem_of_lastOffset_ne {blocks : List FreeBlock} (h : lastOffset blocks ≠ chainEnd) :
    ∃ last ∈ blocks, last.offset = lastOffset blocks := by
  rcases List.eq_nil_or_concat' blocks with rfl | ⟨front, last, rfl⟩
  · exact absurd rfl h
  · exact ⟨last, List.mem_append_right _ List.mem_cons_self, (lastOffset_concat front last).symm⟩

variable {list : FreeList} {before after front back : List FreeBlock} {block : FreeBlock}

/-- In a chain, a node names its block and the block after it. -/
theorem Linked.node_eq {start : Nat}
    (h : Linked list.region start (before ++ block :: after) chainEnd) :
    list.node block.offset = { size := block.size, next := firstOffset after } := by
  rw [node, h.word_eq, h.word_add_eq]

theorem agreeAt_setNode {size : Nat} (node : Node)
    (hspaced : Spaced size (before ++ block :: after)) {b : FreeBlock}
    (hb : b ∈ before ++ after) :
    list.region.AgreeAt (list.setNode block.offset node).region b.offset := by
  intro i hle hlt
  refine byteAt_setNode ?_
  rcases List.mem_append.mp hb with hb | hb
  · have hfront := hspaced.front_le hb
    omega
  · have hback := hspaced.le_back hb
    omega

/-! ## Turning a chain to another end -/

/-- **Turning.** Once the last block before a place, or the head, is given a new next offset, the
chain up to that place leads there. -/
theorem linked_setNext {middle next : Nat} (hspaced : Spaced list.capacity before)
    (hcapacity : list.capacity < Word.limit) (hnext : next < Word.limit)
    (h : Linked list.region list.head before middle) :
    Linked (list.setNext (lastOffset before) next).region
      (list.setNext (lastOffset before) next).head before next := by
  rcases List.eq_nil_or_concat' before with rfl | ⟨front, last, rfl⟩
  · rw [lastOffset_nil, setNext, if_pos rfl]
    rfl
  · obtain ⟨_, hfront, rfl, hsize, -⟩ := linked_append.mp h
    have hfits := hspaced.block_fits
    rw [capacity, nodeSize_eq] at hfits
    rw [lastOffset_concat, setNext,
      if_neg (Nat.ne_of_lt (lt_chainEnd_of_le hspaced.block_fits hcapacity))]
    refine linked_append.mpr ⟨last.offset, hfront.congr fun block hblock i hle hlt ↦ ?_, rfl, ?_,
      ?_⟩
    · have := hspaced.front_le hblock
      exact Region.byteAt_setWord_of_not_mem (by omega)
    · rw [Region.word_setWord_of_disjoint (by omega), hsize]
    · exact Region.word_setWord (by omega) hnext

/-- The node that is turned lies before a place, so the nodes from there on are unchanged. -/
theorem agreeAt_setNext (next : Nat) (hspaced : Spaced list.capacity (front ++ block :: back))
    {b : FreeBlock} (hb : b ∈ block :: back) :
    list.region.AgreeAt (list.setNext (lastOffset front) next).region b.offset := by
  intro i hle hlt
  apply byteAt_setNext
  intro hlast
  obtain ⟨last, hmem, hoffset⟩ := exists_mem_of_lastOffset_ne hlast
  have := (List.pairwise_append.mp hspaced.apart).2.2 last hmem b hb
  omega

/-- A block leaves the chain when the one before it is turned to the one after it. -/
theorem linked_unlink (hspaced : Spaced list.capacity (before ++ block :: after))
    (hcapacity : list.capacity < Word.limit)
    (h : Linked list.region list.head (before ++ block :: after) chainEnd) :
    Linked (list.setNext (lastOffset before) (list.node block.offset).next).region
      (list.setNext (lastOffset before) (list.node block.offset).next).head (before ++ after)
      chainEnd := by
  obtain ⟨hbefore, hafter⟩ := h.split
  refine linked_append.mpr ⟨(list.node block.offset).next, ?_, ?_⟩
  · exact linked_setNext hspaced.of_append_left hcapacity (Region.word_lt _ _) hbefore
  · rw [h.node_eq]
    exact hafter.congr fun b hb ↦ agreeAt_setNext _ hspaced (List.mem_cons_of_mem _ hb)

/-! ## Putting a block into the chain -/

/-- The list with a node for a block, between the blocks at two offsets. -/
def linkIn (list : FreeList) (previous : Nat) (block : FreeBlock) (next : Nat) : FreeList :=
  (list.setNode block.offset { size := block.size, next }).setNext previous block.offset

@[simp] theorem base_linkIn (list : FreeList) (previous : Nat) (block : FreeBlock) (next : Nat) :
    (list.linkIn previous block next).region.base = list.region.base := by
  rw [linkIn, base_setNext, base_setNode]

@[simp] theorem capacity_linkIn (list : FreeList) (previous : Nat) (block : FreeBlock)
    (next : Nat) : (list.linkIn previous block next).capacity = list.capacity := by
  rw [linkIn, capacity_setNext, capacity_setNode]

@[simp] theorem used_linkIn (list : FreeList) (previous : Nat) (block : FreeBlock) (next : Nat) :
    (list.linkIn previous block next).used = list.used := by
  rw [linkIn, used_setNext, used_setNode]

@[simp] theorem allocations_linkIn (list : FreeList) (previous : Nat) (block : FreeBlock)
    (next : Nat) : (list.linkIn previous block next).allocations = list.allocations := by
  rw [linkIn, allocations_setNext, allocations_setNode]

theorem byteAt_linkIn {previous next i : Nat}
    (hnode : i < block.offset ∨ block.offset + nodeSize ≤ i)
    (hprevious : previous ≠ chainEnd → i < previous ∨ previous + nodeSize ≤ i) :
    (list.linkIn previous block next).region.byteAt i = list.region.byteAt i := by
  rw [linkIn, byteAt_setNext hprevious, byteAt_setNode hnode]

/-- **Insertion.** A block whose node lies between those of two segments joins them. -/
theorem linked_linkIn {middle next : Nat}
    (hspaced : Spaced list.capacity (before ++ block :: after))
    (hcapacity : list.capacity < Word.limit) (hsize : block.size < Word.limit)
    (hnext : next < Word.limit) (hbefore : Linked list.region list.head before middle)
    (hafter : Linked list.region next after chainEnd) :
    Linked (list.linkIn (lastOffset before) block next).region
      (list.linkIn (lastOffset before) block next).head (before ++ block :: after) chainEnd := by
  have hfits := hspaced.block_fits
  have hspaced' :
      Spaced (list.setNode block.offset { size := block.size, next }).capacity
        (before ++ block :: after) := by
    rwa [capacity_setNode]
  obtain ⟨hfirst, hsecond⟩ :=
    words_setNode list block.offset { size := block.size, next } hfits hsize hnext
  have hturned := agreeAt_setNext block.offset hspaced' List.mem_cons_self
  refine linked_append.mpr ⟨block.offset, ?_, rfl, ?_, ?_⟩
  · have hfront : Linked (list.setNode block.offset { size := block.size, next }).region
        (list.setNode block.offset { size := block.size, next }).head before middle := by
      rw [head_setNode]
      exact hbefore.congr fun a ha ↦ agreeAt_setNode _ hspaced (List.mem_append_left _ ha)
    exact linked_setNext hspaced'.of_append_left (by rwa [capacity_setNode])
      (Nat.lt_trans (lt_chainEnd_of_le hfits hcapacity) (by decide)) hfront
  · rw [linkIn, hturned.word_eq, hfirst]
  · rw [linkIn, hturned.word_add_eq, hsecond]
    -- the blocks after it see two writes: the new node, and the turn of the one before
    apply hafter.congr
    intro b hb i hle hlt
    rw [agreeAt_setNext _ hspaced' (List.mem_cons_of_mem _ hb) i hle hlt]
    exact agreeAt_setNode _ hspaced (List.mem_append_right _ hb) i hle hlt

/-! ## Merging -/

/-- The list with the block at an offset merged with the one after it, if they touch. -/
def merged (list : FreeList) (offset : Nat) : FreeList :=
  let node := list.node offset
  if node.next ≠ chainEnd ∧ offset + node.size = node.next then
    let next := list.node node.next
    list.setNode offset { size := node.size + next.size, next := next.next }
  else list

@[simp] theorem base_merged (list : FreeList) (offset : Nat) :
    (list.merged offset).region.base = list.region.base := by
  rw [merged]
  split
  · exact base_setNode _ _ _
  · rfl

@[simp] theorem capacity_merged (list : FreeList) (offset : Nat) :
    (list.merged offset).capacity = list.capacity := by
  rw [merged]
  split
  · exact capacity_setNode _ _ _
  · rfl

@[simp] theorem used_merged (list : FreeList) (offset : Nat) :
    (list.merged offset).used = list.used := by
  rw [merged]
  split
  · exact used_setNode _ _ _
  · rfl

@[simp] theorem allocations_merged (list : FreeList) (offset : Nat) :
    (list.merged offset).allocations = list.allocations := by
  rw [merged]
  split
  · exact allocations_setNode _ _ _
  · rfl

theorem byteAt_merged {offset i : Nat} (h : i < offset ∨ offset + nodeSize ≤ i) :
    (list.merged offset).region.byteAt i = list.region.byteAt i := by
  rw [merged]
  split
  · exact byteAt_setNode h
  · rfl

theorem Spaced.mergeAfter {size : Nat} (h : Spaced size (before ++ block :: after)) :
    Spaced size (before ++ block.mergeAfter after) := by
  cases after with
  | nil => exact h
  | cons next rest =>
    rw [FreeBlock.mergeAfter]
    split
    · obtain ⟨hbefore, htail, hcross⟩ := List.pairwise_append.mp h.apart
      obtain ⟨hblock, hrest⟩ := List.pairwise_cons.mp htail
      constructor
      · refine List.pairwise_append.mpr
          ⟨hbefore, List.pairwise_cons.mpr ⟨?_, (List.pairwise_cons.mp hrest).2⟩, ?_⟩
        · intro b hb
          exact hblock b (List.mem_cons_of_mem _ hb)
        · intro a ha b hb
          rcases List.mem_cons.mp hb with rfl | hb
          · exact h.front_le ha
          · exact hcross a ha b (List.mem_cons_of_mem _ (List.mem_cons_of_mem _ hb))
      · intro b hb
        rcases List.mem_append.mp hb with hb | hb
        · exact h.fits b (List.mem_append_left _ hb)
        · rcases List.mem_cons.mp hb with rfl | hb
          · exact h.block_fits
          · exact h.fits b (List.mem_append_right _
              (List.mem_cons_of_mem _ (List.mem_cons_of_mem _ hb)))
    · exact h

/-- **Merging.** In the chain, a block that touches the next one takes its bytes and its place. -/
theorem linked_merged (hspaced : Spaced list.capacity (before ++ block :: after))
    (hcapacity : list.capacity < Word.limit)
    (hsum : block.size + (after.map FreeBlock.size).sum < Word.limit)
    (h : Linked list.region list.head (before ++ block :: after) chainEnd) :
    Linked (list.merged block.offset).region (list.merged block.offset).head
      (before ++ block.mergeAfter after) chainEnd := by
  cases after with
  | nil =>
    rw [merged, h.node_eq, if_neg fun hboth ↦ hboth.1 rfl]
    exact h
  | cons next rest =>
    rw [List.map_cons, List.sum_cons] at hsum
    have hnext : next.offset ≠ chainEnd :=
      Nat.ne_of_lt (lt_chainEnd_of_le (hspaced.fits next (by simp)) hcapacity)
    obtain ⟨hbefore, -⟩ := h.split
    obtain ⟨-, hrest⟩ := h.shift.split
    rw [merged, h.node_eq, firstOffset_cons, h.shift.node_eq, FreeBlock.mergeAfter]
    by_cases htouch : block.stop = next.offset
    · rw [if_pos ⟨hnext, htouch⟩, if_pos htouch]
      have hlimit : firstOffset rest < Word.limit := by
        rw [← h.shift.word_add_eq]
        exact Region.word_lt _ _
      have hsize : block.size + next.size < Word.limit := by omega
      obtain ⟨hfirst, hsecond⟩ := words_setNode list block.offset
        { size := block.size + next.size, next := firstOffset rest } hspaced.block_fits hsize hlimit
      refine linked_append.mpr ⟨block.offset, ?_, rfl, hfirst, ?_⟩
      · rw [head_setNode]
        exact hbefore.congr fun a ha ↦ agreeAt_setNode _ hspaced (List.mem_append_left _ ha)
      · rw [hsecond]
        exact hrest.congr fun b hb ↦
          agreeAt_setNode _ hspaced (List.mem_append_right _ (List.mem_cons_of_mem _ hb))
    · rw [if_neg fun hboth ↦ htouch hboth.2, if_neg htouch]
      exact h

theorem mergeNext_run (build : Build) (hstop : block.stop < Word.limit)
    (hsum : block.size + (after.map FreeBlock.size).sum < Word.limit)
    (h : Linked list.region list.head (before ++ block :: after) chainEnd) :
    mergeNext build block.offset list = .ok () (list.merged block.offset) := by
  have hnode := h.node_eq
  rw [mergeNext, merged]
  simp only [Call.run_bind, Call.run_get, hnode]
  by_cases hnext : firstOffset after = chainEnd
  · rw [if_neg (not_not_intro hnext), if_neg fun hboth ↦ hboth.1 hnext, Call.run_pure]
  · rw [if_pos hnext, Call.run_bind, Build.add_of_lt build hstop, Call.run_lift_ok]
    by_cases htouch : block.offset + block.size = firstOffset after
    · cases after with
      | nil => exact absurd firstOffset_nil hnext
      | cons next rest =>
        rw [List.map_cons, List.sum_cons] at hsum
        have hsize : build.add block.size next.size = .ok (block.size + next.size) :=
          Build.add_of_lt build (by omega)
        rw [firstOffset_cons] at hnext htouch
        rw [firstOffset_cons, if_pos ⟨hnext, htouch⟩]
        simp only [if_pos htouch, Call.run_bind, Call.run_get, h.shift.node_eq, hsize,
          Call.run_lift_ok, Call.run_modify]
    · rw [if_neg fun hboth ↦ htouch hboth.2]
      simp only [if_neg htouch, Call.run_pure]

/-- Merging a block into the one before it is merging the one before with the next. -/
theorem mergePrevious_run (build : Build) {next : FreeBlock} {rest : List FreeBlock}
    (hstop : block.stop < Word.limit) (hsum : block.size + next.size < Word.limit)
    (hblock : block.offset ≠ chainEnd) (hnext : next.offset ≠ chainEnd)
    (h : Linked list.region list.head (before ++ block :: next :: rest) chainEnd) :
    mergePrevious build block.offset next.offset list = .ok () (list.merged block.offset) := by
  have hsize : build.add block.size next.size = .ok (block.size + next.size) :=
    Build.add_of_lt build hsum
  rw [mergePrevious, merged, if_pos hblock]
  simp only [Call.run_bind, Call.run_get, h.node_eq, firstOffset_cons, h.shift.node_eq,
    Build.add_of_lt build hstop, Call.run_lift_ok]
  by_cases htouch : block.offset + block.size = next.offset
  · simp only [if_pos htouch, if_pos (And.intro hnext htouch), Call.run_bind, Call.run_get,
      h.shift.node_eq, hsize, Call.run_lift_ok, Call.run_modify]
  · rw [if_neg htouch, if_neg fun hboth ↦ htouch hboth.2, Call.run_pure]

end FreeList

end Suballoc
