import Suballoc.Proofs.FreeList.Return
import Suballoc.Proofs.FreeList.Take
import Suballoc.Proofs.Guarded

/-!
# Guarded free lists

A free list follows offsets that it finds in its own memory: from the head along the chain, and from
an address back to a header. Here each of these steps is an access that faults outside the region.

As long as the blocks tile the region none of them does. The nodes of the chain lie in it, so do
those that a call writes, and the header of a lease ends where the lease begins.
-/

namespace Suballoc.FreeList

/-! ## Guarded calls -/

namespace Guarded

/-- Read a node. -/
def node (list : FreeList) (offset : Nat) : Except Fault Node := do
  list.region.inside offset nodeSize
  return list.node offset

/-- Read a header. -/
def header (list : FreeList) (offset : Nat) : Except Fault Header := do
  list.region.inside offset nodeSize
  return list.header offset

/-- Write a node. -/
def setNode (offset : Nat) (node : Node) : Call FreeList Unit := do
  (← get).region.inside offset nodeSize
  modify fun list ↦ list.setNode offset node

/-- Write a header. -/
def setHeader (offset : Nat) (header : Header) : Call FreeList Unit := do
  (← get).region.inside offset nodeSize
  modify fun list ↦ list.setHeader offset header

/-- Let a free block, or the head when there is none before, lead to another one. -/
def setNext (previous next : Nat) : Call FreeList Unit := do
  if previous ≠ chainEnd then (← get).region.inside previous nodeSize
  modify fun list ↦ list.setNext previous next

/-- The free blocks from an offset on, so many at most. -/
def blocksFrom (list : FreeList) : (most offset : Nat) → Except Fault (List FreeBlock)
  | 0, _ => return []
  | most + 1, offset =>
    if offset = chainEnd then return []
    else do
      let first ← node list offset
      return { offset, size := first.size } :: (← blocksFrom list most first.next)

/-- The free blocks, in the order of the chain. -/
def blocks (list : FreeList) : Except Fault (List FreeBlock) :=
  blocksFrom list (list.capacity + 1) list.head

/-- The demand of a request on a free block, if it fits. -/
def fitIn (build : Build) (base : Nat) (block : FreeBlock) (size alignment : Nat) :
    Except Fault (Option (Nat × Nat)) := do
  let address ← build.add base block.offset
  return (← demandInWords build address size alignment).filter fun demand ↦ demand.2 ≤ block.size

/-- The free block for a request. -/
def find (build : Build) (list : FreeList) (size alignment : Nat) : Except Fault (Option Fit) := do
  search (fun block ↦ fitIn build list.region.base block size alignment) list.strategy none chainEnd
    (← blocks list)

/-- Cut a chosen block. -/
def cut (build : Build) (fit : Fit) : Call FreeList Nat := do
  let next := (← node (← get) fit.block.offset).next
  let rest ← build.sub fit.block.size fit.needed
  if nodeSize < rest then
    let split ← build.add fit.block.offset fit.needed
    setNode split { size := rest, next }
    setNext fit.previous split
    return fit.needed
  else
    setNext fit.previous next
    return fit.block.size

/-- Take a block for so many bytes. -/
def allocate (build : Build) (size alignment : Nat) : Call FreeList (Option Nat) := do
  build.require (.alignmentNotPowerOfTwo alignment) alignment.isPowerOfTwo
  if ¬ alignment.isPowerOfTwo then return none
  match ← find build (← get) size (payloadAlignment alignment) with
  | none =>
    let _free ← (← get).available build
    return none
  | some fit =>
    let taken ← cut build fit
    let payload ← build.add fit.block.offset fit.adjustment
    setHeader (← build.sub payload nodeSize) { size := taken, adjustment := fit.adjustment }
    let used ← build.add (← get).used taken
    modify fun list ↦ { list with used }
    let allocations ← build.add (← get).allocations 1
    modify fun list ↦ { list with allocations }
    return some (← (← get).region.address build payload)

/-- The last free block before an offset and the offset of the first one from there on, found on the
chain. -/
def neighbours (list : FreeList) (start : Nat) : Except Fault (Option FreeBlock × Nat) := do
  let _chain ← blocks list
  return list.neighbours start

/-- The block that an address gives back. -/
def returned (build : Build) (list : FreeList) (address : Nat) : Except Fault Returned := do
  build.require .noLiveAllocations (0 < list.allocations)
  let payload := Word.sub address list.region.base
  build.require (.foreignToFreeList address) (nodeSize ≤ payload ∧ payload ≤ list.capacity)
  let header ← header list (← build.sub payload nodeSize)
  build.requireM (.corruptedHeader address) (header.describes build payload list.capacity)
  let start ← build.sub payload header.adjustment
  let (before, next) ← neighbours list start
  build.requireM (.overlapsFreeSpace start) (endsBefore build start before)
  build.requireM (.overlapsFreeSpace start) (endsBeforeNext build start header.size next)
  return { start, size := header.size, previous := (before.map FreeBlock.offset).getD chainEnd,
           next }

/-- Merge a free block with the next one, if they touch. -/
def mergeNext (build : Build) (offset : Nat) : Call FreeList Unit := do
  let block ← node (← get) offset
  if block.next ≠ chainEnd then
    if (← build.add offset block.size) = block.next then
      let next ← node (← get) block.next
      let size ← build.add block.size next.size
      setNode offset { size, next := next.next }

/-- Merge a free block into the one before it, if they touch. -/
def mergePrevious (build : Build) (previous offset : Nat) : Call FreeList Unit := do
  if previous ≠ chainEnd then
    let before ← node (← get) previous
    if (← build.add previous before.size) = offset then
      let block ← node (← get) offset
      let size ← build.add before.size block.size
      setNode previous { size, next := block.next }

/-- Give a block back; the null address is ignored. -/
def release (build : Build) (address : Nat) : Call FreeList Unit := do
  if address = 0 then return
  let block ← returned build (← get) address
  setNode block.start { size := block.size, next := block.next }
  setNext block.previous block.start
  mergeNext build block.start
  mergePrevious build block.previous block.start
  let used ← build.sub (← get).used block.size
  modify fun list ↦ { list with used }
  let allocations ← build.sub (← get).allocations 1
  modify fun list ↦ { list with allocations }

end Guarded

/-! ## Accesses in the region -/

/-- An offset ends a chain or is that of a node in the region. -/
def Sited (list : FreeList) (offset : Nat) : Prop :=
  offset = chainEnd ∨ offset + nodeSize ≤ list.capacity

section Accesses

variable {list : FreeList} {offset previous : Nat}

theorem sited_lastOffset {blocks : List FreeBlock}
    (h : ∀ block ∈ blocks, block.offset + nodeSize ≤ list.capacity) :
    list.Sited (lastOffset blocks) := by
  by_cases hends : lastOffset blocks = chainEnd
  · exact Or.inl hends
  · obtain ⟨last, hmem, hoffset⟩ := exists_mem_of_lastOffset_ne hends
    rw [← hoffset]
    exact Or.inr (h last hmem)

theorem sited_firstOffset {blocks : List FreeBlock}
    (h : ∀ block ∈ blocks, block.offset + nodeSize ≤ list.capacity) :
    list.Sited (firstOffset blocks) := by
  cases blocks with
  | nil => exact Or.inl rfl
  | cons block rest => exact Or.inr (h block List.mem_cons_self)

theorem guarded_node (h : offset + nodeSize ≤ list.capacity) :
    Guarded.node list offset = .ok (list.node offset) := by
  rw [Guarded.node, Region.inside_eq h, Call.ok_bind]
  rfl

theorem guarded_header (h : offset + nodeSize ≤ list.capacity) :
    Guarded.header list offset = .ok (list.header offset) := by
  rw [Guarded.header, Region.inside_eq h, Call.ok_bind]
  rfl

theorem guarded_setNode (node : Node) (h : offset + nodeSize ≤ list.capacity) :
    Guarded.setNode offset node list = .ok () (list.setNode offset node) := by
  rw [Guarded.setNode]
  simp only [Call.run_bind, Call.run_get, Region.inside_eq h, Call.run_lift_ok, Call.run_modify]

theorem guarded_setHeader (header : Header) (h : offset + nodeSize ≤ list.capacity) :
    Guarded.setHeader offset header list = .ok () (list.setHeader offset header) := by
  rw [Guarded.setHeader]
  simp only [Call.run_bind, Call.run_get, Region.inside_eq h, Call.run_lift_ok, Call.run_modify]

theorem guarded_setNext (next : Nat) (h : list.Sited previous) :
    Guarded.setNext previous next list = .ok () (list.setNext previous next) := by
  rw [Guarded.setNext]
  by_cases hends : previous = chainEnd
  · rw [if_neg (not_not_intro hends)]
    rfl
  · have hinside := Region.inside_eq (h.resolve_left hends)
    rw [if_pos hends]
    simp only [Call.run_bind, Call.run_get, hinside, Call.run_lift_ok, Call.run_modify]

theorem guarded_blocksFrom (most : Nat)
    (h : ∀ block ∈ blocksFrom list.region most offset, block.offset + nodeSize ≤ list.capacity) :
    Guarded.blocksFrom list most offset = .ok (blocksFrom list.region most offset) := by
  induction most generalizing offset with
  | zero => rfl
  | succ most ih =>
    rw [blocksFrom] at h ⊢
    rw [Guarded.blocksFrom]
    by_cases hends : offset = chainEnd
    · rw [if_pos hends, if_pos hends]
      rfl
    · rw [if_neg hends, List.forall_mem_cons] at h
      rw [if_neg hends, if_neg hends, guarded_node h.1, Call.ok_bind, node, ih h.2, Call.ok_bind]
      rfl

theorem guarded_fitIn (build : Build) (base : Nat) (block : FreeBlock) (size : Nat)
    {alignment : Nat} (hpow : alignment.isPowerOfTwo) :
    Guarded.fitIn build base block size alignment = fitIn build base block size alignment := by
  rw [Guarded.fitIn, fitIn]
  cases build.add base block.offset with
  | error fault => rfl
  | ok address =>
    rw [Call.ok_bind, Call.ok_bind, demandInWords_eq build address size hpow, Call.ok_bind]

theorem guarded_mergeNext (build : Build) (h : offset + nodeSize ≤ list.capacity)
    (hnext : list.Sited (list.node offset).next) :
    Guarded.mergeNext build offset list = mergeNext build offset list := by
  rw [Guarded.mergeNext, mergeNext]
  simp only [Call.run_bind, Call.run_get, guarded_node h, Call.run_lift_ok]
  by_cases hends : (list.node offset).next = chainEnd
  · rw [if_neg (not_not_intro hends), if_neg (not_not_intro hends)]
  · have hread := guarded_node (hnext.resolve_left hends)
    simp only [if_pos hends, Call.run_bind]
    cases build.add offset (list.node offset).size with
    | error fault => rfl
    | ok stop =>
      simp only [Call.run_lift_ok]
      split
      · simp only [Call.run_bind, Call.run_get, hread, Call.run_lift_ok]
        cases build.add (list.node offset).size (list.node (list.node offset).next).size with
        | error fault => rfl
        | ok size =>
          simp only [Call.run_lift_ok, guarded_setNode _ h, Call.run_modify]
      · rfl

theorem guarded_mergePrevious (build : Build) (hprevious : list.Sited previous)
    (h : offset + nodeSize ≤ list.capacity) :
    Guarded.mergePrevious build previous offset list =
      mergePrevious build previous offset list := by
  rw [Guarded.mergePrevious, mergePrevious]
  by_cases hends : previous = chainEnd
  · rw [if_neg (not_not_intro hends), if_neg (not_not_intro hends)]
  · have hsited := hprevious.resolve_left hends
    rw [if_pos hends, if_pos hends]
    simp only [Call.run_bind, Call.run_get, guarded_node hsited, Call.run_lift_ok]
    cases build.add previous (list.node previous).size with
    | error fault => rfl
    | ok stop =>
      simp only [Call.run_lift_ok]
      split
      · simp only [Call.run_bind, Call.run_get, guarded_node h, Call.run_lift_ok]
        cases build.add (list.node previous).size (list.node offset).size with
        | error fault => rfl
        | ok size =>
          simp only [Call.run_lift_ok, guarded_setNode _ hsited, Call.run_modify]
      · rfl

end Accesses

namespace Place

variable {list : FreeList} {before after : List FreeBlock} {block : FreeBlock}

theorem guarded_mergeNext (build : Build) (h : Place list before block after) :
    Guarded.mergeNext build block.offset
        (list.linkIn (lastOffset before) block (firstOffset after)) =
      mergeNext build block.offset
        (list.linkIn (lastOffset before) block (firstOffset after)) := by
  refine FreeList.guarded_mergeNext build ?_ ?_
  · rw [capacity_linkIn]
    exact h.spaced.block_fits
  · rw [h.linked_linkIn.node_eq]
    refine sited_firstOffset fun next hnext ↦ ?_
    rw [capacity_linkIn]
    exact h.spaced.fits next (List.mem_append_right _ (List.mem_cons_of_mem _ hnext))

theorem guarded_mergePrevious (build : Build) (h : Place list before block after) :
    Guarded.mergePrevious build (lastOffset before) block.offset
        ((list.linkIn (lastOffset before) block (firstOffset after)).merged block.offset) =
      mergePrevious build (lastOffset before) block.offset
        ((list.linkIn (lastOffset before) block (firstOffset after)).merged block.offset) := by
  refine FreeList.guarded_mergePrevious build (sited_lastOffset fun last hlast ↦ ?_) ?_
  · rw [capacity_merged, capacity_linkIn]
    exact h.spaced.of_append_left.fits last hlast
  · rw [capacity_merged, capacity_linkIn]
    exact h.spaced.block_fits

end Place

/-! ## Tiled lists -/

namespace Tiled

variable {list : FreeList} {free before after : List FreeBlock} {leases : List Lease}
  {lease : Lease} {fit : Fit} {size alignment : Nat}

theorem guarded_blocks (h : Tiled list free leases) : Guarded.blocks list = .ok list.blocks := by
  have hblocks := h.blocks_eq
  rw [blocks] at hblocks ⊢
  refine guarded_blocksFrom _ fun block hmem ↦ h.spaced.fits block ?_
  rwa [← hblocks]

theorem guarded_find (build : Build) (size : Nat) (h : Tiled list free leases)
    (hpow : alignment.isPowerOfTwo) :
    Guarded.find build list size alignment = list.find build size alignment := by
  rw [Guarded.find, h.guarded_blocks, Call.ok_bind, find]
  simp only [guarded_fitIn build _ _ size hpow]

theorem guarded_cut (build : Build) (h : Tiled list (before ++ fit.block :: after) leases)
    (hsound : fit.Sound before size) : Guarded.cut build fit list = cut build fit list := by
  have hfits := h.spaced.block_fits
  have hstop := h.free_stop_le (List.mem_append_right before List.mem_cons_self)
  have hcapacity := h.capacity_lt
  have hneeded := hsound.needed_le
  have hprevious : list.Sited fit.previous := by
    rw [hsound.previous_eq]
    exact sited_lastOffset h.spaced.of_append_left.fits
  rw [FreeBlock.stop] at hstop
  have hrest : build.sub fit.block.size fit.needed = .ok (fit.block.size - fit.needed) :=
    Build.sub_of_le build hneeded
  have hsplit : build.add fit.block.offset fit.needed = .ok (fit.block.offset + fit.needed) :=
    Build.add_of_lt build (by omega)
  rw [Guarded.cut, cut]
  simp only [Call.run_bind, Call.run_get, guarded_node hfits, hrest, Call.run_lift_ok]
  by_cases hlarge : nodeSize < fit.block.size - fit.needed
  · -- the node of the rest lies in the block that is cut
    have hnode (node : Node) := guarded_setNode node
      (show fit.block.offset + fit.needed + nodeSize ≤ list.capacity by omega)
    have hturn (node : Node) :
        (list.setNode (fit.block.offset + fit.needed) node).Sited fit.previous := by
      rwa [Sited, capacity_setNode]
    simp only [if_pos hlarge, Call.run_bind, hsplit, Call.run_lift_ok, hnode,
      guarded_setNext _ (hturn _), Call.run_modify, Call.run_pure]
  · simp only [if_neg hlarge, Call.run_bind, guarded_setNext _ hprevious, Call.run_modify,
      Call.run_pure]

theorem guarded_allocate_of_find (build : Build)
    (h : Tiled list (before ++ fit.block :: after) leases) (hsound : fit.Sound before size)
    (hpow : alignment.isPowerOfTwo)
    (hfind : list.find build size (payloadAlignment alignment) = .ok (some fit)) :
    Guarded.allocate build size alignment list = allocate build size alignment list := by
  have hstop := h.free_stop_le (List.mem_append_right before List.mem_cons_self)
  have hcapacity := h.capacity_lt
  have hneeded := hsound.needed_le
  have hadjustment := hsound.nodeSize_le
  have hle := hsound.le_needed
  rw [FreeBlock.stop] at hstop
  have hguarded := h.guarded_find build size (isPowerOfTwo_payloadAlignment hpow)
  have hpayload : build.add fit.block.offset fit.adjustment =
      .ok (fit.block.offset + fit.adjustment) := Build.add_of_lt build (by omega)
  have hheader : build.sub (fit.block.offset + fit.adjustment) nodeSize =
      .ok (fit.block.offset + fit.adjustment - nodeSize) := Build.sub_of_le build (by omega)
  have hfits : fit.block.offset + fit.adjustment - nodeSize + nodeSize ≤
      (list.cutOut fit).capacity := by
    rw [capacity_cutOut]
    omega
  rw [Guarded.allocate, allocate]
  simp only [Call.run_bind, hpow, decide_true, Build.require_true, Call.run_lift_ok,
    not_true_eq_false, if_false, Call.run_get, hguarded, hfind, h.guarded_cut build hsound,
    cut_run build h hsound, hpayload, hheader, guarded_setHeader _ hfits, Call.run_modify]

/-- **Taking stays inside.** Whatever is asked for. -/
theorem guarded_allocate (build : Build) (size alignment : Nat) (h : Tiled list free leases) :
    Guarded.allocate build size alignment list = allocate build size alignment list := by
  by_cases hpow : alignment.isPowerOfTwo
  · obtain ⟨found, hfind⟩ :
        ∃ found, ∀ build, list.find build size (payloadAlignment alignment) = .ok found :=
      find_eq_ok fun _ hblock ↦ h.address_lt hblock
    cases found with
    | none =>
      have hguarded := h.guarded_find build size (isPowerOfTwo_payloadAlignment hpow)
      rw [Guarded.allocate, allocate]
      simp only [Call.run_bind, hpow, decide_true, Build.require_true, Call.run_lift_ok,
        not_true_eq_false, if_false, Call.run_get, hguarded, hfind]
    | some fit =>
      obtain ⟨before, after, rfl, hsound, -⟩ := h.sound_of_find hpow (hfind build)
      exact h.guarded_allocate_of_find build hsound hpow (hfind build)
  · rw [Guarded.allocate, allocate, if_pos hpow, if_pos hpow]

theorem guarded_returned (build : Build) (h : Tiled list free leases) (hlease : lease ∈ leases) :
    Guarded.returned build list (list.region.base + lease.payload) =
      list.returned build (list.region.base + lease.payload) := by
  have hstart := (h.headed lease hlease).start_add_le
  have hstop := (h.headed lease hlease).le_stop
  have hinside := h.lease_stop_le hlease
  have hlt := h.stop_lt
  have hpayload : Word.sub (list.region.base + lease.payload) list.region.base = lease.payload := by
    rw [Word.sub_of_le (Nat.le_add_right _ _) (by omega), Nat.add_sub_cancel_left]
  have hheader : build.sub lease.payload nodeSize = .ok (lease.payload - nodeSize) :=
    Build.sub_of_le build (by omega)
  have hread := guarded_header
    (show lease.payload - nodeSize + nodeSize ≤ list.capacity by omega)
  have hneighbours (start : Nat) : Guarded.neighbours list start = .ok (list.neighbours start) := by
    rw [Guarded.neighbours, h.guarded_blocks, Call.ok_bind]
    rfl
  simp only [Guarded.returned, returned, hpayload, hheader, Call.ok_bind, hread, hneighbours]

/-- **Giving back stays inside.** -/
theorem guarded_release (build : Build) (h : Tiled list free leases) (hlease : lease ∈ leases) :
    Guarded.release build (list.region.base + lease.payload) list =
      release build (list.region.base + lease.payload) list := by
  replace h := h.perm (List.perm_cons_erase hlease)
  obtain ⟨before, after, rfl, hbetween⟩ := h.exists_between
  have hplace := h.place hbetween
  have hfits := hplace.spaced.block_fits
  have hreturned := h.returned_eq build hbetween
  have hguarded := (h.guarded_returned build List.mem_cons_self).trans hreturned
  have hturn : (list.setNode (list.blockOf lease).offset
      { size := (list.blockOf lease).size, next := firstOffset after }).Sited
        (lastOffset before) := by
    have hbefore := sited_lastOffset hplace.spaced.of_append_left.fits
    rwa [Sited, capacity_setNode]
  have hnull := h.lease_address_ne_zero List.mem_cons_self
  rw [Guarded.release, release, if_neg hnull, if_neg hnull]
  simp only [Call.run_bind, Call.run_get, hreturned, hguarded, Call.run_lift_ok,
    guarded_setNode _ hfits, guarded_setNext _ hturn, Call.run_modify]
  -- the merges start from the list in which the block has its node
  rw [← linkIn, hplace.guarded_mergeNext build, hplace.mergeNext_run build]
  simp only [hplace.guarded_mergePrevious build]

end Tiled

end Suballoc.FreeList
