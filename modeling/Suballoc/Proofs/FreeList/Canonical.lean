import Mathlib.Data.List.Nodup
import Mathlib.Data.List.Perm.Subperm
import Suballoc.Proofs.FreeList.Tenancy

/-!
# The free blocks are determined by the blocks in use

Two lists of free blocks that ascend without touching are equal when they cover the same bytes. So a
tiling has only one such list for given blocks in use: neither the order of the calls that led to it
nor the strategy can be read off a free list. Everything about the order of releases follows from
that, with no argument about which neighbours happened to be free when.
-/

namespace Suballoc

/-! ## Lists of blocks that do not touch -/

section Ascending

variable {first : FreeBlock} {rest : List FreeBlock} {i : Nat}

theorem offset_le_of_covering_pos
    (h : (first :: rest).Pairwise fun a b ↦ a.stop < b.offset)
    (hcovered : 0 < covering (first :: rest) i) : first.offset ≤ i := by
  obtain ⟨block, hblock, hle, -⟩ := covering_pos_iff.mp hcovered
  rcases List.mem_cons.mp hblock with rfl | hrest
  · exact hle
  · have hlt := List.rel_of_pairwise_cons h hrest
    rw [FreeBlock.stop] at hlt
    omega

theorem covering_stop (h : (first :: rest).Pairwise fun a b ↦ a.stop < b.offset) :
    covering (first :: rest) first.stop = 0 := by
  by_contra hcovered
  obtain ⟨block, hblock, hle, hlt⟩ := covering_pos_iff.mp (Nat.pos_of_ne_zero hcovered)
  rcases List.mem_cons.mp hblock with rfl | hrest
  · exact Nat.lt_irrefl _ hlt
  · exact absurd hle (Nat.not_le.mpr (List.rel_of_pairwise_cons h hrest))

theorem stop_le_stop {other : FreeBlock} {others : List FreeBlock}
    (h : (other :: others).Pairwise fun a b ↦ a.stop < b.offset)
    (hoffset : first.offset = other.offset)
    (hsame : ∀ i, covering (first :: rest) i = covering (other :: others) i) :
    first.stop ≤ other.stop := by
  by_contra hlt
  have hcovers : first.Covers other.stop :=
    ⟨hoffset ▸ Nat.le_add_right _ _, Nat.not_le.mp hlt⟩
  have hcovered := covering_pos (List.mem_cons_self (l := rest)) hcovers
  rw [hsame, covering_stop h] at hcovered
  exact Nat.lt_irrefl 0 hcovered

end Ascending

/-- **Uniqueness.** Blocks that ascend without touching are determined by the bytes they cover. -/
theorem eq_of_covering_eq {a b : List FreeBlock}
    (ha : a.Pairwise fun a b ↦ a.stop < b.offset) (hb : b.Pairwise fun a b ↦ a.stop < b.offset)
    (hpos : ∀ block ∈ a, 0 < block.size) (hpos' : ∀ block ∈ b, 0 < block.size)
    (hsame : ∀ i, covering a i = covering b i) : a = b := by
  have hstart {block : FreeBlock} (hsize : 0 < block.size) : block.Covers block.offset :=
    ⟨Nat.le_refl _, Nat.lt_add_of_pos_right hsize⟩
  induction a generalizing b with
  | nil =>
    cases b with
    | nil => rfl
    | cons y ys =>
      have hcovered :=
        covering_pos (List.mem_cons_self (l := ys)) (hstart (hpos' y List.mem_cons_self))
      rw [← hsame] at hcovered
      exact absurd hcovered (Nat.lt_irrefl 0)
  | cons x xs ih =>
    have hx := hstart (hpos x List.mem_cons_self)
    cases b with
    | nil =>
      have hcovered := covering_pos (List.mem_cons_self (l := xs)) hx
      rw [hsame] at hcovered
      exact absurd hcovered (Nat.lt_irrefl 0)
    | cons y ys =>
      have hy := hstart (hpos' y List.mem_cons_self)
      have hoffset : x.offset = y.offset := by
        refine Nat.le_antisymm (offset_le_of_covering_pos ha ?_) (offset_le_of_covering_pos hb ?_)
        · rw [hsame]
          exact covering_pos List.mem_cons_self hy
        · rw [← hsame]
          exact covering_pos List.mem_cons_self hx
      have hstop : x.stop = y.stop := Nat.le_antisymm
        (stop_le_stop hb hoffset hsame) (stop_le_stop ha hoffset.symm fun i ↦ (hsame i).symm)
      obtain rfl : x = y := by
        cases x
        cases y
        simp only [FreeBlock.stop] at hoffset hstop
        simp only [FreeBlock.mk.injEq]
        omega
      -- without the first block, which is the same, the rests cover the same bytes
      refine congrArg _ (ih (List.pairwise_cons.mp ha).2 (List.pairwise_cons.mp hb).2
        (List.forall_mem_cons.mp hpos).2 (List.forall_mem_cons.mp hpos').2 fun i ↦ ?_)
      have hcount := hsame i
      rw [covering_cons, covering_cons] at hcount
      omega

namespace FreeList

/-! ## The books -/

/-- Two free lists keep the same books: the chain, what it is made of in memory, and the
counters. -/
structure SameBooks (a b : FreeList) : Prop where
  blocks_eq : a.blocks = b.blocks
  head_eq : a.head = b.head
  node_eq : ∀ block ∈ a.blocks, a.node block.offset = b.node block.offset
  used_eq : a.used = b.used
  allocations_eq : a.allocations = b.allocations

variable {list other : FreeList} {free : List FreeBlock} {leases others : List Lease}
  {lease : Lease}

theorem Tiled.blocksOf_nodup (h : Tiled list free leases) : (list.blocksOf leases).Nodup := by
  rw [List.nodup_iff_count_le_one]
  intro block
  by_cases hmem : block ∈ list.blocksOf leases
  · obtain ⟨lease, hlease, rfl⟩ := List.mem_map.mp hmem
    have hpos := Nat.lt_of_lt_of_le nodeSize_pos (h.headed lease hlease).nodeSize_le
    have hcovers : (list.blockOf lease).Covers (list.blockOf lease).offset :=
      ⟨Nat.le_refl _, Nat.lt_add_of_pos_right hpos⟩
    -- a block that occurs twice would cover its first byte twice
    have hcount : (list.blocksOf leases).count (list.blockOf lease) ≤
        covering (list.blocksOf leases) (list.blockOf lease).offset := by
      refine List.countP_mono_left fun other _ hother ↦ ?_
      rw [beq_iff_eq] at hother
      rw [hother]
      exact decide_eq_true hcovers
    have hpartition := h.partition (list.blockOf lease).offset
    split at hpartition <;> omega
  · rw [List.count_eq_zero_of_not_mem hmem]
    exact Nat.zero_le 1

/-- **The books are a function of the blocks in use.** -/
theorem Tiled.sameBooks {free' : List FreeBlock} (h : Tiled list free leases)
    (h' : Tiled other free' others) (hcapacity : list.capacity = other.capacity)
    (hblocks : ∀ block, block ∈ list.blocksOf leases ↔ block ∈ other.blocksOf others) :
    SameBooks list other := by
  have hperm : (list.blocksOf leases).Perm (other.blocksOf others) :=
    (List.perm_ext_iff_of_nodup h.blocksOf_nodup h'.blocksOf_nodup).mpr hblocks
  have hpos {list : FreeList} {free : List FreeBlock} {leases : List Lease}
      (h : Tiled list free leases) : ∀ block ∈ free, 0 < block.size := fun block hblock ↦
    Nat.lt_of_lt_of_le nodeSize_pos (h.sized block hblock).2
  obtain rfl : free = free' := by
    refine eq_of_covering_eq h.apart h'.apart (hpos h) (hpos h') fun i ↦ ?_
    have hcount := h.partition i
    have hcount' := h'.partition i
    rw [← covering_perm hperm, ← hcapacity] at hcount'
    omega
  refine ⟨?_, ?_, ?_, ?_, ?_⟩
  · rw [h.blocks_eq, h'.blocks_eq]
  · rw [h.linked.start_eq, h'.linked.start_eq]
  · intro block hblock
    rw [h.blocks_eq] at hblock
    obtain ⟨before, after, rfl⟩ := List.append_of_mem hblock
    rw [h.linked.node_eq, h'.linked.node_eq]
  · rw [h.used_eq, h'.used_eq, (hperm.map FreeBlock.size).sum_nat]
  · have hlength := hperm.length_eq
    rw [blocksOf, List.length_map, blocksOf, List.length_map] at hlength
    rw [h.allocations_eq, h'.allocations_eq, hlength]

/-! ## Releases in any order -/

/-- The address of a lease. -/
def addressOf (list : FreeList) (lease : Lease) : Nat := list.region.base + lease.payload

/-- Give memory back at several addresses, one after another. -/
def releaseAll (build : Build) : List Nat → Call FreeList Unit
  | [] => return
  | address :: rest => do
    release build address
    releaseAll build rest

/-- Giving back some of the leases leaves the blocks of the others alone. -/
theorem Tiled.releaseAll_run (build : Build) {given kept : List Lease}
    (h : Tiled list free (given ++ kept)) :
    ∃ after free', releaseAll build (given.map list.addressOf) list = .ok () after ∧
      Tiled after free' kept ∧ after.blocksOf kept = list.blocksOf kept ∧
      after.capacity = list.capacity := by
  induction given generalizing list free with
  | nil => exact ⟨list, free, rfl, h, rfl, rfl⟩
  | cons lease given ih =>
    rw [List.cons_append] at h
    obtain ⟨before, after, rfl, hbetween, hrelease⟩ := h.release_run
    have hreturned := h.returnedTo hbetween
    have hbase : (list.returnedTo before lease after).addressOf = list.addressOf := by
      funext lease
      rw [addressOf, FreeList.returnedTo, base_restored, addressOf]
    obtain ⟨last, free', hrest, htiled, hblocks, hcapacity⟩ := ih hreturned
    rw [hbase] at hrest
    refine ⟨last, free', ?_, htiled, hblocks.trans ?_, hcapacity.trans capacity_restored⟩
    · rw [List.map_cons, releaseAll]
      exact (Call.run_bind_of_ok (hrelease build)).trans hrest
    · have hsame := blocksOf_returnedTo h
      rw [blocksOf, blocksOf, List.map_append, List.map_append] at hsame
      exact (List.append_inj hsame (by rw [List.length_map, List.length_map])).2

theorem Tiled.releaseAll_perm (build : Build) {first second : List Lease}
    (h : Tiled list free leases) (hsub : first.Subperm leases) (hperm : second.Perm first) :
    ∃ x y, releaseAll build (first.map list.addressOf) list = .ok () x ∧
      releaseAll build (second.map list.addressOf) list = .ok () y ∧ SameBooks x y := by
  obtain ⟨part, hpart, hsublist⟩ := hsub
  obtain ⟨kept, hkept⟩ := hsublist.exists_perm_append
  have hfirst : leases.Perm (first ++ kept) := hkept.trans (hpart.append_right kept)
  have hsecond : leases.Perm (second ++ kept) := hfirst.trans (hperm.symm.append_right kept)
  obtain ⟨x, _, hx, htiled, hblocks, hcapacity⟩ := (h.perm hfirst).releaseAll_run build
  obtain ⟨y, _, hy, htiled', hblocks', hcapacity'⟩ := (h.perm hsecond).releaseAll_run build
  refine ⟨x, y, hx, hy, htiled.sameBooks htiled' (hcapacity.trans hcapacity'.symm) fun block ↦ ?_⟩
  rw [hblocks, hblocks']

theorem isPowerOfTwo_of_allocate {build : Build} {size alignment address : Nat}
    {middle : FreeList}
    (h : allocate build size alignment list = .ok (some address) middle) :
    alignment.isPowerOfTwo := by
  by_contra hpow
  rw [allocate] at h
  cases build with
  | checked =>
    simp [hpow, Build.require_checked] at h
  | unchecked =>
    simp [hpow] at h

/-- Giving back what was just taken undoes the taking. -/
theorem Tiled.release_of_allocate (build : Build) {size alignment address : Nat}
    {middle : FreeList} (h : Tiled list free leases)
    (hallocate : allocate build size alignment list = .ok (some address) middle) :
    ∃ after, release build address middle = .ok () after ∧ SameBooks list after := by
  have hpow : alignment.isPowerOfTwo := isPowerOfTwo_of_allocate hallocate
  rcases h.allocate_run size hpow with hnone | ⟨before, fit, after, rfl, hsound, -, hsome⟩
  · rw [hnone build] at hallocate
    cases hallocate
  · rw [hsome build] at hallocate
    cases hallocate
    have hgranted := h.granted hsound
    obtain ⟨front, back, hfree, hbetween, hrelease⟩ := hgranted.release_run
    rw [hfree] at hgranted
    rw [base_granted] at hrelease
    refine ⟨_, hrelease build, h.sameBooks (hgranted.returnedTo hbetween) ?_ fun block ↦ ?_⟩
    · exact (capacity_restored.trans capacity_granted).symm
    · have hblocks := blocksOf_granted h hsound
      rw [blocksOf, List.map_cons, ← blocksOf] at hblocks
      rw [blocksOf_returnedTo hgranted, (List.cons.inj hblocks).2]

theorem Tiled.of_no_leases (h : Tiled list free []) (hpos : 0 < list.capacity) :
    list.blocks = [{ offset := 0, size := list.capacity }] ∧ list.used = 0 ∧
      list.allocations = 0 := by
  refine ⟨?_, h.used_eq, h.allocations_eq⟩
  rw [h.blocks_eq]
  refine eq_of_covering_eq h.apart (List.pairwise_singleton _ _) (fun block hblock ↦ ?_) ?_
    fun i ↦ ?_
  · exact Nat.lt_of_lt_of_le nodeSize_pos (h.sized block hblock).2
  · intro block hblock
    obtain rfl := List.mem_singleton.mp hblock
    exact hpos
  · have hcount := h.partition i
    rw [blocksOf, List.map_nil, covering_nil, Nat.add_zero] at hcount
    rw [hcount, covering_cons, covering_nil, Nat.zero_add]
    refine if_congr ?_ rfl rfl
    simp only [FreeBlock.Covers, FreeBlock.stop]
    omega

/-! ## Reachable tenancies -/

namespace Tenancy

open Suballoc.Tenancy (run)

/-- A run leads from a new free list to the tenancy, in some build and with some strategy. -/
def Reachable (tenancy : Tenancy) : Prop :=
  ∃ build platform wanted strategy list errands answers,
    FreeList.new platform wanted strategy = .ok list ∧
      list.region.alignment ∣ list.region.base ∧ list.region.stop < Word.limit ∧
      run (step build) errands ⟨list, []⟩ = .ok answers tenancy

variable {tenancy : Tenancy}

theorem Reachable.tiled (h : tenancy.Reachable) :
    tenancy.Tiled ∧ 0 < tenancy.engine.capacity := by
  obtain ⟨build, platform, wanted, strategy, list, errands, answers, hnew, haligned, hstop, hrun⟩ :=
    h
  obtain ⟨htiled, hcapacity⟩ := FreeList.tiled_new hnew haligned hstop
  have hstart : Tiled ⟨list, []⟩ := Tiled.of_free htiled
  obtain ⟨_, after, hrun', hafter, hsame⟩ := tiled_run build errands hstart
  rw [hrun] at hrun'
  cases hrun'
  refine ⟨hafter, ?_⟩
  rw [hsame, hcapacity]
  exact Nat.lt_trans nodeSize_pos (new_eq_ok hnew).1

theorem exists_reachable (build : Build) {platform : Platform} {wanted : Reservation}
    {strategy : FitStrategy} {list : FreeList}
    (hnew : FreeList.new platform wanted strategy = .ok list)
    (haligned : list.region.alignment ∣ list.region.base)
    (hstop : list.region.stop < Word.limit) (errands : List Errand) :
    ∃ answers, ∃ after : Tenancy, run (step build) errands ⟨list, []⟩ = .ok answers after ∧
      after.Reachable ∧ after.engine.capacity = wanted.size := by
  obtain ⟨htiled, hcapacity⟩ := FreeList.tiled_new hnew haligned hstop
  have hstart : Tiled ⟨list, []⟩ := Tiled.of_free htiled
  obtain ⟨answers, after, hrun, -, hsame⟩ := tiled_run build errands hstart
  exact ⟨answers, after, hrun, ⟨build, platform, wanted, strategy, list, errands, answers, hnew,
    haligned, hstop, hrun⟩, hsame.trans hcapacity⟩

/-- **Canonical form.** Two reachable free lists of the same capacity with the same blocks in use
keep the same books, whatever happened before. So from a reachable free list, releases in any order
end with the same books; taking and giving back is as if nothing had been done; and when everything
has come back, the region is one free block. -/
theorem reachable_canonical (h : tenancy.Reachable) :
    (∀ other : Tenancy, other.Reachable → tenancy.engine.capacity = other.engine.capacity →
      (∀ block, block ∈ tenancy.engine.blocksOf tenancy.held ↔
        block ∈ other.engine.blocksOf other.held) →
      SameBooks tenancy.engine other.engine) ∧
    (∀ build (first second : List Lease), first.Subperm tenancy.held → second.Perm first →
      ∃ x y, releaseAll build (first.map tenancy.engine.addressOf) tenancy.engine = .ok () x ∧
        releaseAll build (second.map tenancy.engine.addressOf) tenancy.engine = .ok () y ∧
        SameBooks x y) ∧
    (∀ build size alignment address middle,
      allocate build size alignment tenancy.engine = .ok (some address) middle →
      ∃ after, release build address middle = .ok () after ∧ SameBooks tenancy.engine after) ∧
    ∀ build (order : List Lease), order.Perm tenancy.held →
      ∃ after, releaseAll build (order.map tenancy.engine.addressOf) tenancy.engine =
          .ok () after ∧
        after.blocks = [{ offset := 0, size := tenancy.engine.capacity }] ∧ after.used = 0 ∧
        after.allocations = 0 := by
  obtain ⟨htiled, hpos⟩ := h.tiled
  refine ⟨?_, ?_, ?_, ?_⟩
  · intro other hother hcapacity hblocks
    exact FreeList.Tiled.sameBooks htiled hother.tiled.1 hcapacity hblocks
  · intro build first second hsub hperm
    exact FreeList.Tiled.releaseAll_perm build htiled hsub hperm
  · intro build size alignment address middle hallocate
    exact FreeList.Tiled.release_of_allocate build htiled hallocate
  · intro build order horder
    have hall : tenancy.engine.Tiled tenancy.engine.blocks (order ++ []) := by
      rw [List.append_nil]
      exact FreeList.Tiled.perm htiled horder.symm
    obtain ⟨after, _, hrun, hafter, -, hcapacity⟩ := hall.releaseAll_run build
    have hfree := hafter.of_no_leases (hcapacity ▸ hpos)
    rw [hcapacity] at hfree
    exact ⟨after, hrun, hfree⟩

/-- Two histories with different strategies and builds: in one the first of three blocks comes back,
in the other the first and the last of four. -/
theorem reachable_canonical_gaps :
    ∃ a b : Tenancy, a.Reachable ∧ b.Reachable ∧
      a.engine.blocksOf a.held = [⟨48, 24⟩, ⟨24, 24⟩] ∧
      b.engine.blocksOf b.held = [⟨48, 24⟩, ⟨24, 24⟩] ∧ SameBooks a.engine b.engine ∧
      ∃ x y, releaseAll .checked (a.held.map a.engine.addressOf) a.engine = .ok () x ∧
        releaseAll .checked (a.held.reverse.map a.engine.addressOf) a.engine = .ok () y ∧
        SameBooks x y := by
  have hnew (strategy : FitStrategy) : FreeList.new ⟨fun _ _ ↦ true, fun _ ↦ 4096, fun _ ↦ 0⟩
      { size := 128, alignment := 64 } strategy =
        .ok (setNode ⟨⟨4096, 64, fillBytes 128 fun _ ↦ 0⟩, strategy, 0, 0, 0⟩ 0 ⟨128, chainEnd⟩) :=
    rfl
  have hstop (strategy : FitStrategy) : (setNode ⟨⟨4096, 64, fillBytes 128 fun _ ↦ 0⟩, strategy,
      0, 0, 0⟩ 0 ⟨128, chainEnd⟩).region.stop < Word.limit := by
    obtain ⟨hbase, -, hsize⟩ := region_new (hnew strategy)
    rw [Region.stop, hbase, hsize]
    decide
  obtain ⟨_, a, hrun, ha, hcapacity⟩ := exists_reachable .checked (hnew .firstFit)
    (by decide) (hstop _) [.take 8 8, .take 1 1, .take 8 8, .give 4112]
  obtain ⟨_, b, hrun', hb, hcapacity'⟩ := exists_reachable .unchecked (hnew .bestFit)
    (by decide) (hstop _) [.take 8 4, .take 8 8, .take 8 8, .take 8 8, .give 4112, .give 4184]
  have hblocks : a.engine.blocksOf a.held = [⟨48, 24⟩, ⟨24, 24⟩] := by
    have heval : (fun after : Tenancy ↦ after.engine.blocksOf after.held)
        (Call.settled (run (step .checked) [.take 8 8, .take 1 1, .take 8 8, .give 4112]
          ⟨setNode ⟨⟨4096, 64, fillBytes 128 fun _ ↦ 0⟩, .firstFit, 0, 0, 0⟩ 0 ⟨128, chainEnd⟩,
            []⟩)).2 = [⟨48, 24⟩, ⟨24, 24⟩] := by decide +kernel
    rw [hrun] at heval
    exact heval
  have hblocks' : b.engine.blocksOf b.held = [⟨48, 24⟩, ⟨24, 24⟩] := by
    have heval : (fun after : Tenancy ↦ after.engine.blocksOf after.held)
        (Call.settled (run (step .unchecked)
          [.take 8 4, .take 8 8, .take 8 8, .take 8 8, .give 4112, .give 4184]
          ⟨setNode ⟨⟨4096, 64, fillBytes 128 fun _ ↦ 0⟩, .bestFit, 0, 0, 0⟩ 0 ⟨128, chainEnd⟩,
            []⟩)).2 = [⟨48, 24⟩, ⟨24, 24⟩] := by decide +kernel
    rw [hrun'] at heval
    exact heval
  obtain ⟨hsame, horder, -, -⟩ := reachable_canonical ha
  refine ⟨a, b, ha, hb, hblocks, hblocks', hsame b hb (hcapacity.trans hcapacity'.symm) ?_, ?_⟩
  · intro block
    rw [hblocks, hblocks']
  · exact horder .checked a.held a.held.reverse (List.Subperm.refl _) (List.reverse_perm _)

end Tenancy

end FreeList

end Suballoc
