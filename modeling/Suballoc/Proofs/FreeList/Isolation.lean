import Suballoc.Proofs.FreeList.Tenancy

/-!
# Isolation of leases

A free list keeps its bookkeeping between the bytes of its callers, so every call must show that it
writes to nobody else's. An allocation writes into free blocks, a release into free blocks and the
block that comes back. By the tiling neither of these shares a byte with another lease, whose header
and payload are therefore what they were.

The frame of each call is stated where the call is, as `byteAt_granted` and `byteAt_returnedTo`.
Here the two are read from the side of the holders. A write outside the region would change no byte,
so it would not show here; that no call attempts one is `Tiled.guarded_allocate` and
`Tiled.guarded_release`.
-/

namespace Suballoc

open Suballoc.Tenancy (run)

/-- The bytes that a call must leave to the holder of a lease: header and payload. -/
def Lease.Keeps (lease : Lease) (i : Nat) : Prop :=
  lease.payload ≤ i + nodeSize ∧ i < lease.payload + lease.size

namespace FreeList

/-- Between two states only bytes of some blocks changed, and all of them in the region. -/
def ChangedWithin (before after : FreeList) (blocks : List FreeBlock) : Prop :=
  ∀ i, after.region.byteAt i ≠ before.region.byteAt i →
    i < before.capacity ∧ ∃ block ∈ blocks, block.Covers i

/-- Between two states the header and the payload of a lease stayed the same. -/
def Spared (before after : FreeList) (lease : Lease) : Prop :=
  ∀ i, lease.Keeps i → after.region.byteAt i = before.region.byteAt i

variable {list after : FreeList} {free : List FreeBlock} {leases : List Lease} {lease : Lease}

theorem ChangedWithin.refl (list : FreeList) (blocks : List FreeBlock) :
    list.ChangedWithin list blocks := fun _ hchanged ↦ absurd rfl hchanged

theorem Spared.refl (list : FreeList) (lease : Lease) : list.Spared list lease := fun _ _ ↦ rfl

theorem Headed.covers_of_keeps (h : list.Headed lease) {i : Nat} (hkeeps : lease.Keeps i) :
    (list.blockOf lease).Covers i := by
  have hstart := h.start_add_le
  have hstop := h.le_stop
  simp only [Lease.Keeps] at hkeeps
  simp only [FreeBlock.Covers]
  omega

theorem Tiled.spared_of_changedWithin {blocks : List FreeBlock} (h : Tiled list free leases)
    (hlease : lease ∈ leases) (hchanged : list.ChangedWithin after blocks)
    (hapart : ∀ block ∈ blocks, ∀ i, block.Covers i → ¬ (list.blockOf lease).Covers i) :
    list.Spared after lease := by
  intro i hkeeps
  by_contra hdiffers
  obtain ⟨-, block, hblock, hcovers⟩ := hchanged i hdiffers
  exact hapart block hblock i hcovers ((h.headed lease hlease).covers_of_keeps hkeeps)

theorem Tiled.keeps_or_keeps {other : Lease} (h : Tiled list free (lease :: leases))
    (hother : other ∈ leases) :
    lease.payload + lease.size + nodeSize ≤ other.payload ∨
      other.payload + other.size + nodeSize ≤ lease.payload := by
  have hlease := h.headed lease List.mem_cons_self
  have hheaded := h.headed other (List.mem_cons_of_mem _ hother)
  have hstart := hlease.start_add_le
  have hstop := hlease.le_stop
  have hstart' := hheaded.start_add_le
  have hstop' := hheaded.le_stop
  have hside := h.lease_or_lease hother
  omega

/-- **An allocation is isolated.** It changes free bytes only, spares every lease, and keeps header
and payload of the new one away from all others. -/
theorem Tiled.allocate_isolated (build : Build) {size alignment : Nat}
    (h : Tiled list free leases) (hpow : alignment.isPowerOfTwo) :
    ∃ answer after, allocate build size alignment list = .ok answer after ∧
      list.ChangedWithin after free ∧ (∀ lease ∈ leases, list.Spared after lease) ∧
      ∀ address, answer = some address → ∀ lease ∈ leases,
        address + size + nodeSize ≤ list.region.base + lease.payload ∨
          list.region.base + lease.payload + lease.size + nodeSize ≤ address := by
  rcases h.allocate_run size hpow with hnone | ⟨before, fit, behind, rfl, hsound, -, hsome⟩
  · exact ⟨none, list, hnone build, ChangedWithin.refl _ _, fun _ _ ↦ Spared.refl _ _,
      fun _ hanswer ↦ nomatch hanswer⟩
  · have hchanged : list.ChangedWithin (list.granted fit) (before ++ fit.block :: behind) := by
      intro i hdiffers
      by_contra hout
      refine hdiffers (byteAt_granted h hsound fun block hblock hcovers ↦ hout ?_)
      exact ⟨h.lt_capacity_of_free hblock hcovers, block, hblock, hcovers⟩
    refine ⟨_, _, hsome build, hchanged, ?_, ?_⟩
    · intro lease hlease
      exact h.spared_of_changedWithin hlease hchanged fun block hblock _ hcovers ↦
        h.not_covers_of_free hblock hlease hcovers
    · intro address hanswer lease hlease
      obtain rfl := Option.some.inj hanswer
      have hside := (h.granted hsound).keeps_or_keeps hlease
      rw [show (fit.lease size).size = size from rfl] at hside
      omega

/-- **A release is isolated.** It changes bytes of free blocks and of the block that comes back
only, and spares every other lease. -/
theorem Tiled.release_isolated (build : Build) (h : Tiled list free (lease :: leases)) :
    ∃ after, release build (list.region.base + lease.payload) list = .ok () after ∧
      list.ChangedWithin after (list.blockOf lease :: free) ∧
      ∀ other ∈ leases, list.Spared after other := by
  obtain ⟨before, behind, rfl, -, hrelease⟩ := h.release_run
  have hchanged : list.ChangedWithin (list.returnedTo before lease behind)
      (list.blockOf lease :: (before ++ behind)) := by
    intro i hdiffers
    by_contra hout
    refine hdiffers (byteAt_returnedTo h (fun hcovers ↦ hout ?_)
      fun block hblock hcovers ↦ hout ?_)
    · exact ⟨h.lt_capacity_of_lease List.mem_cons_self hcovers, _, List.mem_cons_self, hcovers⟩
    · exact ⟨h.lt_capacity_of_free hblock hcovers, block, List.mem_cons_of_mem _ hblock, hcovers⟩
  refine ⟨_, hrelease build, hchanged, ?_⟩
  intro other hother
  have hmem : other ∈ lease :: leases := List.mem_cons_of_mem _ hother
  apply h.spared_of_changedWithin hmem hchanged
  intro block hblock i hcovers hkept
  rcases List.mem_cons.mp hblock with rfl | hblock
  · have hside := h.lease_or_lease hother
    simp only [FreeBlock.Covers] at hcovers hkept
    omega
  · exact h.not_covers_of_free hblock hmem hcovers hkept

namespace Tenancy

/-- What a caller may do next changes no byte that another caller holds. -/
structure Isolated (build : Build) (tenancy : Tenancy) : Prop where
  /-- An allocation changes bytes that were free, spares every lease, and its header and payload
  share no byte with those of a lease. -/
  allocate : ∀ size alignment, alignment.isPowerOfTwo →
    ∃ answer after, tenancy.engine.allocate build size alignment = .ok answer after ∧
      tenancy.engine.ChangedWithin after tenancy.engine.blocks ∧
      (∀ lease ∈ tenancy.held, tenancy.engine.Spared after lease) ∧
      ∀ address, answer = some address → ∀ lease ∈ tenancy.held,
        address + size + nodeSize ≤ tenancy.engine.region.base + lease.payload ∨
          tenancy.engine.region.base + lease.payload + lease.size + nodeSize ≤ address
  /-- A release changes bytes that were free or come back, and spares every other lease. -/
  release : ∀ address lease, tenancy.leaseAt? address = some lease →
    ∃ after, FreeList.release build address tenancy.engine = .ok () after ∧
      tenancy.engine.ChangedWithin after (tenancy.engine.blockOf lease :: tenancy.engine.blocks) ∧
      ∀ other ∈ tenancy.held.erase lease, tenancy.engine.Spared after other
  /-- The null address changes nothing. -/
  null : FreeList.release build 0 tenancy.engine = .ok () tenancy.engine

theorem Tiled.isolated {tenancy : Tenancy} (build : Build) (h : tenancy.Tiled) :
    tenancy.Isolated build where
  allocate := fun _ _ hpow ↦ FreeList.Tiled.allocate_isolated build h hpow
  release := by
    intro address lease hlease
    obtain ⟨hmem, rfl⟩ := leaseAt?_eq_some hlease
    have hperm : tenancy.held.Perm (lease :: tenancy.held.erase lease) :=
      List.perm_cons_erase hmem
    exact (FreeList.Tiled.perm h hperm).release_isolated build
  null := rfl

/-- **Isolation.** In every state that callers can bring about, no call changes a byte of a header
or a payload that another caller holds. -/
theorem run_isolates {build : Build} {platform : Platform} {wanted : Reservation}
    {strategy : FitStrategy} {list : FreeList}
    (hnew : FreeList.new platform wanted strategy = .ok list)
    (haligned : list.region.alignment ∣ list.region.base)
    (hstop : list.region.stop < Word.limit) (errands : List Errand) :
    ∃ answers, ∃ tenancy : Tenancy, run (step build) errands ⟨list, []⟩ = .ok answers tenancy ∧
      tenancy.Isolated build := by
  obtain ⟨htiled, -⟩ := FreeList.tiled_new hnew haligned hstop
  have hstart : Tiled ⟨list, []⟩ := Tiled.of_free htiled
  obtain ⟨answers, tenancy, hrun, hafter, -⟩ := tiled_run build errands hstart
  exact ⟨answers, tenancy, hrun, hafter.isolated build⟩

/-- Two leases with padding between them, one of them written to, and one that came back. -/
theorem run_isolates_padded :
    ∃ list, FreeList.new ⟨fun _ _ ↦ true, fun _ ↦ 8192, fun _ ↦ 255⟩
        { size := 333, alignment := 8 } .firstFit = .ok list ∧
      ∃ answers, ∃ tenancy : Tenancy,
        run (step .unchecked) [.take 5 8, .take 40 32, .take 9 16, .fill 8256 0 [1, 2, 3],
            .give 8208] ⟨list, []⟩ = .ok answers tenancy ∧ tenancy.Isolated .unchecked := by
  obtain ⟨list, hnew⟩ : ∃ list, FreeList.new ⟨fun _ _ ↦ true, fun _ ↦ 8192, fun _ ↦ 255⟩
      { size := 333, alignment := 8 } .firstFit = .ok list :=
    FreeList.exists_new .firstFit ⟨by decide, ⟨3, rfl⟩, by decide, by decide⟩ rfl (by decide)
  obtain ⟨hbase, halignment, hsize⟩ := FreeList.region_new hnew
  refine ⟨list, hnew, run_isolates hnew ?_ ?_ _⟩
  · rw [hbase, halignment]
    decide
  · rw [Region.stop, hbase, hsize]
    decide

end Tenancy

end FreeList

end Suballoc
