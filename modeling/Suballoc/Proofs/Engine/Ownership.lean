import Suballoc.Proofs.Engine.Refusals
import Suballoc.Proofs.SharedPool.Safety

/-!
# Whose an address is

An engine can be asked whether an address is its own: a pool looks for the start of a slot, a free
list for a byte of its region. What is held is the engine's own by that test and nobody else's, with
one exception. A free list may hand out no bytes at all, behind the last header there is room for;
the address of these is the end of the region, where no byte of it is.
-/

namespace Suballoc

open Suballoc.Tenancy (run)

/-! ## Tests of an address -/

/-- Regions that have no byte in common. -/
def Region.Apart (a b : Region) : Prop := a.stop ≤ b.base ∨ b.stop ≤ a.base

theorem Region.contains_iff (region : Region) {address : Nat} :
    region.contains address = true ↔ region.base ≤ address ∧ address < region.stop := by
  rw [contains, Bool.and_eq_true, decide_eq_true_iff, decide_eq_true_iff]

namespace SlotArray

variable {slots : SlotArray} {address index : Nat}

theorem contains_of_isSlot (h : slots.isSlot address = true) :
    slots.region.contains address = true := by
  cases hcontains : slots.region.contains address with
  | true => rfl
  | false =>
    rw [isSlot, Region.offsetOf?, hcontains] at h
    cases h

theorem Laid.isSlot_start (h : slots.Laid) (hindex : index < slots.count) :
    slots.isSlot (slots.region.base + index * slots.stride) = true := by
  have hslot := h.slot_le hindex
  have hwidth := h.width_le
  have hcontains : slots.region.contains (slots.region.base + index * slots.stride) = true := by
    refine slots.region.contains_iff.mpr ⟨Nat.le_add_right _ _, ?_⟩
    rw [Region.stop, Word.width] at *
    omega
  rw [isSlot, Region.offsetOf?, if_pos hcontains, Nat.add_sub_cancel_left]
  exact decide_eq_true (Nat.mul_mod_left _ _)

end SlotArray

namespace Engine

variable {engine : Engine} {address : Nat} {slots : SlotArray} {holding : Holding}

theorem contains_of_owns (h : engine.owns? address = some true) :
    engine.memory.contains address = true := by
  cases engine with
  | pool p => exact SlotArray.contains_of_isSlot (Option.some.inj h)
  | sharedPool p => exact SlotArray.contains_of_isSlot (Option.some.inj h)
  | stack state => exact Option.some.inj h
  | freeList list => exact Option.some.inj h
  | region r => cases h

/-- What holds of held memory: it lies in the region, its engine owns all of it but what is behind
the last byte, and there it is a free list's. -/
structure Houses (engine : Engine) (holding : Holding) : Prop where
  base_le : engine.memory.base ≤ holding.address
  stop_le : holding.address + holding.size ≤ engine.memory.stop
  owns_eq : engine.owns? holding.address = some (decide (holding.address < engine.memory.stop))
  exists_of_eq : holding.address = engine.memory.stop → ∃ list, engine = .freeList list

theorem memory_of_slots (h : engine.slots? = some slots) : engine.memory = slots.region := by
  cases engine <;> cases h <;> rfl

theorem owns_of_slots (h : engine.slots? = some slots) (address : Nat) :
    engine.owns? address = some (slots.isSlot address) := by
  cases engine <;> cases h <;> rfl

theorem houses_slot {index : Nat} (hslots : engine.slots? = some slots) (hlaid : slots.Laid)
    (hindex : index < slots.count) :
    engine.Houses ⟨slots.region.base + index * slots.stride, slots.stride⟩ := by
  have hslot := hlaid.slot_le hindex
  have hwidth := hlaid.width_le
  have hstart : slots.region.base + index * slots.stride < slots.region.stop := by
    rw [Region.stop, Word.width] at *
    omega
  refine ⟨?_, ?_, ?_, ?_⟩
  · rw [memory_of_slots hslots]
    exact Nat.le_add_right _ _
  · rw [memory_of_slots hslots, Region.stop, Nat.add_assoc]
    exact Nat.add_le_add_left hslot _
  · rw [memory_of_slots hslots, owns_of_slots hslots, hlaid.isSlot_start hindex,
      decide_eq_true hstart]
  · intro hstop
    rw [memory_of_slots hslots] at hstop
    exact absurd hstop (Nat.ne_of_lt hstart)

end Engine

theorem FreeList.Tiled.houses {list : FreeList} {free : List FreeBlock} {leases : List Lease}
    {lease : Lease} (h : list.Tiled free leases) (hlease : lease ∈ leases) :
    (Engine.freeList list).Houses (list.holding lease) := by
  have hblock := h.lease_stop_le hlease
  have hstop := (h.headed lease hlease).le_stop
  refine ⟨Nat.le_add_right _ _, ?_, ?_, fun _ ↦ ⟨list, rfl⟩⟩
  · show list.region.base + lease.payload + lease.size ≤ list.region.stop
    rw [Region.stop, Nat.add_assoc]
    exact Nat.add_le_add_left (Nat.le_trans hstop hblock) _
  · show some (list.region.contains _) = _
    have hbase : list.region.base ≤ (list.holding lease).address := Nat.le_add_right _ _
    rw [Region.contains, decide_eq_true hbase, Bool.true_and]
    rfl

/-! ## Where a crew's pool lies -/

namespace SharedPool

variable {build : Build}

/-- Where the slots of a pool are. -/
def place (pool : SharedPool) : Nat × Nat := (pool.slots.region.base, pool.slots.stride)

/-- What the holder of a slot holds. -/
def holding (pool : SharedPool) (index : Nat) : Holding where
  address := pool.slots.region.base + index * pool.slots.stride
  size := pool.blockSize

theorem holding_of_place {pool after : SharedPool} (h : after.place = pool.place) :
    after.holding = pool.holding := by
  obtain ⟨hbase, hstride⟩ := Prod.mk.inj h
  funext index
  rw [holding, holding, hbase, blockSize, blockSize, hstride]

theorem place_setLive (pool : SharedPool) (index : Nat) (flag : Bool) :
    place { pool with slots := pool.slots.setLive index flag } = pool.place := by
  rw [place, SlotArray.region_setLive, SlotArray.stride_setLive, place]

theorem place_write (pool : SharedPool) (index offset : Nat) (values : List UInt8) :
    (pool.write index offset values).place = pool.place := by
  rw [place, write, Region.base_write, place]

theorem keeps_pop : Call.Keeps place (pop build) := by
  refine .bind Call.keeps_get fun pool ↦ ?_
  dsimp only
  split
  · exact Call.keeps_pure none
  · refine .bind Call.keeps_get fun pool ↦ .bind (Call.keeps_lift _) fun next ↦ ?_
    exact .bind (Call.keeps_modify fun _ ↦ rfl) fun _ ↦ Call.keeps_pure _

theorem keeps_countUp : Call.Keeps place (countUp build) :=
  .bind Call.keeps_get fun _ ↦ .bind (Call.keeps_modify fun _ ↦ rfl) fun _ ↦ Call.keeps_lift _

theorem keeps_raisePeak (live : Nat) : Call.Keeps place (raisePeak live) :=
  Call.keeps_modify fun _ ↦ rfl

theorem keeps_markLive (index : Nat) : Call.Keeps place (markLive build index) :=
  .bind Call.keeps_get fun _ ↦
    .bind (Call.keeps_modify fun pool ↦ pool.place_setLive index true) fun _ ↦ Call.keeps_lift _

theorem keeps_markFree (index : Nat) : Call.Keeps place (markFree build index) :=
  .bind Call.keeps_get fun _ ↦
    .bind (Call.keeps_modify fun pool ↦ pool.place_setLive index false) fun _ ↦ Call.keeps_lift _

theorem keeps_countDown : Call.Keeps place (countDown build) := by
  refine .bind Call.keeps_get fun pool ↦ .bind (Call.keeps_modify fun _ ↦ ?_) fun _ ↦
    Call.keeps_lift _
  rw [place, place]

theorem keeps_push (index : Nat) : Call.Keeps place (push build index) := by
  refine .bind Call.keeps_get fun _ ↦ .bind (Call.keeps_lift _) fun offset ↦
    Call.keeps_modify fun pool ↦ ?_
  rw [place, SlotArray.region_setLink, Region.base_setWord, SlotArray.stride_setLink, place]

theorem keeps_advance (choice : Choice) (worker : Worker) :
    Call.Keeps place (worker.advance build choice) := by
  obtain ⟨phase, held⟩ := worker
  cases phase with
  | idle =>
    cases choice with
    | take =>
      refine .bind keeps_pop fun popped ↦ ?_
      cases popped <;> exact Call.keeps_pure _
    | give index =>
      rw [Worker.advance]
      dsimp only
      split
      · exact .bind (keeps_markFree index) fun _ ↦ Call.keeps_pure _
      · exact Call.keeps_pure _
    | fill index offset values =>
      refine .bind Call.keeps_get fun pool ↦ ?_
      dsimp only
      split
      · exact .bind (Call.keeps_modify fun pool ↦ pool.place_write index offset values)
          fun _ ↦ Call.keeps_pure _
      · exact Call.keeps_pure _
  | counting index => exact .bind keeps_countUp fun _ ↦ Call.keeps_pure _
  | raising index live => exact .bind (keeps_raisePeak live) fun _ ↦ Call.keeps_pure _
  | marking index => exact .bind (keeps_markLive index) fun _ ↦ Call.keeps_pure _
  | uncounting index => exact .bind keeps_countDown fun _ ↦ Call.keeps_pure _
  | pushing index => exact .bind (keeps_push index) fun _ ↦ Call.keeps_pure _

end SharedPool

namespace Crew

variable {build : Build}

theorem keeps_onPool {Answer : Type} {call : Call SharedPool Answer}
    (h : Call.Keeps SharedPool.place call) :
    Call.Keeps (fun crew ↦ crew.pool.place) (onPool call) := by
  rintro ⟨pool, workers⟩
  have hpool := h pool
  rw [onPool]
  cases hrun : call pool <;> rwa [hrun] at hpool

theorem keeps_step (number : Nat) (choice : Choice) :
    Call.Keeps (fun crew ↦ crew.pool.place) (step build number choice) := by
  refine .bind Call.keeps_get fun crew ↦ ?_
  split
  · exact Call.keeps_pure _
  · exact .bind (keeps_onPool (SharedPool.keeps_advance choice _)) fun _ ↦
      Call.keeps_modify fun _ ↦ rfl

/-- In no interleaving are the slots moved. -/
theorem keeps_run (schedule : List (Nat × Choice)) :
    Call.Keeps (fun crew ↦ crew.pool.place) (Crew.run build schedule) := by
  induction schedule with
  | nil => exact Call.keeps_pure _
  | cons event schedule ih => exact .bind (keeps_step event.1 event.2) fun _ ↦ ih

end Crew

/-! ## Engines in use -/

namespace Engine

variable {build : Build} {engine : Engine} {held : List Holding} {holding : Holding}

/-- An engine that is in use, and what is held of it: callers come one at a time or, to a shared
pool, as a crew in any interleaving. -/
inductive InUse (build : Build) : Engine → List Holding → Prop where
  | alone {tenancy : Tenancy} (reachable : tenancy.Reachable build) :
      InUse build tenancy.engine tenancy.held
  | crew {platform : Platform} {blockSize blockCount alignment size : Nat}
      {strategy : SyncStrategy} {pool : SharedPool} {schedule : List (Nat × Choice)} {after : Crew}
      (hnew : SharedPool.new build platform blockSize blockCount alignment strategy = .ok pool)
      (placed : pool.slots.region.Placed)
      (hrun : Crew.run build schedule (.assemble pool size) = .ok () after) :
      InUse build (.sharedPool after.pool) ((Crew.heldBy after.workers).map pool.holding)

theorem Tenancy.Sound.houses {tenancy : Tenancy} (h : tenancy.Sound) (build : Build)
    (hreleases : (tenancy.engine.forBuild build).Releases)
    (hmem : holding ∈ tenancy.held) : (tenancy.engine.forBuild build).Houses holding := by
  cases h with
  | pool guise peak pool held hholds =>
    obtain ⟨free, hpool⟩ := hholds.exists_shares
    obtain ⟨index, rfl, hlt, -⟩ := hpool.exists_of_mem hmem
    have hindex : index < (pool.slots.forBuild build).count := by rwa [SlotArray.count_forBuild]
    have hhouses := houses_slot (slots?_engine guise peak (pool.forBuild build))
      (hpool.represents.laid.forBuild build) hindex
    rw [forBuild_engine]
    rwa [Pool.region_forBuild, Pool.stride_forBuild] at hhouses
  | stack => cases build <;> cases hreleases
  | freeList list held hholds =>
    obtain ⟨leases, htiled, rfl⟩ := hholds
    obtain ⟨lease, hlease, rfl⟩ := List.mem_map.mp hmem
    exact htiled.houses hlease
  | region => cases build <;> cases hreleases

theorem InUse.houses (h : InUse build engine held)
    (hreleases : engine.Releases) (hmem : holding ∈ held) :
    engine.Houses holding := by
  cases h with
  | alone hreachable =>
    obtain ⟨sound, hsound, rfl⟩ := hreachable.exists_sound
    exact hsound.houses build hreleases hmem
  | @crew _ _ _ _ size _ pool schedule after hnew hplaced hrun =>
    obtain ⟨index, hindex, rfl⟩ := List.mem_map.mp hmem
    obtain ⟨hledger, -, hpeak⟩ := SharedPool.ledger_new hnew
    obtain ⟨after', -, free, highest, hrun', -, hsound, -⟩ :=
      (Crew.sound_assemble hledger hpeak size).run schedule
    rw [hrun] at hrun'
    cases hrun'
    have howned := (Crew.heldBy_sublist after.workers).subset hindex
    have hslots : (Engine.sharedPool after.pool).slots? = some after.pool.slots := rfl
    have hhouses := houses_slot hslots hsound.ledger.laid (hsound.ledger.lt_of_mem_owned howned)
    have hplace : after.pool.place = pool.place := (Crew.keeps_run schedule).of_ok hrun
    rw [← SharedPool.holding_of_place hplace]
    exact hhouses

/-- **Ownership.** Take any engine that takes memory back one by one, in any state that callers who
keep the contract can bring about, in either build, and memory that is held of it. The engine owns
the address, and no engine apart from it does, unless the address is the end of the region. That is
so only for no bytes at all of a free list; it is not owned then, and nobody else owns it but an
engine whose region begins there. -/
theorem InUse.owns_held (h : InUse build engine held)
    (hreleases : engine.Releases) (hmem : holding ∈ held) :
    (holding.address ≠ engine.memory.stop → engine.owns? holding.address = some true) ∧
      (holding.address = engine.memory.stop → holding.size = 0 ∧ (∃ list, engine = .freeList list) ∧
        engine.owns? holding.address = some false) ∧
      ∀ other : Engine, other.memory.Apart engine.memory →
        (holding.address = engine.memory.stop → other.memory.base ≠ holding.address) →
        other.owns? holding.address ≠ some true := by
  obtain ⟨hbase, hstop, howns, hlist⟩ := h.houses hreleases hmem
  refine ⟨fun hne ↦ ?_, fun heq ↦ ⟨?_, hlist heq, ?_⟩, fun other hapart hnext hother ↦ ?_⟩
  · rw [howns, decide_eq_true (by omega)]
  · omega
  · rw [howns, decide_eq_false (by omega)]
  · obtain ⟨hle, hlt⟩ := other.memory.contains_iff.mp (contains_of_owns hother)
    rcases hapart with hbelow | habove
    · omega
    · -- an address at or behind the end that another engine owns is where that one begins
      have heq : holding.address = engine.memory.stop := by omega
      exact hnext heq (by omega)

/-- Two engines side by side. A free list of 64 bytes has eight of them in use and, behind the last
header there is room for, none; the pool begins where it ends. -/
theorem exists_inUse_side_by_side : ∃ list pool,
    InUse .checked list [⟨4160, 0⟩, ⟨4112, 8⟩] ∧ InUse .checked pool [] ∧
      list.Releases ∧ list.memory.stop = 4160 ∧ pool.memory.base = 4160 ∧
      list.owns? 4160 = some false ∧ pool.owns? 4160 = some true := by
  have hlist : Engine.new .checked ⟨fun _ _ ↦ true, fun _ ↦ 4096, fun _ ↦ 9⟩
      (.freeList { size := 64, alignment := 64 } .firstFit) = .ok (.freeList
        (FreeList.setNode ⟨⟨4096, 64, fillBytes 64 fun _ ↦ 9⟩, .firstFit, 0, 0, 0⟩ 0
          ⟨64, chainEnd⟩)) := rfl
  have hpool : Engine.new .checked ⟨fun _ _ ↦ true, fun _ ↦ 4160, fun _ ↦ 9⟩ (.pool 16 1 16) =
      .ok (.pool ⟨⟨SlotArray.chainSlots ⟨4160, 16, fillBytes 16 fun _ ↦ 9⟩ 16 1, 16, 1, #[false]⟩,
        0, 0⟩) := rfl
  obtain ⟨_, after, hrun, hreachable⟩ := Tenancy.exists_reachable hlist
    ⟨by decide +kernel, by decide +kernel, by decide +kernel⟩ [.take 8 8, .take 0 64]
  obtain ⟨_, other, hrun', hreachable'⟩ := Tenancy.exists_reachable hpool
    ⟨by decide +kernel, by decide +kernel, by decide +kernel⟩ []
  have heval : (fun after : Tenancy ↦ (after.held, after.engine.capabilities?,
        after.engine.memory.stop, after.engine.owns? 4160))
      (Call.settled (run (Tenancy.step .checked) [.take 8 8, .take 0 64]
        ⟨.freeList (FreeList.setNode ⟨⟨4096, 64, fillBytes 64 fun _ ↦ 9⟩, .firstFit, 0, 0, 0⟩ 0
          ⟨64, chainEnd⟩), []⟩)).2 =
      ([⟨4160, 0⟩, ⟨4112, 8⟩], some FreeList.capabilities, 4160, some false) := by decide +kernel
  have heval' : (fun after : Tenancy ↦ (after.held, after.engine.memory.base,
        after.engine.owns? 4160))
      (Call.settled (run (Tenancy.step .checked) [] ⟨.pool ⟨⟨SlotArray.chainSlots
        ⟨4160, 16, fillBytes 16 fun _ ↦ 9⟩ 16 1, 16, 1, #[false]⟩, 0, 0⟩, []⟩)).2 =
      ([], 4160, some true) := by decide +kernel
  rw [hrun] at heval
  rw [hrun'] at heval'
  simp only [Call.settled, Prod.mk.injEq] at heval heval'
  obtain ⟨hheld, hcapabilities, hstop, howns⟩ := heval
  obtain ⟨hheld', hbase, howns'⟩ := heval'
  refine ⟨after.engine, other.engine, ?_, ?_, ?_, hstop, hbase, howns, howns'⟩
  · rw [← hheld]
    exact .alone hreachable
  · rw [← hheld']
    exact .alone hreachable'
  · rw [Releases, hcapabilities]
    rfl

/-- The free list owns the bytes in use and not its end; the pool owns nothing below its own. -/
theorem owns_held_side_by_side : ∃ list pool,
    InUse .checked list [⟨4160, 0⟩, ⟨4112, 8⟩] ∧ InUse .checked pool [] ∧ list.Releases ∧
      pool.memory.Apart list.memory ∧ list.owns? 4112 = some true ∧
      list.owns? 4160 = some false ∧ pool.owns? 4112 ≠ some true := by
  obtain ⟨list, pool, hlist, hpool, hreleases, hstop, hbase, -, -⟩ := exists_inUse_side_by_side
  have hapart : pool.memory.Apart list.memory := Or.inr (by rw [hstop, hbase])
  have hne : 4112 ≠ list.memory.stop := by
    rw [hstop]
    decide
  have hfirst : (⟨4112, 8⟩ : Holding) ∈ [⟨4160, 0⟩, ⟨4112, 8⟩] := by decide
  have hsecond : (⟨4160, 0⟩ : Holding) ∈ [⟨4160, 0⟩, ⟨4112, 8⟩] := by decide
  obtain ⟨howns, -, hothers⟩ := hlist.owns_held hreleases hfirst
  obtain ⟨-, hstopped, -⟩ := hlist.owns_held hreleases hsecond
  exact ⟨list, pool, hlist, hpool, hreleases, hapart, howns hne, (hstopped hstop.symm).2.2,
    hothers pool hapart fun heq ↦ absurd heq hne⟩

/-- At the end of a region the address of no bytes is not owned, or owned by another engine. -/
theorem owns_fails_at_stop : ∃ list pool,
    InUse .checked list [⟨4160, 0⟩, ⟨4112, 8⟩] ∧ InUse .checked pool [] ∧ list.Releases ∧
      pool.memory.Apart list.memory ∧ list.owns? 4160 = some false ∧
      pool.owns? 4160 = some true := by
  obtain ⟨list, pool, hlist, hpool, hreleases, hstop, hbase, howns, howns'⟩ :=
    exists_inUse_side_by_side
  have hapart : pool.memory.Apart list.memory := Or.inr (by rw [hstop, hbase])
  exact ⟨list, pool, hlist, hpool, hreleases, hapart, howns, howns'⟩

end Engine

end Suballoc
