import Suballoc.Proofs.Guarded
import Suballoc.Proofs.SharedPool.Safety
import Suballoc.Proofs.SharedPool.Sequential

/-!
# Guarded pools

Pools read and write one kind of word, the link of a free slot. Here each of these accesses faults
unless the link lies in the region, and so does what a worker of a crew writes to a block it holds.

A link lies in the region if its slot is one of the array. Slots are named by the head of the chain,
which the invariants of the pools keep among the free slots, and by callers that give back what they
hold. In a crew that is so at every moment, since a slot on its way to the chain has an owner still.
-/

namespace Suballoc

/-! ## Slot arrays -/

namespace SlotArray

/-- Read the link of a free slot. -/
def Guarded.link (build : Build) (slots : SlotArray) (index : Nat) : Except Fault Nat := do
  let offset ← slots.linkOffset build index
  slots.region.inside offset Word.width
  return slots.region.word offset

/-- Write a link. -/
def Guarded.setLink (slots : SlotArray) (offset next : Nat) : Except Fault SlotArray := do
  slots.region.inside offset Word.width
  return slots.setLink offset next

namespace Laid

variable {slots : SlotArray} {index : Nat}

theorem link_le (h : slots.Laid) (hindex : index < slots.count) :
    index * slots.stride + Word.width ≤ slots.region.size :=
  Nat.le_trans (Nat.add_le_add_left h.width_le _) (h.slot_le hindex)

theorem guarded_link (build : Build) (h : slots.Laid) (hindex : index < slots.count) :
    Guarded.link build slots index = slots.link build index := by
  rw [Guarded.link, link, h.linkOffset_eq build hindex, Call.ok_bind,
    Region.inside_eq (h.link_le hindex), Call.ok_bind, Call.ok_bind]

theorem guarded_setLink (next : Nat) (h : slots.Laid) (hindex : index < slots.count) :
    Guarded.setLink slots (index * slots.stride) next =
      .ok (slots.setLink (index * slots.stride) next) := by
  rw [Guarded.setLink, Region.inside_eq (h.link_le hindex), Call.ok_bind]
  rfl

end Laid

end SlotArray

/-! ## Pools -/

namespace Pool

namespace Guarded

/-- Take a block. -/
def allocate (build : Build) : Call Pool (Option Nat) := do
  let index := (← get).head
  if index = chainEnd then return none
  let next ← SlotArray.Guarded.link build (← get).slots index
  modify fun pool ↦ { pool with head := next }
  let allocated ← build.add (← get).allocated 1
  modify fun pool ↦ { pool with allocated }
  let held := (← get).slots.isLive index
  modify fun pool ↦ { pool with slots := pool.slots.setLive index true }
  build.require (.slotStillLive index) !held
  return some (← (← get).slots.address build index)

/-- Give a block back; the null address is ignored. -/
def release (build : Build) (address : Nat) : Call Pool Unit := do
  if address = 0 then return
  build.require .noLiveBlocks (0 < (← get).allocated)
  let index ← (← get).slots.indexOf build address
  let held := (← get).slots.isLive index
  modify fun pool ↦ { pool with slots := pool.slots.setLive index false }
  build.require (.slotReleasedTwice index) held
  let offset ← (← get).slots.linkOffset build index
  let slots ← SlotArray.Guarded.setLink (← get).slots offset (← get).head
  modify fun pool ↦ { pool with slots, head := index }
  let allocated ← build.sub (← get).allocated 1
  modify fun pool ↦ { pool with allocated }

end Guarded

namespace Represents

variable {build : Build} {pool : Pool} {free : List Nat} {index : Nat}

theorem head_lt (h : Represents build pool free) :
    pool.head = chainEnd ∨ pool.head < pool.slots.count :=
  h.chained.first_mem.imp_right (h.lt_capacity _)

/-- **Taking stays inside.** -/
theorem guarded_allocate (h : Represents build pool free) :
    Guarded.allocate build pool = allocate build pool := by
  rw [Guarded.allocate, allocate]
  simp only [Call.run_bind, Call.run_get]
  by_cases hends : pool.head = chainEnd
  · rw [if_pos hends, if_pos hends]
  · have hlink := h.laid.guarded_link build (h.head_lt.resolve_left hends)
    rw [if_neg hends, if_neg hends]
    simp only [Call.run_bind, Call.run_get, hlink]

/-- **Giving back stays inside.** -/
theorem guarded_release (h : Represents build pool free) (hindex : index < pool.capacity)
    (hfree : index ∉ free) :
    Guarded.release build (pool.slotAddress index) pool =
      release build (pool.slotAddress index) pool := by
  have hlive : decide (0 < pool.allocated) = true := decide_eq_true (h.allocated_pos hindex hfree)
  have hflag := h.flagged.require_isLive hindex hfree (.slotReleasedTwice index)
  have hoffset : (pool.slots.setLive index false).linkOffset build index =
      .ok (index * pool.slots.stride) := h.laid.linkOffset_eq build hindex
  have hlaid : (pool.slots.setLive index false).Laid := h.laid.congr rfl rfl rfl
  have hlink : SlotArray.Guarded.setLink (pool.slots.setLive index false)
      (index * pool.slots.stride) pool.head =
        .ok ((pool.slots.setLive index false).setLink (index * pool.slots.stride) pool.head) :=
    hlaid.guarded_setLink pool.head hindex
  rw [Guarded.release, release, if_neg (h.slotAddress_ne_zero index),
    if_neg (h.slotAddress_ne_zero index)]
  simp only [Call.run_bind, Call.run_get, hlive, Build.require_true, Call.run_lift_ok,
    h.indexOf_slotAddress hindex, Call.run_modify, hflag, hoffset, hlink]

end Represents

end Pool

/-! ## Shared pools -/

namespace SharedPool

namespace Guarded

/-- Pop the chain, or find it empty. -/
def pop (build : Build) : Call SharedPool (Option Nat) := do
  let index := (← get).head
  if index = chainEnd then return none
  let next ← SlotArray.Guarded.link build (← get).slots index
  modify fun pool ↦ { pool with head := pool.strategy.stored next }
  return some index

/-- Push a slot on the chain. -/
def push (build : Build) (index : Nat) : Call SharedPool Unit := do
  let offset ← (← get).slots.linkOffset build index
  let slots ← SlotArray.Guarded.setLink (← get).slots offset (← get).head
  modify fun pool ↦ { pool with slots, head := pool.strategy.stored index }

/-- Write to a block, from an offset inside it on. -/
def write (index offset : Nat) (values : List UInt8) : Call SharedPool Unit := do
  let slots := (← get).slots
  slots.region.inside (index * slots.stride + offset) values.length
  modify fun pool ↦ pool.write index offset values

/-- Take a block, undisturbed. -/
def allocate (build : Build) : Call SharedPool (Option Nat) := do
  match ← pop build with
  | none => return none
  | some index =>
    raisePeak (← countUp build)
    markLive build index
    return some (← (← get).slots.address build index)

/-- Give a block back, undisturbed; the null address is ignored. -/
def release (build : Build) (address : Nat) : Call SharedPool Unit := do
  if address = 0 then return
  let index ← (← get).slots.indexOf build address
  markFree build index
  countDown build
  push build index

end Guarded

variable {build : Build} {pool : SharedPool} {index : Nat}

theorem guarded_pop (hlaid : pool.slots.Laid)
    (hhead : pool.head = chainEnd ∨ pool.head < pool.slots.count) :
    Guarded.pop build pool = pop build pool := by
  rw [Guarded.pop, pop]
  simp only [Call.run_bind, Call.run_get]
  by_cases hends : pool.head = chainEnd
  · rw [if_pos hends, if_pos hends]
  · have hlink := hlaid.guarded_link build (hhead.resolve_left hends)
    rw [if_neg hends, if_neg hends]
    simp only [Call.run_bind, Call.run_get, hlink]

theorem guarded_push (hlaid : pool.slots.Laid) (hindex : index < pool.slots.count) :
    Guarded.push build index pool = push build index pool := by
  rw [Guarded.push, push]
  simp only [Call.run_bind, Call.run_get, hlaid.linkOffset_eq build hindex,
    hlaid.guarded_setLink _ hindex, Call.run_lift_ok, Call.run_modify]

theorem guarded_write (offset : Nat) (values : List UInt8) (hlaid : pool.slots.Laid)
    (hindex : index < pool.slots.count) (hfits : offset + values.length ≤ pool.slots.stride) :
    Guarded.write index offset values pool = .ok () (pool.write index offset values) := by
  have hslot := hlaid.slot_le hindex
  have hinside : pool.slots.region.inside (index * pool.slots.stride + offset) values.length =
      .ok () := Region.inside_eq (by omega)
  rw [Guarded.write]
  simp only [Call.run_bind, Call.run_get, hinside, Call.run_lift_ok, Call.run_modify]

theorem guarded_allocate (hlaid : pool.slots.Laid)
    (hhead : pool.head = chainEnd ∨ pool.head < pool.slots.count) :
    Guarded.allocate build pool = allocate build pool :=
  Call.run_bind_congr _ (guarded_pop hlaid hhead)

/-- **Giving back stays inside.** -/
theorem guarded_release {pool : Pool} {free : List Nat} (strategy : SyncStrategy) (peak : Nat)
    (h : pool.Represents build free) (hindex : index < pool.capacity) (hfree : index ∉ free) :
    Guarded.release build (pool.slotAddress index) (pool.shared strategy peak) =
      release build (pool.slotAddress index) (pool.shared strategy peak) := by
  have hlive : decide (0 < pool.allocated) = true := decide_eq_true (h.allocated_pos hindex hfree)
  have hflag := h.flagged.require_isLive hindex hfree (.slotReleasedTwice index)
  have hpush (allocated : Nat) : Guarded.push build index
      ⟨pool.slots.setLive index false, strategy, pool.head, allocated, peak⟩ =
        push build index
          ⟨pool.slots.setLive index false, strategy, pool.head, allocated, peak⟩ :=
    guarded_push (h.laid.congr rfl rfl rfl) hindex
  rw [Guarded.release, release, if_neg (h.slotAddress_ne_zero index),
    if_neg (h.slotAddress_ne_zero index)]
  simp only [markFree, countDown, Call.run_bind, Call.run_get, Pool.shared,
    h.indexOf_slotAddress hindex, Call.run_lift_ok, Call.run_modify, hflag, hlive,
    Build.require_true, hpush]

end SharedPool

/-! ## Crews -/

open SharedPool (Ledger)

/-- One atomic step of a worker. -/
def Worker.Guarded.advance (build : Build) (choice : Choice) (worker : Worker) :
    Call SharedPool Worker :=
  match worker.phase, choice with
  | .idle, .take => do
    match ← SharedPool.Guarded.pop build with
    | none => return worker
    | some index => return { worker with phase := .counting index }
  | .idle, .fill index offset values => do
    if index ∈ worker.held ∧ offset + values.length ≤ (← get).slots.stride then
      SharedPool.Guarded.write index offset values
    return worker
  | .pushing index, _ => do
    SharedPool.Guarded.push build index
    return { worker with phase := .idle }
  | _, _ => worker.advance build choice

theorem SharedPool.Ledger.guarded_advance {build : Build} {pool : SharedPool}
    {free owned held : List Nat} {counted : Nat} (h : Ledger build pool free owned held counted)
    {worker : Worker} (howned : worker.owned ⊆ owned) (choice : Choice) :
    Worker.Guarded.advance build choice worker pool = worker.advance build choice pool := by
  have hhead : pool.head = chainEnd ∨ pool.head < pool.slots.count :=
    h.chained.first_mem.imp_right h.lt_of_mem_free
  obtain ⟨phase, holding⟩ := worker
  cases phase with
  | idle =>
    cases choice with
    | take => exact Call.run_bind_congr _ (guarded_pop h.laid hhead)
    | give index => rfl
    | fill index offset values =>
      unfold Worker.Guarded.advance Worker.advance
      simp only [Call.run_bind, Call.run_get]
      split
      · rename_i hmay
        have hindex := h.lt_of_mem_owned (howned (List.mem_append_right _ hmay.1))
        simp only [Call.run_bind, guarded_write offset values h.laid hindex hmay.2,
          Call.run_modify]
      · rfl
  | pushing index =>
    have hindex := h.lt_of_mem_owned (howned List.mem_cons_self)
    unfold Worker.Guarded.advance Worker.advance
    simp only [Call.run_bind, guarded_push h.laid hindex]
  | counting | raising | marking | uncounting => cases choice <;> rfl

namespace Crew

namespace Guarded

/-- One atomic step of the worker of the given number. -/
def step (build : Build) (number : Nat) (choice : Choice) : Call Crew Unit := do
  match (← get).workers[number]? with
  | none => return
  | some worker =>
    let worker ← onPool (Worker.Guarded.advance build choice worker)
    modify fun crew ↦ { crew with workers := crew.workers.set number worker }

/-- One step after another, in the order of a schedule. -/
def run (build : Build) (schedule : List (Nat × Choice)) : Call Crew Unit :=
  schedule.forM fun (number, choice) ↦ step build number choice

end Guarded

variable {build : Build} {crew : Crew} {free : List Nat} {highest : Nat}

theorem Sound.guarded_step (number : Nat) (choice : Choice) (h : Sound build crew free highest) :
    Guarded.step build number choice crew = Crew.step build number choice crew := by
  obtain ⟨pool, workers⟩ := crew
  rw [Guarded.step, Crew.step]
  simp only [Call.run_bind, Call.run_get]
  cases hworker : workers[number]? with
  | none => rfl
  | some worker =>
    have howned : worker.owned ⊆ ownedBy workers := fun index hindex ↦
      List.mem_flatMap.mpr ⟨worker, List.mem_of_getElem? hworker, hindex⟩
    have hadvance := h.ledger.guarded_advance howned choice
    simp only [Call.run_bind, onPool, hadvance]

theorem Sound.guarded_run (schedule : List (Nat × Choice)) (h : Sound build crew free highest) :
    Guarded.run build schedule crew = Crew.run build schedule crew := by
  induction schedule generalizing crew free highest with
  | nil => rfl
  | cons event schedule ih =>
    obtain ⟨middle, freeMiddle, hstep, hmiddle, -⟩ := h.step event.1 event.2
    have hguarded := (h.guarded_step event.1 event.2).trans hstep
    have hrun : Crew.run build (event :: schedule) crew = Crew.run build schedule middle :=
      Call.run_bind_of_ok hstep
    calc Guarded.run build (event :: schedule) crew
        = Guarded.run build schedule middle := Call.run_bind_of_ok hguarded
      _ = Crew.run build schedule middle := ih hmiddle
      _ = Crew.run build (event :: schedule) crew := hrun.symm

/-- **Crews stay inside.** In no interleaving does a step access memory outside the region. -/
theorem guarded_run {platform : Platform} {blockSize blockCount alignment : Nat}
    {strategy : SyncStrategy} {pool : SharedPool}
    (hnew : SharedPool.new build platform blockSize blockCount alignment strategy = .ok pool)
    (size : Nat) (schedule : List (Nat × Choice)) :
    Guarded.run build schedule (.assemble pool size) =
      Crew.run build schedule (.assemble pool size) := by
  obtain ⟨hledger, -, hpeak⟩ := SharedPool.ledger_new hnew
  exact (sound_assemble hledger hpeak size).guarded_run schedule

end Crew

end Suballoc
