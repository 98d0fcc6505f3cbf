import Suballoc.Proofs.Engine.Ownership
import Suballoc.Proofs.FreeList.Guarded
import Suballoc.Proofs.SharedPool.Guarded

/-!
# Engines stay inside their memory

A call that accesses memory outside the region is no fault here, so nothing that is proved of calls
says by itself that they do not. It follows from the invariants: in every state that callers can
bring about, the calls that they may make are the guarded ones, which fault at such an access. The
same is true of what callers write to memory that they hold, since held memory lies in the region.

The marks, rewinds and scopes of a stack are not among the calls: they move its cursor and access no
memory.
-/

namespace Suballoc

open Suballoc.Tenancy (exists_run)

namespace Engine

/-! ## Guarded calls -/

namespace Guarded

/-- Take memory. -/
def allocate (build : Build) (size alignment : Nat) :
    Engine → Option (Except Fault (Option Nat)) × Engine
  | .pool p => settle .pool (Pool.Guarded.allocate build p)
  | .sharedPool p => settle .sharedPool (SharedPool.Guarded.allocate build p)
  | .stack state =>
    settle .stack (ScopedStack.within (Stack.Guarded.allocate build size alignment) state)
  | .freeList list => settle .freeList (FreeList.Guarded.allocate build size alignment list)
  | .region r => (none, .region r)

/-- Give memory back. -/
def release (build : Build) (address : Nat) : Engine → Option (Except Fault Unit) × Engine
  | .pool p => settle .pool (Pool.Guarded.release build address p)
  | .sharedPool p => settle .sharedPool (SharedPool.Guarded.release build address p)
  | .freeList list => settle .freeList (FreeList.Guarded.release build address list)
  | .stack state => (none, .stack state)
  | .region r => (none, .region r)

/-- Write to the memory of an engine. -/
def write (offset : Nat) (values : List UInt8) (engine : Engine) : Except Fault Engine := do
  engine.memory.inside offset values.length
  return engine.write offset values

end Guarded

variable {build : Build} {engine : Engine} {held : List Holding} {holding : Holding}

theorem guarded_release_null (build : Build) (engine : Engine) :
    Guarded.release build 0 engine = engine.release build 0 := by
  cases engine with
  | pool p =>
    rw [Guarded.release, release, Pool.Guarded.release, Pool.release, if_pos rfl, if_pos rfl]
  | sharedPool p =>
    rw [Guarded.release, release, SharedPool.Guarded.release, SharedPool.release, if_pos rfl,
      if_pos rfl]
  | freeList list =>
    rw [Guarded.release, release, FreeList.Guarded.release, FreeList.release, if_pos rfl,
      if_pos rfl]
  | stack | region => rfl

/-! ## Held memory -/

/-- Held memory lies in the region. -/
structure Encloses (engine : Engine) (holding : Holding) : Prop where
  base_le : engine.memory.base ≤ holding.address
  stop_le : holding.address + holding.size ≤ engine.memory.stop

theorem Houses.encloses (h : engine.Houses holding) : engine.Encloses holding :=
  ⟨h.base_le, h.stop_le⟩

theorem Encloses.congr {after : Engine} (h : engine.Encloses holding)
    (hbase : after.memory.base = engine.memory.base)
    (hsize : after.memory.size = engine.memory.size) : after.Encloses holding := by
  obtain ⟨hbase_le, hstop_le⟩ := h
  refine ⟨hbase ▸ hbase_le, ?_⟩
  rwa [Region.stop, hbase, hsize, ← Region.stop]

theorem Encloses.guarded_write {address : Nat} {values : List UInt8}
    (h : engine.Encloses holding) (hspans : holding.spans address values.length = true) :
    Guarded.write (address - engine.memory.base) values engine =
      .ok (engine.write (address - engine.memory.base) values) := by
  obtain ⟨hle, hstop⟩ := holding.spans_iff.mp hspans
  have hbase := h.base_le
  have hend := h.stop_le
  rw [Region.stop] at hend
  rw [Guarded.write, Region.inside_eq (by omega), Call.ok_bind]
  rfl

end Engine

/-- On a stack, memory is held below the end of the region, if not below the cursor. -/
theorem ScopedStack.Effect.encloses {state next : ScopedStack} {held rest : List Holding}
    {errand : Engine.Errand} {outcome : Outcome} (h : state.Effect held errand outcome next rest)
    (hheld : ∀ holding ∈ held, (Engine.stack state).Encloses holding) :
    ∀ holding ∈ rest, (Engine.stack next).Encloses holding := by
  cases h with
  | idle | full => exact hheld
  | @taken size alignment first hpow hroom =>
    obtain ⟨-, -, hfits, -⟩ := Stack.room?_eq_some hpow hroom
    have hregion := Stack.region_taken state.stack first size
    refine List.forall_mem_cons.mpr ⟨⟨?_, ?_⟩, fun holding hmem ↦ (hheld holding hmem).congr ?_ ?_⟩
    · show (state.stack.taken first size).region.base ≤ state.stack.region.base + first
      rw [hregion]
      exact Nat.le_add_right _ _
    · show state.stack.region.base + first + size ≤ (state.stack.taken first size).region.stop
      rw [hregion, Region.stop, Nat.add_assoc]
      exact Nat.add_le_add_left hfits _
    · exact congrArg Region.base hregion
    · exact congrArg Region.size hregion
  | written =>
    exact fun holding hmem ↦
      (hheld holding hmem).congr (Region.base_write _ _ _) (Region.size_write _ _ _)
  | @acted _ what hact =>
    have hregion := region_acted state what
    exact fun holding hmem ↦ (hheld holding (List.mem_of_mem_filter hmem)).congr
      (congrArg Region.base hregion) (congrArg Region.size hregion)

/-! ## Pools in any guise -/

namespace Guise

variable {build : Build} {pool : Pool} {free : List Nat} {index : Nat} (guise : Guise) (peak : Nat)

theorem guarded_allocate (size alignment : Nat) (h : pool.Represents build free) :
    Engine.Guarded.allocate build size alignment (guise.engine peak pool) =
      (guise.engine peak pool).allocate build size alignment := by
  cases guise with
  | own => rw [engine, Engine.Guarded.allocate, Engine.allocate, h.guarded_allocate]
  | shared strategy =>
    have hguarded : SharedPool.Guarded.allocate build (pool.shared strategy peak) =
        SharedPool.allocate build (pool.shared strategy peak) :=
      SharedPool.guarded_allocate h.laid h.head_lt
    rw [engine, Engine.Guarded.allocate, Engine.allocate, hguarded]

theorem guarded_release (h : pool.Represents build free) (hindex : index < pool.capacity)
    (hfree : index ∉ free) :
    Engine.Guarded.release build (pool.slotAddress index) (guise.engine peak pool) =
      (guise.engine peak pool).release build (pool.slotAddress index) := by
  cases guise with
  | own =>
    rw [engine, Engine.Guarded.release, Engine.release, h.guarded_release hindex hfree]
  | shared strategy =>
    rw [engine, Engine.Guarded.release, Engine.release,
      SharedPool.guarded_release strategy peak h hindex hfree]

end Guise

/-! ## Engines in use -/

namespace Engine.Tenancy

variable {build : Build} {tenancy : Tenancy}

/-- What callers may do next stays inside: a call does what the guarded one does, and so does a
write to held memory. -/
structure Confined (build : Build) (tenancy : Tenancy) : Prop where
  allocate : ∀ size alignment, Guarded.allocate build size alignment tenancy.engine =
    tenancy.engine.allocate build size alignment
  release : ∀ address, (address = 0 ∨ ∃ holding ∈ tenancy.held, holding.address = address) →
    Guarded.release build address tenancy.engine = tenancy.engine.release build address
  write : ∀ address values, tenancy.held.any (·.spans address values.length) = true →
    Guarded.write (address - tenancy.engine.memory.base) values tenancy.engine =
      .ok (tenancy.engine.write (address - tenancy.engine.memory.base) values)

theorem Sound.encloses_step (errand : Errand) (h : tenancy.Sound)
    (hheld : ∀ holding ∈ tenancy.held, (tenancy.engine.forBuild build).Encloses holding) :
    ∃ outcome after, Sound after ∧
      Tenancy.step build errand (tenancy.forBuild build) = .ok outcome (after.forBuild build) ∧
      ∀ holding ∈ after.held, (after.engine.forBuild build).Encloses holding := by
  cases h with
  | pool guise peak pool held hholds hfits hpeak =>
    obtain ⟨outcome, next, rest, hserves⟩ := hholds.serves errand
    have hsound : Sound ⟨guise.engine (max peak next.allocated) next, rest⟩ :=
      .pool _ _ _ _ hserves.holds (hserves.capacity_eq ▸ hfits) (Nat.le_max_right _ _)
    refine ⟨outcome, _, hsound, ?_, fun holding hmem ↦ (hsound.houses build ?_ hmem).encloses⟩
    · rw [forBuild, forBuild, forBuild_engine, forBuild_engine]
      exact hserves.step_eq build guise peak hfits hpeak
    · cases guise <;> cases build <;> rfl
  | stack state held hbounded =>
    obtain ⟨outcome, next, rest, heffect⟩ := ScopedStack.exists_effect errand state held
    exact ⟨outcome, ⟨.stack next, rest⟩, .stack _ _ (heffect.bounded hbounded),
      heffect.step_eq hbounded build, heffect.encloses hheld⟩
  | freeList list held hholds =>
    obtain ⟨outcome, next, rest, hserves⟩ := hholds.serves errand
    have hsound : Sound ⟨.freeList next, rest⟩ := .freeList _ _ hserves.holds
    exact ⟨outcome, _, hsound, hserves.step_eq build,
      fun holding hmem ↦ (hsound.houses build rfl hmem).encloses⟩
  | region memory held =>
    obtain ⟨outcome, next, hbase, hsize, hserves⟩ := memory.serves errand held
    exact ⟨outcome, ⟨.region next, held⟩, .region _ _, hserves build,
      fun holding hmem ↦ (hheld holding hmem).congr hbase hsize⟩

/-- What a build sees of a sound tenancy, with all held memory in the region. -/
structure Enclosed (build : Build) (tenancy : Tenancy) : Prop where
  exists_sound : ∃ sound, Sound sound ∧ tenancy = sound.forBuild build
  encloses : ∀ holding ∈ tenancy.held, tenancy.engine.Encloses holding

theorem Enclosed.exists_step (errand : Errand) (h : tenancy.Enclosed build) :
    ∃ outcome after, step build errand tenancy = .ok outcome after ∧ after.Enclosed build := by
  obtain ⟨⟨sound, hsound, rfl⟩, hheld⟩ := h
  obtain ⟨outcome, after, hafter, hstep, hrest⟩ := hsound.encloses_step errand hheld
  exact ⟨outcome, _, hstep, ⟨after, hafter, rfl⟩, hrest⟩

theorem Reachable.enclosed (h : tenancy.Reachable build) : tenancy.Enclosed build := by
  obtain ⟨platform, recipe, engine, errands, answers, hnew, hplaced, hrun⟩ := h
  rw [Engine.new_forBuild] at hnew
  obtain ⟨checked, hchecked, rfl⟩ := Call.map_eq_ok.mp hnew
  rw [memory_forBuild] at hplaced
  have hstart : Enclosed build ⟨checked.forBuild build, []⟩ :=
    ⟨⟨_, sound_new hchecked hplaced, rfl⟩, fun _ hmem ↦ absurd hmem List.not_mem_nil⟩
  obtain ⟨_, after, hrun', hafter⟩ := exists_run (Enclosed build)
    (fun errand _ ↦ Enclosed.exists_step errand) errands hstart
  rw [hrun] at hrun'
  cases hrun'
  exact hafter

theorem Sound.guarded_allocate (h : tenancy.Sound) (build : Build) (size alignment : Nat) :
    Guarded.allocate build size alignment (tenancy.engine.forBuild build) =
      (tenancy.engine.forBuild build).allocate build size alignment := by
  cases h with
  | pool guise peak pool held hholds =>
    obtain ⟨free, hpool⟩ := hholds.exists_shares
    rw [forBuild_engine]
    exact guise.guarded_allocate peak size alignment (hpool.represents.forBuild build)
  | stack state held =>
    exact congrArg (fun call ↦ settle Engine.stack (ScopedStack.within call state))
      (Stack.guarded_allocate build size alignment)
  | freeList list held hholds =>
    obtain ⟨leases, htiled, -⟩ := hholds
    exact congrArg (settle Engine.freeList) (htiled.guarded_allocate build size alignment)
  | region => rfl

theorem Sound.guarded_release (h : tenancy.Sound) (build : Build) {holding : Holding}
    (hmem : holding ∈ tenancy.held) :
    Guarded.release build holding.address (tenancy.engine.forBuild build) =
      (tenancy.engine.forBuild build).release build holding.address := by
  cases h with
  | pool guise peak pool held hholds =>
    obtain ⟨free, hpool⟩ := hholds.exists_shares
    obtain ⟨index, rfl, hindex, hfree⟩ := hpool.exists_of_mem hmem
    have hguarded := guise.guarded_release peak (hpool.represents.forBuild build)
      (by rwa [Pool.capacity_forBuild]) hfree
    rw [Pool.slotAddress_forBuild] at hguarded
    rw [forBuild_engine]
    exact hguarded
  | freeList list held hholds =>
    obtain ⟨leases, htiled, rfl⟩ := hholds
    obtain ⟨lease, hlease, rfl⟩ := List.mem_map.mp hmem
    exact congrArg (settle Engine.freeList) (htiled.guarded_release build hlease)
  | stack | region => rfl

/-- **Confinement.** In every state that callers can bring about, none of the calls that they may
make next accesses memory outside the region, and neither do their own writes. -/
theorem Reachable.confined (h : tenancy.Reachable build) : tenancy.Confined build := by
  obtain ⟨⟨sound, hsound, rfl⟩, hheld⟩ := h.enclosed
  refine ⟨fun size alignment ↦ hsound.guarded_allocate build size alignment, ?_, ?_⟩
  · rintro address (rfl | ⟨holding, hmem, rfl⟩)
    · exact guarded_release_null build _
    · exact hsound.guarded_release build hmem
  · intro address values hmay
    obtain ⟨holding, hmem, hspans⟩ := List.any_eq_true.mp hmay
    exact (hheld holding hmem).guarded_write hspans

end Engine.Tenancy

end Suballoc
