import Suballoc.Proofs.Pool

/-!
# Pools in the two builds

A checked build keeps a flag per slot, an unchecked one keeps none, and nothing else tells the state
of one from that of the other. `forBuild` drops the flags that a build does not keep. Everything
that happens to a pool commutes with it, so what is known about the checked pool is known about the
unchecked one.
-/

namespace Suballoc

namespace SlotArray

/-- The slots without the flags that a build does not keep. -/
def forBuild (build : Build) (slots : SlotArray) : SlotArray :=
  match build with
  | .checked => slots
  | .unchecked => { slots with live := #[] }

section ForBuild

variable (build : Build) (slots : SlotArray) (index offset next : Nat) (flag : Bool)

@[simp] theorem region_forBuild : (slots.forBuild build).region = slots.region := by
  cases build <;> rfl

@[simp] theorem stride_forBuild : (slots.forBuild build).stride = slots.stride := by
  cases build <;> rfl

@[simp] theorem count_forBuild : (slots.forBuild build).count = slots.count := by
  cases build <;> rfl

theorem setLive_forBuild :
    (slots.forBuild build).setLive index flag = (slots.setLive index flag).forBuild build := by
  cases build with
  | checked => rfl
  | unchecked => simp [forBuild, setLive]

theorem setLink_forBuild :
    (slots.forBuild build).setLink offset next = (slots.setLink offset next).forBuild build := by
  cases build <;> rfl

end ForBuild

theorem Laid.forBuild {slots : SlotArray} (build : Build) (h : slots.Laid) :
    (slots.forBuild build).Laid :=
  h.congr (stride_forBuild _ _) (count_forBuild _ _) (congrArg Region.size (region_forBuild _ _))

/-- A build that keeps no flags is never wrong about them. -/
theorem Flagged.forBuild {slots : SlotArray} {Held : Nat → Prop} (build : Build)
    (h : Flagged .checked slots Held) : Flagged build (slots.forBuild build) Held := by
  cases build with
  | checked => exact h
  | unchecked => exact ⟨rfl, nofun⟩

theorem new_forBuild (build : Build) (platform : Platform) (blockSize blockCount alignment : Nat) :
    new build platform blockSize blockCount alignment =
      (new .checked platform blockSize blockCount alignment).map (forBuild build) := by
  rw [new, new]
  cases layout blockSize blockCount alignment with
  | error => rfl
  | ok laid =>
    obtain ⟨stride, wanted⟩ := laid
    rw [Call.ok_bind, Call.ok_bind]
    dsimp only
    cases Region.reserve platform wanted with
    | error => rfl
    | ok region => cases build <;> rfl

end SlotArray

namespace Pool

/-- The pool without the flags that a build does not keep. -/
def forBuild (build : Build) (pool : Pool) : Pool :=
  { pool with slots := pool.slots.forBuild build }

section ForBuild

variable (build : Build) (pool : Pool) (index offset : Nat) (values : List UInt8)

@[simp] theorem capacity_forBuild : (pool.forBuild build).capacity = pool.capacity :=
  SlotArray.count_forBuild build pool.slots

@[simp] theorem region_forBuild : (pool.forBuild build).slots.region = pool.slots.region :=
  SlotArray.region_forBuild build pool.slots

@[simp] theorem stride_forBuild : (pool.forBuild build).slots.stride = pool.slots.stride :=
  SlotArray.stride_forBuild build pool.slots

@[simp] theorem blockSize_forBuild : (pool.forBuild build).blockSize = pool.blockSize :=
  SlotArray.stride_forBuild build pool.slots

@[simp] theorem slotAddress_forBuild : (pool.forBuild build).slotAddress = pool.slotAddress := by
  funext other
  rw [slotAddress, region_forBuild, stride_forBuild, slotAddress]

theorem popped_forBuild :
    (pool.forBuild build).popped index = (pool.popped index).forBuild build := by
  rw [popped, popped, forBuild, forBuild, SlotArray.setLive_forBuild, SlotArray.region_forBuild,
    SlotArray.stride_forBuild]

theorem pushed_forBuild :
    (pool.forBuild build).pushed index = (pool.pushed index).forBuild build := by
  rw [pushed, pushed, forBuild, forBuild, SlotArray.setLive_forBuild, SlotArray.setLink_forBuild,
    SlotArray.stride_forBuild]

theorem write_forBuild :
    (pool.forBuild build).write index offset values =
      (pool.write index offset values).forBuild build := by
  cases build <;> rfl

end ForBuild

/-- **Representation carries over.** The unchecked pool represents the list of the checked one. -/
theorem Represents.forBuild {pool : Pool} {free : List Nat} (build : Build)
    (h : pool.Represents .checked free) : (pool.forBuild build).Represents build free where
  laid := h.laid.forBuild build
  base_pos := by
    rw [region_forBuild]
    exact h.base_pos
  stop_lt := by
    rw [region_forBuild]
    exact h.stop_lt
  chained := by
    rw [region_forBuild, stride_forBuild]
    exact h.chained
  nodup := h.nodup
  lt_capacity := by
    rw [capacity_forBuild]
    exact h.lt_capacity
  allocated_add := by
    rw [capacity_forBuild]
    exact h.allocated_add
  flagged := h.flagged.forBuild build

theorem new_forBuild (build : Build) (platform : Platform) (blockSize blockCount alignment : Nat) :
    new build platform blockSize blockCount alignment =
      (new .checked platform blockSize blockCount alignment).map (forBuild build) := by
  rw [new, new, SlotArray.new_forBuild]
  cases SlotArray.new .checked platform blockSize blockCount alignment <;> rfl

end Pool

end Suballoc
