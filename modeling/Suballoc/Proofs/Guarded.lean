import Suballoc.FreeList.Fit
import Suballoc.Proofs.Call
import Suballoc.Proofs.Word.Alignment
import Suballoc.Stack

/-!
# Guarded calls

The calls of the engines take two liberties. An access outside the region is no fault, it reads
zeros and writes nothing; and a rounding neither tests its alignment nor takes its differences as
words. A guarded call is the same call without them: an access faults unless all its bytes lie in
the region, in either build, and a rounding asserts what it relies on.

That callers cannot tell the two apart says that a call never makes use of a liberty. Roundings need
no more than a power of two for that, whatever the state. Accesses need the invariant of an engine;
they are guarded engine by engine.
-/

namespace Suballoc

/-! ## Roundings -/

/-- Rounding up, with its assertion and with its difference in words. -/
def alignUpInWords (build : Build) (value alignment : Nat) : Except Fault (Option Nat) := do
  build.assert .powerOfTwo alignment.isPowerOfTwo
  let low ← build.sub alignment 1
  return (Word.add? value low).map fun raised ↦ raised &&& (Word.limit - 1 - low)

/-- The demand of a request at an address, with its roundings and its difference in words. -/
def demandInWords (build : Build) (address size alignment : Nat) :
    Except Fault (Option (Nat × Nat)) := do
  match Word.add? address nodeSize with
  | none => return none
  | some least =>
    match ← alignUpInWords build least alignment with
    | none => return none
    | some payload =>
      let adjustment ← build.sub payload address
      match Word.add? adjustment size with
      | none => return none
      | some total =>
        return (← alignUpInWords build total Word.width).map fun needed ↦ (adjustment, needed)

section Roundings

variable {alignment : Nat}

theorem alignUpInWords_eq (build : Build) (value : Nat) (hpow : alignment.isPowerOfTwo) :
    alignUpInWords build value alignment = .ok (alignUp? value alignment) := by
  have hpos : 1 ≤ alignment := Nat.pos_of_isPowerOfTwo hpow
  have hmask : Word.limit - 1 - (alignment - 1) = Word.limit - alignment := by omega
  rw [alignUpInWords, decide_eq_true hpow, Build.assert_true, Call.ok_bind,
    Build.sub_of_le build hpos, Call.ok_bind, Word.add?, alignUp?, hmask]
  split <;> rfl

theorem demandInWords_eq (build : Build) (address size : Nat) (hpow : alignment.isPowerOfTwo) :
    demandInWords build address size alignment = .ok (demand? address size alignment) := by
  rw [demandInWords, demand?]
  simp only [Option.bind_eq_bind]
  cases hleast : Word.add? address nodeSize with
  | none => rfl
  | some least =>
    have hroom : address + nodeSize = least :=
      Option.some.inj (Option.ite_none_right_eq_some.mp hleast).2
    dsimp only [Option.bind_some]
    rw [alignUpInWords_eq build least hpow, Call.ok_bind]
    cases hpayload : alignUp? least alignment with
    | none => rfl
    | some payload =>
      obtain ⟨-, hle, -⟩ := alignUp?_eq_some hpow hpayload
      have hdifference : build.sub payload address = .ok (payload - address) :=
        Build.sub_of_le build (by omega)
      dsimp only [Option.bind_some]
      rw [hdifference, Call.ok_bind]
      cases Word.add? (payload - address) size with
      | none => rfl
      | some total =>
        dsimp only [Option.bind_some]
        rw [alignUpInWords_eq build total isPowerOfTwo_width, Call.ok_bind]
        cases alignUp? total Word.width <;> rfl

end Roundings

/-! ## Accesses -/

namespace Region

/-- Go on if so many bytes from an offset on lie in the region. -/
def inside (region : Region) (offset length : Nat) : Except Fault Unit :=
  if offset + length ≤ region.size then .ok () else .error (.assertion .offsetInRegion)

theorem inside_eq {region : Region} {offset length : Nat} (h : offset + length ≤ region.size) :
    region.inside offset length = .ok () := if_pos h

end Region

/-! ## Stacks -/

namespace Stack

/-- The first and the last offset of a request, with the rounding in words. -/
def placeInWords (build : Build) (stack : Stack) (size alignment : Nat) :
    Except Fault (Option (Nat × Nat)) := do
  match ← alignUpInWords build (← build.add stack.region.base stack.cursor) alignment with
  | none => return none
  | some aligned =>
    let first ← build.sub aligned stack.region.base
    return (Word.add? first size).map fun last ↦ (first, last)

/-- Take bytes. A stack accesses no memory, so there is only the rounding to guard. -/
def Guarded.allocate (build : Build) (size alignment : Nat) : Call Stack (Option Nat) := do
  build.require (.alignmentNotPowerOfTwo alignment) alignment.isPowerOfTwo
  if ¬ alignment.isPowerOfTwo then return none
  match ← (← get).placeInWords build size alignment with
  | none => return none
  | some (first, last) =>
    if (← get).capacity < last then
      let _free ← (← get).available build
      return none
    if 0 < size then
      modify fun stack ↦ { stack with cursor := last, peak := max stack.peak last }
    return some (← (← get).region.address build first)

theorem placeInWords_eq (build : Build) (stack : Stack) (size : Nat) {alignment : Nat}
    (hpow : alignment.isPowerOfTwo) :
    stack.placeInWords build size alignment = stack.place build size alignment := by
  rw [placeInWords, place]
  cases build.add stack.region.base stack.cursor with
  | error fault => rfl
  | ok top =>
    rw [Call.ok_bind, Call.ok_bind, alignUpInWords_eq build top hpow]
    rfl

theorem guarded_allocate (build : Build) (size alignment : Nat) :
    Guarded.allocate build size alignment = allocate build size alignment := by
  by_cases hpow : alignment.isPowerOfTwo
  · simp only [Guarded.allocate, placeInWords_eq build _ size hpow]
    rfl
  · simp only [Guarded.allocate, allocate, if_pos hpow]

end Stack

end Suballoc
