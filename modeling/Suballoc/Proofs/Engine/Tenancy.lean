import Suballoc.Engine.Report
import Suballoc.Proofs.Stack.History
import Suballoc.Proofs.Tenancy

/-!
# Callers of an engine

One kind of caller for all engines. A caller holds stretches of memory, by their address, and runs
errands: to take memory and give it back, to write to what is held, and, on a stack, to read markers
and to rewind. What the contract of an engine forbids is not done: an errand that would give back
what is not held, write outside of it, ask for an alignment that is not a power of two, or rewind to
a marker of another stack or ahead of the cursor, is dropped. So is one that an engine of the given
kind does not offer.

Memory of a stack is not given back but taken away, when the cursor is set below its end.
-/

namespace Suballoc

open Suballoc.Tenancy (onEngine onEngine_of_ok)

/-- Memory that a caller holds. -/
structure Holding where
  address : Nat
  /-- The bytes that the caller may write. -/
  size : Nat
deriving DecidableEq, Repr

/-- Whether a stretch of bytes lies in held memory. -/
def Holding.spans (holding : Holding) (address length : Nat) : Bool :=
  holding.address ≤ address && address + length ≤ holding.address + holding.size

theorem Holding.spans_iff (holding : Holding) {address length : Nat} :
    holding.spans address length = true ↔
      holding.address ≤ address ∧ address + length ≤ holding.address + holding.size := by
  simp [spans]

/-- Where a platform puts a region: not at the null address, aligned as it was asked to, and so that
every address of the region and its end are words. -/
structure Region.Placed (region : Region) : Prop where
  base_pos : 0 < region.base
  aligned : region.alignment ∣ region.base
  stop_lt : region.stop < Word.limit

namespace Engine

/-- Something a caller of an engine does. -/
inductive Errand where
  /-- Ask for so many bytes at an alignment. -/
  | take (size alignment : Nat)
  /-- Give back memory that is held, or the null address. -/
  | give (address : Nat)
  /-- Write inside memory that is held. -/
  | fill (address : Nat) (values : List UInt8)
  /-- Read a marker of a stack. -/
  | mark
  | reset
  | rewind (marker : Marker)
  | openScope
  | endScope
deriving DecidableEq, Repr

/-- An engine and the memory that is held of it. -/
abbrev Tenancy : Type := Suballoc.Tenancy Engine Holding

/-! ## Calls on any engine -/

/-- Something asked of an engine, as a call. An engine that has no answer is left alone. -/
def asked {Answer : Type} (request : Engine → Option (Except Fault Answer) × Engine) :
    Call Engine (Option Answer) := fun engine ↦
  match request engine with
  | (none, after) => .ok none after
  | (some (.ok answer), after) => .ok (some answer) after
  | (some (.error fault), after) => .error fault after

/-- Something done to a stack; other engines are left alone. -/
def onStack (build : Build) (act : ScopedStack.Act) : Call Engine Outcome
  | .stack state =>
    match ScopedStack.perform build act state with
    | .ok outcome state => .ok outcome (.stack state)
    | .error fault state => .error fault (.stack state)
  | engine => .ok .done engine

/-- Engines that take memory back one by one. -/
def Releases (engine : Engine) : Prop :=
  engine.capabilities?.any (·.individualRelease) = true

/-- Whether a rewind to a marker keeps the contract. -/
def accepts : Engine → Marker → Bool
  | .stack state, marker =>
    marker.origin = state.stack.region.base && marker.offset ≤ state.stack.cursor
  | _, _ => false

/-- Whether memory is still its holder's. -/
def keeps : Engine → Holding → Bool
  | .stack state, holding =>
    holding.address + holding.size ≤ state.stack.region.base + state.stack.cursor
  | _, _ => true

theorem asked_of_eq {Answer : Type} {request : Engine → Option (Except Fault Answer) × Engine}
    {engine after : Engine} {answer : Answer}
    (h : request engine = (some (.ok answer), after)) :
    asked request engine = .ok (some answer) after := by
  rw [asked, h]

theorem asked_of_eq_none {Answer : Type}
    {request : Engine → Option (Except Fault Answer) × Engine} {engine after : Engine}
    (h : request engine = (none, after)) : asked request engine = .ok none after := by
  rw [asked, h]

namespace Tenancy

/-! ## Errands -/

/-- Do something to a stack. Memory that is cut off is held no longer. -/
def act (build : Build) (what : ScopedStack.Act) : Call Tenancy Outcome := do
  let outcome ← onEngine (onStack build what)
  modify fun tenancy ↦ { tenancy with held := tenancy.held.filter tenancy.engine.keeps }
  return outcome

/-- Ask for memory and hold it. -/
def take (build : Build) (size alignment : Nat) : Call Tenancy Outcome := do
  match ← onEngine (asked (Engine.allocate build size alignment)) with
  | some (some address) =>
    modify fun tenancy ↦
      { tenancy with held := ⟨address, tenancy.engine.payloadSize size⟩ :: tenancy.held }
    return .memory (some address)
  | some none => return .memory none
  | none => return .done

/-- Give memory back, where an engine takes it. -/
def give (build : Build) (holding : Holding) : Call Tenancy Outcome := do
  match ← onEngine (asked (Engine.release build holding.address)) with
  | some _ =>
    modify fun tenancy ↦ { tenancy with held := tenancy.held.erase holding }
    return .done
  | none => return .done

/-- Run an errand. What a caller may not do is not done. -/
def step (build : Build) : Errand → Call Tenancy Outcome
  | .take size alignment =>
    if alignment.isPowerOfTwo then take build size alignment else return .done
  | .give address => do
    if address = 0 then
      let _ ← onEngine (asked (Engine.release build 0))
      return .done
    else
      match (← get).held.find? fun holding ↦ holding.address = address with
      | some holding => give build holding
      | none => return .done
  | .fill address values => do
    if (← get).held.any (·.spans address values.length) then
      modify fun tenancy ↦
        { tenancy with
          engine := tenancy.engine.write (address - tenancy.engine.memory.base) values }
      return .done
    else return .done
  | .mark => act build .mark
  | .reset => act build .reset
  | .rewind marker => do
    if (← get).engine.accepts marker then act build (.rewind marker) else return .done
  | .openScope => act build .openScope
  | .endScope => act build .endScope

/-! ## Running an errand -/

section Running

variable {build : Build} {engine after : Engine} {held : List Holding} {tenancy : Tenancy}

/-! ### What is dropped -/

theorem step_take_of_not_isPowerOfTwo {size alignment : Nat} (hpow : ¬ alignment.isPowerOfTwo) :
    step build (.take size alignment) tenancy = .ok .done tenancy := by
  rw [step, if_neg hpow, Call.run_pure]

theorem step_give_of_not_held {address : Nat} (hnull : address ≠ 0)
    (hfind : (tenancy.held.find? fun holding ↦ holding.address = address) = none) :
    step build (.give address) tenancy = .ok .done tenancy := by
  rw [step, if_neg hnull]
  simp only [Call.run_bind, Call.run_get, hfind, Call.run_pure]

theorem step_fill_of_not_held {address : Nat} {values : List UInt8}
    (hmay : tenancy.held.any (·.spans address values.length) = false) :
    step build (.fill address values) tenancy = .ok .done tenancy := by
  rw [step]
  simp only [Call.run_bind, Call.run_get, hmay, Bool.false_eq_true, if_false, Call.run_pure]

theorem step_rewind_of_not_accepts {marker : Marker}
    (haccepts : tenancy.engine.accepts marker = false) :
    step build (.rewind marker) tenancy = .ok .done tenancy := by
  rw [step]
  simp only [Call.run_bind, Call.run_get, haccepts, Bool.false_eq_true, if_false, Call.run_pure]

/-! ### What is done -/

theorem step_take_of_none {size alignment : Nat} (hpow : alignment.isPowerOfTwo)
    (h : engine.allocate build size alignment = (some (.ok none), after)) :
    step build (.take size alignment) ⟨engine, held⟩ = .ok (.memory none) ⟨after, held⟩ := by
  rw [step, if_pos hpow, take, Call.run_bind_of_ok (onEngine_of_ok (asked_of_eq h))]
  rfl

theorem step_take_of_some {size alignment address : Nat} (hpow : alignment.isPowerOfTwo)
    (h : engine.allocate build size alignment = (some (.ok (some address)), after)) :
    step build (.take size alignment) ⟨engine, held⟩ =
      .ok (.memory (some address)) ⟨after, ⟨address, after.payloadSize size⟩ :: held⟩ := by
  rw [step, if_pos hpow, take, Call.run_bind_of_ok (onEngine_of_ok (asked_of_eq h))]
  rfl

theorem step_give_null {answer : Unit}
    (h : engine.release build 0 = (some (.ok answer), engine)) :
    step build (.give 0) ⟨engine, held⟩ = .ok .done ⟨engine, held⟩ := by
  rw [step, if_pos rfl, Call.run_bind_of_ok (onEngine_of_ok (asked_of_eq h)), Call.run_pure]

theorem step_give_of_held {holding : Holding} {address : Nat} (hnull : address ≠ 0)
    (hfind : (held.find? fun holding ↦ holding.address = address) = some holding)
    (h : engine.release build holding.address = (some (.ok ()), after)) :
    step build (.give address) ⟨engine, held⟩ = .ok .done ⟨after, held.erase holding⟩ := by
  rw [step, if_neg hnull]
  simp only [Call.run_bind, Call.run_get, hfind]
  rw [give, Call.run_bind_of_ok (onEngine_of_ok (asked_of_eq h))]
  rfl

theorem step_give_of_not_offered {address : Nat}
    (h : ∀ address, engine.release build address = (none, engine)) :
    step build (.give address) ⟨engine, held⟩ = .ok .done ⟨engine, held⟩ := by
  have hasked (address : Nat) : asked (Engine.release build address) engine = .ok none engine :=
    asked_of_eq_none (h address)
  rw [step]
  by_cases hnull : address = 0
  · rw [if_pos hnull, Call.run_bind_of_ok (onEngine_of_ok (hasked 0)), Call.run_pure]
  · rw [if_neg hnull]
    simp only [Call.run_bind, Call.run_get]
    cases held.find? fun holding ↦ holding.address = address with
    | none => rfl
    | some holding =>
      dsimp only
      rw [give, Call.run_bind_of_ok (onEngine_of_ok (hasked holding.address))]
      rfl

theorem step_fill_of_held {address : Nat} {values : List UInt8}
    (hmay : held.any (·.spans address values.length) = true) :
    step build (.fill address values) ⟨engine, held⟩ =
      .ok .done ⟨engine.write (address - engine.memory.base) values, held⟩ := by
  rw [step]
  simp only [Call.run_bind, Call.run_get, hmay, if_true, Call.run_modify, Call.run_pure]

theorem step_rewind_of_accepts {marker : Marker}
    (haccepts : tenancy.engine.accepts marker = true) :
    step build (.rewind marker) tenancy = act build (.rewind marker) tenancy := by
  rw [step]
  simp only [Call.run_bind, Call.run_get, haccepts, if_true]

theorem step_take_of_not_offered {size alignment : Nat}
    (h : engine.allocate build size alignment = (none, engine)) :
    step build (.take size alignment) ⟨engine, held⟩ = .ok .done ⟨engine, held⟩ := by
  rw [step]
  by_cases hpow : alignment.isPowerOfTwo
  · rw [if_pos hpow, take, Call.run_bind_of_ok (onEngine_of_ok (asked_of_eq_none h))]
    rfl
  · rw [if_neg hpow, Call.run_pure]

/-- What only a stack offers leaves every other engine alone. -/
theorem act_of_not_stack {what : ScopedStack.Act}
    (h : onStack build what engine = .ok .done engine) (hkeeps : ∀ holding, engine.keeps holding) :
    act build what ⟨engine, held⟩ = .ok .done ⟨engine, held⟩ := by
  have hkept : held.filter engine.keeps = held :=
    List.filter_eq_self.mpr fun holding _ ↦ hkeeps holding
  rw [act, Call.run_bind_of_ok (onEngine_of_ok h)]
  simp only [Call.run_bind, Call.run_modify, Call.run_pure, hkept]

/-! ### What comes to nothing -/

/-- Whether an errand comes to nothing on an engine that takes memory back one by one, when this is
held of it: the contract forbids it, it gives back null, or only a stack offers it. -/
def Idle (held : List Holding) : Errand → Prop
  | .take _ alignment => ¬ alignment.isPowerOfTwo
  | .give address => address = 0 ∨ (held.find? fun holding ↦ holding.address = address) = none
  | .fill address values => held.any (·.spans address values.length) = false
  | .mark | .reset | .rewind _ | .openScope | .endScope => True

theorem step_of_idle {errand : Errand} (hidle : Idle held errand)
    (hnull : engine.release build 0 = (some (.ok ()), engine))
    (hstack : ∀ what, onStack build what engine = .ok .done engine)
    (hkeeps : ∀ holding, engine.keeps holding)
    (haccepts : ∀ marker, engine.accepts marker = false) :
    step build errand ⟨engine, held⟩ = .ok .done ⟨engine, held⟩ := by
  cases errand with
  | take size alignment => exact step_take_of_not_isPowerOfTwo hidle
  | give address =>
    by_cases haddress : address = 0
    · subst haddress
      exact step_give_null hnull
    · exact step_give_of_not_held haddress (hidle.resolve_left haddress)
  | fill address values => exact step_fill_of_not_held hidle
  | mark | reset | openScope | endScope => exact act_of_not_stack (hstack _) hkeeps
  | rewind marker => exact step_rewind_of_not_accepts (haccepts marker)

end Running

end Tenancy

end Engine

end Suballoc
