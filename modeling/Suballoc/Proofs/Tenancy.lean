import Mathlib.Data.List.Forall2
import Suballoc.Proofs.Call

/-!
# Tenancies

An engine does not know what its callers hold, but what it promises is about just that. A tenancy
is an engine together with what its callers hold of it; callers run errands, one after another, and
each errand is a call that may also change what is held.

There are four ways to prove something about all runs. An invariant that every errand keeps holds
after every run; a machine that every errand mirrors gives the same answers on every run; callers
who see one state in different views, and are answered alike, are answered alike on every run; and
so are callers of two tenancies that every errand leaves related.
-/

namespace Suballoc

/-- An engine and what its callers hold. -/
structure Tenancy (Engine Hold : Type) where
  engine : Engine
  held : List Hold

namespace Tenancy

variable {Engine Hold Errand Answer Result State : Type}

/-- Call the engine of a tenancy. -/
def onEngine (call : Call Engine Answer) : Call (Tenancy Engine Hold) Answer :=
  fun ⟨engine, held⟩ ↦
    match call engine with
    | .ok answer engine => .ok answer ⟨engine, held⟩
    | .error fault engine => .error fault ⟨engine, held⟩

/-- Run one errand after another and collect the answers. -/
def run (step : Errand → Call (Tenancy Engine Hold) Answer) :
    List Errand → Call (Tenancy Engine Hold) (List Answer)
  | [] => return []
  | errand :: rest => do
    let answer ← step errand
    let answers ← run step rest
    return answer :: answers

/-- Run an errand and look at what it leaves. A look that faults makes the errand fault. -/
def watched {Sight : Type} (look : Tenancy Engine Hold → Except Fault Sight)
    (step : Errand → Call (Tenancy Engine Hold) Answer) (errand : Errand) :
    Call (Tenancy Engine Hold) (Answer × Sight) := do
  let answer ← step errand
  let sight ← look (← get)
  return (answer, sight)

variable {tenancy after : Tenancy Engine Hold}

theorem onEngine_of_ok {call : Call Engine Answer} {answer : Answer} {engine : Engine}
    (h : call tenancy.engine = .ok answer engine) :
    onEngine call tenancy = .ok answer { tenancy with engine } := by
  rw [onEngine, h]

variable {step : Errand → Call (Tenancy Engine Hold) Answer} {errand : Errand}
  {rest : List Errand} {answer : Answer} {answers : List Answer}

theorem run_cons {middle : Tenancy Engine Hold} (hstep : step errand tenancy = .ok answer middle)
    (hrest : run step rest middle = .ok answers after) :
    run step (errand :: rest) tenancy = .ok (answer :: answers) after := by
  rw [run, Call.run_bind_of_ok hstep]
  exact Call.run_bind_of_ok hrest

/-- **Invariants.** What every errand keeps is true after every run. -/
theorem exists_run (Invariant : Tenancy Engine Hold → Prop)
    (hstep : ∀ errand tenancy, Invariant tenancy →
      ∃ answer after, step errand tenancy = .ok answer after ∧ Invariant after)
    (errands : List Errand) (h : Invariant tenancy) :
    ∃ answers after, run step errands tenancy = .ok answers after ∧ Invariant after := by
  induction errands generalizing tenancy with
  | nil => exact ⟨[], tenancy, rfl, h⟩
  | cons errand rest ih =>
    obtain ⟨answer, middle, hfirst, hmiddle⟩ := hstep errand tenancy h
    obtain ⟨answers, after, hrest, hafter⟩ := ih hmiddle
    exact ⟨answer :: answers, after, run_cons hfirst hrest, hafter⟩

theorem watched_of_ok {Sight : Type} {look : Tenancy Engine Hold → Except Fault Sight}
    {sight : Sight} (hstep : step errand tenancy = .ok answer after)
    (hlook : look after = .ok sight) :
    watched look step errand tenancy = .ok (answer, sight) after := by
  rw [watched, Call.run_bind_of_ok hstep]
  simp only [Call.run_bind, Call.run_get, hlook, Call.run_lift_ok, Call.run_pure]

/-- **Agreement.** Callers who see one state in different views, and whose errands are answered
alike, are answered alike on every run. -/
theorem exists_run_of_views {View : Type} {step : View → Errand → Call (Tenancy Engine Hold) Answer}
    (view : View → State → Tenancy Engine Hold) (Invariant : State → Prop)
    (hstep : ∀ errand state, Invariant state → ∃ answer after, Invariant after ∧
      ∀ v, step v errand (view v state) = .ok answer (view v after))
    (errands : List Errand) {state : State} (h : Invariant state) :
    ∃ answers after, Invariant after ∧
      ∀ v, run (step v) errands (view v state) = .ok answers (view v after) := by
  induction errands generalizing state with
  | nil => exact ⟨[], state, h, fun _ ↦ rfl⟩
  | cons errand rest ih =>
    obtain ⟨answer, middle, hmiddle, hfirst⟩ := hstep errand state h
    obtain ⟨answers, after, hafter, hrest⟩ := ih hmiddle
    exact ⟨answer :: answers, after, hafter, fun v ↦ run_cons (hfirst v) (hrest v)⟩

/-- **Indifference.** Callers of two tenancies that are related, and whose errands are answered
alike and leave them related, are answered alike on every pair of runs. -/
theorem exists_runs_of_twins {step : Errand → Call (Tenancy Engine Hold) Answer}
    (Alike : Errand → Errand → Prop) (Twins : Tenancy Engine Hold → Tenancy Engine Hold → Prop)
    (hstep : ∀ errand errand' tenancy tenancy', Alike errand errand' → Twins tenancy tenancy' →
      ∃ answer after after', Twins after after' ∧ step errand tenancy = .ok answer after ∧
        step errand' tenancy' = .ok answer after')
    {errands errands' : List Errand} (halike : List.Forall₂ Alike errands errands')
    {tenancy tenancy' : Tenancy Engine Hold} (h : Twins tenancy tenancy') :
    ∃ answers after after', Twins after after' ∧ run step errands tenancy = .ok answers after ∧
      run step errands' tenancy' = .ok answers after' := by
  induction halike generalizing tenancy tenancy' with
  | nil => exact ⟨[], tenancy, tenancy', h, rfl, rfl⟩
  | cons hfirst _ ih =>
    obtain ⟨answer, middle, middle', hmiddle, hleft, hright⟩ := hstep _ _ _ _ hfirst h
    obtain ⟨answers, after, after', hafter, hrest, hrest'⟩ := ih hmiddle
    exact ⟨answer :: answers, after, after', hafter, run_cons hleft hrest, run_cons hright hrest'⟩

/-- The answers of a machine to some errands, and the state it ends in. -/
def replay (machine : Errand → State → Result × State) :
    List Errand → State → List Result × State
  | [], state => ([], state)
  | errand :: rest, state =>
    let (result, middle) := machine errand state
    let (results, after) := replay machine rest middle
    (result :: results, after)

/-- **Simulation.** A machine that every errand mirrors, up to a view of its answers, gives the
answers of every run. -/
theorem exists_run_eq_replay {machine : Errand → State → Result × State} (view : Result → Answer)
    (Mirrors : Tenancy Engine Hold → State → Prop)
    (hstep : ∀ errand tenancy state, Mirrors tenancy state →
      ∃ after, step errand tenancy = .ok (view (machine errand state).1) after ∧
        Mirrors after (machine errand state).2)
    (errands : List Errand) {state : State} (h : Mirrors tenancy state) :
    ∃ after, run step errands tenancy = .ok ((replay machine errands state).1.map view) after ∧
      Mirrors after (replay machine errands state).2 := by
  induction errands generalizing tenancy state with
  | nil => exact ⟨tenancy, rfl, h⟩
  | cons errand rest ih =>
    obtain ⟨middle, hfirst, hmiddle⟩ := hstep errand tenancy state h
    obtain ⟨after, hrest, hafter⟩ := ih hmiddle
    exact ⟨after, run_cons hfirst hrest, hafter⟩

end Tenancy

end Suballoc
