import Suballoc.Fault

/-!
# Running calls

A call is a function of the state it starts in. The lemmas below run one step of it: what comes
after a step that ended with an answer, and what is left of a call after a fault. An engine's proof
runs its calls with them down to a plain function on states, and argues about that function.
-/

namespace Suballoc.Call

variable {State Answer Result : Type}

@[simp] theorem run_pure (answer : Answer) (state : State) :
    (pure answer : Call State Answer) state = .ok answer state := rfl

@[simp] theorem run_get (state : State) : (get : Call State State) state = .ok state state := rfl

@[simp] theorem run_modify (change : State → State) (state : State) :
    (modify change : Call State PUnit) state = .ok ⟨⟩ (change state) := rfl

@[simp] theorem run_lift_ok (answer : Answer) (state : State) :
    (liftM (Except.ok answer : Except Fault Answer) : Call State Answer) state =
      .ok answer state := rfl

@[simp] theorem run_lift_error (fault : Fault) (state : State) :
    (liftM (Except.error fault : Except Fault Answer) : Call State Answer) state =
      .error fault state := rfl

@[simp] theorem run_bind (call : Call State Answer) (next : Answer → Call State Result)
    (state : State) :
    (call >>= next) state =
      match call state with
      | .ok answer state => next answer state
      | .error fault state => .error fault state := by
  show EStateM.bind call next state = _
  rw [EStateM.bind]
  cases call state <;> rfl

theorem run_bind_of_ok {call : Call State Answer} {next : Answer → Call State Result}
    {state after : State} {answer : Answer} (h : call state = .ok answer after) :
    (call >>= next) state = next answer after := by
  rw [run_bind, h]

theorem run_bind_congr {call other : Call State Answer} (next : Answer → Call State Result)
    {state : State} (h : call state = other state) :
    (call >>= next) state = (other >>= next) state := by
  rw [run_bind, run_bind, h]

/-! ## Going on after a fault -/

/-- How a call ended, and the state it left. -/
def settled : EStateM.Result Fault State Answer → Except Fault Answer × State
  | .ok answer state => (.ok answer, state)
  | .error fault state => (.error fault, state)

/-- One errand after another, each with how it ended and the state it left. A fault ends its own
errand only. -/
def transcript {Errand : Type} (step : Errand → Call State Answer) :
    List Errand → State → List (Except Fault Answer × State)
  | [], _ => []
  | errand :: rest, state =>
    let entry := settled (step errand state)
    entry :: transcript step rest entry.2

/-- Machines that show one state in different views, and whose errands end alike, have one
transcript in different views. -/
theorem exists_transcript {Errand View Machine : Type} {step : Errand → Call Machine Answer}
    (view : View → State → Machine) (Allowed : Errand → Prop) (Invariant : State → Prop)
    (hstep : ∀ errand state, Allowed errand → Invariant state → ∃ answer after, Invariant after ∧
      ∀ v, settled (step errand (view v state)) = (answer, view v after))
    (errands : List Errand) (hallowed : ∀ errand ∈ errands, Allowed errand) (state : State)
    (h : Invariant state) : ∃ entries : List (Except Fault Answer × State), ∀ v,
      transcript step errands (view v state) = entries.map (Prod.map id (view v)) := by
  induction errands generalizing state with
  | nil => exact ⟨[], fun _ ↦ rfl⟩
  | cons errand rest ih =>
    obtain ⟨hfirst, hrest⟩ := List.forall_mem_cons.mp hallowed
    obtain ⟨answer, after, hafter, hsettled⟩ := hstep errand state hfirst h
    obtain ⟨entries, hentries⟩ := ih hrest after hafter
    refine ⟨(answer, after) :: entries, fun v ↦ ?_⟩
    rw [transcript, hsettled v, List.map_cons, ← hentries v]
    rfl

/-- The state after some errands, whatever became of them. -/
def aftermath {Errand : Type} (step : Errand → Call State Answer) : List Errand → State → State
  | [], state => state
  | errand :: rest, state => aftermath step rest (settled (step errand state)).2

/-- What every errand keeps, however it ends, is true in the aftermath. -/
theorem aftermath_of_step {Errand : Type} {step : Errand → Call State Answer}
    (Invariant : State → Prop) (errands : List Errand)
    (hstep : ∀ errand ∈ errands, ∀ state, Invariant state →
      Invariant (settled (step errand state)).2)
    {state : State} (h : Invariant state) : Invariant (aftermath step errands state) := by
  induction errands generalizing state with
  | nil => exact h
  | cons errand rest ih =>
    obtain ⟨hfirst, hrest⟩ := List.forall_mem_cons.mp hstep
    exact ih hrest (hfirst state h)

/-! ## What a call leaves alone -/

/-- A call that leaves a view of the state as it is, however it ends. -/
def Keeps {View : Type} (view : State → View) (call : Call State Answer) : Prop :=
  ∀ state, view (settled (call state)).2 = view state

section Keeps

variable {View : Type} {view : State → View}

theorem keeps_pure (answer : Answer) : Keeps view (pure answer : Call State Answer) := fun _ ↦ rfl

theorem keeps_get : Keeps view (get : Call State State) := fun _ ↦ rfl

theorem keeps_modify {change : State → State} (h : ∀ state, view (change state) = view state) :
    Keeps view (modify change : Call State PUnit) := h

theorem keeps_lift (computation : Except Fault Answer) :
    Keeps view (liftM computation : Call State Answer) := by
  intro state
  cases computation <;> rfl

theorem Keeps.bind {call : Call State Answer} {next : Answer → Call State Result}
    (hcall : Keeps view call) (hnext : ∀ answer, Keeps view (next answer)) :
    Keeps view (call >>= next) := by
  intro state
  have hfirst := hcall state
  rw [run_bind]
  cases hrun : call state with
  | ok answer middle =>
    rw [hrun] at hfirst
    exact (hnext answer middle).trans hfirst
  | error fault middle =>
    rw [hrun] at hfirst
    exact hfirst

theorem Keeps.of_ok {call : Call State Answer} {state after : State} {answer : Answer}
    (h : Keeps view call) (hrun : call state = .ok answer after) : view after = view state := by
  have hstate := h state
  rwa [hrun] at hstate

end Keeps

/-! ## Computations without a state -/

variable {Error : Type}

@[simp] theorem ok_bind (answer : Answer) (next : Answer → Except Error Result) :
    (Except.ok answer >>= next) = next answer := rfl

theorem bind_eq_ok {first : Except Error Answer} {next : Answer → Except Error Result}
    {result : Result} : (first >>= next) = .ok result ↔
      ∃ answer, first = .ok answer ∧ next answer = .ok result := by
  constructor
  · intro h
    cases first with
    | error error => cases h
    | ok answer => exact ⟨answer, rfl, h⟩
  · rintro ⟨answer, rfl, h⟩
    exact h

theorem map_eq_ok {view : Answer → Result} {first : Except Error Answer} {result : Result} :
    first.map view = .ok result ↔ ∃ answer, first = .ok answer ∧ view answer = result := by
  constructor
  · intro h
    cases first with
    | error error => cases h
    | ok answer => exact ⟨answer, rfl, Except.ok.inj h⟩
  · rintro ⟨answer, rfl, rfl⟩
    rfl

end Suballoc.Call
