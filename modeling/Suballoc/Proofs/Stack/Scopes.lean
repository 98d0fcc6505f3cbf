import Suballoc.Proofs.Stack.History

/-!
# What a scope gives back

A program opens scopes and ends them, and the end of a scope belongs to the opening that it
brackets. `nesting` counts the scopes that a stretch of a program leaves open; a stretch that ends
all that it opens and nothing else is balanced, and that is what can be done through a scope while
it is open. Whatever else happens there, the scope's own marker is then the innermost one again.

The end of a scope compares two offsets only, the marker and the cursor, and sets the cursor to the
lower. So it takes back every allocation that starts at or above either of them. That is all of them
as long as the cursor was never below both; but a reset, or a rewind below the marker, lets the
cursor grow again from below, and what is taken down there outlives the scope.
-/

namespace Suballoc

namespace ScopedStack

/-! ## Brackets -/

/-- The number of scopes that are open after an act, unless it ends one that is not counted. -/
def Act.depth? : Act → Nat → Option Nat
  | .openScope, depth => some (depth + 1)
  | .endScope, 0 => none
  | .endScope, depth + 1 => some depth
  | _, depth => some depth

/-- The number of scopes that are open after some acts, unless they end one that is not counted. -/
def nesting : List Act → Nat → Option Nat
  | [], depth => some depth
  | act :: rest, depth => (act.depth? depth).bind (nesting rest)

/-- Acts that end the scopes that they open, and no other. -/
def Balanced (acts : List Act) : Prop := nesting acts 0 = some 0

instance (acts : List Act) : Decidable (Balanced acts) := inferInstanceAs (Decidable (_ = _))

variable {build : Build} {state : ScopedStack} {inner outer : List Marker} {depth : Nat}

/-- Only the brackets change which scopes are open. -/
theorem scopes_moment (build : Build) (act : Act) (h : state.stack.Bounded) :
    (Moment.of build act state).after.scopes =
      match act with
      | .openScope => state.stack.mark :: state.scopes
      | .endScope => state.scopes.tail
      | _ => state.scopes := by
  cases act with
  | allocate size alignment =>
    rcases moment_allocate_cases build size alignment h with ⟨_, _, _, hmoment⟩ | ⟨_, _, hmoment⟩
    all_goals rw [hmoment]
  | mark | reset | openScope => rfl
  | rewind marker =>
    rcases moment_rewind_cases build marker state with hmoment | ⟨_, hmoment⟩
    all_goals rw [hmoment]
  | endScope =>
    obtain ⟨stack, scopes⟩ := state
    cases scopes <;> rfl

theorem exists_scopes_aftermath (build : Build) (acts : List Act) (h : state.stack.Bounded)
    (hscopes : state.scopes = inner ++ outer) (hdepth : nesting acts inner.length = some depth) :
    ∃ still, still.length = depth ∧
      (Call.aftermath (perform build) acts state).scopes = still ++ outer := by
  induction acts generalizing state inner with
  | nil => exact ⟨inner, Option.some.inj hdepth, hscopes⟩
  | cons act rest ih =>
    obtain ⟨middle, hfirst, hrest⟩ := Option.bind_eq_some_iff.mp hdepth
    have hbounded := (follows_moment build act h).bounded h
    have hmoment := scopes_moment build act h
    rw [aftermath_cons]
    rw [hscopes] at hmoment
    cases act with
    | allocate | mark | reset | rewind =>
      obtain rfl := Option.some.inj hfirst
      exact ih hbounded hmoment hrest
    | openScope =>
      obtain rfl := Option.some.inj hfirst
      have hinner : (Moment.of build .openScope state).after.scopes =
          (state.stack.mark :: inner) ++ outer := hmoment
      exact ih hbounded hinner hrest
    | endScope =>
      cases inner with
      | nil => cases hfirst
      | cons innermost inner =>
        obtain rfl := Option.some.inj hfirst
        exact ih hbounded hmoment hrest

theorem moment_endScope (build : Build) {marker : Marker}
    (hscopes : state.scopes = marker :: outer) :
    Moment.of build .endScope state = ⟨.endScope, .ok .done,
      ⟨{ state.stack with cursor := min marker.offset state.stack.cursor }, outer⟩⟩ := by
  obtain ⟨stack, scopes⟩ := state
  subst hscopes
  have hclose : stack.close marker =
      { stack with cursor := min marker.offset stack.cursor } := by
    rw [Stack.close]
    split
    · rename_i hle
      rw [Nat.min_eq_left hle]
    · rename_i hlt
      rw [Nat.min_eq_right (Nat.le_of_not_le hlt)]
  rw [← hclose]
  rfl

/-! ## The end of a scope -/

/-- **The end of a scope.** Whatever is done through a scope, its end sets the cursor to the lower
of its start and where the cursor is by then. So everything that was taken through it is free again,
as long as the cursor was never below both. -/
theorem scope_reclaims (build : Build) {state : ScopedStack} (h : state.stack.Bounded)
    {body : List Act} (hbody : Balanced body) :
    let opened := (Moment.of build .openScope state).after
    let inside := Call.aftermath (perform build) body opened
    let ended := (Moment.of build .endScope inside).after
    ended.stack = { inside.stack with cursor := min state.stack.cursor inside.stack.cursor } ∧
      ended.scopes = state.scopes ∧
      ((∀ moment ∈ history build body opened,
          min state.stack.cursor inside.stack.cursor ≤ moment.cursor) →
        ∀ moment ∈ history build body opened, ∀ extent, moment.extent? = some extent →
          ended.stack.cursor ≤ extent.first) := by
  intro opened inside ended
  have hopened : opened.stack.Bounded := (follows_moment build .openScope h).bounded h
  obtain ⟨still, hnone, hinside⟩ := exists_scopes_aftermath build body hopened
    (show opened.scopes = [] ++ state.stack.mark :: state.scopes from rfl) hbody
  obtain rfl := List.eq_nil_of_length_eq_zero hnone
  have hended : ended =
      ⟨{ inside.stack with cursor := min state.stack.cursor inside.stack.cursor },
        state.scopes⟩ :=
    congrArg Moment.after (moment_endScope build hinside)
  rw [hended]
  refine ⟨rfl, rfl, fun habove moment hmem extent hextent ↦ ?_⟩
  exact le_first_of_mem_history build body hopened (Nat.min_le_left _ _) habove hmem hextent

/-- A scope with another one in it, in which more than the room is asked for. The rewind goes back
to the start of the outer one. -/
theorem scope_reclaims_nested :
    ∃ stack, Stack.new ⟨fun _ _ ↦ true, fun _ ↦ 4096, fun _ ↦ 0⟩ { size := 64, alignment := 16 } =
        .ok stack ∧ stack.Bounded ∧
      ∃ state, Call.aftermath (perform .checked) [.allocate 10 8] (ofStack stack) = state ∧
      ∃ body, body = [.allocate 4 4, .openScope, .allocate 8 8, .allocate 100 1, .endScope,
          .rewind ⟨10, 4096⟩, .allocate 1 1] ∧ Balanced body ∧
        (history .checked body (Moment.of .checked .openScope state).after).filterMap
          Moment.extent? = [⟨12, 16, by decide⟩, ⟨16, 24, by decide⟩, ⟨10, 11, by decide⟩] ∧
        ∀ moment ∈ history .checked body (Moment.of .checked .openScope state).after,
          ∀ extent, moment.extent? = some extent → 10 ≤ extent.first := by
  have hnew : Stack.new ⟨fun _ _ ↦ true, fun _ ↦ 4096, fun _ ↦ 0⟩ { size := 64, alignment := 16 } =
    .ok ⟨⟨4096, 16, fillBytes 64 fun _ ↦ 0⟩, 0, 0⟩ := rfl
  have hbounded := (Stack.bounded_new hnew (by decide)).1
  have hstart : (ofStack ⟨⟨4096, 16, fillBytes 64 fun _ ↦ 0⟩, 0, 0⟩).stack.Bounded := hbounded
  have hstate := bounded_aftermath .checked [.allocate 10 8] hstart
  refine ⟨_, hnew, hbounded, _, rfl, _, rfl, by decide, by decide, ?_⟩
  exact (scope_reclaims .checked hstate (by decide)).2.2 (by decide)

/-- A reset inside a scope, and then an allocation that reaches beyond the start of the scope: the
end of the scope cuts it in two, and its first bytes stay taken. -/
theorem scope_keeps_bytes :
    ∃ stack, Stack.new ⟨fun _ _ ↦ true, fun _ ↦ 4096, fun _ ↦ 0⟩ { size := 64, alignment := 16 } =
        .ok stack ∧
      ∃ opened, Call.aftermath (perform .checked) [.allocate 16 8, .openScope] (ofStack stack) =
          opened ∧ Balanced [.reset, .allocate 40 8] ∧
        (history .checked [.reset, .allocate 40 8] opened).filterMap Moment.extent? =
          [⟨0, 40, by decide⟩] ∧
        (Call.aftermath (perform .checked) [.reset, .allocate 40 8, .endScope] opened).stack.cursor
          = 16 :=
  ⟨_, rfl, _, rfl, by decide, by decide, by decide⟩

end ScopedStack

end Suballoc
