import Suballoc.Proofs.Stack.Scopes

/-!
# Well-nested scopes

Work on a stack is well nested when it stays above the start of the innermost open scope: there is
no reset, and a rewind goes to a marker between the start of that scope and the cursor. The starts
of the open scopes are then in order, the innermost on top, with the cursor above it; `Enclosed`
says so, and every act keeps it. So the end of a scope always finds the cursor at its start or above
and sets it to exactly where it was when the scope was opened.

What is left of the scope is the peak. It is lifted to the highest end of what was taken through the
scope; and if the cursor was not above the peak before, as in a checked build it never is, that is
as good as the highest cursor. A stack whose peak has been lifted is otherwise the same stack, now
and in every later use.
-/

namespace Suballoc

/-! ## The peak and the rest -/

namespace Stack

/-- The stack with its peak at an offset or above. -/
def raised (top : Nat) (stack : Stack) : Stack := { stack with peak := max stack.peak top }

variable {stack : Stack} {top : Nat}

theorem Bounded.raised (h : stack.Bounded) (top : Nat) : (stack.raised top).Bounded :=
  ⟨h.stop_lt, h.cursor_le⟩

theorem taken_raised (stack : Stack) (first size top : Nat) :
    (stack.raised top).taken first size = (stack.taken first size).raised top := by
  rw [taken, taken]
  split
  · rw [raised, raised, Nat.max_right_comm]
  · rfl

theorem Bounded.settled_allocate_raised (h : stack.Bounded) (build : Build)
    (size alignment top : Nat) :
    Call.settled (allocate build size alignment (stack.raised top)) =
      Prod.map id (Stack.raised top) (Call.settled (allocate build size alignment stack)) := by
  by_cases hpow : alignment.isPowerOfTwo
  · have hroom : (stack.raised top).room? size alignment = stack.room? size alignment := rfl
    rw [h.allocate_run build size hpow, (h.raised top).allocate_run build size hpow, hroom]
    cases stack.room? size alignment with
    | none => rfl
    | some first => exact congrArg (Prod.mk _) (taken_raised stack first size top)
  · rw [allocate_of_not_isPowerOfTwo build size _ hpow,
      allocate_of_not_isPowerOfTwo build size _ hpow]
    cases build <;> rfl

theorem settled_rewind_raised (build : Build) (marker : Marker) (stack : Stack) (top : Nat) :
    Call.settled (rewind build marker (stack.raised top)) =
      Prod.map id (raised top) (Call.settled (rewind build marker stack)) := by
  cases build with
  | unchecked => rfl
  | checked =>
    by_cases horigin : marker.origin = stack.region.base
    · by_cases hahead : marker.offset ≤ stack.cursor
      · simp [rewind, Build.require_checked, horigin, hahead, raised, Call.settled, capacity]
      · simp [rewind, Build.require_checked, horigin, hahead, raised, Call.settled]
    · simp [rewind, Build.require_checked, horigin, raised, Call.settled]

theorem close_raised (stack : Stack) (opened : Marker) (top : Nat) :
    (stack.raised top).close opened = (stack.close opened).raised top := by
  have hcursor : (stack.raised top).cursor = stack.cursor := rfl
  rw [close, close, hcursor]
  split <;> rfl

end Stack

namespace ScopedStack

/-- The stack with its peak at an offset or above. -/
def raised (top : Nat) (state : ScopedStack) : ScopedStack :=
  { state with stack := state.stack.raised top }

/-- The moment of a stack with its peak at an offset or above. -/
def Moment.raised (top : Nat) (moment : Moment) : Moment :=
  { moment with after := moment.after.raised top }

theorem moment_raised (build : Build) (act : Act) {state : ScopedStack} (h : state.stack.Bounded)
    (top : Nat) :
    Moment.of build act (state.raised top) = (Moment.of build act state).raised top := by
  cases act with
  | allocate size alignment =>
    rw [moment_allocate, moment_allocate, raised, h.settled_allocate_raised]
    rfl
  | rewind marker =>
    rw [moment_rewind, moment_rewind, raised, Stack.settled_rewind_raised]
    rfl
  | mark | reset | openScope => rfl
  | endScope =>
    obtain ⟨stack, scopes⟩ := state
    cases scopes with
    | nil => rfl
    | cons opened outer =>
      show Moment.mk .endScope (.ok .done) ⟨(stack.raised top).close opened, outer⟩ = _
      rw [Stack.close_raised]
      rfl

/-- **Blind to the peak.** Two stacks that differ in the peak only have the same history, up to the
peak. -/
theorem history_raised (build : Build) (acts : List Act) {state : ScopedStack}
    (h : state.stack.Bounded) (top : Nat) :
    history build acts (state.raised top) = (history build acts state).map (Moment.raised top) := by
  induction acts generalizing state with
  | nil => rfl
  | cons act rest ih =>
    rw [history, history, List.map_cons, moment_raised build act h]
    exact congrArg _ (ih ((follows_moment build act h).bounded h))

/-! ## How far the peak is lifted -/

/-- The highest of some offsets. -/
def highest (offsets : List Nat) : Nat := offsets.foldr max 0

/-- The highest end of what was taken. -/
def crest (moments : List Moment) : Nat :=
  highest ((moments.filterMap Moment.extent?).map Extent.stop)

theorem highest_append (offsets others : List Nat) :
    highest (offsets ++ others) = max (highest offsets) (highest others) := by
  induction offsets with
  | nil => exact (Nat.zero_max _).symm
  | cons offset offsets ih =>
    show max offset (highest (offsets ++ others)) = max (max offset (highest offsets)) _
    rw [ih, Nat.max_assoc]

theorem crest_cons (moment : Moment) (later : List Moment) :
    crest (moment :: later) = max (crest [moment]) (crest later) := by
  rw [crest, ← List.singleton_append, List.filterMap_append, List.map_append, highest_append]
  rfl

theorem crest_of_extent?_eq_none {moment : Moment} (h : moment.extent? = none) :
    crest [moment] = 0 := by
  rw [crest, List.filterMap_cons_none h]
  rfl

variable {build : Build} {state : ScopedStack} {act : Act}

/-- What an act does to the stack: it moves the cursor, and it lifts the peak to the end of what was
taken. -/
theorem stack_moment (build : Build) (act : Act) (h : state.stack.Bounded) :
    (Moment.of build act state).after.stack =
      { (state.stack.raised (crest [Moment.of build act state])) with
        cursor := (Moment.of build act state).cursor } := by
  -- an act that takes nothing leaves the peak
  have hstay {moment : Moment} {cursor : Nat} (hextent : moment.extent? = none)
      (hafter : moment.after.stack = { state.stack with cursor }) :
      moment.after.stack =
        { (state.stack.raised (crest [moment])) with cursor := moment.cursor } := by
    rw [crest_of_extent?_eq_none hextent, Moment.cursor, hafter, Stack.raised, Nat.max_zero]
  cases act with
  | allocate size alignment =>
    rcases moment_allocate_cases build size alignment h with
      ⟨first, hpow, hroom, hmoment⟩ | ⟨answer, hanswer, hmoment⟩
    · rw [hmoment]
      by_cases hsize : 0 < size
      · simp [crest, highest, Moment.extent?, Moment.cursor, Stack.taken, Stack.raised, hsize]
      · exact hstay (dif_neg hsize) (by rw [Stack.taken, if_neg hsize])
    · rw [hmoment]
      rcases hanswer with rfl | ⟨fault, rfl⟩
      · exact hstay rfl rfl
      · exact hstay rfl rfl
  | rewind marker =>
    rcases moment_rewind_cases build marker state with hmoment | ⟨fault, hmoment⟩
    · rw [hmoment]
      exact hstay rfl rfl
    · rw [hmoment]
      exact hstay rfl rfl
  | mark | openScope | reset => exact hstay rfl rfl
  | endScope =>
    cases hscopes : state.scopes with
    | nil =>
      have hmoment : Moment.of build .endScope state = ⟨.endScope, .ok .done, state⟩ := by
        obtain ⟨stack, scopes⟩ := state
        subst hscopes
        rfl
      rw [hmoment]
      exact hstay rfl rfl
    | cons opened outer =>
      rw [moment_endScope build hscopes]
      exact hstay rfl rfl

theorem stack_aftermath (build : Build) (acts : List Act) (h : state.stack.Bounded) :
    ∃ cursor, (Call.aftermath (perform build) acts state).stack =
      { (state.stack.raised (crest (history build acts state))) with cursor } := by
  induction acts generalizing state with
  | nil =>
    refine ⟨state.stack.cursor, ?_⟩
    show state.stack = ⟨state.stack.region, state.stack.cursor, max state.stack.peak 0⟩
    rw [Nat.max_zero]
  | cons act rest ih =>
    obtain ⟨cursor, hrest⟩ := ih ((follows_moment build act h).bounded h)
    refine ⟨cursor, ?_⟩
    rw [aftermath_cons, hrest, history, crest_cons, stack_moment build act h]
    simp only [Stack.raised, Nat.max_assoc]

/-! ## Well-nested work -/

/-- An act does not reach below the start of the innermost open scope. -/
def StaysInside (state : ScopedStack) : Act → Prop
  | .reset => state.scopes = []
  | .rewind marker => ∀ innermost ∈ state.scopes.head?, marker.origin = state.stack.region.base ∧
      innermost.offset ≤ marker.offset ∧ marker.offset ≤ state.stack.cursor
  | _ => True

instance (state : ScopedStack) (act : Act) : Decidable (state.StaysInside act) := by
  cases act <;> unfold StaysInside <;> infer_instance

/-- Acts none of which reaches below the start of the scope that is the innermost then. -/
def WellNested (build : Build) : List Act → ScopedStack → Prop
  | [], _ => True
  | act :: rest, state =>
    state.StaysInside act ∧ WellNested build rest (Moment.of build act state).after

instance decidableWellNested (build : Build) :
    (acts : List Act) → (state : ScopedStack) → Decidable (WellNested build acts state)
  | [], _ => .isTrue trivial
  | act :: rest, state =>
    have := decidableWellNested build rest (Moment.of build act state).after
    inferInstanceAs (Decidable (_ ∧ _))

/-- Inside a scope that was opened at a marker: the starts of the scopes since then are in order,
and the cursor is above them. -/
structure Enclosed (state : ScopedStack) (inner : List Marker) (marker : Marker)
    (outer : List Marker) : Prop where
  scopes_eq : state.scopes = inner ++ marker :: outer
  ordered : (state.stack.cursor :: (inner ++ [marker]).map Marker.offset).IsChain (· ≥ ·)

variable {inner outer : List Marker} {marker : Marker} {depth : Nat}

/-- The cursor may be anywhere above the start of the innermost scope. -/
theorem Enclosed.of_le (h : state.Enclosed inner marker outer) {after : ScopedStack}
    (hscopes : after.scopes = state.scopes)
    (hle : ∀ innermost ∈ state.scopes.head?, innermost.offset ≤ after.stack.cursor) :
    after.Enclosed inner marker outer := by
  obtain ⟨hstate, hordered⟩ := h
  refine ⟨hscopes.trans hstate, ?_⟩
  rw [hstate] at hle
  cases inner with
  | nil => exact List.isChain_cons_cons.mpr ⟨hle marker rfl, List.IsChain.singleton _⟩
  | cons innermost inner =>
    exact List.isChain_cons_cons.mpr
      ⟨hle innermost rfl, (List.isChain_cons_cons.mp hordered).2⟩

theorem Enclosed.le_cursor (h : state.Enclosed inner marker outer) :
    ∀ innermost ∈ state.scopes.head?, innermost.offset ≤ state.stack.cursor := by
  obtain ⟨hscopes, hordered⟩ := h
  rw [hscopes]
  intro innermost hmem
  cases inner with
  | nil =>
    obtain rfl := Option.some.inj hmem
    exact (List.isChain_cons_cons.mp hordered).1
  | cons _ inner =>
    obtain rfl := Option.some.inj hmem
    exact (List.isChain_cons_cons.mp hordered).1

theorem Enclosed.moment_endScope {innermost : Marker} (build : Build)
    (hscopes : state.scopes = innermost :: outer) (hle : innermost.offset ≤ state.stack.cursor) :
    (Moment.of build .endScope state).after =
      ⟨{ state.stack with cursor := innermost.offset }, outer⟩ := by
  rw [ScopedStack.moment_endScope build hscopes, Nat.min_eq_left hle]

/-- **One act.** What does not reach below the innermost scope keeps the scopes in order. -/
theorem Enclosed.moment (h : state.Enclosed inner marker outer) (hbounded : state.stack.Bounded)
    (hstays : state.StaysInside act) (hdepth : act.depth? inner.length = some depth) :
    ∃ still, still.length = depth ∧
      (Moment.of build act state).after.Enclosed still marker outer := by
  have hle := h.le_cursor
  cases act with
  | allocate size alignment =>
    refine ⟨inner, Option.some.inj hdepth, ?_⟩
    rcases moment_allocate_cases build size alignment hbounded with
      ⟨first, hpow, hroom, hmoment⟩ | ⟨answer, hanswer, hmoment⟩
    · obtain ⟨hfirst, -⟩ := Stack.room?_eq_some hpow hroom
      rw [hmoment]
      refine h.of_le rfl fun innermost hmem ↦ Nat.le_trans (hle innermost hmem) ?_
      rw [Stack.taken]
      split
      · exact Nat.le_add_right_of_le hfirst
      · exact Nat.le_refl _
    · rw [hmoment]
      exact h
  | mark => exact ⟨inner, Option.some.inj hdepth, h⟩
  | reset =>
    have hscopes := h.scopes_eq.symm.trans hstays
    exact absurd hscopes (List.append_ne_nil_of_right_ne_nil _ (List.cons_ne_nil _ _))
  | rewind target =>
    refine ⟨inner, Option.some.inj hdepth, ?_⟩
    rcases moment_rewind_cases build target state with hmoment | ⟨fault, hmoment⟩
    · rw [hmoment]
      refine h.of_le rfl fun innermost hmem ↦ ?_
      obtain ⟨-, hstart, hcursor⟩ := hstays innermost hmem
      exact Nat.le_min.mpr ⟨hstart, Nat.le_trans hstart (Nat.le_trans hcursor hbounded.cursor_le)⟩
    · rw [hmoment]
      exact h
  | openScope =>
    refine ⟨state.stack.mark :: inner, Option.some.inj hdepth,
      ⟨congrArg (List.cons _) h.scopes_eq, ?_⟩⟩
    exact List.isChain_cons_cons.mpr ⟨Nat.le_refl _, h.ordered⟩
  | endScope =>
    obtain ⟨hscopes, hordered⟩ := h
    cases inner with
    | nil => cases hdepth
    | cons innermost inner =>
      refine ⟨inner, Option.some.inj hdepth, ?_⟩
      obtain ⟨hfirst, htail⟩ := List.isChain_cons_cons.mp hordered
      rw [Enclosed.moment_endScope build hscopes hfirst]
      exact ⟨rfl, htail⟩

/-- **Well-nested acts.** They keep the scopes in order. -/
theorem Enclosed.aftermath (acts : List Act) (h : state.Enclosed inner marker outer)
    (hbounded : state.stack.Bounded) (hnested : WellNested build acts state)
    (hdepth : nesting acts inner.length = some depth) :
    ∃ still, still.length = depth ∧
      (Call.aftermath (perform build) acts state).Enclosed still marker outer := by
  induction acts generalizing state inner with
  | nil => exact ⟨inner, Option.some.inj hdepth, h⟩
  | cons act rest ih =>
    obtain ⟨hstays, hnested⟩ := hnested
    obtain ⟨middle, hfirst, hrest⟩ := Option.bind_eq_some_iff.mp hdepth
    obtain ⟨still, rfl, hstill⟩ := h.moment hbounded hstays hfirst
    rw [aftermath_cons]
    exact ih hstill ((follows_moment build act hbounded).bounded hbounded) hnested hrest

/-- The scopes since a marker end one after another, and the cursor is back at the marker. -/
theorem Enclosed.aftermath_replicate (build : Build) (h : state.Enclosed inner marker outer) :
    Call.aftermath (perform build) (.replicate (inner.length + 1) .endScope) state =
      ⟨{ state.stack with cursor := marker.offset }, outer⟩ := by
  induction inner generalizing state with
  | nil =>
    obtain ⟨hscopes, hordered⟩ := h
    rw [List.replicate, aftermath_cons,
      Enclosed.moment_endScope build hscopes (List.isChain_cons_cons.mp hordered).1]
    rfl
  | cons innermost inner ih =>
    obtain ⟨hscopes, hordered⟩ := h
    obtain ⟨hfirst, htail⟩ := List.isChain_cons_cons.mp hordered
    have hended := Enclosed.moment_endScope build hscopes hfirst
    rw [List.replicate, aftermath_cons, List.length_cons, ih (by rw [hended]; exact ⟨rfl, htail⟩),
      hended]

/-! ## The cursor in a scope -/

/-- Unless it is set to a marker above it, the cursor goes up only where something is taken. -/
theorem cursor_moment_le (build : Build) (act : Act) (h : state.stack.Bounded)
    (htarget : ∀ marker ∈ act.target?, marker.offset ≤ state.stack.cursor) :
    (Moment.of build act state).cursor ≤
      max state.stack.cursor (crest [Moment.of build act state]) := by
  cases act with
  | allocate size alignment =>
    rcases moment_allocate_cases build size alignment h with
      ⟨first, hpow, hroom, hmoment⟩ | ⟨answer, hanswer, hmoment⟩
    · rw [hmoment]
      by_cases hsize : 0 < size
      · simp [crest, highest, Moment.extent?, Moment.cursor, Stack.taken, hsize]
      · rw [Moment.cursor, Stack.taken, if_neg hsize]
        exact Nat.le_max_left _ _
    · rw [hmoment]
      exact Nat.le_max_left _ _
  | mark | openScope => exact Nat.le_max_left _ _
  | reset => exact Nat.zero_le _
  | rewind target =>
    rcases moment_rewind_cases build target state with hmoment | ⟨fault, hmoment⟩
    · rw [hmoment]
      exact le_max_of_le_left (Nat.le_trans (Nat.min_le_left _ _) (htarget target rfl))
    · rw [hmoment]
      exact Nat.le_max_left _ _
  | endScope =>
    obtain ⟨stack, scopes⟩ := state
    cases scopes with
    | nil => exact Nat.le_max_left _ _
    | cons opened outer =>
      rw [moment_endScope build rfl]
      exact le_max_of_le_left (Nat.min_le_right _ _)

/-- Inside a scope the markers of well-nested rewinds are not above the cursor. -/
theorem Enclosed.target_le (h : state.Enclosed inner marker outer)
    (hstays : state.StaysInside act) :
    ∀ target ∈ act.target?, target.offset ≤ state.stack.cursor := by
  intro target htarget
  cases act with
  | rewind =>
    obtain rfl := Option.some.inj htarget
    obtain ⟨innermost, hinnermost⟩ : ∃ innermost, innermost ∈ state.scopes.head? := by
      rw [h.scopes_eq]
      cases inner with
      | nil => exact ⟨marker, rfl⟩
      | cons innermost inner => exact ⟨innermost, rfl⟩
    exact (hstays innermost hinnermost).2.2
  | allocate | mark | reset | openScope | endScope => cases htarget

/-- The cursor in a scope never goes above where it started and what was taken. -/
theorem Enclosed.highest_cursor_le (acts : List Act) (h : state.Enclosed inner marker outer)
    (hbounded : state.stack.Bounded) (hnested : WellNested build acts state)
    (hdepth : nesting acts inner.length = some depth) :
    highest ((history build acts state).map Moment.cursor) ≤
      max state.stack.cursor (crest (history build acts state)) := by
  induction acts generalizing state inner with
  | nil => exact Nat.zero_le _
  | cons act rest ih =>
    obtain ⟨hstays, hnested⟩ := hnested
    obtain ⟨middle, hfirst, hrest⟩ := Option.bind_eq_some_iff.mp hdepth
    obtain ⟨still, rfl, hstill⟩ := h.moment hbounded hstays hfirst
    have hmoment := cursor_moment_le build act hbounded (h.target_le hstays)
    have hlater := ih hstill ((follows_moment build act hbounded).bounded hbounded) hnested hrest
    rw [history, crest_cons, ← Nat.max_assoc]
    refine Nat.max_le.mpr ⟨le_max_of_le_left hmoment, Nat.le_trans hlater ?_⟩
    exact Nat.max_le.mpr ⟨le_max_of_le_left hmoment, Nat.le_max_right _ _⟩

theorem crest_le_highest_cursor (build : Build) (acts : List Act) (h : state.stack.Bounded) :
    crest (history build acts state) ≤ highest ((history build acts state).map Moment.cursor) := by
  induction acts generalizing state with
  | nil => exact Nat.le_refl _
  | cons act rest ih =>
    have hfollows := follows_moment build act h
    rw [history, crest_cons]
    refine Nat.max_le.mpr ⟨le_max_of_le_left ?_, le_max_of_le_right (ih (hfollows.bounded h))⟩
    cases hextent : (Moment.of build act state).extent? with
    | none =>
      rw [crest_of_extent?_eq_none hextent]
      exact Nat.zero_le _
    | some extent =>
      rw [crest, List.filterMap_cons_some hextent, ← (hfollows.between extent hextent).2]
      exact Nat.max_le.mpr ⟨Nat.le_refl _, Nat.zero_le _⟩

/-- In a checked build the cursor is never above the peak. -/
theorem cursor_le_peak_of_checked (acts : List Act) (h : state.stack.Bounded)
    (hpeak : state.stack.cursor ≤ state.stack.peak) :
    (Call.aftermath (perform .checked) acts state).stack.cursor ≤
      (Call.aftermath (perform .checked) acts state).stack.peak := by
  refine (Call.aftermath_of_step (fun state : ScopedStack ↦
    state.stack.Bounded ∧ state.stack.cursor ≤ state.stack.peak) acts ?_ ⟨h, hpeak⟩).2
  rintro act - state ⟨h, hpeak⟩
  rw [settled_perform]
  refine ⟨(follows_moment .checked act h).bounded h, ?_⟩
  by_cases htarget : ∀ marker ∈ act.target?, marker.offset ≤ state.stack.cursor
  · have hcursor := cursor_moment_le .checked act h htarget
    rw [stack_moment .checked act h, Stack.raised]
    exact Nat.le_trans hcursor (max_le_max_right _ hpeak)
  · -- a marker above the cursor is refused
    cases act with
    | rewind marker =>
      have hahead : ¬ marker.offset ≤ state.stack.cursor := by simpa [Act.target?] using htarget
      have hrefused : (Moment.of .checked (.rewind marker) state).after = state := by
        rw [moment_rewind]
        by_cases horigin : marker.origin = state.stack.region.base
        · simp [Stack.rewind, Build.require_checked, horigin, hahead, Call.settled]
        · simp [Stack.rewind, Build.require_checked, horigin, Call.settled]
      rwa [hrefused]
    | allocate | mark | reset | openScope | endScope => exact absurd (by simp [Act.target?]) htarget

/-! ## The end of the scopes -/

theorem endAll_eq (build : Build) (state : ScopedStack) : state.endAll =
    (Call.aftermath (perform build) (.replicate state.scopes.length .endScope) state).stack := by
  obtain ⟨stack, scopes⟩ := state
  induction scopes generalizing stack with
  | nil => rfl
  | cons opened outer ih =>
    rw [List.length_cons, List.replicate, aftermath_cons]
    exact ih (stack.close opened)

/-- One stack is the other with its peak at an offset or above, and whatever is done to them later,
they stay so, with the same answers. -/
structure Restores (build : Build) (before after : ScopedStack) (top : Nat) : Prop where
  after_eq : after = before.raised top
  history_eq : ∀ later, history build later after =
    (history build later before).map (Moment.raised top)

/-- **Well-nested scopes.** Let a scope be opened, let well-nested work be done, in which some more
scopes stay open, and let these scopes end, with the first one last. Then the stack is what it was
before, up to the peak: the cursor is where it was, and whatever is done later is answered as if the
scope had never been. The peak is the higher of what it would be and the highest end of what was
taken in the scope. If the cursor was not above the peak before, it is also the higher of what it
would be and the highest cursor in the scope. -/
theorem scopes_restore (build : Build) {before : ScopedStack} (h : before.stack.Bounded)
    {body : List Act} {inner : Nat} (hdepth : nesting body 0 = some inner)
    (hnested : WellNested build body (Moment.of build .openScope before).after) :
    let opened := (Moment.of build .openScope before).after
    let moments := history build body opened
    let inside := Call.aftermath (perform build) body opened
    let ended := Call.aftermath (perform build) (.replicate (inner + 1) .endScope) inside
    ended.stack.cursor = before.stack.cursor ∧
      (before.scopes = [] → inside.endAll = ended.stack) ∧
      Restores build before ended (crest moments) ∧
      (before.stack.cursor ≤ before.stack.peak →
        Restores build before ended (highest (moments.map Moment.cursor))) := by
  intro opened moments inside ended
  have hopened : opened.stack.Bounded := (follows_moment build .openScope h).bounded h
  have henclosed : opened.Enclosed [] before.stack.mark before.scopes :=
    ⟨rfl, List.isChain_cons_cons.mpr ⟨Nat.le_refl _, List.IsChain.singleton _⟩⟩
  obtain ⟨still, hlength, hinside⟩ := henclosed.aftermath body hopened hnested hdepth
  obtain ⟨cursor, hstack⟩ := stack_aftermath build body hopened
  have hended : ended = before.raised (crest moments) := by
    show Call.aftermath (perform build) (.replicate (inner + 1) .endScope) inside = _
    rw [← hlength, hinside.aftermath_replicate, hstack]
    rfl
  have hrestores {top : Nat} (hafter : ended = before.raised top) :
      Restores build before ended top :=
    ⟨hafter, fun later ↦ hafter ▸ history_raised build later h top⟩
  refine ⟨by rw [hended]; rfl, fun hscopes ↦ ?_, hrestores hended, fun hpeak ↦ hrestores ?_⟩
  · rw [endAll_eq build, hinside.scopes_eq, hscopes, List.length_append, hlength]
    rfl
  · -- the peak was at the first cursor or above, so both offsets lift it equally
    have hle : highest (moments.map Moment.cursor) ≤ max before.stack.cursor (crest moments) :=
      henclosed.highest_cursor_le body hopened hnested hdepth
    have hge : crest moments ≤ highest (moments.map Moment.cursor) :=
      crest_le_highest_cursor build body hopened
    have hmax : max before.stack.peak (crest moments) =
        max before.stack.peak (highest (moments.map Moment.cursor)) := by
      omega
    rw [hended, raised, raised, Stack.raised, Stack.raised, hmax]

/-- Two scopes are left open in a third, in which more than the room was asked for and the cursor
was set back. -/
theorem scopes_restore_three :
    ∃ stack, Stack.new ⟨fun _ _ ↦ true, fun _ ↦ 4096, fun _ ↦ 0⟩ { size := 64, alignment := 16 } =
        .ok stack ∧ stack.Bounded ∧
      ∃ before, Call.aftermath (perform .checked) [.allocate 10 8] (ofStack stack) = before ∧
      ∃ body, body = [.allocate 4 4, .openScope, .allocate 8 8, .allocate 100 1, .endScope,
          .rewind ⟨10, 4096⟩, .openScope, .allocate 1 1, .openScope] ∧ nesting body 0 = some 2 ∧
        WellNested .checked body (Moment.of .checked .openScope before).after ∧
        (history .checked body (Moment.of .checked .openScope before).after).map Moment.cursor =
          [16, 16, 24, 24, 16, 10, 10, 11, 11] ∧
        Restores .checked before
          (Call.aftermath (perform .checked) (.replicate 3 .endScope)
            (Call.aftermath (perform .checked) body
              (Moment.of .checked .openScope before).after)) 24 := by
  have hnew : Stack.new ⟨fun _ _ ↦ true, fun _ ↦ 4096, fun _ ↦ 0⟩ { size := 64, alignment := 16 } =
    .ok ⟨⟨4096, 16, fillBytes 64 fun _ ↦ 0⟩, 0, 0⟩ := rfl
  have hbounded := (Stack.bounded_new hnew (by decide)).1
  have hstart : (ofStack ⟨⟨4096, 16, fillBytes 64 fun _ ↦ 0⟩, 0, 0⟩).stack.Bounded := hbounded
  have hbefore := bounded_aftermath .checked [.allocate 10 8] hstart
  refine ⟨_, hnew, hbounded, _, rfl, _, rfl, by decide, by decide, by decide, ?_⟩
  exact (scopes_restore .checked hbefore (by decide) (by decide)).2.2.2 (by decide)

/-- When contracts are not tested, the marker of another stack sets the cursor above the peak. It is
there when a scope is opened, and again after a rewind in the scope, and the end of the scope leaves
the peak below it. -/
theorem peak_lt_cursor_in_scope :
    ∃ stack, Stack.new ⟨fun _ _ ↦ true, fun _ ↦ 4096, fun _ ↦ 0⟩ { size := 64, alignment := 16 } =
        .ok stack ∧
      ∃ before, Call.aftermath (perform .unchecked) [.rewind ⟨40, 8192⟩] (ofStack stack) = before ∧
      ∃ opened, (Moment.of .unchecked .openScope before).after = opened ∧
        Balanced [.mark, .rewind ⟨40, 4096⟩] ∧
        WellNested .unchecked [.mark, .rewind ⟨40, 4096⟩] opened ∧
        (Call.aftermath (perform .unchecked) [.mark, .rewind ⟨40, 4096⟩, .endScope]
            opened).stack.peak <
          max before.stack.peak (highest
            ((history .unchecked [.mark, .rewind ⟨40, 4096⟩] opened).map Moment.cursor)) :=
  ⟨_, rfl, _, rfl, _, rfl, by decide, by decide, by decide⟩

end ScopedStack

end Suballoc
