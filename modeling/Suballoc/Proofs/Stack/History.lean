import Suballoc.Proofs.Stack

/-!
# The history of a stack

A stack is used in any order: bytes are taken, markers are read and used later, scopes open and end,
and a call that is refused is followed by the next one. The history of a run has a moment for every
act, with the answer and the stack after it. What a run promises is read off its history.

Three promises are made, from the weakest assumption on.

* The cursor stays in the region, whatever the markers are.
* An allocation is *live* as long as the cursor has not been set below its end. Allocations that are
  live at the same time lie in the region and share no byte, again whatever the markers are: while
  an allocation is live the cursor is at its end or above, and that is where later ones start.
* The peak is the highest cursor there has been, provided that markers come from the run itself.
-/

namespace Suballoc

/-- What a call on an engine comes to. -/
inductive Outcome where
  /-- Nothing but the end of the call. -/
  | done
  /-- The address of memory, if there was any. -/
  | memory (address? : Option Nat)
  | marker (marker : Marker)
deriving DecidableEq, Repr

namespace ScopedStack

/-- Something that is done to a stack. -/
inductive Act where
  | allocate (size alignment : Nat)
  | mark
  | reset
  | rewind (marker : Marker)
  | openScope
  /-- End the innermost scope, if one is open. -/
  | endScope
deriving DecidableEq, Repr

/-- The marker that the stack is rewound to. -/
def Act.target? : Act → Option Marker
  | .rewind marker => some marker
  | _ => none

/-- Do it. -/
def perform (build : Build) : Act → Call ScopedStack Outcome
  | .allocate size alignment => do
    return .memory (← within (Stack.allocate build size alignment))
  | .mark => do return .marker (← get).stack.mark
  | .reset => do
    modify fun state ↦ { state with stack := state.stack.reset }
    return .done
  | .rewind marker => do
    within (Stack.rewind build marker)
    return .done
  | .openScope => do return .marker (← openScope)
  | .endScope => do
    modify fun state ↦ state.endScope?.getD state
    return .done

/-! ## Histories -/

/-- An act, how it was answered, and what it left. -/
structure Moment where
  act : Act
  answer : Except Fault Outcome
  after : ScopedStack

/-- The cursor after an act. -/
def Moment.cursor (moment : Moment) : Nat := moment.after.stack.cursor

/-- The peak after an act. -/
def Moment.peak (moment : Moment) : Nat := moment.after.stack.peak

/-- The moment of an act. -/
def Moment.of (build : Build) (act : Act) (state : ScopedStack) : Moment :=
  match perform build act state with
  | .ok outcome after => { act, answer := .ok outcome, after }
  | .error fault after => { act, answer := .error fault, after }

/-- What happens when one act follows another. A fault ends its own act only. -/
def history (build : Build) : List Act → ScopedStack → List Moment
  | [], _ => []
  | act :: rest, state =>
    let first := Moment.of build act state
    first :: history build rest first.after

/-- The markers that an act was answered with. -/
def Moment.issued (moment : Moment) : List Marker :=
  match moment.answer with
  | .ok (.marker marker) => [marker]
  | _ => []

/-- The stack is rewound only to markers that the history has issued before. -/
def OwnMarkers : (issued : List Marker) → List Moment → Prop
  | _, [] => True
  | issued, moment :: later =>
    (∀ marker ∈ moment.act.target?, marker ∈ issued) ∧
      OwnMarkers (moment.issued ++ issued) later

instance decidableOwnMarkers :
    (issued : List Marker) → (moments : List Moment) → Decidable (OwnMarkers issued moments)
  | _, [] => .isTrue trivial
  | issued, moment :: later =>
    have := decidableOwnMarkers (moment.issued ++ issued) later
    inferInstanceAs (Decidable (_ ∧ _))

/-- A stretch of bytes that is not empty, from one offset up to another. -/
structure Extent where
  first : Nat
  stop : Nat
  first_lt_stop : first < stop
deriving DecidableEq, Repr

/-- Two extents share no byte. -/
def Extent.Apart (a b : Extent) : Prop := a.stop ≤ b.first ∨ b.stop ≤ a.first

/-- The bytes that an act took, if it took any. -/
def Moment.extent? (moment : Moment) : Option Extent :=
  match moment.act, moment.answer with
  | .allocate size _, .ok (.memory (some address)) =>
    let first := address - moment.after.stack.region.base
    if hsize : 0 < size then
      some { first, stop := first + size, first_lt_stop := Nat.lt_add_of_pos_right hsize }
    else none
  | _, _ => none

/-- The allocations below whose end the cursor has not been set since. -/
def live : List Moment → List Extent
  | [] => []
  | moment :: later =>
    (moment.extent?.filter fun extent ↦
      later.all fun moment ↦ extent.stop ≤ moment.cursor).toList ++ live later

theorem history_take (build : Build) (acts : List Act) (n : Nat) (state : ScopedStack) :
    (history build acts state).take n = history build (acts.take n) state := by
  induction acts generalizing n state with
  | nil => simp [history]
  | cons act rest ih =>
    cases n with
    | zero => rfl
    | succ n => rw [history, List.take_succ_cons, List.take_succ_cons, history, ih]

/-! ## One act -/

/-- What one act does to a stack, seen from outside: the cursor stays in the region, and bytes are
taken between the old cursor and the new one. -/
structure Moment.Follows (before : Stack) (moment : Moment) : Prop where
  region_eq : moment.after.stack.region = before.region
  cursor_le : moment.cursor ≤ before.capacity
  between : ∀ extent, moment.extent? = some extent →
    before.cursor ≤ extent.first ∧ extent.stop = moment.cursor
  /-- The peak follows the cursor, unless a foreign marker has lifted it. -/
  peak_eq : before.cursor ≤ before.peak → before.peak ≤ before.capacity →
    (∀ marker ∈ moment.act.target?, marker.offset ≤ before.peak) →
    moment.peak = max before.peak moment.cursor
  issued_le : ∀ marker ∈ moment.issued, marker.offset = before.cursor

variable {build : Build} {state : ScopedStack}

theorem within_of_ok {Answer : Type} {call : Call Stack Answer} {answer : Answer} {after : Stack}
    (h : call state.stack = .ok answer after) :
    within call state = .ok answer { state with stack := after } := by
  obtain ⟨stack, scopes⟩ := state
  rw [within, h]

theorem within_of_error {Answer : Type} {call : Call Stack Answer} {fault : Fault} {after : Stack}
    (h : call state.stack = .error fault after) :
    within call state = .error fault { state with stack := after } := by
  obtain ⟨stack, scopes⟩ := state
  rw [within, h]

theorem follows_of_stay {moment : Moment} (h : state.stack.Bounded)
    (hafter : moment.after.stack = state.stack) (hextent : moment.extent? = none)
    (hissued : ∀ marker ∈ moment.issued, marker.offset = state.stack.cursor) :
    moment.Follows state.stack where
  region_eq := by rw [hafter]
  cursor_le := by
    rw [Moment.cursor, hafter]
    exact h.cursor_le
  between := by
    intro extent hsome
    rw [hextent] at hsome
    cases hsome
  peak_eq := by
    intro hpeak _ _
    rw [Moment.peak, Moment.cursor, hafter, Nat.max_eq_left hpeak]
  issued_le := hissued

theorem follows_of_set {moment : Moment} {offset : Nat}
    (hafter : moment.after.stack = { state.stack with cursor := offset })
    (hoffset : offset ≤ state.stack.capacity) (hextent : moment.extent? = none)
    (hissued : moment.issued = [])
    (hpeak : state.stack.cursor ≤ state.stack.peak →
      (∀ marker ∈ moment.act.target?, marker.offset ≤ state.stack.peak) →
      offset ≤ state.stack.peak) :
    moment.Follows state.stack where
  region_eq := by rw [hafter]
  cursor_le := by
    rw [Moment.cursor, hafter]
    exact hoffset
  between := by
    intro extent hsome
    rw [hextent] at hsome
    cases hsome
  peak_eq := by
    intro hcursor _ hmarker
    rw [Moment.peak, Moment.cursor, hafter, Nat.max_eq_left (hpeak hcursor hmarker)]
  issued_le := by
    intro marker hmarker
    rw [hissued] at hmarker
    cases hmarker

theorem moment_allocate (build : Build) (size alignment : Nat) (state : ScopedStack) :
    Moment.of build (.allocate size alignment) state =
      let entry := Call.settled (Stack.allocate build size alignment state.stack)
      ⟨.allocate size alignment, entry.1.map .memory, { state with stack := entry.2 }⟩ := by
  obtain ⟨stack, scopes⟩ := state
  rw [Moment.of, perform, Call.run_bind, within]
  cases Stack.allocate build size alignment stack <;> rfl

theorem moment_rewind (build : Build) (marker : Marker) (state : ScopedStack) :
    Moment.of build (.rewind marker) state =
      let entry := Call.settled (Stack.rewind build marker state.stack)
      ⟨.rewind marker, entry.1.map fun _ ↦ .done, { state with stack := entry.2 }⟩ := by
  obtain ⟨stack, scopes⟩ := state
  rw [Moment.of, perform, Call.run_bind, within]
  cases Stack.rewind build marker stack <;> rfl

/-- A call for memory takes the room there is, or it leaves the stack alone. -/
theorem moment_allocate_cases (build : Build) (size alignment : Nat) (h : state.stack.Bounded) :
    (∃ first, alignment.isPowerOfTwo ∧ state.stack.room? size alignment = some first ∧
      Moment.of build (.allocate size alignment) state =
        ⟨.allocate size alignment, .ok (.memory (some (state.stack.region.base + first))),
          { state with stack := state.stack.taken first size }⟩) ∨
    ∃ answer, (answer = .ok (.memory none) ∨ ∃ fault, answer = .error fault) ∧
      Moment.of build (.allocate size alignment) state =
        ⟨.allocate size alignment, answer, state⟩ := by
  rw [moment_allocate]
  by_cases hpow : alignment.isPowerOfTwo
  · rw [h.allocate_run build size hpow]
    cases hroom : state.stack.room? size alignment with
    | none => exact Or.inr ⟨_, Or.inl rfl, rfl⟩
    | some first => exact Or.inl ⟨first, hpow, rfl, rfl⟩
  · rw [Stack.allocate_of_not_isPowerOfTwo build size state.stack hpow]
    cases build with
    | checked => exact Or.inr ⟨_, Or.inr ⟨_, rfl⟩, rfl⟩
    | unchecked => exact Or.inr ⟨_, Or.inl rfl, rfl⟩

/-- A rewind sets the cursor, or it is refused and leaves the stack alone. -/
theorem moment_rewind_cases (build : Build) (marker : Marker) (state : ScopedStack) :
    Moment.of build (.rewind marker) state =
        ⟨.rewind marker, .ok .done,
          { state with stack := state.stack.rewound marker.offset }⟩ ∨
      ∃ fault, Moment.of build (.rewind marker) state = ⟨.rewind marker, .error fault, state⟩ := by
  rw [moment_rewind]
  rcases Stack.rewind_run build marker state.stack with hrun | ⟨-, fault, hrun⟩
  · left
    rw [hrun]
    rfl
  · right
    refine ⟨fault, ?_⟩
    rw [hrun]
    rfl

theorem follows_allocate (build : Build) (size alignment : Nat) (h : state.stack.Bounded) :
    (Moment.of build (.allocate size alignment) state).Follows state.stack := by
  rcases moment_allocate_cases build size alignment h with
    ⟨first, hpow, hroom, hmoment⟩ | ⟨answer, hanswer, hmoment⟩
  · obtain ⟨hfirst, -, hfits, -⟩ := Stack.room?_eq_some hpow hroom
    rw [hmoment]
    by_cases hsize : 0 < size
    · rw [Stack.taken, if_pos hsize]
      refine ⟨rfl, hfits, ?_, fun _ _ _ ↦ rfl, fun _ hmarker ↦ absurd hmarker List.not_mem_nil⟩
      intro extent hextent
      simp only [Moment.extent?, dif_pos hsize, Nat.add_sub_cancel_left, Option.some_inj]
        at hextent
      obtain rfl := hextent
      exact ⟨hfirst, rfl⟩
    · rw [Stack.taken, if_neg hsize]
      refine follows_of_stay h rfl ?_ fun _ hmarker ↦ absurd hmarker List.not_mem_nil
      exact dif_neg hsize
  · rw [hmoment]
    rcases hanswer with rfl | ⟨fault, rfl⟩
    · exact follows_of_stay h rfl rfl fun _ hmarker ↦ absurd hmarker List.not_mem_nil
    · exact follows_of_stay h rfl rfl fun _ hmarker ↦ absurd hmarker List.not_mem_nil

theorem follows_rewind (build : Build) (marker : Marker) (h : state.stack.Bounded) :
    (Moment.of build (.rewind marker) state).Follows state.stack := by
  rcases moment_rewind_cases build marker state with hmoment | ⟨fault, hmoment⟩
  · rw [hmoment]
    refine follows_of_set rfl (Nat.min_le_right _ _) rfl rfl fun _ hmarker ↦ ?_
    exact Nat.le_trans (Nat.min_le_left _ _) (hmarker marker rfl)
  · rw [hmoment]
    exact follows_of_stay h rfl rfl fun _ hmarker ↦ absurd hmarker List.not_mem_nil

theorem follows_endScope (build : Build) (h : state.stack.Bounded) :
    (Moment.of build .endScope state).Follows state.stack := by
  obtain ⟨stack, scopes⟩ := state
  cases scopes with
  | nil => exact follows_of_stay h rfl rfl fun _ hmarker ↦ absurd hmarker List.not_mem_nil
  | cons opened outer =>
    have hmoment : Moment.of build .endScope ⟨stack, opened :: outer⟩ =
        ⟨.endScope, .ok .done, ⟨stack.close opened, outer⟩⟩ := rfl
    rw [hmoment, Stack.close]
    by_cases hle : opened.offset ≤ stack.cursor
    · rw [if_pos hle]
      refine follows_of_set rfl (Nat.le_trans hle h.cursor_le) rfl rfl fun hpeak _ ↦ ?_
      exact Nat.le_trans hle hpeak
    · rw [if_neg hle]
      exact follows_of_stay h rfl rfl fun _ hmarker ↦ absurd hmarker List.not_mem_nil

/-- **One act.** Whatever is done to a stack, it follows. -/
theorem follows_moment (build : Build) (act : Act) (h : state.stack.Bounded) :
    (Moment.of build act state).Follows state.stack := by
  cases act with
  | allocate size alignment => exact follows_allocate build size alignment h
  | mark | openScope =>
    refine follows_of_stay h rfl rfl fun marker hmarker ↦ ?_
    obtain rfl := List.mem_singleton.mp hmarker
    rfl
  | reset => exact follows_of_set rfl (Nat.zero_le _) rfl rfl fun _ _ ↦ Nat.zero_le _
  | rewind marker => exact follows_rewind build marker h
  | endScope => exact follows_endScope build h

namespace Moment.Follows

variable {before : Stack} {moment : Moment}

theorem capacity_eq (h : moment.Follows before) :
    moment.after.stack.capacity = before.capacity := by
  rw [Stack.capacity, h.region_eq, Stack.capacity]

theorem bounded (h : moment.Follows before) (hbefore : before.Bounded) :
    moment.after.stack.Bounded where
  stop_lt := by
    rw [h.region_eq]
    exact hbefore.stop_lt
  cursor_le := by
    rw [h.capacity_eq]
    exact h.cursor_le

/-- Without a foreign marker the peak is the higher of the old peak and the cursor. -/
theorem peaked (h : moment.Follows before) (hcursor : before.cursor ≤ before.peak)
    (hpeak : before.peak ≤ before.capacity)
    (hmarker : ∀ marker ∈ moment.act.target?, marker.offset ≤ before.peak) :
    moment.peak = max before.peak moment.cursor ∧ moment.cursor ≤ moment.peak ∧
      moment.peak ≤ before.capacity := by
  have heq := h.peak_eq hcursor hpeak hmarker
  refine ⟨heq, ?_, ?_⟩
  · rw [heq]
    exact Nat.le_max_right _ _
  · rw [heq]
    exact Nat.max_le.mpr ⟨hpeak, h.cursor_le⟩

end Moment.Follows

theorem bounded_of_perform {act : Act} {outcome : Outcome} {after : ScopedStack}
    (h : state.stack.Bounded) (hperform : perform build act state = .ok outcome after) :
    after.stack.Bounded := by
  have hfollows := follows_moment build act h
  rw [Moment.of, hperform] at hfollows
  exact hfollows.bounded h

/-- A moment shows what an act left, however it ended. -/
theorem settled_perform (build : Build) (act : Act) (state : ScopedStack) :
    (Call.settled (perform build act state)).2 = (Moment.of build act state).after := by
  rw [Moment.of]
  cases perform build act state <;> rfl

/-! ## Whole histories -/

theorem aftermath_cons (build : Build) (act : Act) (rest : List Act) (state : ScopedStack) :
    Call.aftermath (perform build) (act :: rest) state =
      Call.aftermath (perform build) rest (Moment.of build act state).after := by
  rw [Call.aftermath, settled_perform]

theorem bounded_aftermath (build : Build) (acts : List Act) (h : state.stack.Bounded) :
    (Call.aftermath (perform build) acts state).stack.Bounded := by
  refine Call.aftermath_of_step (fun state : ScopedStack ↦ state.stack.Bounded) acts ?_ h
  intro act _ state hstate
  rw [settled_perform]
  exact (follows_moment build act hstate).bounded hstate

/-- **The cursor.** At every moment of a history the stack is bounded, in the same region. -/
theorem bounded_of_mem_history (build : Build) (acts : List Act) (h : state.stack.Bounded)
    {moment : Moment} (hmem : moment ∈ history build acts state) :
    moment.after.stack.Bounded ∧ moment.after.stack.capacity = state.stack.capacity := by
  induction acts generalizing state with
  | nil => cases hmem
  | cons act rest ih =>
    have hfollows := follows_moment build act h
    rcases List.mem_cons.mp hmem with rfl | hmem
    · exact ⟨hfollows.bounded h, hfollows.capacity_eq⟩
    · obtain ⟨hbounded, hcapacity⟩ := ih (hfollows.bounded h) hmem
      exact ⟨hbounded, hcapacity.trans hfollows.capacity_eq⟩

/-- **The peak.** As long as markers come from the run, the peak at each moment is the maximum of
the peak before the run and the cursors since. -/
theorem peak_eq_foldl (build : Build) (acts : List Act) (h : state.stack.Bounded)
    (hcursor : state.stack.cursor ≤ state.stack.peak)
    (hpeak : state.stack.peak ≤ state.stack.capacity) {issued : List Marker}
    (hissued : ∀ marker ∈ issued, marker.offset ≤ state.stack.peak)
    (hown : OwnMarkers issued (history build acts state)) {past future : List Moment}
    {moment : Moment} (hsplit : history build acts state = past ++ moment :: future) :
    moment.cursor ≤ moment.peak ∧ moment.peak ≤ state.stack.capacity ∧
      moment.peak = ((past ++ [moment]).map Moment.cursor).foldl max state.stack.peak := by
  induction acts generalizing state issued past with
  | nil => simp [history] at hsplit
  | cons act rest ih =>
    have hfollows := follows_moment build act h
    obtain ⟨hmarker, hown⟩ := hown
    obtain ⟨hpeak_eq, hcursor_le, hpeak_le⟩ :=
      hfollows.peaked hcursor hpeak fun marker hact ↦ hissued marker (hmarker marker hact)
    have hissued_le : ∀ marker ∈ (Moment.of build act state).issued ++ issued,
        marker.offset ≤ (Moment.of build act state).peak := by
      intro marker hmem
      rw [hpeak_eq]
      rcases List.mem_append.mp hmem with hmem | hmem
      · rw [hfollows.issued_le marker hmem]
        exact Nat.le_trans hcursor (Nat.le_max_left _ _)
      · exact Nat.le_trans (hissued marker hmem) (Nat.le_max_left _ _)
    rw [history] at hsplit
    cases past with
    | nil =>
      obtain ⟨rfl, -⟩ := List.cons.inj hsplit
      exact ⟨hcursor_le, hpeak_le, hpeak_eq⟩
    | cons other past =>
      obtain ⟨rfl, hlater⟩ := List.cons.inj hsplit
      have hcapacity := hfollows.capacity_eq
      have hrest := ih (hfollows.bounded h) hcursor_le (hcapacity ▸ hpeak_le) hissued_le hown hlater
      rw [hcapacity] at hrest
      obtain ⟨hcursors, hpeaks, hfold⟩ := hrest
      refine ⟨hcursors, hpeaks, ?_⟩
      rw [hfold, List.cons_append, List.map_cons, List.foldl_cons, ← hpeak_eq]
      rfl

/-- What is taken while the cursor never falls below an offset starts at the offset or above. -/
theorem le_first_of_mem_history (build : Build) (acts : List Act) (h : state.stack.Bounded)
    {offset : Nat} (hoffset : offset ≤ state.stack.cursor)
    (habove : ∀ moment ∈ history build acts state, offset ≤ moment.cursor) {moment : Moment}
    (hmem : moment ∈ history build acts state) {extent : Extent}
    (hextent : moment.extent? = some extent) : offset ≤ extent.first := by
  induction acts generalizing state with
  | nil => cases hmem
  | cons act rest ih =>
    have hfollows := follows_moment build act h
    obtain ⟨hfirst, hlater⟩ := List.forall_mem_cons.mp habove
    rcases List.mem_cons.mp hmem with rfl | hmem
    · exact Nat.le_trans hoffset (hfollows.between extent hextent).1
    · exact ih (hfollows.bounded h) hfirst hlater hmem

theorem exists_of_mem_live {moments : List Moment} {extent : Extent}
    (hextent : extent ∈ live moments) : ∃ moment ∈ moments, moment.extent? = some extent := by
  induction moments with
  | nil => cases hextent
  | cons moment later ih =>
    rcases List.mem_append.mp hextent with hhere | hlive
    · obtain ⟨hsome, -⟩ := Option.filter_eq_some_iff.mp (Option.mem_toList.mp hhere)
      exact ⟨moment, List.mem_cons_self, hsome⟩
    · obtain ⟨other, hother, hsome⟩ := ih hlive
      exact ⟨other, List.mem_cons_of_mem _ hother, hsome⟩

/-- **Live allocations.** They lie in the region, and no two of them share a byte. -/
theorem live_apart (build : Build) (acts : List Act) (h : state.stack.Bounded) :
    (∀ extent ∈ live (history build acts state), extent.stop ≤ state.stack.capacity) ∧
      (live (history build acts state)).Pairwise Extent.Apart := by
  induction acts generalizing state with
  | nil => exact ⟨fun _ hextent ↦ absurd hextent List.not_mem_nil, List.Pairwise.nil⟩
  | cons act rest ih =>
    have hfollows := follows_moment build act h
    have hbounded := hfollows.bounded h
    obtain ⟨hinside, hapart⟩ := ih hbounded
    rw [hfollows.capacity_eq] at hinside
    rw [history, live]
    cases hkeep : (Moment.of build act state).extent?.filter fun extent ↦
        (history build rest (Moment.of build act state).after).all fun moment ↦
          extent.stop ≤ moment.cursor with
    | none => exact ⟨hinside, hapart⟩
    | some extent =>
      obtain ⟨hsome, hall⟩ := Option.filter_eq_some_iff.mp hkeep
      obtain ⟨-, hstop⟩ := hfollows.between extent hsome
      have habove : ∀ moment ∈ history build rest (Moment.of build act state).after,
          extent.stop ≤ moment.cursor :=
        fun moment hmem ↦ of_decide_eq_true (List.all_eq_true.mp hall moment hmem)
      refine ⟨List.forall_mem_cons.mpr ⟨?_, hinside⟩, List.pairwise_cons.mpr ⟨?_, hapart⟩⟩
      · rw [hstop]
        exact hfollows.cursor_le
      · -- the cursor stays at the end of this one or above, and the others start there
        intro other hother
        obtain ⟨_, hmem, hsome⟩ := exists_of_mem_live hother
        exact Or.inl
          (le_first_of_mem_history build rest hbounded (Nat.le_of_eq hstop) habove hmem hsome)

/-- **Safety.** From construction on, whatever is done to a stack: at every moment the cursor is in
the region and the free bytes can be counted; if markers come from the run itself, the peak is the
highest cursor so far; live allocations lie in the region and apart from each other; and a rewind
that a checked build refuses changes nothing. -/
theorem history_safe {build : Build} {platform : Platform} {wanted : Reservation} {stack : Stack}
    (hnew : Stack.new platform wanted = .ok stack) (hstop : stack.region.stop < Word.limit)
    (acts : List Act) :
    (∀ moment ∈ history build acts (ofStack stack), moment.cursor ≤ stack.capacity ∧
      moment.after.stack.available build = .ok (stack.capacity - moment.cursor)) ∧
    (OwnMarkers [] (history build acts (ofStack stack)) → ∀ past moment future,
      history build acts (ofStack stack) = past ++ moment :: future →
        moment.cursor ≤ moment.peak ∧ moment.peak ≤ stack.capacity ∧
          (0 :: (past ++ [moment]).map Moment.cursor).max? = some moment.peak) ∧
    (∀ past, past <+: history build acts (ofStack stack) →
      (∀ extent ∈ live past, extent.stop ≤ stack.capacity) ∧
        (live past).Pairwise Extent.Apart) ∧
    ∀ marker state fault after,
      perform .checked (.rewind marker) state = .error fault after → after = state := by
  obtain ⟨hbounded, hcursor, hpeak⟩ := Stack.bounded_new hnew hstop
  refine ⟨?_, ?_, ?_, ?_⟩
  · intro moment hmem
    obtain ⟨hmoment, hcapacity⟩ := bounded_of_mem_history build acts hbounded hmem
    have havailable := hmoment.available_eq build
    have hle := hmoment.cursor_le
    rw [hcapacity] at havailable hle
    exact ⟨hle, havailable⟩
  · intro hown past moment future hsplit
    have hstart : (ofStack stack).stack.peak = 0 := hpeak
    obtain ⟨hle, hcapacity, hfold⟩ := peak_eq_foldl build acts hbounded
      (by rw [hstart]; exact Nat.le_of_eq hcursor) (by rw [hstart]; exact Nat.zero_le _)
      (fun _ hmarker ↦ absurd hmarker List.not_mem_nil) hown hsplit
    refine ⟨hle, hcapacity, ?_⟩
    rw [List.max?_cons', hfold, hstart]
  · intro past hpast
    obtain ⟨n, rfl⟩ : ∃ n, past = (history build acts (ofStack stack)).take n :=
      ⟨past.length, List.prefix_iff_eq_take.mp hpast⟩
    rw [history_take]
    exact live_apart build (acts.take n) hbounded
  · rintro marker ⟨stack, scopes⟩ fault after herror
    rcases Stack.rewind_run .checked marker stack with hrun | ⟨-, other, hrun⟩
    · rw [perform, Call.run_bind_of_ok (within_of_ok hrun)] at herror
      cases herror
    · rw [perform, Call.run_bind, within_of_error hrun] at herror
      cases herror
      rfl

/-- Bytes are taken inside a scope and after it, a request finds no room, and a marker is used again
after a reset, when it is ahead of the cursor. -/
theorem history_safe_nested :
    ∃ stack, Stack.new ⟨fun _ _ ↦ true, fun _ ↦ 4096, fun _ ↦ 0⟩ { size := 64, alignment := 16 } =
        .ok stack ∧ stack.region.stop < Word.limit ∧
      ∃ moments, history .unchecked [.allocate 10 8, .mark, .openScope, .allocate 5 16,
          .allocate 100 1, .endScope, .rewind ⟨10, 4096⟩, .allocate 20 4, .reset,
          .rewind ⟨10, 4096⟩] (ofStack stack) = moments ∧
        OwnMarkers [] moments ∧
        moments.map Moment.cursor = [10, 10, 10, 21, 21, 10, 10, 32, 0, 10] ∧
        live (moments.take 4) = [⟨0, 10, by decide⟩, ⟨16, 21, by decide⟩] ∧
        (∀ past moment future, moments = past ++ moment :: future →
          moment.cursor ≤ moment.peak ∧ moment.peak ≤ stack.capacity ∧
            (0 :: (past ++ [moment]).map Moment.cursor).max? = some moment.peak) := by
  have hnew : Stack.new ⟨fun _ _ ↦ true, fun _ ↦ 4096, fun _ ↦ 0⟩ { size := 64, alignment := 16 } =
    .ok ⟨⟨4096, 16, fillBytes 64 fun _ ↦ 0⟩, 0, 0⟩ := rfl
  have hown : OwnMarkers [] (history .unchecked [.allocate 10 8, .mark, .openScope, .allocate 5 16,
      .allocate 100 1, .endScope, .rewind ⟨10, 4096⟩, .allocate 20 4, .reset, .rewind ⟨10, 4096⟩]
        (ofStack ⟨⟨4096, 16, fillBytes 64 fun _ ↦ 0⟩, 0, 0⟩)) := by decide
  exact ⟨_, hnew, by decide, _, rfl, hown, by decide, by decide,
    (history_safe hnew (by decide) _).2.1 hown⟩

end ScopedStack

end Suballoc
