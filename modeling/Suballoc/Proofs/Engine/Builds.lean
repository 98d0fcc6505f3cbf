import Suballoc.Engine.Report
import Suballoc.Proofs.Engine.Blocks
import Suballoc.Proofs.Engine.Pools

/-!
# Both builds of an engine

To callers who keep the contract the two builds of an engine are the same: whatever they do, no call
faults in a checked build, and what they are answered, what the engine reports and every byte of its
memory is as in an unchecked one.

The state of the two differs in the flags of the slots at most, so there is one sound state and a
view of it for each build. What an errand does to the view is the view of what it does, which the
engines have said one by one; here it is put together and carried through a run.
-/

namespace Suballoc

open Suballoc.Tenancy (run watched watched_of_ok exists_run_of_views)

namespace Engine

variable {engine : Engine} {guise : Guise} {peak : Nat} {pool : Pool} {free : List Nat}

/-! ## The views of the builds -/

/-- The engine without the flags that a build does not keep. -/
def forBuild (build : Build) : Engine → Engine
  | .pool p => .pool (p.forBuild build)
  | .sharedPool p => .sharedPool { p with slots := p.slots.forBuild build }
  | engine => engine

theorem forBuild_engine (build : Build) :
    (guise.engine peak pool).forBuild build = guise.engine peak (pool.forBuild build) := by
  cases guise <;> rfl

theorem memory_forBuild (build : Build) (engine : Engine) :
    (engine.forBuild build).memory = engine.memory := by
  cases build <;> cases engine <;> rfl

theorem report_forBuild (build : Build) (engine : Engine) :
    (engine.forBuild build).report build = engine.report build := by
  cases build <;> cases engine <;> rfl

/-- The same recipe gives the same engine in either build. -/
theorem new_forBuild (build : Build) (platform : Platform) (recipe : Recipe) :
    new build platform recipe = (new .checked platform recipe).map (forBuild build) := by
  cases recipe with
  | pool blockSize blockCount alignment =>
    rw [new, new, Pool.new_forBuild]
    cases Pool.new .checked platform blockSize blockCount alignment <;> rfl
  | sharedPool blockSize blockCount alignment strategy =>
    rw [new, new, SharedPool.new, SharedPool.new, SlotArray.new_forBuild]
    by_cases hmany : packedIndexLimit ≤ blockCount
    · rw [if_pos hmany, if_pos hmany]
      rfl
    · rw [if_neg hmany, if_neg hmany]
      cases SlotArray.new .checked platform blockSize blockCount alignment <;> rfl
  | stack wanted =>
    rw [new, new]
    cases Stack.new platform wanted <;> rfl
  | freeList wanted strategy =>
    rw [new, new]
    cases FreeList.new platform wanted strategy <;> rfl
  | region wanted =>
    rw [new, new]
    cases Region.reserve platform wanted <;> rfl

/-! ## Reports -/

theorem exists_report {usage : Usage} (husage : ∀ build, engine.usage? build = some (.ok usage))
    (hle : usage.used ≤ usage.total) (hown : ∃ own, ∀ build, engine.ownEntries build = .ok own) :
    ∃ entries, ∀ build, engine.report build = .ok entries := by
  obtain ⟨own, hown⟩ := hown
  cases hoffers : engine.capabilities? with
  | none =>
    exact ⟨own, fun build ↦ by simp [report, hoffers, husage build, hown build, pure, Except.pure]⟩
  | some capabilities =>
    exact ⟨_, fun build ↦ by
      simp only [report, husage build, hoffers, Call.ok_bind, Usage.entries,
        Usage.available_of_le build hle, hown build]
      rfl⟩

theorem report_engine (h : pool.Represents .checked free) :
    ∃ entries, ∀ build, (guise.engine peak pool).report build = .ok entries := by
  have hcount := h.allocated_add
  have hle := (h.usage_eq .checked).2
  have havailable (build : Build) :
      pool.available build = .ok (pool.capacity - pool.allocated) :=
    Build.sub_of_le build (by omega)
  have husage (build : Build) := congrArg some (h.usage_eq build).1
  cases guise with
  | own =>
    refine exists_report husage hle ?_
    exact ⟨_, fun build ↦ by rw [Guise.engine, ownEntries, havailable build, Call.ok_bind]; rfl⟩
  | shared strategy => exact exists_report husage hle ⟨_, fun build ↦ rfl⟩

theorem report_stack {state : ScopedStack} (h : state.stack.Bounded) :
    ∃ entries, ∀ build, (stack state).report build = .ok entries := by
  have husage (build : Build) : (stack state).usage? build = some (.ok state.stack.usage) := rfl
  refine exists_report husage h.cursor_le ?_
  exact ⟨_, fun build ↦ by rw [ownEntries, h.available_eq build, Call.ok_bind]; rfl⟩

theorem report_freeList {list : FreeList} {held : List Holding} (h : list.Holds held) :
    ∃ entries, ∀ build, (freeList list).report build = .ok entries := by
  obtain ⟨leases, htiled, -⟩ := h
  have hle : list.used ≤ list.capacity := by
    rw [← htiled.balance]
    exact Nat.le_add_right _ _
  have havailable (build : Build) : list.available build = .ok (list.capacity - list.used) :=
    Build.sub_of_le build hle
  have husage (build : Build) : (freeList list).usage? build = some (.ok list.usage) := rfl
  refine exists_report husage hle ?_
  exact ⟨_, fun build ↦ by
    simp only [ownEntries, FreeList.fragmentation, havailable build, Call.ok_bind]
    rfl⟩

namespace Tenancy

variable {tenancy : Tenancy}

/-- A tenancy as it is in a build. -/
def forBuild (build : Build) (tenancy : Tenancy) : Tenancy :=
  { tenancy with engine := tenancy.engine.forBuild build }

/-- An engine that agrees with its callers. -/
inductive Sound : Tenancy → Prop where
  | pool (guise : Guise) (peak : Nat) (pool : Pool) (held : List Holding) (holds : pool.Holds held)
      (fits : guise.Fits pool.capacity) (allocated_le : pool.allocated ≤ peak) :
      Sound ⟨guise.engine peak pool, held⟩
  | stack (state : ScopedStack) (held : List Holding) (bounded : state.stack.Bounded) :
      Sound ⟨.stack state, held⟩
  | freeList (list : FreeList) (held : List Holding) (holds : list.Holds held) :
      Sound ⟨.freeList list, held⟩
  | region (memory : Region) (held : List Holding) : Sound ⟨.region memory, held⟩

/-- **One errand.** Both builds of a sound engine do the same and leave it sound. -/
theorem Sound.step (errand : Errand) (h : tenancy.Sound) :
    ∃ outcome after, Sound after ∧
      ∀ build, Tenancy.step build errand (tenancy.forBuild build) =
        .ok outcome (after.forBuild build) := by
  cases h with
  | pool guise peak pool held hholds hfits hpeak =>
    obtain ⟨outcome, next, rest, hserves⟩ := hholds.serves errand
    refine ⟨outcome, ⟨guise.engine (max peak next.allocated) next, rest⟩,
      .pool _ _ _ _ hserves.holds (hserves.capacity_eq ▸ hfits) (Nat.le_max_right _ _),
      fun build ↦ ?_⟩
    rw [forBuild, forBuild, forBuild_engine, forBuild_engine]
    exact hserves.step_eq build guise peak hfits hpeak
  | stack state held hbounded =>
    obtain ⟨outcome, next, rest, hserves⟩ := ScopedStack.serves errand held hbounded
    exact ⟨outcome, ⟨.stack next, rest⟩, .stack _ _ hserves.bounded, hserves.step_eq⟩
  | freeList list held hholds =>
    obtain ⟨outcome, next, rest, hserves⟩ := hholds.serves errand
    exact ⟨outcome, ⟨.freeList next, rest⟩, .freeList _ _ hserves.holds, hserves.step_eq⟩
  | region memory held =>
    obtain ⟨outcome, next, -, -, hserves⟩ := memory.serves errand held
    exact ⟨outcome, ⟨.region next, held⟩, .region _ _, hserves⟩

theorem Sound.exists_report (h : tenancy.Sound) :
    ∃ entries, ∀ build, (tenancy.engine.forBuild build).report build = .ok entries := by
  simp only [report_forBuild]
  cases h with
  | pool guise peak pool held hholds =>
    obtain ⟨free, owned, hrepresents, -⟩ := hholds
    exact report_engine hrepresents
  | stack state held hbounded => exact report_stack hbounded
  | freeList list held hholds => exact report_freeList hholds
  | region memory held => exact ⟨_, fun build ↦ rfl⟩

theorem sound_new {platform : Platform} {recipe : Recipe}
    (hnew : Engine.new .checked platform recipe = .ok engine) (hplaced : engine.memory.Placed) :
    Sound ⟨engine, []⟩ := by
  cases recipe with
  | pool blockSize blockCount alignment =>
    obtain ⟨pool, hpool, hnew⟩ := Call.bind_eq_ok.mp hnew
    obtain rfl := Except.ok.inj hnew
    exact .pool .own pool.allocated pool [] (Pool.holds_new hpool hplaced).1 trivial (Nat.le_refl _)
  | sharedPool blockSize blockCount alignment strategy =>
    obtain ⟨shared, hshared, hnew⟩ := Call.bind_eq_ok.mp hnew
    obtain rfl := Except.ok.inj hnew
    obtain ⟨hfits, pool, hpool, rfl⟩ := SharedPool.new_eq_ok hshared
    obtain ⟨hholds, hcapacity, hallocated⟩ := Pool.holds_new hpool hplaced
    exact .pool (.shared strategy) 0 pool [] hholds (hcapacity ▸ hfits) (Nat.le_of_eq hallocated)
  | stack wanted =>
    obtain ⟨stack, hstack, hnew⟩ := Call.bind_eq_ok.mp hnew
    obtain rfl := Except.ok.inj hnew
    exact .stack _ _ (Stack.bounded_new hstack hplaced.stop_lt).1
  | freeList wanted strategy =>
    obtain ⟨list, hlist, hnew⟩ := Call.bind_eq_ok.mp hnew
    obtain rfl := Except.ok.inj hnew
    exact .freeList _ _
      (FreeList.Holds.of_tiled (FreeList.tiled_new hlist hplaced.aligned hplaced.stop_lt).1)
  | region wanted =>
    obtain ⟨memory, -, hnew⟩ := Call.bind_eq_ok.mp hnew
    obtain rfl := Except.ok.inj hnew
    exact .region memory []

/-! ## Runs -/

/-- Whatever callers do who keep the contract, a new engine comes to no fault and stays sound. -/
theorem exists_sound_run {build : Build} {platform : Platform} {recipe : Recipe}
    (hnew : Engine.new build platform recipe = .ok engine) (hplaced : engine.memory.Placed)
    (errands : List Errand) : ∃ answers after, Sound after ∧
      run (step build) errands ⟨engine, []⟩ = .ok answers (after.forBuild build) := by
  rw [Engine.new_forBuild] at hnew
  obtain ⟨checked, hchecked, rfl⟩ := Call.map_eq_ok.mp hnew
  rw [memory_forBuild] at hplaced
  have hstep : ∀ errand (tenancy : Tenancy), tenancy.Sound → ∃ answer after, Sound after ∧
      ∀ build, step build errand (tenancy.forBuild build) = .ok answer (after.forBuild build) :=
    fun errand _ h ↦ h.step errand
  obtain ⟨answers, after, hafter, hrun⟩ :=
    exists_run_of_views forBuild Sound hstep errands (sound_new hchecked hplaced)
  exact ⟨answers, after, hafter, hrun build⟩

/-- What callers who keep the contract can bring about, from a new engine that is well placed. -/
def Reachable (build : Build) (tenancy : Tenancy) : Prop :=
  ∃ platform recipe engine errands answers, Engine.new build platform recipe = .ok engine ∧
    engine.memory.Placed ∧ run (step build) errands ⟨engine, []⟩ = .ok answers tenancy

/-- What is reachable in a build is the view of something sound. -/
theorem Reachable.exists_sound {build : Build} (h : tenancy.Reachable build) :
    ∃ sound, Sound sound ∧ tenancy = sound.forBuild build := by
  obtain ⟨platform, recipe, engine, errands, answers, hnew, hplaced, hrun⟩ := h
  obtain ⟨_, after, hafter, hrun'⟩ := exists_sound_run hnew hplaced errands
  rw [hrun] at hrun'
  cases hrun'
  exact ⟨after, hafter, rfl⟩

theorem reachable_new {build : Build} {platform : Platform} {recipe : Recipe}
    (hnew : Engine.new build platform recipe = .ok engine) (hplaced : engine.memory.Placed) :
    Reachable build ⟨engine, []⟩ :=
  ⟨platform, recipe, engine, [], [], hnew, hplaced, rfl⟩

theorem exists_reachable {build : Build} {platform : Platform} {recipe : Recipe}
    (hnew : Engine.new build platform recipe = .ok engine) (hplaced : engine.memory.Placed)
    (errands : List Errand) : ∃ answers after,
      run (step build) errands ⟨engine, []⟩ = .ok answers after ∧ Reachable build after := by
  obtain ⟨answers, after, -, hrun⟩ := exists_sound_run hnew hplaced errands
  exact ⟨answers, _, hrun, platform, recipe, engine, errands, answers, hnew, hplaced, hrun⟩

/-- What there is to see of an engine in use: what is held of it, its memory and its report. -/
def glimpse (build : Build) (tenancy : Tenancy) :
    Except Fault (List Holding × Region × List (String × Value)) := do
  return (tenancy.held, tenancy.engine.memory, ← tenancy.engine.report build)

theorem Sound.exists_glimpse (h : tenancy.Sound) :
    ∃ sight, ∀ build, glimpse build (tenancy.forBuild build) = .ok sight := by
  obtain ⟨entries, hreport⟩ := h.exists_report
  refine ⟨(tenancy.held, tenancy.engine.memory, entries), fun build ↦ ?_⟩
  rw [glimpse, forBuild, hreport build, memory_forBuild]
  rfl

/-- **Both builds agree.** If a recipe gives an engine in one build it does in the other, and the
two look the same. Whatever callers do who keep the contract, no errand and no look at the engine
faults, and each answer and each look, down to the bytes of the memory, is the same in both. -/
theorem run_agrees {build : Build} {platform : Platform} {recipe : Recipe}
    (hnew : Engine.new build platform recipe = .ok engine) (hplaced : engine.memory.Placed)
    (errands : List Errand) :
    ∃ sight answers, ∀ build, ∃ engine after, Engine.new build platform recipe = .ok engine ∧
      glimpse build ⟨engine, []⟩ = .ok sight ∧
      run (watched (glimpse build) (step build)) errands ⟨engine, []⟩ = .ok answers after := by
  rw [Engine.new_forBuild] at hnew
  obtain ⟨checked, hchecked, rfl⟩ := Call.map_eq_ok.mp hnew
  rw [memory_forBuild] at hplaced
  -- the checked engine is the state that both builds show in their own view
  have hsound := sound_new hchecked hplaced
  obtain ⟨sight, hsight⟩ := hsound.exists_glimpse
  have hstep : ∀ errand (tenancy : Tenancy), tenancy.Sound → ∃ answer after, Sound after ∧
      ∀ build, watched (glimpse build) (step build) errand (tenancy.forBuild build) =
        .ok answer (after.forBuild build) := by
    intro errand tenancy h
    obtain ⟨outcome, after, hafter, hstep⟩ := h.step errand
    obtain ⟨sight, hsight⟩ := hafter.exists_glimpse
    exact ⟨(outcome, sight), after, hafter,
      fun build ↦ watched_of_ok (hstep build) (hsight build)⟩
  obtain ⟨answers, after, -, hrun⟩ := exists_run_of_views forBuild Sound hstep errands hsound
  refine ⟨sight, answers, fun build ↦
    ⟨checked.forBuild build, after.forBuild build, ?_, hsight build, hrun build⟩⟩
  rw [Engine.new_forBuild, hchecked]
  rfl

/-- A stack of 128 bytes is written to, rewound and asked for more bytes than there are, at the
largest alignment there is. -/
theorem run_agrees_rewinding :
    ∃ answers, (answers.map fun answer ↦ answer.1) =
        [.memory (some 4096), .marker ⟨8, 4096⟩, .memory (some 4104), .done, .done, .memory none] ∧
      ∀ build, ∃ engine after,
        Engine.new build ⟨fun _ _ ↦ true, fun _ ↦ 4096, fun _ ↦ 9⟩
          (.stack { size := 128, alignment := 64 }) = .ok engine ∧
        run (watched (glimpse build) (step build))
          [.take 8 8, .mark, .take 1 1, .fill 4104 [7], .rewind ⟨8, 4096⟩,
            .take 0xFFFFFFFFFFFFFFFF 0x8000000000000000] ⟨engine, []⟩ = .ok answers after := by
  have hnew : Engine.new .checked ⟨fun _ _ ↦ true, fun _ ↦ 4096, fun _ ↦ 9⟩
      (.stack { size := 128, alignment := 64 }) =
        .ok (.stack ⟨⟨⟨4096, 64, fillBytes 128 fun _ ↦ 9⟩, 0, 0⟩, []⟩) := rfl
  have hplaced : Region.Placed ⟨4096, 64, fillBytes 128 fun _ ↦ 9⟩ :=
    ⟨by decide, by decide, by rw [Region.stop, Region.size, size_fillBytes]; decide⟩
  obtain ⟨_, answers, hruns⟩ := run_agrees hnew hplaced
    [.take 8 8, .mark, .take 1 1, .fill 4104 [7], .rewind ⟨8, 4096⟩,
      .take 0xFFFFFFFFFFFFFFFF 0x8000000000000000]
  refine ⟨answers, ?_, fun build ↦ ?_⟩
  · have heval : (Call.settled (run (watched (glimpse .checked) (step .checked))
        [.take 8 8, .mark, .take 1 1, .fill 4104 [7], .rewind ⟨8, 4096⟩,
          .take 0xFFFFFFFFFFFFFFFF 0x8000000000000000]
        ⟨.stack ⟨⟨⟨4096, 64, fillBytes 128 fun _ ↦ 9⟩, 0, 0⟩, []⟩, []⟩)).1.toOption.map
          (List.map fun answer ↦ answer.1) =
        some [.memory (some 4096), .marker ⟨8, 4096⟩, .memory (some 4104), .done, .done,
          .memory none] := by decide +kernel
    obtain ⟨_, _, hengine, -, hrun⟩ := hruns .checked
    rw [hnew] at hengine
    obtain rfl := Except.ok.inj hengine
    rw [hrun] at heval
    exact Option.some.inj heval
  · obtain ⟨engine, after, hengine, -, hrun⟩ := hruns build
    exact ⟨engine, after, hengine, hrun⟩

end Tenancy

end Engine

end Suballoc
