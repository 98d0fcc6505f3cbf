import Suballoc.Proofs.Engine.Builds
import Suballoc.Proofs.FreeList.Moved

/-!
# Where a region lies makes no difference

A stack and a free list keep offsets, and still look at addresses: an alignment is one of addresses,
and rounding an address up may leave the words. Let two regions of one shape lie at addresses that
leave the same remainder by every alignment that is asked for. Then callers who do the same in both,
offset by offset, cannot tell the two apart.

The runs may take different ways. Where rounding leaves the words in one region, it finds an address
in the other; but that lies past the end of the region, and the answer is the same. In exact
integers the ways are one: what is asked for is the least multiple from some address on, and whether
there is room for it depends on the remainder alone.

The statement is about two runs, so the invariant relates two engines: the second is the first moved
to another address, and what callers hold lies at the same offsets.
-/

namespace Suballoc

open Engine (Errand)
open Engine.Tenancy
open Suballoc.Tenancy (run exists_runs_of_twins)

/-! ## Errands at another address -/

/-- The holding of a lease in a region at some address. -/
def Lease.holdingAt (base : Nat) (lease : Lease) : Holding where
  address := base + lease.payload
  size := lease.size

/-- One errand for a region at one address and for a region at another one: the same at the same
offset. The alignment that is asked for does not tell the two addresses apart. -/
inductive Engine.Errand.Shifted (base base' : Nat) : Errand → Errand → Prop where
  | take (size : Nat) {alignment : Nat} (congruent : base ≡ base' [MOD alignment]) :
      Shifted base base' (.take size alignment) (.take size alignment)
  | giveNull : Shifted base base' (.give 0) (.give 0)
  | give {address address' : Nat} (offset : Nat) (left : address = base + offset)
      (right : address' = base' + offset) : Shifted base base' (.give address) (.give address')
  | fill {address address' : Nat} (values : List UInt8) (offset : Nat)
      (left : address = base + offset) (right : address' = base' + offset) :
      Shifted base base' (.fill address values) (.fill address' values)
  | mark : Shifted base base' .mark .mark
  | reset : Shifted base base' .reset .reset
  | rewind (offset : Nat) : Shifted base base' (.rewind ⟨offset, base⟩) (.rewind ⟨offset, base'⟩)
  | openScope : Shifted base base' .openScope .openScope
  | endScope : Shifted base base' .endScope .endScope

/-- An outcome as seen from an address. -/
def Outcome.since (base : Nat) : Outcome → Outcome
  | .done => .done
  | .memory address? => .memory (address?.map (· - base))
  | .marker read => .marker { read with origin := read.origin - base }

section Leases

variable {leases : List Lease} {base offset length : Nat}

/-- Who holds what is a matter of offsets. -/
theorem find?_map_holdingAt :
    ((leases.map (Lease.holdingAt base)).find? fun holding ↦ holding.address = base + offset) =
      (leases.find? fun lease ↦ lease.payload = offset).map (Lease.holdingAt base) := by
  rw [List.find?_map]
  congr 2
  funext lease
  exact decide_eq_decide.mpr Nat.add_left_cancel_iff

theorem Lease.spans_holdingAt (lease : Lease) :
    (lease.holdingAt base).spans (base + offset) length =
      (lease.payload ≤ offset && offset + length ≤ lease.payload + lease.size) := by
  rw [Holding.spans, holdingAt]
  congr 1
  · exact decide_eq_decide.mpr Nat.add_le_add_iff_left
  · rw [Nat.add_assoc, Nat.add_assoc]
    exact decide_eq_decide.mpr Nat.add_le_add_iff_left

theorem any_spans_map_holdingAt :
    (leases.map (Lease.holdingAt base)).any (·.spans (base + offset) length) =
      leases.any fun lease ↦
        lease.payload ≤ offset && offset + length ≤ lease.payload + lease.size := by
  rw [List.any_map]
  congr 1
  funext lease
  exact lease.spans_holdingAt

theorem idle_shifted {base' : Nat} {errand errand' : Engine.Errand} (hbase : 0 < base)
    (hshifted : errand.Shifted base base' errand')
    (h : Idle (leases.map (Lease.holdingAt base)) errand) :
    Idle (leases.map (Lease.holdingAt base')) errand' := by
  cases hshifted with
  | take size hmod => exact h
  | giveNull => exact Or.inl rfl
  | give offset left right =>
    subst left right
    have hfind := h.resolve_left (by omega)
    rw [find?_map_holdingAt, Option.map_eq_none_iff] at hfind
    refine Or.inr ?_
    rw [find?_map_holdingAt, hfind, Option.map_none]
  | fill values offset left right =>
    subst left right
    rw [Idle, any_spans_map_holdingAt] at h
    rw [Idle, any_spans_map_holdingAt]
    exact h
  | mark | reset | rewind | openScope | endScope => trivial

end Leases

/-! ## Free lists -/

namespace FreeList

variable {list next : FreeList} {leases rest : List Lease} {base : Nat}

/-- **One errand.** Its effect on a moved list is the moved effect. -/
theorem Effect.movedTo {errand errand' : Engine.Errand} {outcome : Outcome}
    (h : Effect list leases errand outcome next rest) (htiled : list.Tiled list.blocks leases)
    (htiled' : (list.movedTo base).Tiled list.blocks leases) (hbase : 0 < list.region.base)
    (hbase' : 0 < base) (hshifted : errand.Shifted list.region.base base errand') :
    ∃ outcome', Effect (list.movedTo base) leases errand' outcome' (next.movedTo base) rest ∧
      outcome.since list.region.base = outcome'.since base := by
  have hblocks' : (list.movedTo base).blocks = list.blocks := blocks_movedTo base list
  cases h with
  | idle hidle => exact ⟨.done, .idle (idle_shifted hbase hshifted hidle), rfl⟩
  | full hpow hfind =>
    cases hshifted with
    | take size hmod =>
      refine ⟨.memory none, .full hpow fun build ↦ ?_, rfl⟩
      rw [htiled.find_movedTo build htiled' hpow hmod]
      exact hfind build
  | @granted size _ _ _ fit hpow hfind hblocks hsound =>
    cases hshifted with
    | take size hmod =>
      refine ⟨.memory (some (base + (fit.lease size).payload)), ?_, ?_⟩
      · rw [← granted_movedTo]
        refine .granted hpow (fun build ↦ ?_) (hblocks'.trans hblocks) hsound
        rw [htiled.find_movedTo build htiled' hpow hmod]
        exact hfind build
      · simp [Outcome.since, holding]
  | @returned address before after lease hnull hfind hblocks hbetween =>
    cases hshifted with
    | giveNull => exact absurd rfl hnull
    | give offset left right =>
      subst left right
      have hlease := mem_of_find hfind
      have hfound : (leases.find? fun lease ↦ lease.payload = offset) = some lease := by
        have hsame : (leases.find? fun lease ↦ lease.payload = offset).map list.holding =
            some (list.holding lease) := find?_map_holdingAt.symm.trans hfind
        exact Option.map_injective list.holding_injective hsame
      refine ⟨.done, ?_, rfl⟩
      rw [← returnedTo_movedTo]
      refine .returned (by omega) ?_ (hblocks'.trans hblocks) hbetween fun build ↦ ?_
      · exact find?_map_holdingAt.trans (congrArg _ hfound)
      · have hown := htiled'.perm (List.perm_cons_erase hlease)
        rw [hblocks] at hown
        exact hown.release_of_between build hbetween
  | @written offset values lease hlease hfits =>
    cases hshifted with
    | fill _ offset' left right =>
      obtain rfl : offset' = lease.payload + offset := by
        rw [holding, Nat.add_assoc] at left
        exact (Nat.add_left_cancel left).symm
      subst right
      refine ⟨.done, ?_, rfl⟩
      rw [← write_movedTo, ← Nat.add_assoc]
      exact .written hlease hfits

end FreeList

/-! ## Stacks -/

namespace ScopedStack

/-- The stack at another address, with the markers of its scopes. -/
def movedTo (base : Nat) (state : ScopedStack) : ScopedStack where
  stack := { state.stack with region := state.stack.region.movedTo base }
  scopes := state.scopes.map fun marker ↦ { marker with origin := base }

variable {state next : ScopedStack} {leases : List Lease} {base size alignment : Nat}

theorem taken_movedTo (base : Nat) (state : ScopedStack) (first size : Nat) :
    { state.movedTo base with stack := (state.movedTo base).stack.taken first size } =
      movedTo base { state with stack := state.stack.taken first size } := by
  simp only [Stack.taken, movedTo]
  split <;> rfl

theorem written_movedTo (base : Nat) (state : ScopedStack) (offset : Nat) (values : List UInt8) :
    { state.movedTo base with
      stack :=
        { (state.movedTo base).stack with
          region := (state.movedTo base).stack.region.write offset values } } =
      movedTo base
        { state with
          stack := { state.stack with region := state.stack.region.write offset values } } := by
  simp [movedTo]

theorem accepts_movedTo (base : Nat) (state : ScopedStack) (offset : Nat) :
    (Engine.stack (state.movedTo base)).accepts ⟨offset, base⟩ =
      (Engine.stack state).accepts ⟨offset, state.stack.region.base⟩ := by
  show (decide (base = base) && decide (offset ≤ state.stack.cursor)) =
    (decide (state.stack.region.base = state.stack.region.base) &&
      decide (offset ≤ state.stack.cursor))
  rw [decide_eq_true rfl, decide_eq_true rfl]

theorem room?_movedTo (h : state.stack.Bounded) (h' : (state.movedTo base).stack.Bounded)
    (hbase : 0 < state.stack.region.base) (hbase' : 0 < base) (hpow : alignment.isPowerOfTwo)
    (hmod : state.stack.region.base ≡ base [MOD alignment]) :
    (state.movedTo base).stack.room? size alignment = state.stack.room? size alignment := by
  refine Option.ext fun first ↦ ?_
  rw [Stack.room?_eq_some_iff h' hbase' hpow, Stack.room?_eq_some_iff h hbase hpow]
  refine and_congr_left fun _ ↦ ?_
  exact (isLeast_multiplesFrom_add_congr (Nat.pos_of_isPowerOfTwo hpow) hmod).symm

theorem filter_keeps_map_holdingAt (hbase : state.stack.region.base = base) :
    (leases.map (Lease.holdingAt base)).filter (Engine.stack state).keeps =
      (leases.filter fun lease ↦ lease.payload + lease.size ≤ state.stack.cursor).map
        (Lease.holdingAt base) := by
  rw [List.filter_map]
  congr 2
  funext lease
  rw [Function.comp_apply, Engine.keeps, Lease.holdingAt, hbase, Nat.add_assoc]
  exact decide_eq_decide.mpr Nat.add_le_add_iff_left

theorem acted_movedTo {errand errand' : Errand} {what : Act}
    (hact : state.actOf? errand = some what)
    (hshifted : errand.Shifted state.stack.region.base base errand') :
    ∃ what', (state.movedTo base).actOf? errand' = some what' ∧
      ((state.movedTo base).acted what').2 = (state.acted what).2.movedTo base ∧
      (state.acted what).1.since state.stack.region.base =
        ((state.movedTo base).acted what').1.since base := by
  cases hshifted with
  | take | giveNull | give | fill => cases hact
  | mark | openScope =>
    obtain rfl := Option.some.inj hact
    refine ⟨_, rfl, rfl, ?_⟩
    simp [acted, Outcome.since, Stack.mark, movedTo, Region.movedTo]
  | reset =>
    obtain rfl := Option.some.inj hact
    exact ⟨_, rfl, rfl, rfl⟩
  | rewind offset =>
    obtain ⟨haccepts, hact⟩ := Option.ite_none_right_eq_some.mp hact
    obtain rfl := Option.some.inj hact
    rw [← accepts_movedTo base] at haccepts
    exact ⟨_, if_pos haccepts, rfl, rfl⟩
  | endScope =>
    obtain rfl := Option.some.inj hact
    refine ⟨_, rfl, ?_, rfl⟩
    obtain ⟨stack, _ | ⟨marker, outer⟩⟩ := state
    · rfl
    · simp only [acted, endScope?, movedTo, List.map_cons, Option.getD_some, Stack.close]
      split <;> rfl

/-- **One errand.** Its effect on a moved stack is the moved effect. -/
theorem Effect.movedTo {held : List Holding} {errand errand' : Errand} {outcome : Outcome}
    (h : Effect state (leases.map (Lease.holdingAt state.stack.region.base)) errand outcome next
      held)
    (hbounded : state.stack.Bounded) (hbounded' : (state.movedTo base).stack.Bounded)
    (hbase : 0 < state.stack.region.base) (hbase' : 0 < base)
    (hshifted : errand.Shifted state.stack.region.base base errand') :
    next.stack.region.base = state.stack.region.base ∧
      ∃ outcome', ∃ rest : List Lease, held = rest.map (Lease.holdingAt state.stack.region.base) ∧
        Effect (state.movedTo base) (leases.map (Lease.holdingAt base)) errand' outcome'
          (next.movedTo base) (rest.map (Lease.holdingAt base)) ∧
        outcome.since state.stack.region.base = outcome'.since base := by
  cases h with
  | idle hidle =>
    refine ⟨rfl, .done, leases, rfl, .idle ?_, rfl⟩
    cases hshifted with
    | take => exact hidle
    | giveNull | give => trivial
    | fill values offset left right =>
      subst left right
      rw [Idle, any_spans_map_holdingAt] at hidle
      rw [Idle, any_spans_map_holdingAt]
      exact hidle
    | mark | reset | openScope | endScope => exact hidle.elim
    | rewind offset =>
      rw [Idle, ← accepts_movedTo base] at hidle
      exact hidle
  | full hpow hroom =>
    cases hshifted with
    | take size hmod =>
      refine ⟨rfl, .memory none, leases, rfl, .full hpow ?_, rfl⟩
      rwa [room?_movedTo hbounded hbounded' hbase hbase' hpow hmod]
  | @taken size _ first hpow hroom =>
    cases hshifted with
    | take size hmod =>
      rw [← room?_movedTo hbounded hbounded' hbase hbase' hpow hmod] at hroom
      refine ⟨by rw [Stack.region_taken], .memory (some (base + first)), ⟨first, size⟩ :: leases,
        rfl, ?_, ?_⟩
      · rw [← taken_movedTo]
        exact .taken hpow hroom
      · simp [Outcome.since]
  | @written _ values hmay =>
    cases hshifted with
    | fill _ offset left right =>
      subst left right
      have hoffset : base + offset - (state.movedTo base).stack.region.base = offset :=
        Nat.add_sub_cancel_left _ _
      have hmay' : (leases.map (Lease.holdingAt base)).any
          (·.spans (base + offset) values.length) = true := by
        rw [any_spans_map_holdingAt] at hmay ⊢
        exact hmay
      have hwritten : Effect (state.movedTo base) (leases.map (Lease.holdingAt base))
          (.fill (base + offset) values) .done _ _ := .written hmay'
      refine ⟨Region.base_write _ _ _, .done, leases, rfl, ?_, rfl⟩
      rw [Nat.add_sub_cancel_left, ← written_movedTo]
      rwa [hoffset] at hwritten
  | @acted _ what hact =>
    obtain ⟨what', hact', hnext, hsince⟩ := acted_movedTo hact hshifted
    have hstays := congrArg Region.base (region_acted state what)
    refine ⟨hstays, _, leases.filter fun lease ↦
      lease.payload + lease.size ≤ (state.acted what).2.stack.cursor,
      filter_keeps_map_holdingAt hstays, ?_, hsince⟩
    have hacted : Effect (state.movedTo base) (leases.map (Lease.holdingAt base)) errand' _ _ _ :=
      .acted hact'
    have hkept : (leases.map (Lease.holdingAt base)).filter
        (Engine.stack ((state.acted what).2.movedTo base)).keeps = _ :=
      filter_keeps_map_holdingAt rfl
    rw [hnext, hkept] at hacted
    exact hacted

end ScopedStack

/-! ## Engines -/

/-- The engine at another address. -/
def Engine.movedTo (base : Nat) : Engine → Engine
  | .pool ⟨⟨r, stride, count, live⟩, head, allocated⟩ =>
    .pool ⟨⟨r.movedTo base, stride, count, live⟩, head, allocated⟩
  | .sharedPool ⟨⟨r, stride, count, live⟩, strategy, head, allocated, peak⟩ =>
    .sharedPool ⟨⟨r.movedTo base, stride, count, live⟩, strategy, head, allocated, peak⟩
  | .stack state => .stack (state.movedTo base)
  | .freeList list => .freeList (list.movedTo base)
  | .region r => .region (r.movedTo base)

namespace Engine.Tenancy

variable {build : Build} {tenancy tenancy' after : Tenancy} {engine engine' : Engine}
  {base base' : Nat} {errand errand' : Errand}

/-- What callers see who know no addresses: what they hold, by offset, and the engine as if its
region began at zero, with all its counters and bytes. -/
def chart (tenancy : Tenancy) : List Lease × Engine :=
  (tenancy.held.map fun holding ↦
      ⟨holding.address - tenancy.engine.memory.base, holding.size⟩,
    tenancy.engine.movedTo 0)

/-- Run an errand and see what comes of it, as callers do who know no addresses. -/
def charted (build : Build) (errand : Errand) : Call Tenancy (Outcome × List Lease × Engine) := do
  let outcome ← step build errand
  let tenancy ← get
  return (outcome.since tenancy.engine.memory.base, tenancy.chart)

theorem charted_of_ok {outcome : Outcome} (hstep : step build errand tenancy = .ok outcome after) :
    charted build errand tenancy =
      .ok (outcome.since after.engine.memory.base, after.chart) after := by
  rw [charted, Call.run_bind_of_ok hstep]
  rfl

/-- Two tenancies of stacks or of free lists in use that differ in where the region lies. -/
inductive Translated (base base' : Nat) : Tenancy → Tenancy → Prop where
  | stack (state : ScopedStack) (leases : List Lease) (base_eq : state.stack.region.base = base)
      (bounded : state.stack.Bounded) (bounded' : (state.movedTo base').stack.Bounded) :
      Translated base base' ⟨.stack state, leases.map (Lease.holdingAt base)⟩
        ⟨.stack (state.movedTo base'), leases.map (Lease.holdingAt base')⟩
  | freeList (list : FreeList) (leases : List Lease) (base_eq : list.region.base = base)
      (tiled : list.Tiled list.blocks leases)
      (tiled' : (list.movedTo base').Tiled list.blocks leases) :
      Translated base base' ⟨.freeList list, leases.map (Lease.holdingAt base)⟩
        ⟨.freeList (list.movedTo base'), leases.map (Lease.holdingAt base')⟩

namespace Translated

theorem base_left (h : Translated base base' tenancy tenancy') :
    tenancy.engine.memory.base = base := by
  cases h with
  | stack state leases hbase => exact hbase
  | freeList list leases hbase => exact hbase

theorem base_right (h : Translated base base' tenancy tenancy') :
    tenancy'.engine.memory.base = base' := by
  cases h <;> rfl

theorem map_holdingAt (leases : List Lease) (base : Nat) :
    (leases.map (Lease.holdingAt base)).map
        (fun holding ↦ (⟨holding.address - base, holding.size⟩ : Lease)) = leases := by
  rw [List.map_map]
  refine (List.map_congr_left fun lease _ ↦ ?_).trans (List.map_id leases)
  rw [Function.comp_apply, Lease.holdingAt, Nat.add_sub_cancel_left]
  rfl

/-- Callers who know no addresses see the same. -/
theorem chart_eq (h : Translated base base' tenancy tenancy') : tenancy.chart = tenancy'.chart := by
  rw [chart, chart, h.base_left, h.base_right]
  cases h with
  | stack state leases =>
    dsimp only
    rw [map_holdingAt, map_holdingAt, Engine.movedTo, Engine.movedTo]
    simp [ScopedStack.movedTo, Region.movedTo]
  | freeList list leases =>
    dsimp only
    rw [map_holdingAt, map_holdingAt]
    rfl

/-- **One errand.** What callers do alike at two addresses has the same outcome and leaves the same,
but for the address. -/
theorem step (h : Translated base base' tenancy tenancy') (hbase : 0 < base) (hbase' : 0 < base')
    (hshifted : errand.Shifted base base' errand') (build : Build) :
    ∃ outcome outcome' after after', Translated base base' after after' ∧
      Tenancy.step build errand tenancy = .ok outcome after ∧
      Tenancy.step build errand' tenancy' = .ok outcome' after' ∧
      outcome.since base = outcome'.since base' := by
  cases h with
  | stack state leases hat hbounded hbounded' =>
    subst hat
    obtain ⟨outcome, next, held, heffect⟩ := ScopedStack.exists_effect errand state
      (leases.map (Lease.holdingAt state.stack.region.base))
    obtain ⟨hnext, outcome', rest, rfl, heffect', hsince⟩ :=
      heffect.movedTo hbounded hbounded' hbase hbase' hshifted
    exact ⟨outcome, outcome', _, _, .stack next rest hnext (heffect.bounded hbounded)
      (heffect'.bounded hbounded'), heffect.step_eq hbounded build,
      heffect'.step_eq hbounded' build, hsince⟩
  | freeList list leases hat htiled htiled' =>
    subst hat
    obtain ⟨outcome, next, rest, heffect⟩ := htiled.exists_effect errand
    obtain ⟨outcome', heffect', hsince⟩ :=
      heffect.movedTo htiled htiled' hbase hbase' hshifted
    have hnext' := heffect'.tiled htiled'.by_blocks
    rw [FreeList.blocks_movedTo] at hnext'
    exact ⟨outcome, outcome', _, _,
      .freeList next rest heffect.base_eq (heffect.tiled htiled) hnext',
      heffect.step_eq htiled build, heffect'.step_eq htiled'.by_blocks build, hsince⟩

end Translated

/-! ### New engines -/

theorem stack_new_eq_movedTo {platform platform' : Platform} {wanted : Reservation} {a b : Stack}
    (ha : Stack.new platform wanted = .ok a) (hb : Stack.new platform' wanted = .ok b)
    (hbytes : a.region.bytes = b.region.bytes) :
    ScopedStack.ofStack b = (ScopedStack.ofStack a).movedTo b.region.base := by
  obtain ⟨region, hreserve, ha⟩ := Call.bind_eq_ok.mp ha
  obtain ⟨region', hreserve', hb⟩ := Call.bind_eq_ok.mp hb
  obtain rfl := Except.ok.inj ha
  obtain rfl := Except.ok.inj hb
  obtain ⟨-, -, halignment, -⟩ := Region.reserve_eq_ok hreserve
  obtain ⟨-, -, halignment', -⟩ := Region.reserve_eq_ok hreserve'
  have hregion : region' = region.movedTo region'.base :=
    Region.eq_movedTo (halignment.trans halignment'.symm) hbytes
  simp only [ScopedStack.ofStack, ScopedStack.movedTo, List.map_nil]
  rw [← hregion]

theorem freeList_new_eq_movedTo {platform platform' : Platform} {wanted : Reservation}
    {strategy : FitStrategy} {a b : FreeList} (ha : FreeList.new platform wanted strategy = .ok a)
    (hb : FreeList.new platform' wanted strategy = .ok b)
    (hbytes : a.region.bytes = b.region.bytes) : b = a.movedTo b.region.base := by
  obtain ⟨-, halignment, -⟩ := FreeList.region_new ha
  obtain ⟨-, halignment', -⟩ := FreeList.region_new hb
  have hregion := Region.eq_movedTo (halignment.trans halignment'.symm) hbytes
  have hfields : a.strategy = b.strategy ∧ a.head = b.head ∧ a.used = b.used ∧
      a.allocations = b.allocations := by
    obtain ⟨-, region, -, rfl⟩ := FreeList.new_eq_ok ha
    obtain ⟨-, region', -, rfl⟩ := FreeList.new_eq_ok hb
    exact ⟨rfl, rfl, rfl, rfl⟩
  obtain ⟨region, strategy, head, used, allocations⟩ := a
  obtain ⟨region', strategy', head', used', allocations'⟩ := b
  obtain ⟨rfl, rfl, rfl, rfl⟩ := hfields
  exact congrArg (FreeList.mk · _ _ _ _) hregion

theorem translated_new {platform platform' : Platform} {recipe : Recipe}
    (hnew : Engine.new build platform recipe = .ok engine)
    (hnew' : Engine.new build platform' recipe = .ok engine')
    (hvariable : engine.capabilities?.any (·.variableSize) = true)
    (hbytes : engine.memory.bytes = engine'.memory.bytes)
    (hplaced : engine.memory.Placed) (hplaced' : engine'.memory.Placed) :
    Translated engine.memory.base engine'.memory.base ⟨engine, []⟩ ⟨engine', []⟩ := by
  cases recipe with
  | pool | sharedPool | region =>
    obtain ⟨_, -, hnew⟩ := Call.bind_eq_ok.mp hnew
    obtain rfl := Except.ok.inj hnew
    cases hvariable
  | stack wanted =>
    obtain ⟨a, ha, hnew⟩ := Call.bind_eq_ok.mp hnew
    obtain ⟨b, hb, hnew'⟩ := Call.bind_eq_ok.mp hnew'
    obtain rfl := Except.ok.inj hnew
    obtain rfl := Except.ok.inj hnew'
    obtain ⟨hbounded, -⟩ := Stack.bounded_new ha hplaced.stop_lt
    obtain ⟨hbounded', -⟩ := Stack.bounded_new hb hplaced'.stop_lt
    have hmoved := stack_new_eq_movedTo ha hb hbytes
    have htranslated : Translated a.region.base b.region.base ⟨.stack (.ofStack a), []⟩
        ⟨.stack ((ScopedStack.ofStack a).movedTo b.region.base), []⟩ :=
      .stack (.ofStack a) [] rfl hbounded (hmoved ▸ hbounded')
    rwa [← hmoved] at htranslated
  | freeList wanted strategy =>
    obtain ⟨a, ha, hnew⟩ := Call.bind_eq_ok.mp hnew
    obtain ⟨b, hb, hnew'⟩ := Call.bind_eq_ok.mp hnew'
    obtain rfl := Except.ok.inj hnew
    obtain rfl := Except.ok.inj hnew'
    obtain ⟨htiled, -⟩ := FreeList.tiled_new ha hplaced.aligned hplaced.stop_lt
    obtain ⟨htiled', -⟩ := FreeList.tiled_new hb hplaced'.aligned hplaced'.stop_lt
    have hmoved := freeList_new_eq_movedTo ha hb hbytes
    rw [← htiled.blocks_eq] at htiled'
    have htranslated : Translated a.region.base b.region.base ⟨.freeList a, []⟩
        ⟨.freeList (a.movedTo b.region.base), []⟩ :=
      .freeList a [] rfl htiled.by_blocks (hmoved ▸ htiled')
    rwa [← hmoved] at htranslated

/-! ### Runs -/

/-- **Translation.** Let two stacks, or two free lists, be built to one recipe and start out with
the same bytes, but at two addresses. Let callers do the same with both, offset by offset, and ask
for no alignment by which the two addresses leave different remainders. Then both look alike from
the start to callers who know no addresses, no errand faults, and each errand has the same outcome
on both, as an offset or as none, and leaves the same counters and bytes. -/
theorem run_translated {platform platform' : Platform} {recipe : Recipe}
    (hnew : Engine.new build platform recipe = .ok engine)
    (hnew' : Engine.new build platform' recipe = .ok engine')
    (hvariable : engine.capabilities?.any (·.variableSize) = true)
    (hbytes : engine.memory.bytes = engine'.memory.bytes)
    (hplaced : engine.memory.Placed) (hplaced' : engine'.memory.Placed)
    {errands errands' : List Errand}
    (hshifted : List.Forall₂ (Errand.Shifted engine.memory.base engine'.memory.base)
      errands errands') :
    chart ⟨engine, []⟩ = chart ⟨engine', []⟩ ∧ ∃ answers after after',
      run (charted build) errands ⟨engine, []⟩ = .ok answers after ∧
      run (charted build) errands' ⟨engine', []⟩ = .ok answers after' := by
  have htranslated := translated_new hnew hnew' hvariable hbytes hplaced hplaced'
  have hstep : ∀ errand errand' (tenancy tenancy' : Tenancy),
      errand.Shifted engine.memory.base engine'.memory.base errand' →
      Translated engine.memory.base engine'.memory.base tenancy tenancy' →
      ∃ answer after after', Translated engine.memory.base engine'.memory.base after after' ∧
        charted build errand tenancy = .ok answer after ∧
        charted build errand' tenancy' = .ok answer after' := by
    intro errand errand' tenancy tenancy' hshifted h
    obtain ⟨outcome, outcome', after, after', hafter, hleft, hright, hsince⟩ :=
      h.step hplaced.base_pos hplaced'.base_pos hshifted build
    refine ⟨_, after, after', hafter, charted_of_ok hleft, ?_⟩
    rw [charted_of_ok hright, hafter.base_left, hafter.base_right, hsince, hafter.chart_eq]
  obtain ⟨answers, after, after', -, hleft, hright⟩ :=
    exists_runs_of_twins _ _ hstep hshifted htranslated
  exact ⟨htranslated.chart_eq, answers, after, after', hleft, hright⟩

/-- One region lies in the last page of addresses. Rounding up to a page leaves the words there, and
leads past the end of the other region. -/
theorem run_translated_last_page :
    ∃ engine engine' answers after after',
      Engine.new .checked ⟨fun _ _ ↦ true, fun _ ↦ 4096, fun _ ↦ 9⟩
        (.freeList { size := 128, alignment := 64 } .bestFit) = .ok engine ∧
      Engine.new .checked ⟨fun _ _ ↦ true, fun _ ↦ 18446744073709547520, fun _ ↦ 9⟩
        (.freeList { size := 128, alignment := 64 } .bestFit) = .ok engine' ∧
      run (charted .checked) [.take 24 8, .fill 4112 [1], .take 8 4096, .give 4112]
        ⟨engine, []⟩ = .ok answers after ∧
      run (charted .checked) [.take 24 8, .fill 18446744073709547536 [1], .take 8 4096,
        .give 18446744073709547536] ⟨engine', []⟩ = .ok answers after' ∧
      (answers.map fun answer ↦ answer.1) = [.memory (some 16), .done, .memory none, .done] := by
  have hnew (base : Nat) : Engine.new .checked ⟨fun _ _ ↦ true, fun _ ↦ base, fun _ ↦ 9⟩
      (.freeList { size := 128, alignment := 64 } .bestFit) = .ok (.freeList
        (FreeList.setNode ⟨⟨base, 64, fillBytes 128 fun _ ↦ 9⟩, .bestFit, 0, 0, 0⟩ 0
          ⟨128, chainEnd⟩)) := rfl
  have hshifted : List.Forall₂ (Errand.Shifted 4096 18446744073709547520)
      [.take 24 8, .fill 4112 [1], .take 8 4096, .give 4112]
      [.take 24 8, .fill 18446744073709547536 [1], .take 8 4096, .give 18446744073709547536] :=
    .cons (.take 24 rfl) (.cons (.fill [1] 16 rfl rfl) (.cons (.take 8 rfl)
      (.cons (.give 16 rfl rfl) .nil)))
  obtain ⟨-, answers, after, after', hrun, hrun'⟩ := run_translated (hnew 4096)
    (hnew 18446744073709547520) rfl rfl ⟨by decide +kernel, by decide +kernel, by decide +kernel⟩
    ⟨by decide +kernel, by decide +kernel, by decide +kernel⟩ hshifted
  have hanswers : (Call.settled (run (charted .checked)
      [.take 24 8, .fill 4112 [1], .take 8 4096, .give 4112]
      ⟨.freeList (FreeList.setNode ⟨⟨4096, 64, fillBytes 128 fun _ ↦ 9⟩, .bestFit, 0, 0, 0⟩ 0
        ⟨128, chainEnd⟩), []⟩)).1.toOption.map (fun answers ↦ answers.map fun answer ↦ answer.1) =
      some [.memory (some 16), .done, .memory none, .done] := by decide +kernel
  rw [hrun] at hanswers
  exact ⟨_, _, answers, after, after', hnew 4096, hnew 18446744073709547520, hrun, hrun',
    Option.some.inj hanswers⟩

end Engine.Tenancy

end Suballoc
