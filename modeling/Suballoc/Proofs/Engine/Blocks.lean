import Suballoc.Proofs.Engine.Tenancy
import Suballoc.Proofs.FreeList.Tenancy

/-!
# Errands to stacks, free lists and regions

What callers do to a stack or a free list is done in the same way by both builds, and neither
faults. A stack needs no more for that than a cursor in its region, whatever is held; a free list
needs its leases to be what the callers hold.
-/

namespace Suballoc

open Engine (Errand)
open Engine.Tenancy
open Suballoc.Tenancy (onEngine_of_ok)

variable {held : List Holding}

/-! ## Stacks -/

namespace ScopedStack

variable {state : ScopedStack}

/-- An errand to a stack comes to an outcome and leads to the next stack, in either build. -/
structure Serves (errand : Errand) (state : ScopedStack) (held : List Holding) (outcome : Outcome)
    (next : ScopedStack) (rest : List Holding) : Prop where
  bounded : next.stack.Bounded
  step_eq : ∀ build : Build,
    step build errand ⟨.stack state, held⟩ = .ok outcome ⟨.stack next, rest⟩

theorem act_of_perform {build : Build} {what : Act} {outcome : Outcome} {next : ScopedStack}
    (h : perform build what state = .ok outcome next) :
    act build what ⟨.stack state, held⟩ =
      .ok outcome ⟨.stack next, held.filter (Engine.stack next).keeps⟩ := by
  have hstack : Engine.onStack build what (.stack state) = .ok outcome (.stack next) := by
    rw [Engine.onStack, h]
  rw [act, Call.run_bind_of_ok (onEngine_of_ok hstack)]
  rfl

/-- What an errand other than taking and writing does to a stack, if anything. -/
def actOf? (state : ScopedStack) : Errand → Option Act
  | .mark => some .mark
  | .reset => some .reset
  | .rewind marker => if (Engine.stack state).accepts marker then some (.rewind marker) else none
  | .openScope => some .openScope
  | .endScope => some .endScope
  | .take _ _ | .give _ | .fill _ _ => none

/-- What comes of an act other than taking, if the stack accepts it. -/
def acted (state : ScopedStack) : Act → Outcome × ScopedStack
  | .mark => (.marker state.stack.mark, state)
  | .reset => (.done, { state with stack := state.stack.reset })
  | .rewind marker => (.done, { state with stack := state.stack.rewound marker.offset })
  | .openScope =>
    (.marker state.stack.mark, { state with scopes := state.stack.mark :: state.scopes })
  | .endScope => (.done, state.endScope?.getD state)
  | .allocate _ _ => (.done, state)

/-- Whether an errand comes to nothing on a stack of which this is held. -/
def Idle (state : ScopedStack) (held : List Holding) : Errand → Prop
  | .take _ alignment => ¬ alignment.isPowerOfTwo
  | .give _ => True
  | .fill address values => held.any (·.spans address values.length) = false
  | .rewind marker => (Engine.stack state).accepts marker = false
  | .mark | .reset | .openScope | .endScope => False

/-- What an errand does to a stack of which this is held: it comes to an outcome, and leads to the
next stack and what is held then. -/
inductive Effect (state : ScopedStack) (held : List Holding) :
    Errand → Outcome → ScopedStack → List Holding → Prop where
  | idle {errand : Errand} (hidle : state.Idle held errand) :
      Effect state held errand .done state held
  | full {size alignment : Nat} (hpow : alignment.isPowerOfTwo)
      (hroom : state.stack.room? size alignment = none) :
      Effect state held (.take size alignment) (.memory none) state held
  /-- The cursor moves up over the room there is. -/
  | taken {size alignment first : Nat} (hpow : alignment.isPowerOfTwo)
      (hroom : state.stack.room? size alignment = some first) :
      Effect state held (.take size alignment) (.memory (some (state.stack.region.base + first)))
        { state with stack := state.stack.taken first size }
        (⟨state.stack.region.base + first, size⟩ :: held)
  /-- A holder writes to the region. -/
  | written {address : Nat} {values : List UInt8}
      (hmay : held.any (·.spans address values.length) = true) :
      Effect state held (.fill address values) .done
        { state with
          stack :=
            { state.stack with
              region := state.stack.region.write (address - state.stack.region.base) values } }
        held
  | acted {errand : Errand} {what : Act} (hact : state.actOf? errand = some what) :
      Effect state held errand (state.acted what).1 (state.acted what).2
        (held.filter (Engine.stack (state.acted what).2).keeps)

theorem region_acted (state : ScopedStack) (what : Act) :
    (state.acted what).2.stack.region = state.stack.region := by
  cases what with
  | allocate | mark | reset | rewind | openScope => rfl
  | endScope =>
    obtain ⟨stack, _ | ⟨marker, outer⟩⟩ := state
    · rfl
    · simp only [acted, endScope?, Option.getD_some, Stack.close]
      split <;> rfl

theorem perform_of_actOf? {errand : Errand} {what : Act} (hact : state.actOf? errand = some what)
    (build : Build) : perform build what state = .ok (state.acted what).1 (state.acted what).2 := by
  cases errand with
  | mark | reset | openScope | endScope =>
    obtain rfl := Option.some.inj hact
    rfl
  | rewind marker =>
    obtain ⟨haccepts, hact⟩ := Option.ite_none_right_eq_some.mp hact
    obtain rfl := Option.some.inj hact
    rw [Engine.accepts, Bool.and_eq_true, decide_eq_true_iff, decide_eq_true_iff] at haccepts
    rw [perform, Call.run_bind_of_ok
      (within_of_ok (Stack.rewind_of_le build haccepts.1 haccepts.2)), Call.run_pure]
    rfl
  | take | give | fill => cases hact

theorem exists_effect_take (size alignment : Nat) (state : ScopedStack) (held : List Holding) :
    ∃ outcome next rest, Effect state held (.take size alignment) outcome next rest := by
  by_cases hpow : alignment.isPowerOfTwo
  · cases hroom : state.stack.room? size alignment with
    | none => exact ⟨_, _, _, .full hpow hroom⟩
    | some first => exact ⟨_, _, _, .taken hpow hroom⟩
  · exact ⟨_, _, _, .idle hpow⟩

theorem exists_effect (errand : Errand) (state : ScopedStack) (held : List Holding) :
    ∃ outcome next rest, Effect state held errand outcome next rest := by
  cases errand with
  | take size alignment => exact exists_effect_take size alignment state held
  | give address => exact ⟨_, _, _, .idle trivial⟩
  | fill address values =>
    cases hmay : held.any (·.spans address values.length) with
    | false => exact ⟨_, _, _, .idle hmay⟩
    | true => exact ⟨_, _, _, .written hmay⟩
  | rewind marker =>
    cases haccepts : (Engine.stack state).accepts marker with
    | false => exact ⟨_, _, _, .idle haccepts⟩
    | true => exact ⟨_, _, _, .acted (if_pos haccepts)⟩
  | mark | reset | openScope | endScope => exact ⟨_, _, _, .acted rfl⟩

namespace Effect

variable {next : ScopedStack} {rest : List Holding} {errand : Errand} {outcome : Outcome}

theorem bounded (h : Effect state held errand outcome next rest) (hbounded : state.stack.Bounded) :
    next.stack.Bounded := by
  cases h with
  | idle | full => exact hbounded
  | taken hpow hroom =>
    obtain ⟨-, -, hfits, -⟩ := Stack.room?_eq_some hpow hroom
    exact Stack.bounded_taken hbounded hfits
  | written =>
    refine ⟨?_, ?_⟩
    · rw [Region.stop, Region.base_write, Region.size_write]
      exact hbounded.stop_lt
    · rw [Stack.capacity, Region.size_write]
      exact hbounded.cursor_le
  | acted hact => exact bounded_of_perform hbounded (perform_of_actOf? hact .checked)

/-- **One errand.** Its effect is what it does in either build. -/
theorem step_eq (h : Effect state held errand outcome next rest) (hbounded : state.stack.Bounded)
    (build : Build) :
    step build errand ⟨.stack state, held⟩ = .ok outcome ⟨.stack next, rest⟩ := by
  cases h with
  | idle hidle =>
    cases errand with
    | take => exact step_take_of_not_isPowerOfTwo hidle
    | give => exact step_give_of_not_offered fun _ ↦ rfl
    | fill => exact step_fill_of_not_held hidle
    | rewind => exact step_rewind_of_not_accepts hidle
    | mark | reset | openScope | endScope => exact hidle.elim
  | @full size _ hpow hroom =>
    have hrun := hbounded.allocate_run build size hpow
    rw [hroom] at hrun
    refine step_take_of_none hpow ?_
    rw [Engine.allocate, within_of_ok hrun, Engine.settle]
  | @taken size _ _ hpow hroom =>
    have hrun := hbounded.allocate_run build size hpow
    rw [hroom] at hrun
    refine step_take_of_some hpow ?_
    rw [Engine.allocate, within_of_ok hrun, Engine.settle]
  | written hmay => exact step_fill_of_held hmay
  | @acted _ what hact =>
    have hstep : step build errand ⟨.stack state, held⟩ = act build what ⟨.stack state, held⟩ := by
      cases errand with
      | mark | reset | openScope | endScope =>
        obtain rfl := Option.some.inj hact
        rfl
      | rewind marker =>
        obtain ⟨haccepts, hact⟩ := Option.ite_none_right_eq_some.mp hact
        obtain rfl := Option.some.inj hact
        exact step_rewind_of_accepts haccepts
      | take | give | fill => cases hact
    rw [hstep, act_of_perform (perform_of_actOf? hact build)]

theorem unique {next' : ScopedStack} {rest' : List Holding} {outcome' : Outcome}
    (h : Effect state held errand outcome next rest)
    (h' : Effect state held errand outcome' next' rest') (hbounded : state.stack.Bounded) :
    outcome = outcome' ∧ next = next' ∧ rest = rest' := by
  have hstep := h.step_eq hbounded .checked
  rw [h'.step_eq hbounded .checked] at hstep
  cases hstep
  exact ⟨rfl, rfl, rfl⟩

end Effect

/-- **Errands to a stack.** -/
theorem serves (errand : Errand) (held : List Holding) (h : state.stack.Bounded) :
    ∃ outcome next rest, Serves errand state held outcome next rest := by
  obtain ⟨outcome, next, rest, heffect⟩ := exists_effect errand state held
  exact ⟨outcome, next, rest, heffect.bounded h, heffect.step_eq h⟩

end ScopedStack

/-! ## Free lists -/

namespace FreeList

variable {list : FreeList} {leases : List Lease} {lease : Lease}

/-- What the holder of a lease holds. -/
def holding (list : FreeList) (lease : Lease) : Holding where
  address := list.region.base + lease.payload
  size := lease.size

/-- A free list agrees with its callers: its free blocks and what they hold tile the region. -/
def Holds (list : FreeList) (held : List Holding) : Prop :=
  ∃ leases, list.Tiled list.blocks leases ∧ held = leases.map list.holding

/-- What an errand does to a free list of which these leases are out: it comes to an outcome, and
leads to the next free list and the leases that are out then. -/
inductive Effect (list : FreeList) (leases : List Lease) :
    Engine.Errand → Outcome → FreeList → List Lease → Prop where
  | idle {errand : Engine.Errand} (hidle : Idle (leases.map list.holding) errand) :
      Effect list leases errand .done list leases
  | full {size alignment : Nat} (hpow : alignment.isPowerOfTwo)
      (hfind : ∀ build, list.find build size (payloadAlignment alignment) = .ok none) :
      Effect list leases (.take size alignment) (.memory none) list leases
  /-- The front of a block that fits is handed out. -/
  | granted {size alignment : Nat} {before after : List FreeBlock} {fit : Fit}
      (hpow : alignment.isPowerOfTwo)
      (hfind : ∀ build, list.find build size (payloadAlignment alignment) = .ok (some fit))
      (hblocks : list.blocks = before ++ fit.block :: after) (hsound : fit.Sound before size) :
      Effect list leases (.take size alignment)
        (.memory (some (list.holding (fit.lease size)).address)) (list.granted fit)
        (fit.lease size :: leases)
  /-- The block of a lease comes back. -/
  | returned {address : Nat} {before after : List FreeBlock} {lease : Lease} (hnull : address ≠ 0)
      (hfind : ((leases.map list.holding).find? fun holding ↦ holding.address = address) =
        some (list.holding lease))
      (hblocks : list.blocks = before ++ after)
      (hbetween : Between before (list.blockOf lease) after)
      (hrelease : ∀ build, release build (list.holding lease).address list =
        .ok () (list.returnedTo before lease after)) :
      Effect list leases (.give address) .done (list.returnedTo before lease after)
        (leases.erase lease)
  /-- A holder writes to the payload of a lease. -/
  | written {offset : Nat} {values : List UInt8} {lease : Lease} (hlease : lease ∈ leases)
      (hfits : offset + values.length ≤ lease.size) :
      Effect list leases (.fill ((list.holding lease).address + offset) values) .done
        (list.write (lease.payload + offset) values) leases

/-- In either build, an errand to a free list comes to an outcome and leads to the next free list,
which agrees with its callers. -/
structure Serves (errand : Engine.Errand) (list : FreeList) (held : List Holding)
    (outcome : Outcome) (next : FreeList) (rest : List Holding) : Prop where
  holds : next.Holds rest
  step_eq : ∀ build : Build,
    step build errand ⟨.freeList list, held⟩ = .ok outcome ⟨.freeList next, rest⟩

theorem holding_injective (list : FreeList) : Function.Injective list.holding := by
  rintro ⟨payload, size⟩ ⟨payload', size'⟩ h
  injection h with haddress hsize
  obtain rfl : payload = payload' := Nat.add_left_cancel haddress
  obtain rfl : size = size' := hsize
  rfl

/-- Where leases are depends on where the region is only. -/
theorem holding_of_base {next : FreeList} (h : next.region.base = list.region.base) :
    next.holding = list.holding := by
  funext lease
  rw [holding, h, holding]

theorem Holds.of_tiled {free : List FreeBlock} (h : list.Tiled free leases) :
    list.Holds (leases.map list.holding) := by
  refine ⟨leases, ?_, rfl⟩
  rw [h.blocks_eq]
  exact h

theorem exists_effect_fill (address : Nat) (values : List UInt8) (list : FreeList)
    (leases : List Lease) :
    ∃ outcome next rest, Effect list leases (.fill address values) outcome next rest := by
  cases hmay : (leases.map list.holding).any (·.spans address values.length) with
  | false => exact ⟨_, _, _, .idle hmay⟩
  | true =>
    obtain ⟨holding, hmem, hspans⟩ := List.any_eq_true.mp hmay
    obtain ⟨lease, hlease, rfl⟩ := List.mem_map.mp hmem
    obtain ⟨hle, hstop⟩ := (list.holding lease).spans_iff.mp hspans
    obtain ⟨offset, rfl⟩ := Nat.exists_eq_add_of_le hle
    rw [Nat.add_assoc] at hstop
    exact ⟨_, _, _, .written hlease (Nat.le_of_add_le_add_left hstop)⟩

namespace Tiled

theorem by_blocks {free : List FreeBlock} (h : list.Tiled free leases) :
    list.Tiled list.blocks leases := by
  rw [h.blocks_eq]
  exact h

theorem exists_effect_take (size alignment : Nat) (h : list.Tiled list.blocks leases) :
    ∃ outcome next rest, Effect list leases (.take size alignment) outcome next rest := by
  by_cases hpow : alignment.isPowerOfTwo
  · obtain ⟨found, hfind⟩ :
        ∃ found, ∀ build, list.find build size (payloadAlignment alignment) = .ok found :=
      find_eq_ok fun _ hblock ↦ h.address_lt hblock
    cases found with
    | none => exact ⟨_, _, _, .full hpow hfind⟩
    | some fit =>
      obtain ⟨before, after, hblocks, hsound, -⟩ := h.sound_of_find hpow (hfind .checked)
      exact ⟨_, _, _, .granted hpow hfind hblocks hsound⟩
  · exact ⟨_, _, _, .idle hpow⟩

theorem exists_effect_give (address : Nat) (h : list.Tiled list.blocks leases) :
    ∃ outcome next rest, Effect list leases (.give address) outcome next rest := by
  by_cases hnull : address = 0
  · exact ⟨_, _, _, .idle (Or.inl hnull)⟩
  · cases hfind : (leases.map list.holding).find? fun holding ↦ holding.address = address with
    | none => exact ⟨_, _, _, .idle (Or.inr hfind)⟩
    | some holding =>
      obtain ⟨lease, hlease, rfl⟩ := List.mem_map.mp (List.mem_of_find?_eq_some hfind)
      obtain ⟨before, after, hblocks, hbetween, hrelease⟩ :=
        (h.perm (List.perm_cons_erase hlease)).release_run
      exact ⟨_, _, _, .returned hnull hfind hblocks hbetween hrelease⟩

theorem exists_effect (errand : Engine.Errand) (h : list.Tiled list.blocks leases) :
    ∃ outcome next rest, Effect list leases errand outcome next rest := by
  cases errand with
  | take size alignment => exact h.exists_effect_take size alignment
  | give address => exact h.exists_effect_give address
  | fill address values => exact exists_effect_fill address values list leases
  | mark | reset | rewind | openScope | endScope => exact ⟨_, _, _, .idle trivial⟩

end Tiled

namespace Effect

variable {next : FreeList} {rest : List Lease} {errand : Engine.Errand} {outcome : Outcome}

theorem base_eq (h : Effect list leases errand outcome next rest) :
    next.region.base = list.region.base := by
  cases h with
  | idle | full => rfl
  | granted => exact base_granted
  | returned => exact base_restored
  | written => exact Region.base_write _ _ _

theorem holding_eq (h : Effect list leases errand outcome next rest) :
    next.holding = list.holding := holding_of_base h.base_eq

theorem capacity_eq (h : Effect list leases errand outcome next rest) :
    next.capacity = list.capacity := by
  cases h with
  | idle | full => rfl
  | granted => exact capacity_granted
  | returned => exact capacity_restored
  | written => exact Region.size_write _ _ _

theorem mem_of_find {address : Nat}
    (hfind : ((leases.map list.holding).find? fun holding ↦ holding.address = address) =
      some (list.holding lease)) : lease ∈ leases :=
  (List.mem_map_of_injective list.holding_injective).mp (List.mem_of_find?_eq_some hfind)

theorem tiled (h : Effect list leases errand outcome next rest)
    (htiled : list.Tiled list.blocks leases) : next.Tiled next.blocks rest := by
  cases h with
  | idle | full => exact htiled
  | granted hpow hfind hblocks hsound =>
    rw [hblocks] at htiled
    exact (htiled.granted hsound).by_blocks
  | returned hnull hfind hblocks hbetween =>
    have hown := htiled.perm (List.perm_cons_erase (mem_of_find hfind))
    rw [hblocks] at hown
    exact (hown.returnedTo hbetween).by_blocks
  | written hlease hfits => exact (htiled.write hlease hfits).by_blocks

/-- As long as a lease is out, its header stays as it is. -/
theorem header_eq (h : Effect list leases errand outcome next rest)
    (htiled : list.Tiled list.blocks leases) (hlease : lease ∈ leases) (hrest : lease ∈ rest) :
    next.header (lease.payload - nodeSize) = list.header (lease.payload - nodeSize) := by
  cases h with
  | idle | full => rfl
  | granted hpow hfind hblocks hsound =>
    rw [hblocks] at htiled
    exact header_congr (agreeAt_granted htiled hsound hlease)
  | returned hnull hfind hblocks hbetween =>
    have hown := htiled.perm (List.perm_cons_erase (mem_of_find hfind))
    rw [hblocks] at hown
    exact header_congr (agreeAt_returnedTo hown hrest)
  | written hholder hfits => exact header_congr (htiled.agreeAt_write hholder hfits hlease)

/-- **One errand.** Its effect is what it does in either build. -/
theorem step_eq (h : Effect list leases errand outcome next rest)
    (htiled : list.Tiled list.blocks leases) (build : Build) :
    step build errand ⟨.freeList list, leases.map list.holding⟩ =
      .ok outcome ⟨.freeList next, rest.map list.holding⟩ := by
  cases h with
  | idle hidle =>
    exact step_of_idle hidle rfl (fun _ ↦ rfl) (fun _ ↦ rfl) fun _ ↦ rfl
  | @full size _ hpow hfind =>
    refine step_take_of_none hpow ?_
    rw [Engine.allocate, htiled.allocate_of_find_none build hpow (hfind build), Engine.settle]
  | @granted size _ _ _ fit hpow hfind hblocks hsound =>
    rw [hblocks] at htiled
    refine step_take_of_some hpow ?_
    rw [Engine.allocate, htiled.allocate_of_find build hsound hpow (hfind build), Engine.settle]
    rfl
  | returned hnull hfind hblocks hbetween hrelease =>
    rw [List.map_erase list.holding_injective]
    refine step_give_of_held hnull hfind ?_
    rw [Engine.release, hrelease build, Engine.settle]
  | @written offset values lease hlease hfits =>
    have hmay : (leases.map list.holding).any
        (·.spans ((list.holding lease).address + offset) values.length) = true := by
      refine List.any_eq_true.mpr ⟨_, List.mem_map_of_mem hlease, ?_⟩
      rw [Holding.spans_iff, Nat.add_assoc]
      exact ⟨Nat.le_add_right _ _, Nat.add_le_add_left hfits _⟩
    have hoffset : (list.holding lease).address + offset - list.region.base =
        lease.payload + offset := by
      rw [holding, Nat.add_assoc, Nat.add_sub_cancel_left]
    rw [step_fill_of_held hmay, Engine.memory, hoffset]
    rfl

end Effect

/-- **Errands to a free list.** -/
theorem Holds.serves (errand : Engine.Errand) (h : list.Holds held) :
    ∃ outcome next rest, Serves errand list held outcome next rest := by
  obtain ⟨leases, htiled, rfl⟩ := h
  obtain ⟨outcome, next, rest, heffect⟩ := htiled.exists_effect errand
  refine ⟨outcome, next, rest.map list.holding, ?_, heffect.step_eq htiled⟩
  rw [← heffect.holding_eq]
  exact .of_tiled (heffect.tiled htiled)

end FreeList

/-! ## Bare regions -/

theorem Region.serves (errand : Errand) (memory : Region) (held : List Holding) :
    ∃ outcome next, next.base = memory.base ∧ next.size = memory.size ∧ ∀ build : Build,
      step build errand ⟨.region memory, held⟩ = .ok outcome ⟨.region next, held⟩ := by
  cases errand with
  | take size alignment => exact ⟨.done, memory, rfl, rfl, fun _ ↦ step_take_of_not_offered rfl⟩
  | give address =>
    exact ⟨.done, memory, rfl, rfl, fun _ ↦ step_give_of_not_offered fun _ ↦ rfl⟩
  | fill address values =>
    cases hmay : held.any (·.spans address values.length) with
    | false => exact ⟨.done, memory, rfl, rfl, fun _ ↦ step_fill_of_not_held hmay⟩
    | true =>
      exact ⟨.done, memory.write (address - memory.base) values, Region.base_write _ _ _,
        Region.size_write _ _ _, fun _ ↦ step_fill_of_held hmay⟩
  | mark | reset | openScope | endScope =>
    exact ⟨.done, memory, rfl, rfl, fun _ ↦ act_of_not_stack rfl fun _ ↦ rfl⟩
  | rewind marker => exact ⟨.done, memory, rfl, rfl, fun _ ↦ step_rewind_of_not_accepts rfl⟩

end Suballoc
