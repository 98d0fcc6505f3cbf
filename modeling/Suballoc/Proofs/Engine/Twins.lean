import Suballoc.Proofs.Engine.Blank
import Suballoc.Proofs.FreeList.Canonical

/-!
# What callers write makes no difference

Links, nodes and headers lie where callers wrote before and will write again. Still no call goes by
what a caller wrote: every word that an engine reads it has written itself since the bytes were last
given to a caller.

Two runs tell. Let two engines of one shape in one place start with whatever bytes, and let their
callers do the same but write what they like, as long as it is inside what they hold. Then the two
are *twins* after every errand: they agree on all but the bytes of callers. So no answer, counter,
chain or header depends on these.
-/

namespace Suballoc

open Engine (Errand)
open Engine.Tenancy
open Suballoc.Tenancy (run watched watched_of_ok exists_runs_of_twins)

/-- Errands that differ in what is written at most. -/
inductive Engine.Errand.Alike : Errand → Errand → Prop where
  | refl (errand : Errand) : Alike errand errand
  | fill (address address' : Nat) (values values' : List UInt8) :
      Alike (.fill address values) (.fill address' values')

theorem Region.Placed.congr {a b : Region} (h : a.Placed) (hblank : a.blank = b.blank) :
    b.Placed := by
  obtain ⟨hbase, halignment, hsize⟩ := Region.blank_eq_blank_iff.mp hblank
  obtain ⟨hpos, haligned, hstop⟩ := h
  rw [Region.stop, hbase, hsize] at hstop
  exact ⟨hbase ▸ hpos, hbase ▸ halignment ▸ haligned, hstop⟩

variable {errand errand' : Engine.Errand} {outcome : Outcome} {held : List Holding}

/-! ## Pools -/

namespace Pool

variable {a b a' : Pool} {free free' : List Nat} {rest : List Holding}

/-- Two pools that agree on all but the bytes of their callers. -/
structure Twins (a b : Pool) (free : List Nat) (held : List Holding) : Prop where
  left : a.Shares free held
  right : b.Shares free held
  blank_eq : a.slots.blank = b.slots.blank

theorem Effect.of_fill {address : Nat} {values : List UInt8}
    (h : a.Effect free held (.fill address values) outcome a' free' rest) :
    outcome = .done ∧ free' = free ∧ rest = held ∧ a'.slots.blank = a.slots.blank := by
  cases h with
  | idle => exact ⟨rfl, rfl, rfl, rfl⟩
  | written => exact ⟨rfl, rfl, rfl, blank_write _ _ _ _⟩

theorem twins_new {platform platform' : Platform} {blockSize blockCount alignment : Nat}
    (ha : new .checked platform blockSize blockCount alignment = .ok a)
    (hb : new .checked platform' blockSize blockCount alignment = .ok b)
    (hbase : a.slots.region.base = b.slots.region.base) (hplaced : a.slots.region.Placed) :
    Twins a b (List.range blockCount) [] := by
  have hblank : a.slots.blank = b.slots.blank :=
    SlotArray.blank_new (slots_new ha) (slots_new hb) hbase
  have hregion := (SlotArray.blank_eq_blank_iff.mp hblank).1
  exact ⟨(shares_new ha hplaced).1, (shares_new hb (hplaced.congr hregion)).1, hblank⟩

namespace Twins

theorem slotAddress_eq (h : Twins a b free held) : b.slotAddress = a.slotAddress := by
  obtain ⟨hregion, hstride, -⟩ := SlotArray.blank_eq_blank_iff.mp h.blank_eq
  obtain ⟨hbase, -⟩ := Region.blank_eq_blank_iff.mp hregion
  funext index
  rw [slotAddress, slotAddress, hbase, hstride]

theorem stride_eq (h : Twins a b free held) : a.slots.stride = b.slots.stride :=
  (SlotArray.blank_eq_blank_iff.mp h.blank_eq).2.1

theorem holding_eq (h : Twins a b free held) : b.holding = a.holding := by
  funext index
  rw [holding, holding, h.slotAddress_eq, blockSize, blockSize, h.stride_eq]

theorem capacity_eq (h : Twins a b free held) : b.capacity = a.capacity :=
  (SlotArray.blank_eq_blank_iff.mp h.blank_eq).2.2.1.symm

theorem allocated_eq (h : Twins a b free held) : a.allocated = b.allocated := by
  have hleft := h.left.represents.allocated_add
  have hright := h.right.represents.allocated_add
  rw [h.capacity_eq] at hright
  omega

theorem pool_blank_eq (h : Twins a b free held) : a.blank = b.blank := by
  rw [blank, blank, h.blank_eq, h.left.represents.head_eq, h.right.represents.head_eq,
    h.allocated_eq]

/-- Errands other than writing do the same to twins. -/
theorem effect (h : Twins a b free held)
    (heffect : a.Effect free held errand outcome a' free' rest) :
    ∃ b', b.Effect free held errand outcome b' free' rest ∧ Twins a' b' free' rest := by
  have hleft := heffect.shares h.left
  suffices hright : ∃ b', b.Effect free held errand outcome b' free' rest ∧
      a'.slots.blank = b'.slots.blank by
    obtain ⟨b', hright, hblank⟩ := hright
    exact ⟨b', hright, hleft, hright.shares h.right, hblank⟩
  cases heffect with
  | idle hidle => exact ⟨b, .idle hidle, h.blank_eq⟩
  | full hpow hfree => exact ⟨b, .full hpow hfree, h.blank_eq⟩
  | @popped _ _ index _ hpow hfree =>
    refine ⟨b.popped index, ?_, ?_⟩
    · rw [← h.slotAddress_eq, ← h.holding_eq]
      exact .popped hpow hfree
    · rw [blank_popped, blank_popped, h.blank_eq]
  | @pushed _ index hnull hfind =>
    refine ⟨b.pushed index, ?_, ?_⟩
    · rw [← h.holding_eq] at hfind ⊢
      exact .pushed hnull hfind
    · rw [blank_pushed, blank_pushed, h.blank_eq]
  | @written index offset values hmem hfits =>
    refine ⟨b.write index offset values, ?_, ?_⟩
    · rw [← h.holding_eq] at hmem
      rw [h.stride_eq] at hfits
      rw [← h.slotAddress_eq]
      exact .written hmem hfits
    · rw [blank_write, blank_write, h.blank_eq]

/-- Twins stay twins, whatever callers write. -/
theorem exists_effects (h : Twins a b free held) (halike : errand.Alike errand') :
    ∃ outcome a' b' free' rest, a.Effect free held errand outcome a' free' rest ∧
      b.Effect free held errand' outcome b' free' rest ∧ Twins a' b' free' rest := by
  cases halike with
  | refl =>
    obtain ⟨outcome, a', free', rest, hleft⟩ := h.left.exists_effect errand
    obtain ⟨b', hright, htwins⟩ := h.effect hleft
    exact ⟨outcome, a', b', free', rest, hleft, hright, htwins⟩
  | fill address address' values values' =>
    obtain ⟨_, a', _, _, hleft⟩ := h.left.exists_effect (.fill address values)
    obtain ⟨_, b', _, _, hright⟩ := h.right.exists_effect (.fill address' values')
    have hblank := h.blank_eq
    obtain ⟨rfl, rfl, rfl, hleft'⟩ := hleft.of_fill
    obtain ⟨rfl, rfl, rfl, hright'⟩ := hright.of_fill
    rw [← hleft', ← hright'] at hblank
    exact ⟨_, a', b', _, _, hleft, hright, hleft.shares h.left, hright.shares h.right, hblank⟩

end Twins

end Pool

/-! ## Free lists -/

namespace FreeList

variable {list next a b a' : FreeList} {leases rest : List Lease} {lease : Lease}

/-- Two free lists that agree on all but the bytes of their callers. -/
structure Twins (a b : FreeList) (leases : List Lease) : Prop where
  left : a.Tiled a.blocks leases
  right : b.Tiled b.blocks leases
  site_eq : a.site = b.site
  header_eq : ∀ lease ∈ leases,
    a.header (lease.payload - nodeSize) = b.header (lease.payload - nodeSize)

theorem twins_new {platform platform' : Platform} {wanted wanted' : Reservation}
    {strategy : FitStrategy} (ha : new platform wanted strategy = .ok a)
    (hb : new platform' wanted' strategy = .ok b) (hsize : wanted.size = wanted'.size)
    (halignment : wanted.alignment = wanted'.alignment)
    (hbase : a.region.base = b.region.base) (hplaced : a.region.Placed) : Twins a b [] := by
  have hsite : a.site = b.site := by
    obtain ⟨-, region, hreserve, rfl⟩ := new_eq_ok ha
    obtain ⟨-, region', hreserve', rfl⟩ := new_eq_ok hb
    rw [base_setNode, base_setNode] at hbase
    rw [site_setNode, site_setNode, site, site,
      Region.blank_reserve hreserve hreserve' hsize halignment hbase]
  have hplaced' : b.region.Placed := hplaced.congr (congrArg Prod.fst hsite)
  exact ⟨(tiled_new ha hplaced.aligned hplaced.stop_lt).1.by_blocks,
    (tiled_new hb hplaced'.aligned hplaced'.stop_lt).1.by_blocks, hsite,
    fun _ hlease ↦ absurd hlease List.not_mem_nil⟩

namespace Effect

theorem of_fill {address : Nat} {values : List UInt8}
    (h : Effect list leases (.fill address values) outcome next rest) :
    outcome = .done ∧ rest = leases := by
  cases h with
  | idle => exact ⟨rfl, rfl⟩
  | written => exact ⟨rfl, rfl⟩

end Effect

namespace Twins

theorem base_eq (h : Twins a b leases) : a.region.base = b.region.base :=
  (Region.blank_eq_blank_iff.mp (congrArg Prod.fst h.site_eq)).1

theorem capacity_eq (h : Twins a b leases) : a.capacity = b.capacity :=
  (Region.blank_eq_blank_iff.mp (congrArg Prod.fst h.site_eq)).2.2

theorem holding_eq (h : Twins a b leases) : b.holding = a.holding := holding_of_base h.base_eq.symm

theorem blockOf_eq (h : Twins a b leases) (hlease : lease ∈ leases) :
    a.blockOf lease = b.blockOf lease := by
  rw [blockOf, blockOf, h.header_eq lease hlease]

/-- What is free is a matter of what is in use, so it is the same for twins. -/
theorem sameBooks (h : Twins a b leases) : SameBooks a b := by
  refine h.left.sameBooks h.right h.capacity_eq fun block ↦ ?_
  have hblocks : a.blocksOf leases = b.blocksOf leases :=
    List.map_congr_left fun lease hlease ↦ h.blockOf_eq hlease
  rw [hblocks]

theorem list_blank_eq (h : Twins a b leases) : a.blank = b.blank := by
  have hbooks := h.sameBooks
  have hregion : a.region.blank = b.region.blank := congrArg Prod.fst h.site_eq
  have hstrategy : a.strategy = b.strategy := congrArg Prod.snd h.site_eq
  rw [blank, blank, hregion, hstrategy, hbooks.head_eq, hbooks.used_eq, hbooks.allocations_eq]

theorem headers_eq (h : Twins a b leases) :
    (Engine.freeList a).headers (leases.map a.holding) =
      (Engine.freeList b).headers (leases.map a.holding) := by
  rw [Engine.headers, Engine.headers, List.map_map, List.map_map, ← h.holding_eq]
  refine List.map_congr_left fun lease hlease ↦ ?_
  have hheader := h.header_eq lease hlease
  rw [Function.comp_apply, Function.comp_apply, holding, h.base_eq, Nat.add_sub_cancel_left,
    hheader]

theorem find_eq (h : Twins a b leases) (build : Build) (size alignment : Nat) :
    a.find build size alignment = b.find build size alignment := by
  have hstrategy : a.strategy = b.strategy := congrArg Prod.snd h.site_eq
  rw [find, find, h.base_eq, hstrategy, h.sameBooks.blocks_eq]

theorem effect (h : Twins a b leases) (heffect : a.Effect leases errand outcome a' rest) :
    ∃ b', b.Effect leases errand outcome b' rest ∧ Twins a' b' rest := by
  have hleft := heffect.tiled h.left
  -- only a header that is new needs a look
  suffices hright : ∃ b', b.Effect leases errand outcome b' rest ∧
      ∀ lease ∈ rest, lease ∉ leases →
        a'.header (lease.payload - nodeSize) = b'.header (lease.payload - nodeSize) by
    obtain ⟨b', hright, hnew⟩ := hright
    refine ⟨b', hright, hleft, hright.tiled h.right, ?_, fun lease hrest ↦ ?_⟩
    · rw [heffect.site_eq, hright.site_eq, h.site_eq]
    · by_cases hlease : lease ∈ leases
      · rw [heffect.header_eq h.left hlease hrest, hright.header_eq h.right hlease hrest,
          h.header_eq lease hlease]
      · exact hnew lease hrest hlease
  cases heffect with
  | idle hidle =>
    rw [← h.holding_eq] at hidle
    exact ⟨b, .idle hidle, fun lease hlease hnew ↦ absurd hlease hnew⟩
  | full hpow hfind =>
    refine ⟨b, .full hpow fun build ↦ ?_, fun lease hlease hnew ↦ absurd hlease hnew⟩
    rw [← h.find_eq]
    exact hfind build
  | @granted size _ _ _ fit hpow hfind hblocks hsound =>
    have hblocks' := hblocks
    rw [h.sameBooks.blocks_eq] at hblocks'
    refine ⟨b.granted fit, ?_, fun lease hlease hnew ↦ ?_⟩
    · rw [← h.holding_eq]
      refine .granted hpow (fun build ↦ ?_) hblocks' hsound
      rw [← h.find_eq]
      exact hfind build
    · obtain rfl := (List.mem_cons.mp hlease).resolve_right hnew
      rw [header_granted (hblocks ▸ h.left) hsound, header_granted (hblocks' ▸ h.right) hsound]
  | @returned address _ _ lease hnull hfind =>
    have hlease := Effect.mem_of_find hfind
    rw [← h.holding_eq] at hfind
    obtain ⟨before, after, hblocks, hbetween, hrelease⟩ :=
      (h.right.perm (List.perm_cons_erase hlease)).release_run
    exact ⟨b.returnedTo before lease after, .returned hnull hfind hblocks hbetween hrelease,
      fun other hother hnew ↦ absurd (List.mem_of_mem_erase hother) hnew⟩
  | @written offset values lease hlease hfits =>
    refine ⟨b.write (lease.payload + offset) values, ?_, fun lease hlease hnew ↦ absurd hlease hnew⟩
    rw [← h.holding_eq]
    exact .written hlease hfits

theorem exists_effects (h : Twins a b leases) (halike : errand.Alike errand') :
    ∃ outcome a' b' rest, a.Effect leases errand outcome a' rest ∧
      b.Effect leases errand' outcome b' rest ∧ Twins a' b' rest := by
  cases halike with
  | refl =>
    obtain ⟨outcome, a', rest, hleft⟩ := h.left.exists_effect errand
    obtain ⟨b', hright, htwins⟩ := h.effect hleft
    exact ⟨outcome, a', b', rest, hleft, hright, htwins⟩
  | fill address address' values values' =>
    obtain ⟨_, a', _, hleft⟩ := h.left.exists_effect (.fill address values)
    obtain ⟨_, b', _, hright⟩ := h.right.exists_effect (.fill address' values')
    obtain ⟨rfl, rfl⟩ := hleft.of_fill
    obtain ⟨rfl, rfl⟩ := hright.of_fill
    refine ⟨_, a', b', _, hleft, hright, hleft.tiled h.left, hright.tiled h.right, ?_, ?_⟩
    · rw [hleft.site_eq, hright.site_eq, h.site_eq]
    · intro lease hlease
      rw [hleft.header_eq h.left hlease hlease, hright.header_eq h.right hlease hlease,
        h.header_eq lease hlease]

end Twins

end FreeList

/-! ## Stacks -/

namespace ScopedStack

variable {a b a' : ScopedStack} {rest : List Holding}

/-- Two stacks that agree on all but the bytes of their callers. -/
structure Twins (a b : ScopedStack) : Prop where
  left : a.stack.Bounded
  right : b.stack.Bounded
  blank_eq : a.blank = b.blank

theorem twins_new {platform platform' : Platform} {wanted wanted' : Reservation}
    {stack stack' : Stack} (ha : Stack.new platform wanted = .ok stack)
    (hb : Stack.new platform' wanted' = .ok stack')
    (hsize : wanted.size = wanted'.size) (halignment : wanted.alignment = wanted'.alignment)
    (hbase : stack.region.base = stack'.region.base) (hplaced : stack.region.Placed) :
    Twins (.ofStack stack) (.ofStack stack') := by
  have hblank : stack.region.blank = stack'.region.blank ∧ stack.cursor = stack'.cursor ∧
      stack.peak = stack'.peak := by
    obtain ⟨region, hreserve, ha⟩ := Call.bind_eq_ok.mp ha
    obtain ⟨region', hreserve', hb⟩ := Call.bind_eq_ok.mp hb
    obtain rfl := Except.ok.inj ha
    obtain rfl := Except.ok.inj hb
    exact ⟨Region.blank_reserve hreserve hreserve' hsize halignment hbase, rfl, rfl⟩
  obtain ⟨hregion, hcursor, hpeak⟩ := hblank
  refine ⟨(Stack.bounded_new ha hplaced.stop_lt).1,
    (Stack.bounded_new hb (hplaced.congr hregion).stop_lt).1, ?_⟩
  obtain ⟨region, cursor, peak⟩ := stack
  obtain ⟨region', cursor', peak'⟩ := stack'
  obtain rfl : cursor = cursor' := hcursor
  obtain rfl : peak = peak' := hpeak
  show ofStack ⟨region.blank, cursor, peak⟩ = ofStack ⟨region'.blank, cursor, peak⟩
  rw [show region.blank = region'.blank from hregion]

namespace Effect

theorem of_fill (h : a.Effect held errand outcome a' rest)
    (hfill : ∃ address values, errand = .fill address values) :
    outcome = .done ∧ rest = held ∧ a'.blank = a.blank := by
  obtain ⟨address, values, rfl⟩ := hfill
  cases h with
  | idle => exact ⟨rfl, rfl, rfl⟩
  | written =>
    refine ⟨rfl, rfl, ?_⟩
    rw [blank, Region.blank_write, blank]
  | acted hact => cases hact

theorem blank (h : a.Effect held errand outcome a' rest) :
    (∃ address values, errand = .fill address values) ∨
      a.blank.Effect held errand outcome a'.blank rest := by
  cases h with
  | idle hidle =>
    right
    refine .idle ?_
    cases errand <;> exact hidle
  | full hpow hroom => exact Or.inr (.full hpow (by rwa [room?_blank]))
  | taken hpow hroom =>
    right
    rw [← room?_blank] at hroom
    rw [← taken_blank]
    exact .taken hpow hroom
  | @written address values => exact Or.inl ⟨address, values, rfl⟩
  | @acted _ what hact =>
    right
    have hacted := acted_blank a what
    have heffect : a.blank.Effect held errand (a.blank.acted what).1 (a.blank.acted what).2
        (held.filter (Engine.stack (a.blank.acted what).2).keeps) := .acted hact
    rw [hacted] at heffect
    exact heffect

end Effect

namespace Twins

theorem exists_effects (h : Twins a b) (halike : errand.Alike errand') (held : List Holding) :
    ∃ outcome a' b' rest, a.Effect held errand outcome a' rest ∧
      b.Effect held errand' outcome b' rest ∧ Twins a' b' := by
  obtain ⟨outcome, a', rest, hleft⟩ := exists_effect errand a held
  obtain ⟨outcome', b', rest', hright⟩ := exists_effect errand' b held
  suffices hsame : outcome = outcome' ∧ a'.blank = b'.blank ∧ rest = rest' by
    obtain ⟨rfl, hblank, rfl⟩ := hsame
    exact ⟨_, a', b', _, hleft, hright, hleft.bounded h.left, hright.bounded h.right, hblank⟩
  -- two writes change bytes only, and without bytes both stacks do the same
  have hfill (hwrites : ∃ address values, errand = .fill address values)
      (hwrites' : ∃ address values, errand' = .fill address values) :
      outcome = outcome' ∧ a'.blank = b'.blank ∧ rest = rest' := by
    obtain ⟨rfl, rfl, hblank⟩ := hleft.of_fill hwrites
    obtain ⟨rfl, rfl, hblank'⟩ := hright.of_fill hwrites'
    exact ⟨rfl, by rw [hblank, hblank', h.blank_eq], rfl⟩
  cases halike with
  | fill => exact hfill ⟨_, _, rfl⟩ ⟨_, _, rfl⟩
  | refl =>
    rcases hleft.blank with hwrites | hleft'
    · exact hfill hwrites hwrites
    · rcases hright.blank with hwrites | hright'
      · exact hfill hwrites hwrites
      · rw [← h.blank_eq] at hright'
        exact hleft'.unique hright' (bounded_blank h.left)

end Twins

end ScopedStack

/-! ## Engines -/

/-- The recipe for the same engine, whatever its bytes start out as. -/
def Recipe.shape : Recipe → Recipe
  | .stack wanted => .stack { wanted with zeroed := false }
  | .freeList wanted strategy => .freeList { wanted with zeroed := false } strategy
  | .region wanted => .region { wanted with zeroed := false }
  | recipe => recipe

theorem Region.step_eq (build : Build) (errand : Engine.Errand) (memory : Region) :
    step build errand ⟨.region memory, []⟩ = .ok .done ⟨.region memory, []⟩ := by
  cases errand with
  | take => exact step_take_of_not_offered rfl
  | give => exact step_give_of_not_offered fun _ ↦ rfl
  | fill => exact step_fill_of_not_held rfl
  | mark | reset | openScope | endScope => exact act_of_not_stack rfl fun _ ↦ rfl
  | rewind => exact step_rewind_of_not_accepts rfl

namespace Engine.Tenancy

variable {tenancy tenancy' : Tenancy} {engine engine' : Engine}

/-- All that an engine goes by: what is held of it, its fields and place, what is free and the
headers before what is held. -/
def outline (tenancy : Tenancy) : List Holding × Engine × List FreeBlock × List Header :=
  (tenancy.held, tenancy.engine.blank, tenancy.engine.freeSpace,
    tenancy.engine.headers tenancy.held)

/-- Run an errand and look at the outline that it leaves. -/
def outlined (build : Build) :
    Errand → Call Tenancy (Outcome × List Holding × Engine × List FreeBlock × List Header) :=
  watched (fun tenancy ↦ .ok (outline tenancy)) (step build)

/-- Two tenancies that agree on all but the bytes of callers. -/
inductive Twins : Tenancy → Tenancy → Prop where
  | pool (guise : Guise) (peak : Nat) (a b : Pool) (free : List Nat) (held : List Holding)
      (twins : a.Twins b free held) (fits : guise.Fits a.capacity)
      (allocated_le : a.allocated ≤ peak) :
      Twins ⟨guise.engine peak a, held⟩ ⟨guise.engine peak b, held⟩
  | stack (a b : ScopedStack) (held : List Holding) (twins : a.Twins b) :
      Twins ⟨.stack a, held⟩ ⟨.stack b, held⟩
  | freeList (a b : FreeList) (leases : List Lease) (twins : a.Twins b leases) :
      Twins ⟨.freeList a, leases.map a.holding⟩ ⟨.freeList b, leases.map a.holding⟩
  | region (a b : Region) (blank_eq : a.blank = b.blank) : Twins ⟨.region a, []⟩ ⟨.region b, []⟩

namespace Twins

/-- **One errand.** Twins answer alike and stay twins, whatever callers write. -/
theorem step (h : Twins tenancy tenancy') (halike : errand.Alike errand') (build : Build) :
    ∃ outcome after after', Twins after after' ∧
      Tenancy.step build errand (tenancy.forBuild build) = .ok outcome (after.forBuild build) ∧
      Tenancy.step build errand' (tenancy'.forBuild build) =
        .ok outcome (after'.forBuild build) := by
  cases h with
  | pool guise peak a b free held htwins hfits hpeak =>
    obtain ⟨outcome, a', b', free', rest, hleft, hright, htwins'⟩ := htwins.exists_effects halike
    have hfits' : guise.Fits b.capacity := by rwa [htwins.capacity_eq]
    have hpeak' : b.allocated ≤ peak := by rwa [← htwins.allocated_eq]
    have hsecond := hright.step_eq htwins.right build guise peak hfits' hpeak'
    refine ⟨outcome, ⟨guise.engine (max peak a'.allocated) a', rest⟩,
      ⟨guise.engine (max peak a'.allocated) b', rest⟩, .pool _ _ _ _ _ _ htwins' ?_ ?_, ?_, ?_⟩
    · rwa [hleft.capacity_eq]
    · exact Nat.le_max_right _ _
    · rw [forBuild, forBuild, forBuild_engine, forBuild_engine]
      exact hleft.step_eq htwins.left build guise peak hfits hpeak
    · rw [← htwins'.allocated_eq] at hsecond
      rw [forBuild, forBuild, forBuild_engine, forBuild_engine]
      exact hsecond
  | stack a b held htwins =>
    obtain ⟨outcome, a', b', rest, hleft, hright, htwins'⟩ := htwins.exists_effects halike held
    exact ⟨outcome, _, _, .stack _ _ _ htwins', hleft.step_eq htwins.left build,
      hright.step_eq htwins.right build⟩
  | freeList a b leases htwins =>
    obtain ⟨outcome, a', b', rest, hleft, hright, htwins'⟩ := htwins.exists_effects halike
    refine ⟨outcome, _, _, .freeList _ _ _ htwins', ?_, ?_⟩
    · rw [hleft.holding_eq]
      exact hleft.step_eq htwins.left build
    · rw [hleft.holding_eq, ← htwins.holding_eq]
      exact hright.step_eq htwins.right build
  | region a b hblank =>
    exact ⟨.done, _, _, .region a b hblank, Region.step_eq build errand a,
      Region.step_eq build errand' b⟩

theorem outline_eq (h : Twins tenancy tenancy') (build : Build) :
    (tenancy.forBuild build).outline = (tenancy'.forBuild build).outline := by
  cases h with
  | pool guise peak a b free held htwins =>
    rw [outline, outline, forBuild, forBuild, forBuild_engine, forBuild_engine, blank_engine,
      blank_engine, freeSpace_engine, freeSpace_engine, headers_engine, headers_engine,
      Pool.blank_forBuild, Pool.blank_forBuild, htwins.pool_blank_eq,
      (htwins.left.represents.forBuild build).freeSlots_eq,
      (htwins.right.represents.forBuild build).freeSlots_eq, Pool.stride_forBuild,
      Pool.stride_forBuild, htwins.stride_eq]
  | stack a b held htwins =>
    show (held, Engine.stack a.blank, [], []) = (held, Engine.stack b.blank, [], [])
    rw [htwins.blank_eq]
  | freeList a b leases htwins =>
    show (leases.map a.holding, Engine.freeList a.blank, a.blocks,
        (Engine.freeList a).headers (leases.map a.holding)) =
      (leases.map a.holding, Engine.freeList b.blank, b.blocks,
        (Engine.freeList b).headers (leases.map a.holding))
    rw [htwins.list_blank_eq, htwins.sameBooks.blocks_eq, htwins.headers_eq]
  | region a b hblank =>
    show ([], Engine.region a.blank, [], []) = ([], Engine.region b.blank, [], [])
    rw [hblank]

end Twins

theorem twins_new {platform platform' : Platform} {recipe recipe' : Recipe}
    (hnew : Engine.new .checked platform recipe = .ok engine)
    (hnew' : Engine.new .checked platform' recipe' = .ok engine')
    (hshape : recipe.shape = recipe'.shape) (hbase : engine.memory.base = engine'.memory.base)
    (hplaced : engine.memory.Placed) : Twins ⟨engine, []⟩ ⟨engine', []⟩ := by
  cases recipe with
  | pool blockSize blockCount alignment =>
    cases recipe' with
    | pool =>
      cases hshape
      obtain ⟨a, ha, hnew⟩ := Call.bind_eq_ok.mp hnew
      obtain ⟨b, hb, hnew'⟩ := Call.bind_eq_ok.mp hnew'
      obtain rfl := Except.ok.inj hnew
      obtain rfl := Except.ok.inj hnew'
      exact .pool .own 0 a b _ _ (Pool.twins_new ha hb hbase hplaced) trivial
        (Nat.le_of_eq (Pool.shares_new ha hplaced).2.2)
    | _ => cases hshape
  | sharedPool blockSize blockCount alignment strategy =>
    cases recipe' with
    | sharedPool =>
      cases hshape
      obtain ⟨shared, hshared, hnew⟩ := Call.bind_eq_ok.mp hnew
      obtain ⟨shared', hshared', hnew'⟩ := Call.bind_eq_ok.mp hnew'
      obtain rfl := Except.ok.inj hnew
      obtain rfl := Except.ok.inj hnew'
      obtain ⟨hfits, a, ha, rfl⟩ := SharedPool.new_eq_ok hshared
      obtain ⟨-, b, hb, rfl⟩ := SharedPool.new_eq_ok hshared'
      obtain ⟨-, hcapacity, hallocated⟩ := Pool.shares_new ha hplaced
      exact .pool (.shared strategy) 0 a b _ _ (Pool.twins_new ha hb hbase hplaced)
        (hcapacity ▸ hfits) (Nat.le_of_eq hallocated)
    | _ => cases hshape
  | stack wanted =>
    cases recipe' with
    | stack wanted' =>
      obtain ⟨hsize, halignment⟩ : wanted.size = wanted'.size ∧
          wanted.alignment = wanted'.alignment := by
        simpa [Recipe.shape] using hshape
      obtain ⟨a, ha, hnew⟩ := Call.bind_eq_ok.mp hnew
      obtain ⟨b, hb, hnew'⟩ := Call.bind_eq_ok.mp hnew'
      obtain rfl := Except.ok.inj hnew
      obtain rfl := Except.ok.inj hnew'
      exact .stack _ _ _ (ScopedStack.twins_new ha hb hsize halignment hbase hplaced)
    | _ => cases hshape
  | freeList wanted strategy =>
    cases recipe' with
    | freeList wanted' strategy' =>
      obtain ⟨⟨hsize, halignment⟩, rfl⟩ : (wanted.size = wanted'.size ∧
          wanted.alignment = wanted'.alignment) ∧ strategy = strategy' := by
        simpa [Recipe.shape] using hshape
      obtain ⟨a, ha, hnew⟩ := Call.bind_eq_ok.mp hnew
      obtain ⟨b, hb, hnew'⟩ := Call.bind_eq_ok.mp hnew'
      obtain rfl := Except.ok.inj hnew
      obtain rfl := Except.ok.inj hnew'
      exact .freeList a b [] (FreeList.twins_new ha hb hsize halignment hbase hplaced)
    | _ => cases hshape
  | region wanted =>
    cases recipe' with
    | region wanted' =>
      obtain ⟨hsize, halignment⟩ : wanted.size = wanted'.size ∧
          wanted.alignment = wanted'.alignment := by
        simpa [Recipe.shape] using hshape
      obtain ⟨a, ha, hnew⟩ := Call.bind_eq_ok.mp hnew
      obtain ⟨b, hb, hnew'⟩ := Call.bind_eq_ok.mp hnew'
      obtain rfl := Except.ok.inj hnew
      obtain rfl := Except.ok.inj hnew'
      exact .region a b (Region.blank_reserve ha hb hsize halignment hbase)
    | _ => cases hshape

/-- **Indifference.** Let two engines of one shape lie in one place, whatever their bytes start out
as, and let callers do the same with them but write what they like. Then the outlines of both are
the same from the start, no errand faults, and each errand has the same answer on both and leaves
the same outline. -/
theorem run_indifferent {build : Build} {platform platform' : Platform} {recipe recipe' : Recipe}
    (hnew : Engine.new build platform recipe = .ok engine)
    (hnew' : Engine.new build platform' recipe' = .ok engine')
    (hshape : recipe.shape = recipe'.shape) (hbase : engine.memory.base = engine'.memory.base)
    (hplaced : engine.memory.Placed) {errands errands' : List Errand}
    (halike : List.Forall₂ Errand.Alike errands errands') :
    outline ⟨engine, []⟩ = outline ⟨engine', []⟩ ∧ ∃ answers after after',
      run (outlined build) errands ⟨engine, []⟩ = .ok answers after ∧
      run (outlined build) errands' ⟨engine', []⟩ = .ok answers after' := by
  rw [Engine.new_forBuild] at hnew hnew'
  obtain ⟨checked, hchecked, rfl⟩ := Call.map_eq_ok.mp hnew
  obtain ⟨checked', hchecked', rfl⟩ := Call.map_eq_ok.mp hnew'
  rw [memory_forBuild] at hbase hplaced
  rw [memory_forBuild] at hbase
  have htwins := twins_new hchecked hchecked' hshape hbase hplaced
  -- the checked engines are the twins, and each build has its own view of both
  have hstep : ∀ errand errand' (tenancy tenancy' : Tenancy), errand.Alike errand' →
      (∃ twin twin', Twins twin twin' ∧ tenancy = twin.forBuild build ∧
        tenancy' = twin'.forBuild build) →
      ∃ answer after after', (∃ twin twin', Twins twin twin' ∧ after = twin.forBuild build ∧
          after' = twin'.forBuild build) ∧
        outlined build errand tenancy = .ok answer after ∧
        outlined build errand' tenancy' = .ok answer after' := by
    rintro errand errand' _ _ halike ⟨twin, twin', h, rfl, rfl⟩
    obtain ⟨outcome, after, after', hafter, hleft, hright⟩ := h.step halike build
    exact ⟨(outcome, (after.forBuild build).outline), _, _, ⟨after, after', hafter, rfl, rfl⟩,
      watched_of_ok hleft rfl, watched_of_ok hright (congrArg _ (hafter.outline_eq build).symm)⟩
  obtain ⟨answers, after, after', -, hleft, hright⟩ :=
    exists_runs_of_twins _ _ hstep halike ⟨_, _, htwins, rfl, rfl⟩
  exact ⟨htwins.outline_eq build, answers, after, after', hleft, hright⟩

/-- One free list starts out with nines, the other with zeros. Memory that is filled with ones in
the first and with twos in the second comes back and is had again. -/
theorem run_indifferent_reused :
    ∃ engine engine' answers after after',
      Engine.new .checked ⟨fun _ _ ↦ true, fun _ ↦ 4096, fun _ ↦ 9⟩
        (.freeList { size := 128, alignment := 64 } .firstFit) = .ok engine ∧
      Engine.new .checked ⟨fun _ _ ↦ true, fun _ ↦ 4096, fun _ ↦ 7⟩
        (.freeList { size := 128, alignment := 64, zeroed := true } .firstFit) = .ok engine' ∧
      run (outlined .checked)
        [.take 24 8, .take 8 8, .fill 4112 (List.replicate 24 1), .give 4112, .take 24 8]
        ⟨engine, []⟩ = .ok answers after ∧
      run (outlined .checked)
        [.take 24 8, .take 8 8, .fill 4112 (List.replicate 24 2), .give 4112, .take 24 8]
        ⟨engine', []⟩ = .ok answers after' ∧
      (answers.map fun answer ↦ answer.1) =
        [.memory (some 4112), .memory (some 4152), .done, .done, .memory (some 4112)] := by
  have hnew : Engine.new .checked ⟨fun _ _ ↦ true, fun _ ↦ 4096, fun _ ↦ 9⟩
      (.freeList { size := 128, alignment := 64 } .firstFit) = .ok (.freeList
        (FreeList.setNode ⟨⟨4096, 64, fillBytes 128 fun _ ↦ 9⟩, .firstFit, 0, 0, 0⟩ 0
          ⟨128, chainEnd⟩)) := rfl
  have hnew' : Engine.new .checked ⟨fun _ _ ↦ true, fun _ ↦ 4096, fun _ ↦ 7⟩
      (.freeList { size := 128, alignment := 64, zeroed := true } .firstFit) = .ok (.freeList
        (FreeList.setNode ⟨⟨4096, 64, fillBytes 128 fun _ ↦ 0⟩, .firstFit, 0, 0, 0⟩ 0
          ⟨128, chainEnd⟩)) := rfl
  have hplaced : (Engine.freeList (FreeList.setNode
      ⟨⟨4096, 64, fillBytes 128 fun _ ↦ 9⟩, .firstFit, 0, 0, 0⟩ 0
        ⟨128, chainEnd⟩)).memory.Placed :=
    ⟨by decide +kernel, by decide +kernel, by decide +kernel⟩
  obtain ⟨-, answers, after, after', hrun, hrun'⟩ := run_indifferent hnew hnew' rfl
    (by decide +kernel) hplaced (List.Forall₂.cons (.refl (.take 24 8)) (.cons (.refl (.take 8 8))
      (.cons (.fill 4112 4112 (List.replicate 24 1) (List.replicate 24 2))
        (.cons (.refl (.give 4112)) (.cons (.refl (.take 24 8)) .nil)))))
  refine ⟨_, _, answers, after, after', hnew, hnew', hrun, hrun', ?_⟩
  have heval : (Call.settled (run (outlined .checked)
      [.take 24 8, .take 8 8, .fill 4112 (List.replicate 24 1), .give 4112, .take 24 8]
      ⟨.freeList (FreeList.setNode ⟨⟨4096, 64, fillBytes 128 fun _ ↦ 9⟩, .firstFit, 0, 0, 0⟩ 0
        ⟨128, chainEnd⟩), []⟩)).1.toOption.map (List.map fun answer ↦ answer.1) =
      some [.memory (some 4112), .memory (some 4152), .done, .done, .memory (some 4112)] := by
    decide +kernel
  rw [hrun] at heval
  exact Option.some.inj heval

end Engine.Tenancy

end Suballoc
