import Suballoc.Proofs.Call
import Suballoc.Proofs.Word.Alignment
import Suballoc.Stack.Scope

/-!
# Calls on a stack

Where a request on a stack ends up depends on the cursor, the base and the capacity alone: `room?`
computes it in ordinary arithmetic, without a word that could go round. As long as the cursor is in
the region, a call for memory is exactly that computation, in either build. A rewind is the move of
the cursor, or it is refused and leaves the stack alone.
-/

namespace Suballoc.Stack

/-- What a stack keeps true. -/
structure Bounded (stack : Stack) : Prop where
  /-- The addresses of the region, and its end, are words. -/
  stop_lt : stack.region.stop < Word.limit
  /-- The cursor is in the region or at its end. -/
  cursor_le : stack.cursor ≤ stack.capacity

variable {stack : Stack} {size alignment first : Nat}

theorem Bounded.available_eq (build : Build) (h : stack.Bounded) :
    stack.available build = .ok (stack.capacity - stack.cursor) :=
  Build.sub_of_le build h.cursor_le

theorem bounded_new {platform : Platform} {wanted : Reservation}
    (hnew : new platform wanted = .ok stack) (hstop : stack.region.stop < Word.limit) :
    stack.Bounded ∧ stack.cursor = 0 ∧ stack.peak = 0 := by
  rw [new] at hnew
  obtain ⟨region, -, hnew⟩ := Call.bind_eq_ok.mp hnew
  obtain rfl := Except.ok.inj hnew
  exact ⟨⟨hstop, Nat.zero_le _⟩, rfl, rfl⟩

/-! ## Taking memory -/

/-- The offset of the first byte of a request, if the request fits. -/
def room? (stack : Stack) (size alignment : Nat) : Option Nat :=
  ((alignUp? (stack.region.base + stack.cursor) alignment).map (· - stack.region.base)).filter
    fun first ↦ first + size ≤ stack.capacity

/-- The stack after so many bytes from an offset on were taken. None at all move nothing. -/
def taken (stack : Stack) (first size : Nat) : Stack :=
  if 0 < size then
    { stack with cursor := first + size, peak := max stack.peak (first + size) }
  else stack

/-- The room for a request lies above the cursor, ends in the region and is aligned; and there is
less than an alignment of padding before it. -/
theorem room?_eq_some (hpow : alignment.isPowerOfTwo)
    (h : stack.room? size alignment = some first) :
    stack.cursor ≤ first ∧ first < stack.cursor + alignment ∧ first + size ≤ stack.capacity ∧
      alignment ∣ stack.region.base + first := by
  obtain ⟨hmap, hfits⟩ := Option.filter_eq_some_iff.mp h
  obtain ⟨aligned, haligned, rfl⟩ := Option.map_eq_some_iff.mp hmap
  obtain ⟨hdvd, hle, hlt, -⟩ := alignUp?_eq_some hpow haligned
  have hbase : stack.region.base + (aligned - stack.region.base) = aligned := by omega
  refine ⟨by omega, by omega, of_decide_eq_true hfits, ?_⟩
  rwa [hbase]

/-- In exact integers, the room for a request is the lowest aligned address from the cursor on. -/
theorem room?_eq_some_iff (h : stack.Bounded) (hpos : 0 < stack.region.base)
    (hpow : alignment.isPowerOfTwo) :
    stack.room? size alignment = some first ↔
      IsLeast (multiplesFrom alignment (stack.region.base + stack.cursor))
          (stack.region.base + first) ∧ first + size ≤ stack.capacity := by
  have hvalue : 0 < stack.region.base + stack.cursor := Nat.add_pos_left hpos _
  rw [room?, Option.filter_eq_some_iff, decide_eq_true_iff, and_congr_left_iff,
    Option.map_eq_some_iff]
  intro hfits
  constructor
  · rintro ⟨aligned, haligned, rfl⟩
    obtain ⟨hleast, -⟩ := (alignUp?_eq_some_iff_isLeast hpow hvalue).mp haligned
    have hle : stack.region.base + stack.cursor ≤ aligned := hleast.1.2
    rwa [Nat.add_sub_cancel' (by omega)]
  · intro hleast
    have hstop := h.stop_lt
    rw [Region.stop, ← capacity] at hstop
    refine ⟨stack.region.base + first, ?_, Nat.add_sub_cancel_left _ _⟩
    exact (alignUp?_eq_some_iff_isLeast hpow hvalue).mpr ⟨hleast, by omega⟩

theorem region_taken (stack : Stack) (first size : Nat) :
    (stack.taken first size).region = stack.region := by
  rw [taken]
  split <;> rfl

theorem bounded_taken (h : stack.Bounded) (hfits : first + size ≤ stack.capacity) :
    (stack.taken first size).Bounded where
  stop_lt := by
    rw [region_taken]
    exact h.stop_lt
  cursor_le := by
    rw [capacity, region_taken, ← capacity, taken]
    split
    · exact hfits
    · exact h.cursor_le

theorem Bounded.place_eq (build : Build) (h : stack.Bounded) (hpow : alignment.isPowerOfTwo) :
    stack.place build size alignment =
      .ok ((alignUp? (stack.region.base + stack.cursor) alignment).bind fun aligned ↦
        (Word.add? (aligned - stack.region.base) size).map
          fun last ↦ (aligned - stack.region.base, last)) := by
  have hstop := h.stop_lt
  have hcursor := h.cursor_le
  rw [Region.stop] at hstop
  rw [capacity] at hcursor
  rw [place, Build.add_of_lt build (by omega), Call.ok_bind]
  cases haligned : alignUp? (stack.region.base + stack.cursor) alignment with
  | none => rfl
  | some aligned =>
    have hle := (alignUp?_eq_some hpow haligned).2.1
    dsimp only
    rw [Build.sub_of_le build (by omega), Call.ok_bind]
    rfl

theorem room?_of_alignUp? {aligned : Nat}
    (haligned : alignUp? (stack.region.base + stack.cursor) alignment = some aligned) :
    stack.room? size alignment =
      if aligned - stack.region.base + size ≤ stack.capacity
        then some (aligned - stack.region.base) else none := by
  simp [room?, haligned, Option.filter]

/-- **Taking.** A call for memory is answered with the room for it. -/
theorem Bounded.allocate_run (build : Build) (size : Nat) (h : stack.Bounded)
    (hpow : alignment.isPowerOfTwo) :
    allocate build size alignment stack =
      match stack.room? size alignment with
      | none => .ok none stack
      | some first => .ok (some (stack.region.base + first)) (stack.taken first size) := by
  have hstop := h.stop_lt
  rw [Region.stop, ← capacity] at hstop
  rw [allocate]
  simp only [hpow, decide_true, Build.require_true, Call.run_bind, Call.run_lift_ok,
    not_true_eq_false, if_false, Call.run_get, h.place_eq build hpow]
  cases haligned : alignUp? (stack.region.base + stack.cursor) alignment with
  | none =>
    rw [room?, haligned]
    rfl
  | some aligned =>
    rw [room?_of_alignUp? haligned]
    by_cases hfits : aligned - stack.region.base + size ≤ stack.capacity
    · have hlast : Word.add? (aligned - stack.region.base) size =
          some (aligned - stack.region.base + size) := if_pos (by omega)
      have haddress : stack.region.address build (aligned - stack.region.base) =
          .ok (stack.region.base + (aligned - stack.region.base)) :=
        Region.address_of_le build (by rw [← capacity]; omega) h.stop_lt
      simp only [if_pos hfits, Option.bind_some, hlast, Option.map_some, Call.run_bind,
        Call.run_get, if_neg (Nat.not_lt.mpr hfits)]
      by_cases hsize : 0 < size
      · simp only [if_pos hsize, Call.run_bind, Call.run_modify, Call.run_get, haddress,
          Call.run_lift_ok, Call.run_pure, taken]
      · simp only [if_neg hsize, Call.run_bind, Call.run_get, haddress, Call.run_lift_ok,
          Call.run_pure, taken]
    · rw [if_neg hfits]
      by_cases hword : aligned - stack.region.base + size < Word.limit
      · simp only [Option.bind_some, Word.add?, if_pos hword, Option.map_some, Call.run_bind,
          Call.run_get, if_pos (Nat.not_le.mp hfits), h.available_eq build, Call.run_lift_ok,
          Call.run_pure]
      · simp only [Option.bind_some, Word.add?, if_neg hword, Option.map_none, Call.run_pure]

theorem allocate_of_not_isPowerOfTwo (build : Build) (size : Nat) (stack : Stack)
    (hpow : ¬ alignment.isPowerOfTwo) :
    allocate build size alignment stack =
      match build with
      | .checked => .error (.violation (.alignmentNotPowerOfTwo alignment)) stack
      | .unchecked => .ok none stack := by
  rw [allocate]
  cases build <;> simp [hpow, Build.require_checked]

/-! ## Rewinding -/

/-- The stack after its cursor was set to an offset, or to the end of the region when the offset
lies beyond. -/
def rewound (stack : Stack) (offset : Nat) : Stack :=
  { stack with cursor := min offset stack.capacity }

/-- A rewind moves the cursor, or it is refused and leaves the stack alone. Only a checked build
refuses. -/
theorem rewind_run (build : Build) (marker : Marker) (stack : Stack) :
    rewind build marker stack = .ok () (stack.rewound marker.offset) ∨
      build = .checked ∧ ∃ fault, rewind build marker stack = .error fault stack := by
  rw [rewind]
  cases build with
  | unchecked =>
    left
    simp [rewound]
  | checked =>
    by_cases horigin : marker.origin = stack.region.base
    · by_cases hahead : marker.offset ≤ stack.cursor
      · left
        simp [Build.require_checked, horigin, hahead, rewound]
      · right
        simp [Build.require_checked, horigin, hahead]
    · right
      simp [Build.require_checked, horigin]

theorem rewind_of_le (build : Build) {marker : Marker} (horigin : marker.origin = stack.region.base)
    (hle : marker.offset ≤ stack.cursor) :
    rewind build marker stack = .ok () (stack.rewound marker.offset) := by
  rw [rewind]
  simp [horigin, hle, rewound]

end Suballoc.Stack
