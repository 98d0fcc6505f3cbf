import Suballoc.Proofs.Stack.History

/-!
# Requests to a stack are exact

A request is computed on absolute addresses, in words, and it has three ways out before the bytes
are taken: the rounded address is not a word, its end is not one, or the end lies beyond the region.
In exact integers these are one condition. The place of a request is the lowest offset from the
cursor on whose address is a multiple of the alignment, and the request is met if it ends in the
region from there. As the end of the region is a word, a place that is not one, or whose end is not
one, lies beyond it anyway.

The statement is about every stack there can be, whatever was done to it since it was built.
-/

namespace Suballoc

namespace Stack

variable {stack : Stack} {alignment first : Nat}

/-- The offsets from the cursor on whose addresses are multiples of an alignment. -/
def spots (stack : Stack) (alignment : Nat) : Set Nat :=
  { offset | stack.cursor ≤ offset ∧ alignment ∣ stack.region.base + offset }

/-- The lowest of these offsets belongs to the lowest of the addresses. -/
theorem isLeast_spots_iff : IsLeast (stack.spots alignment) first ↔
    IsLeast (multiplesFrom alignment (stack.region.base + stack.cursor))
      (stack.region.base + first) :=
  isLeast_shiftsFrom_iff

theorem exists_isLeast_spots (stack : Stack) (hpos : 0 < alignment) :
    ∃ first, IsLeast (stack.spots alignment) first := by
  obtain ⟨address, hleast⟩ :=
    exists_isLeast_multiplesFrom (stack.region.base + stack.cursor) hpos
  obtain ⟨first, rfl⟩ := Nat.exists_eq_add_of_le (Nat.le_of_add_right_le hleast.1.2)
  exact ⟨first, isLeast_spots_iff.mpr hleast⟩

/-- There is room for a request at the lowest aligned offset, or nowhere. -/
theorem Bounded.room?_eq (h : stack.Bounded) (hpow : alignment.isPowerOfTwo)
    (hlimit : alignment ≤ Word.limit) (hleast : IsLeast (stack.spots alignment) first)
    (size : Nat) :
    stack.room? size alignment = if first + size ≤ stack.capacity then some first else none := by
  have hpos : 0 < alignment := Nat.pos_of_isPowerOfTwo hpow
  obtain ⟨hdvd, hle, hlt⟩ :=
    (isLeast_multiplesFrom_iff hpos).mp (isLeast_spots_iff.mp hleast)
  have hstop := h.stop_lt
  rw [Region.stop, ← capacity] at hstop
  by_cases hword : stack.region.base + first < Word.limit
  · have haligned := (alignUp?_eq_some_iff hpow hlimit).mpr ⟨hdvd, hle, hlt, hword⟩
    rw [room?_of_alignUp? haligned, Nat.add_sub_cancel_left]
  · -- an address beyond the words is beyond the region too
    rw [if_neg (by omega), Option.eq_none_iff_forall_not_mem]
    intro other hother
    obtain ⟨hfrom, -, hfits, hdvd'⟩ := room?_eq_some hpow hother
    have := hleast.2 ⟨hfrom, hdvd'⟩
    omega

end Stack

namespace ScopedStack

/-- **Requests are exact.** After whatever was done to a stack since it was built, and in either
build, a request for an alignment that is a power of two is met at the lowest aligned offset from
the cursor on, if it ends in the region from there, and moves the cursor to its end if it is for any
bytes at all; else it is turned down and changes nothing. It comes to an answer in the checked build
too, so nothing that it computes leaves the range of a word. A request for any other alignment
changes nothing: it is a violation, or turned down when contracts are not tested. -/
theorem request_exact {build : Build} {platform : Platform} {wanted : Reservation} {start : Stack}
    (hnew : Stack.new platform wanted = .ok start) (hstop : start.region.stop < Word.limit)
    (acts : List Act) {stack : Stack}
    (hstack : (Call.aftermath (perform build) acts (ofStack start)).stack = stack)
    (size alignment : Nat) :
    (alignment.isPowerOfTwo → alignment ≤ 2 ^ 63 →
      ∃ first, IsLeast (stack.spots alignment) first ∧ ∀ build,
        Stack.allocate build size alignment stack =
          if first + size ≤ stack.capacity then
            .ok (some (stack.region.base + first))
              (if 0 < size then
                { stack with cursor := first + size, peak := max stack.peak (first + size) }
              else stack)
          else .ok none stack) ∧
    (¬ alignment.isPowerOfTwo → ∀ build, Stack.allocate build size alignment stack =
      match build with
      | .checked => .error (.violation (.alignmentNotPowerOfTwo alignment)) stack
      | .unchecked => .ok none stack) := by
  have hbounded : stack.Bounded :=
    hstack ▸ bounded_aftermath build acts (Stack.bounded_new hnew hstop).1
  refine ⟨fun hpow hword ↦ ?_, fun hpow build ↦
    Stack.allocate_of_not_isPowerOfTwo build size stack hpow⟩
  obtain ⟨first, hleast⟩ := stack.exists_isLeast_spots (Nat.pos_of_isPowerOfTwo hpow)
  have hlimit : alignment ≤ Word.limit := Nat.le_trans hword (by decide)
  refine ⟨first, hleast, fun build ↦ ?_⟩
  rw [hbounded.allocate_run build size hpow, hbounded.room?_eq hpow hlimit hleast size]
  by_cases hfits : first + size ≤ stack.capacity
  · rw [if_pos hfits, if_pos hfits]
    rfl
  · rw [if_neg hfits, if_neg hfits]

/-- In a region on the last page of addresses, the last bytes are taken, and at its end there is an
aligned place for no bytes, but none for one byte; the next multiple of half of all addresses is no
word. -/
theorem request_exact_last_page :
    ∃ start, Stack.new ⟨fun _ _ ↦ true, fun _ ↦ 0xfffffffffffff000, fun _ ↦ 0⟩
        { size := 64, alignment := 16 } = .ok start ∧ start.region.stop < Word.limit ∧
      ∃ stack, (Call.aftermath (perform .checked) [.allocate 60 8, .rewind ⟨50, 4096⟩]
          (ofStack start)).stack = stack ∧
        Stack.allocate .checked 4 4 stack =
          .ok (some 0xfffffffffffff03c) { stack with cursor := 64, peak := 64 } ∧
        Stack.allocate .checked 0 16 stack = .ok (some 0xfffffffffffff040) stack ∧
        Stack.allocate .checked 1 16 stack = .ok none stack ∧
        Stack.allocate .checked 0 (2 ^ 63) stack = .ok none stack := by
  have hnew : Stack.new ⟨fun _ _ ↦ true, fun _ ↦ 0xfffffffffffff000, fun _ ↦ 0⟩
      { size := 64, alignment := 16 } =
    .ok ⟨⟨0xfffffffffffff000, 16, fillBytes 64 fun _ ↦ 0⟩, 0, 0⟩ := rfl
  have hstack : (Call.aftermath (perform .checked) [.allocate 60 8, .rewind ⟨50, 4096⟩]
      (ofStack ⟨⟨0xfffffffffffff000, 16, fillBytes 64 fun _ ↦ 0⟩, 0, 0⟩)).stack =
    ⟨⟨0xfffffffffffff000, 16, fillBytes 64 fun _ ↦ 0⟩, 60, 60⟩ := rfl
  have hexact (size alignment : Nat) := request_exact hnew (by decide) _ hstack size alignment
  have hspot (first : Nat) {alignment other : Nat} (hpos : 0 < alignment)
      (hfirst : alignment ∣ 0xfffffffffffff000 + first ∧
        0xfffffffffffff000 + 60 ≤ 0xfffffffffffff000 + first ∧
          0xfffffffffffff000 + first < 0xfffffffffffff000 + 60 + alignment)
      (hother : IsLeast (Stack.spots ⟨⟨0xfffffffffffff000, 16, fillBytes 64 fun _ ↦ 0⟩, 60, 60⟩
        alignment) other) : other = first :=
    hother.unique (Stack.isLeast_spots_iff.mpr ((isLeast_multiplesFrom_iff hpos).mpr hfirst))
  obtain ⟨tail, htail, htaken⟩ := (hexact 4 4).1 ⟨2, rfl⟩ (by decide)
  obtain ⟨word, hword, hmet⟩ := (hexact 0 16).1 ⟨4, rfl⟩ (by decide)
  obtain ⟨byte, hbyte, hfull⟩ := (hexact 1 16).1 ⟨4, rfl⟩ (by decide)
  obtain ⟨half, hhalf, hbeyond⟩ := (hexact 0 (2 ^ 63)).1 ⟨63, rfl⟩ (by decide)
  obtain rfl := hspot 60 (by decide) (by decide) htail
  obtain rfl := hspot 64 (by decide) (by decide) hword
  obtain rfl := hspot 64 (by decide) (by decide) hbyte
  obtain rfl := hspot 4096 (by decide) (by decide) hhalf
  exact ⟨_, hnew, by decide, _, hstack, htaken .checked, hmet .checked, hfull .checked,
    hbeyond .checked⟩

end ScopedStack

end Suballoc
