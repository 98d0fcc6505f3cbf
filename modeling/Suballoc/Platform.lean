import Suballoc.Region
import Suballoc.Setup

/-!
# Platforms

Where regions come from is a parameter of everything that is built: a platform decides which
validated reservations it grants, where it puts them, and what fresh memory holds. A refusal is an
error value like that of a bad parameter, and it comes last: a description with a fault of its own
never reaches the platform.
-/

namespace Suballoc

/-- A source of regions. -/
structure Platform where
  /-- Whether it has a region of this size and alignment. -/
  grants : (size alignment : Nat) → Bool
  /-- The address it gives a region of this alignment. -/
  base : (alignment : Nat) → Nat
  /-- What fresh memory holds at each offset. -/
  fresh : (offset : Nat) → UInt8

/-- The bytes with the given value at each offset. -/
def fillBytes (size : Nat) (value : Nat → UInt8) : ByteArray :=
  Nat.fold size (fun i _ bytes ↦ bytes.push (value i)) ByteArray.empty

theorem size_fillBytes (size : Nat) (value : Nat → UInt8) : (fillBytes size value).size = size := by
  unfold fillBytes
  induction size with
  | zero => rfl
  | succ size ih => rw [Nat.fold_succ, ByteArray.size_push, ih]

/-- Reserve a region: check the description, then ask the platform. -/
def Region.reserve (platform : Platform) (wanted : Reservation) : Except SetupError Region := do
  wanted.check
  if platform.grants wanted.size wanted.alignment then
    return {
      base := platform.base wanted.alignment
      alignment := wanted.alignment
      bytes := fillBytes wanted.size (if wanted.zeroed then fun _ ↦ 0 else platform.fresh) }
  else
    throw (.refused wanted.size wanted.alignment)

theorem Region.reserve_eq_ok {platform : Platform} {wanted : Reservation} {region : Region}
    (h : Region.reserve platform wanted = .ok region) :
    wanted.Valid ∧ region.base = platform.base wanted.alignment ∧
      region.alignment = wanted.alignment ∧ region.size = wanted.size := by
  unfold Region.reserve at h
  cases hcheck : wanted.check with
  | error problem => rw [hcheck] at h; cases h
  | ok =>
    rw [hcheck] at h
    have hvalid := (Reservation.check_eq_ok_iff wanted).mp hcheck
    by_cases hgrants : platform.grants wanted.size wanted.alignment = true
    · simp only [hgrants, if_true] at h
      cases h
      exact ⟨hvalid, rfl, rfl, size_fillBytes _ _⟩
    · simp only [hgrants] at h
      cases h

end Suballoc
