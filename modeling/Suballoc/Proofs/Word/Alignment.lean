import Mathlib.Data.Nat.ModEq
import Mathlib.Order.Bounds.Basic
import Suballoc.Word.Alignment

/-!
# Rounding is exact

`alignUp?` clears bits, and everything that depends on it argues about multiples. The bridge is one
statement: the answer is the only multiple of the alignment in the stretch of `alignment` numbers
from the value on, and there is an answer exactly when that multiple is a word.
-/

namespace Suballoc

/-! ## Powers of two -/

theorem dvd_of_isPowerOfTwo_of_le {a b : Nat} (ha : a.isPowerOfTwo) (hb : b.isPowerOfTwo)
    (hle : a ≤ b) : a ∣ b := by
  obtain ⟨i, rfl⟩ := ha
  obtain ⟨j, rfl⟩ := hb
  exact Nat.pow_dvd_pow 2 ((Nat.pow_le_pow_iff_right Nat.one_lt_two).mp hle)

theorem isPowerOfTwo_width : Word.width.isPowerOfTwo := ⟨3, rfl⟩

theorem isPowerOfTwo_limit : Word.limit.isPowerOfTwo := ⟨64, rfl⟩

theorem isPowerOfTwo_max {a b : Nat} (ha : a.isPowerOfTwo) (hb : b.isPowerOfTwo) :
    (max a b).isPowerOfTwo := by
  rcases Nat.le_total a b with h | h
  · rwa [Nat.max_eq_right h]
  · rwa [Nat.max_eq_left h]

/-! ## The rounded value -/

/-- The multiple of an alignment that rounding up by quotient and product finds. -/
def roundedUp (value alignment : Nat) : Nat := (value + (alignment - 1)) / alignment * alignment

theorem dvd_roundedUp (value alignment : Nat) : alignment ∣ roundedUp value alignment :=
  Nat.dvd_mul_left _ _

theorem le_roundedUp_lt (value : Nat) {alignment : Nat} (hpos : 0 < alignment) :
    value ≤ roundedUp value alignment ∧ roundedUp value alignment < value + alignment := by
  have hmod := Nat.mod_lt (value + (alignment - 1)) hpos
  have hdiv := Nat.div_add_mod' (value + (alignment - 1)) alignment
  rw [roundedUp]
  omega

theorem eq_of_dvd_of_lt {alignment a b value : Nat} (ha : alignment ∣ a) (hb : alignment ∣ b)
    (hva : value ≤ a) (hav : a < value + alignment) (hvb : value ≤ b)
    (hbv : b < value + alignment) : a = b := by
  rcases Nat.le_total a b with h | h
  · have := Nat.eq_zero_of_dvd_of_lt ((Nat.dvd_sub hb ha)) (show b - a < alignment by omega)
    omega
  · have := Nat.eq_zero_of_dvd_of_lt ((Nat.dvd_sub ha hb)) (show a - b < alignment by omega)
    omega

theorem alignUp?_eq_some {value alignment result : Nat} (hpow : alignment.isPowerOfTwo)
    (h : alignUp? value alignment = some result) :
    alignment ∣ result ∧ value ≤ result ∧ result < value + alignment ∧
      result < Word.limit := by
  have hpos : 0 < alignment := Nat.pos_of_isPowerOfTwo hpow
  by_cases hraised : value + (alignment - 1) < Word.limit
  · rw [alignUp?_of_isPowerOfTwo value hpow (by omega), if_pos hraised, Option.some_inj] at h
    obtain ⟨hle, hlt⟩ := le_roundedUp_lt value hpos
    rw [roundedUp, h] at hle hlt
    exact ⟨h ▸ Nat.dvd_mul_left _ _, hle, hlt, by omega⟩
  · rw [alignUp?, if_neg hraised] at h
    exact absurd h (by simp)

/-- Rounding up is exact on words: it finds the least multiple of the alignment from the value on,
and fails only if that multiple is not a word. -/
theorem alignUp?_eq_some_iff {value alignment result : Nat} (hpow : alignment.isPowerOfTwo)
    (hlimit : alignment ≤ Word.limit) :
    alignUp? value alignment = some result ↔
      alignment ∣ result ∧ value ≤ result ∧ result < value + alignment ∧
        result < Word.limit := by
  refine ⟨alignUp?_eq_some hpow, ?_⟩
  rintro ⟨hdvd, hle, hlt, hword⟩
  -- the next multiple after `result` is still at most the limit, itself a multiple
  have hroom : result + alignment ≤ Word.limit := by
    obtain ⟨k, hk⟩ := Nat.dvd_sub (dvd_of_isPowerOfTwo_of_le hpow isPowerOfTwo_limit hlimit) hdvd
    have hk0 : k ≠ 0 := by
      rintro rfl
      omega
    have := Nat.le_mul_of_pos_right alignment (Nat.pos_of_ne_zero hk0)
    omega
  have hpos : 0 < alignment := Nat.pos_of_isPowerOfTwo hpow
  obtain ⟨hle', hlt'⟩ := le_roundedUp_lt value hpos
  rw [alignUp?_of_isPowerOfTwo value hpow hlimit, if_pos (by omega), ← roundedUp,
    eq_of_dvd_of_lt (dvd_roundedUp _ _) hdvd hle' hlt' hle hlt]

theorem alignUp?_eq_ite (value : Nat) {alignment : Nat} (hpow : alignment.isPowerOfTwo)
    (hlimit : alignment ≤ Word.limit) :
    alignUp? value alignment =
      if roundedUp value alignment < Word.limit then some (roundedUp value alignment)
      else none := by
  obtain ⟨hle, hlt⟩ := le_roundedUp_lt value (Nat.pos_of_isPowerOfTwo hpow)
  by_cases hword : roundedUp value alignment < Word.limit
  · rw [if_pos hword]
    exact (alignUp?_eq_some_iff hpow hlimit).mpr ⟨dvd_roundedUp _ _, hle, hlt, hword⟩
  · rw [if_neg hword, Option.eq_none_iff_forall_ne_some]
    intro result hresult
    obtain ⟨hdvd, hle', hlt', hword'⟩ := alignUp?_eq_some hpow hresult
    -- another answer would be the same multiple
    rw [eq_of_dvd_of_lt hdvd (dvd_roundedUp _ _) hle' hlt' hle hlt] at hword'
    exact hword hword'

/-! ## Least multiples -/

/-- The multiples of an alignment from a value on. -/
def multiplesFrom (alignment value : Nat) : Set Nat := { m | alignment ∣ m ∧ value ≤ m }

/-- The least of them is the one in the stretch of an alignment from the value on. -/
theorem isLeast_multiplesFrom_iff {alignment value result : Nat} (hpos : 0 < alignment) :
    IsLeast (multiplesFrom alignment value) result ↔
      alignment ∣ result ∧ value ≤ result ∧ result < value + alignment := by
  constructor
  · rintro ⟨⟨hdvd, hle⟩, hleast⟩
    obtain ⟨hle', hlt'⟩ := le_roundedUp_lt value hpos
    have hmem : roundedUp value alignment ∈ multiplesFrom alignment value :=
      ⟨dvd_roundedUp _ _, hle'⟩
    exact ⟨hdvd, hle, Nat.lt_of_le_of_lt (hleast hmem) hlt'⟩
  · rintro ⟨hdvd, hle, hlt⟩
    refine ⟨⟨hdvd, hle⟩, ?_⟩
    rintro other ⟨hother, hle'⟩
    by_contra hbelow
    -- a smaller one would lie in the same stretch
    have := eq_of_dvd_of_lt hdvd hother hle hlt hle' (by omega)
    omega

theorem isLeast_roundedUp (value : Nat) {alignment : Nat} (hpos : 0 < alignment) :
    IsLeast (multiplesFrom alignment value) (roundedUp value alignment) :=
  (isLeast_multiplesFrom_iff hpos).mpr ⟨dvd_roundedUp _ _, le_roundedUp_lt value hpos⟩

theorem exists_isLeast_multiplesFrom (value : Nat) {alignment : Nat} (hpos : 0 < alignment) :
    ∃ result, IsLeast (multiplesFrom alignment value) result :=
  ⟨_, isLeast_roundedUp value hpos⟩

/-- Seen from an address, the least multiple is an aligned one with less than an alignment of
padding before it. -/
theorem isLeast_multiplesFrom_add_iff {alignment base value result : Nat} (hpos : 0 < alignment) :
    IsLeast (multiplesFrom alignment (base + value)) (base + result) ↔
      alignment ∣ base + result ∧ value ≤ result ∧ result < value + alignment := by
  rw [isLeast_multiplesFrom_iff hpos]
  omega

/-- **Translation.** So only the remainder of the address matters. -/
theorem isLeast_multiplesFrom_add_congr {alignment base base' value result : Nat}
    (hpos : 0 < alignment) (hmod : base ≡ base' [MOD alignment]) :
    IsLeast (multiplesFrom alignment (base + value)) (base + result) ↔
      IsLeast (multiplesFrom alignment (base' + value)) (base' + result) := by
  rw [isLeast_multiplesFrom_add_iff hpos, isLeast_multiplesFrom_add_iff hpos,
    (hmod.add_right result).dvd_iff (Nat.dvd_refl _)]

/-- The distances, from a least one on, at which an address is a multiple of an alignment. -/
def shiftsFrom (alignment address least : Nat) : Set Nat :=
  { shift | least ≤ shift ∧ alignment ∣ address + shift }

theorem isLeast_shiftsFrom_iff {alignment address least shift : Nat} :
    IsLeast (shiftsFrom alignment address least) shift ↔
      IsLeast (multiplesFrom alignment (address + least)) (address + shift) := by
  constructor
  · rintro ⟨⟨hle, hdvd⟩, hleast⟩
    refine ⟨⟨hdvd, Nat.add_le_add_left hle _⟩, ?_⟩
    rintro result ⟨hother, hfrom⟩
    obtain ⟨distance, rfl⟩ := Nat.exists_eq_add_of_le (Nat.le_of_add_right_le hfrom)
    exact Nat.add_le_add_left (hleast ⟨Nat.le_of_add_le_add_left hfrom, hother⟩) _
  · rintro ⟨⟨hdvd, hle⟩, hleast⟩
    refine ⟨⟨Nat.le_of_add_le_add_left hle, hdvd⟩, ?_⟩
    rintro distance ⟨hfrom, hother⟩
    exact Nat.le_of_add_le_add_left (hleast ⟨hother, Nat.add_le_add_left hfrom _⟩)

/-- Rounding a value other than zero up finds the least multiple from there on, if it is a word. The
alignment need not be a word. -/
theorem alignUp?_eq_some_iff_isLeast {value alignment result : Nat} (hpow : alignment.isPowerOfTwo)
    (hvalue : 0 < value) :
    alignUp? value alignment = some result ↔
      IsLeast (multiplesFrom alignment value) result ∧ result < Word.limit := by
  have hpos : 0 < alignment := Nat.pos_of_isPowerOfTwo hpow
  by_cases hlimit : alignment ≤ Word.limit
  · rw [alignUp?_eq_some_iff hpow hlimit, isLeast_multiplesFrom_iff hpos]
    tauto
  · -- the sum is too large, and so is every multiple but zero
    rw [alignUp?, if_neg (by omega)]
    refine iff_of_false (by simp) ?_
    rintro ⟨⟨⟨hdvd, hle⟩, -⟩, hword⟩
    have := Nat.le_of_dvd (by omega) hdvd
    omega

end Suballoc
