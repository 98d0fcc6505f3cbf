import Suballoc.Word

/-!
# Rounding up to an alignment

Rounding adds `alignment - 1` and clears the low bits. On words this is exact whenever the sum is
one: for a power of two the sum stays below the limit exactly when the rounded value does, so
`alignUp?` refuses precisely the values whose rounding is not a word.

That the alignment is a power of two is not tested here: the rounding of the guarded calls, in
`Proofs.Guarded`, asserts it in every place where an engine rounds, and gives the same result.
-/

namespace Suballoc

/-- The least multiple of a power of two that is at least `value`, if it is a word. -/
def alignUp? (value alignment : Nat) : Option Nat :=
  let raised := value + (alignment - 1)
  if raised < Word.limit then some (raised &&& (Word.limit - alignment)) else none

/-- Clearing the bits of a word below an alignment leaves the multiple of the alignment below it. -/
theorem and_limit_sub {value alignment : Nat} (hvalue : value < Word.limit)
    (hpow : alignment.isPowerOfTwo) (hlimit : alignment ≤ Word.limit) :
    value &&& (Word.limit - alignment) = value / alignment * alignment := by
  obtain ⟨k, rfl⟩ := hpow
  have hk : k ≤ 64 := (Nat.pow_le_pow_iff_right Nat.one_lt_two).mp hlimit
  have hmask : Word.limit - 2 ^ k = (2 ^ (64 - k) - 1) * 2 ^ k := by
    rw [Nat.sub_mul, ← Nat.pow_add, Nat.sub_add_cancel hk, Nat.one_mul]
    rfl
  rw [hmask]
  refine Nat.eq_of_testBit_eq fun i ↦ ?_
  rw [Nat.testBit_and, Nat.testBit_mul_two_pow, Nat.testBit_mul_two_pow, Nat.testBit_div_two_pow,
    Nat.testBit_two_pow_sub_one]
  by_cases hik : k ≤ i
  · by_cases hi : i < 64
    · simp [hik, show i - k < 64 - k by omega, Nat.sub_add_cancel hik]
    · have hhigh : value.testBit i = false := by
        refine Nat.testBit_lt_two_pow (Nat.lt_of_lt_of_le hvalue ?_)
        exact Nat.pow_le_pow_right Nat.two_pos (show 64 ≤ i by omega)
      simp [hik, hhigh, Nat.sub_add_cancel hik]
  · simp [hik]

/-- Rounding up in closed form: by quotient and product instead of by bits. -/
theorem alignUp?_of_isPowerOfTwo (value : Nat) {alignment : Nat} (hpow : alignment.isPowerOfTwo)
    (hlimit : alignment ≤ Word.limit) :
    alignUp? value alignment =
      if value + (alignment - 1) < Word.limit
        then some ((value + (alignment - 1)) / alignment * alignment) else none := by
  rw [alignUp?]
  split
  · rename_i h
    rw [and_limit_sub h hpow hlimit]
  · rfl

end Suballoc
