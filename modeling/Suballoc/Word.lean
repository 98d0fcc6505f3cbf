/-!
# Machine words

Sizes, offsets and addresses are natural numbers that fit a 64-bit machine word. They are kept as
`Nat`, not as a fixed-width type: every place where a computation can leave the range of a word is
an explicit, named operation, and everything else is ordinary arithmetic. What wraps wraps visibly,
and what must not wrap is a hypothesis `… < Word.limit` that linear arithmetic understands.

The all-ones word is never a valid offset or index, so it serves as the end mark of every chain
that is threaded through managed memory.
-/

namespace Suballoc

namespace Word

/-- The number of values of a machine word: two to the power of 64. -/
def limit : Nat := 0x10000000000000000

/-- The bytes of a machine word. -/
def width : Nat := 8

/-- The difference of two words, going round at zero. -/
def sub (a b : Nat) : Nat := (a + limit - b) % limit

/-- The sum of two words, going round at the limit. -/
def add (a b : Nat) : Nat := (a + b) % limit

/-- The sum of two words, if it is one. -/
def add? (a b : Nat) : Option Nat := if a + b < limit then some (a + b) else none

theorem sub_of_le {a b : Nat} (h : b ≤ a) (ha : a < limit) : sub a b = a - b := by
  unfold sub
  rw [show a + limit - b = a - b + limit by omega, Nat.add_mod_right,
    Nat.mod_eq_of_lt (by omega)]

/-- With a borrow the wrapping difference is as far below the limit as `a` is below `b`. -/
theorem sub_of_lt {a b : Nat} (h : a < b) (hb : b ≤ limit) : sub a b = limit - (b - a) := by
  unfold sub
  rw [Nat.mod_eq_of_lt (by omega)]
  omega

theorem add_of_lt {a b : Nat} (h : a + b < limit) : add a b = a + b := Nat.mod_eq_of_lt h

end Word

/-- The word that ends a chain: all ones, above every index and every offset. -/
def chainEnd : Nat := Word.limit - 1

end Suballoc
