import Suballoc.Fault

/-!
# Builds

The same engine comes in two builds. The checked one tests contracts and assertions and faults when
arithmetic leaves the range of a word; the unchecked one trusts its callers, skips every test and
lets arithmetic go round.

A release build that still tests contracts is a third one and is not modelled: there arithmetic goes
round while contracts are tested. It is the checked one up to the first overflow. Past that it is
not: the test of a free list's header adds words that may be those of a node by now, and a sum that
makes the checked build fault goes round in the third one and may pass for one that fits.

Each operation below is what an engine writes in both builds. Where the exact result is a word the
two agree, and the checked build succeeds; the lemmas say so, and they are how an argument about an
engine's invariant shows that the choice of build cannot be observed.
-/

namespace Suballoc

/-- Whether an engine looks after its callers. -/
inductive Build where
  | checked
  | unchecked
deriving DecidableEq, Repr

namespace Build

/-- Whether contracts, assertions and overflow are tested. -/
def checks : Build → Bool
  | checked => true
  | unchecked => false

/-- Test a contract whose condition may itself overflow. -/
def requireM (build : Build) (broken : Violation) (holds : Except Fault Bool) :
    Except Fault Unit :=
  match build with
  | unchecked => .ok ()
  | checked =>
    match holds with
    | .ok true => .ok ()
    | .ok false => .error (.violation broken)
    | .error fault => .error fault

/-- Test a contract. -/
def require (build : Build) (broken : Violation) (holds : Bool) : Except Fault Unit :=
  build.requireM broken (.ok holds)

/-- Test an assertion. -/
def assert (build : Build) (failed : Assertion) (holds : Bool) : Except Fault Unit :=
  if build.checks && !holds then .error (.assertion failed) else .ok ()

/-- The sum of two words. -/
def add (build : Build) (a b : Nat) : Except Fault Nat :=
  if a + b < Word.limit then .ok (a + b)
  else if build.checks then .error (.overflow .add) else .ok (Word.add a b)

/-- The difference of two words. -/
def sub (build : Build) (a b : Nat) : Except Fault Nat :=
  if b ≤ a then .ok (a - b)
  else if build.checks then .error (.overflow .subtract) else .ok (Word.sub a b)

/-- The product of two words. -/
def mul (build : Build) (a b : Nat) : Except Fault Nat :=
  if a * b < Word.limit then .ok (a * b)
  else if build.checks then .error (.overflow .multiply) else .ok (a * b % Word.limit)

@[simp] theorem require_true (build : Build) (broken : Violation) :
    build.require broken true = .ok () := by
  cases build <;> rfl

@[simp] theorem require_unchecked (broken : Violation) (holds : Bool) :
    unchecked.require broken holds = .ok () := rfl

@[simp] theorem requireM_ok_true (build : Build) (broken : Violation) :
    build.requireM broken (.ok true) = .ok () := require_true build broken

theorem require_checked (broken : Violation) (holds : Bool) :
    checked.require broken holds = if holds then .ok () else .error (.violation broken) := by
  cases holds <;> rfl

@[simp] theorem assert_true (build : Build) (failed : Assertion) :
    build.assert failed true = .ok () := by
  simp [assert]

theorem add_of_lt (build : Build) {a b : Nat} (h : a + b < Word.limit) :
    build.add a b = .ok (a + b) := if_pos h

theorem add_unchecked (a b : Nat) : unchecked.add a b = .ok (Word.add a b) := by
  rw [add]
  split
  · rename_i h
    rw [Word.add_of_lt h]
  · rfl

theorem sub_of_le (build : Build) {a b : Nat} (h : b ≤ a) : build.sub a b = .ok (a - b) := if_pos h

theorem mul_of_lt (build : Build) {a b : Nat} (h : a * b < Word.limit) :
    build.mul a b = .ok (a * b) := if_pos h

/-! ## What a checked build has tested -/

theorem requireM_checked_eq_ok_iff {broken : Violation} {holds : Except Fault Bool}
    {answer : Unit} : checked.requireM broken holds = .ok answer ↔ holds = .ok true := by
  rcases holds with fault | _ | _ <;> simp [requireM]

theorem require_checked_eq_ok_iff {broken : Violation} {holds : Bool} {answer : Unit} :
    checked.require broken holds = .ok answer ↔ holds = true := by
  rw [require, requireM_checked_eq_ok_iff, Except.ok.injEq]

theorem add_checked_eq_ok_iff {a b c : Nat} :
    checked.add a b = .ok c ↔ a + b < Word.limit ∧ a + b = c := by
  rw [add]
  split <;> simp [checks, *]

theorem sub_checked_eq_ok_iff {a b c : Nat} :
    checked.sub a b = .ok c ↔ b ≤ a ∧ a - b = c := by
  rw [sub]
  split <;> simp [checks, *]

end Build

end Suballoc
