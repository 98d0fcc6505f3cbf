import Suballoc.Build

/-!
# Usage and capabilities

What every engine can tell about itself: how many bytes it manages, how many of them are taken, and
which ways of giving memory back it offers. Everything else here is derived from the two byte
counts, in the same way for all engines.
-/

namespace Suballoc

/-- The bytes of an engine. -/
structure Usage where
  /-- The bytes managed. -/
  total : Nat
  /-- The bytes taken, with everything an allocation costs beside its payload. -/
  used : Nat
deriving DecidableEq, Repr

namespace Usage

/-- The bytes not taken. -/
def available (build : Build) (usage : Usage) : Except Fault Nat :=
  build.sub usage.total usage.used

/-- The share of the bytes that is taken, from 0 to 1. -/
def utilization (usage : Usage) : Float :=
  if usage.total = 0 then 0.0
  else (UInt64.ofNat usage.used).toFloat / (UInt64.ofNat usage.total).toFloat

/-- Whether so many bytes are left. A request of that size may still fail, for its alignment or its
header. -/
def canHold (build : Build) (usage : Usage) (bytes : Nat) : Except Fault Bool := do
  return bytes ≤ (← usage.available build)

theorem available_of_le (build : Build) {usage : Usage} (h : usage.used ≤ usage.total) :
    usage.available build = .ok (usage.total - usage.used) := Build.sub_of_le build h

theorem canHold_of_le (build : Build) {usage : Usage} (h : usage.used ≤ usage.total) (bytes : Nat) :
    usage.canHold build bytes = .ok (decide (bytes ≤ usage.total - usage.used)) := by
  rw [canHold, available_of_le build h]
  rfl

end Usage

/-- What an engine offers. The defaults are those of a plain pool. -/
structure Capabilities where
  /-- Allocations can be released one by one. -/
  individualRelease : Bool := true
  /-- Memory can be taken back down to a mark. -/
  rewind : Bool := false
  /-- Calls may come from several threads at once. -/
  threadSafe : Bool := false
  /-- Requests have a size. -/
  variableSize : Bool := false
deriving DecidableEq, Repr

end Suballoc
