import Suballoc.Engine

/-!
# Requests and replies

What can be asked in a session and what can be answered. Addresses are never given as such: a
request names the null address, an address that an earlier request was given, or a distance from the
start of the engine that is asked. Addresses in replies are distances from there as well.
-/

namespace Suballoc

/-- A way to name an address. -/
inductive Operand where
  | null
  /-- So far from what the allocation of the given number was given. If that was nothing, the
  address is null. -/
  | grant (number : Nat) (plus : Int)
  /-- So far from the start of the engine that is asked. -/
  | offset (distance : Int)
deriving DecidableEq, Repr

/-- Something that is asked of an engine. -/
inductive Request where
  /-- Build the engine; its region is placed with a skew. -/
  | construct (recipe : Recipe) (skew : Nat)
  /-- Take memory, and perhaps fill it with a byte. -/
  | allocate (size alignment : Nat) (fill : Option UInt8)
  /-- Do so a number of times. -/
  | allocateMany (count size alignment : Nat) (fill : Option UInt8)
  | release (operand : Operand)
  | owns (operand : Operand)
  | canHold (bytes : Nat)
  /-- Read so many bytes of any engine. -/
  | read (operand : Operand) (length : Nat)
  /-- Write to any engine. -/
  | write (operand : Operand) (values : List UInt8)
  | drop
  /-- Put a marker at the end of the session's list. -/
  | mark
  | reset
  /-- Rewind to the marker of the given number. -/
  | rewind (marker : Nat)
  | openScope
  | endScope
  | contains (operand : Operand)
  | offsetOf (operand : Operand)
  | addressAt (offset : Nat)
  | report
  /-- Something no engine knows. -/
  | unknown
deriving DecidableEq, Repr

/-- What is answered. -/
inductive Reply where
  | done
  | nothing
  | value (value : Value)
  | bytes (values : List UInt8)
  /-- The offset of a marker, and whether the marker equals the one before it. -/
  | marked (offset : Nat) (repeated : Bool)
  | report (entries : List (String × Value))
  | many (replies : List Reply)
  /-- The engine could not be built. -/
  | refused (problem : SetupError)
  | fault (fault : Fault)
  /-- There is no engine of this number, or no longer. -/
  | noEngine
  /-- The engine does not answer this request. -/
  | unsupported
  /-- The bytes do not lie in a region. -/
  | outOfRegion

namespace Reply

/-- An answer or a fault. -/
def ofExcept {Answer : Type} (reply : Answer → Reply) : Except Fault Answer → Reply
  | .ok answer => reply answer
  | .error problem => fault problem

/-- An answer or a fault, if the engine answers at all. -/
def ofOutcome {Answer : Type} (reply : Answer → Reply) : Option (Except Fault Answer) → Reply
  | none => unsupported
  | some outcome => ofExcept reply outcome

/-- A flag. -/
def flag (value : Bool) : Reply := .value (.flag value)

/-- A number. -/
def number (value : Nat) : Reply := .value (.number value)

/-- An address as its distance from a base, or nothing. -/
def address (base : Nat) : Option Nat → Reply
  | none => nothing
  | some address => number (Word.sub address base)

end Reply

/-- What comes of a request. -/
structure Step where
  reply : Reply
  /-- The counters of the engine afterwards, if there is one. -/
  summary : Option (Except Fault (List Value))
  events : List Event

end Suballoc
