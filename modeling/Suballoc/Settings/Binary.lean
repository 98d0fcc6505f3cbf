import Suballoc.FreeList
import Suballoc.SharedPool

/-!
# Settings as bytes

The compact form of the settings: numbers as words, a flag as one byte, a strategy as a tag of four
bytes, one after the other without names or padding. Reading takes what it needs from the front and
does not look at the rest, so a setting can be followed by anything.

A byte that is neither 0 nor 1 is no flag, and a tag that is neither 0 nor 1 is no strategy.
-/

namespace Suballoc

namespace Binary

/-- The number in so many bytes at the front, and the bytes after it. -/
def takeNumber? (width : Nat) (bytes : List UInt8) : Option (Nat × List UInt8) :=
  if width ≤ bytes.length then some (Word.ofBytes (bytes.take width), bytes.drop width) else none

/-- The bytes of a strategy's tag. -/
def tagWidth : Nat := 4

/-- The number of a flag. -/
def flagNumber (flag : Bool) : Nat := if flag then 1 else 0

/-- The flag of a number. -/
def flagOf? : Nat → Option Bool
  | 0 => some false
  | 1 => some true
  | _ => none

theorem flagOf?_flagNumber (flag : Bool) : flagOf? (flagNumber flag) = some flag := by
  cases flag <;> rfl

theorem takeNumber?_append {width value : Nat} (h : value < Word.span width) (rest : List UInt8) :
    takeNumber? width (Word.toBytes width value ++ rest) = some (value, rest) := by
  have hlength := Word.length_toBytes width value
  rw [takeNumber?, if_pos (by rw [List.length_append, hlength]; omega),
    List.take_left' hlength, List.drop_left' hlength, Word.ofBytes_toBytes, Nat.mod_eq_of_lt h]

end Binary

namespace Reservation

/-- A reservation as bytes. -/
def toBytes (wanted : Reservation) : List UInt8 :=
  Word.toBytes Word.width wanted.size ++
    (Word.toBytes Word.width wanted.alignment ++
      Word.toBytes 1 (Binary.flagNumber wanted.zeroed))

/-- Read a reservation from the front of some bytes. -/
def ofBytes? (bytes : List UInt8) : Option Reservation := do
  let (size, bytes) ← Binary.takeNumber? Word.width bytes
  let (alignment, bytes) ← Binary.takeNumber? Word.width bytes
  let (flag, _) ← Binary.takeNumber? 1 bytes
  return { size, alignment, zeroed := ← Binary.flagOf? flag }

/-- **Reading back.** What was written is read, whatever follows it. -/
theorem ofBytes?_toBytes {wanted : Reservation} (hsize : wanted.size < Word.limit)
    (halignment : wanted.alignment < Word.limit) (rest : List UInt8) :
    ofBytes? (wanted.toBytes ++ rest) = some wanted := by
  have hflag : Binary.flagNumber wanted.zeroed < Word.span 1 := by cases wanted.zeroed <;> decide
  have hsize' := @Binary.takeNumber?_append Word.width _ hsize
  have halignment' := @Binary.takeNumber?_append Word.width _ halignment
  unfold ofBytes? toBytes
  rw [List.append_assoc, List.append_assoc, hsize']
  simp only [bind, Option.bind_some, halignment', Binary.takeNumber?_append hflag,
    Binary.flagOf?_flagNumber]
  rfl

end Reservation

namespace FitStrategy

/-- The tag of a strategy. -/
def tag : FitStrategy → Nat
  | firstFit => 0
  | bestFit => 1

/-- The strategy of a tag. -/
def ofTag? : Nat → Option FitStrategy
  | 0 => some firstFit
  | 1 => some bestFit
  | _ => none

/-- A strategy as bytes. -/
def toBytes (strategy : FitStrategy) : List UInt8 := Word.toBytes Binary.tagWidth strategy.tag

/-- Read a strategy from the front of some bytes. -/
def ofBytes? (bytes : List UInt8) : Option FitStrategy := do
  ofTag? (← Binary.takeNumber? Binary.tagWidth bytes).1

theorem ofBytes?_toBytes (strategy : FitStrategy) (rest : List UInt8) :
    ofBytes? (strategy.toBytes ++ rest) = some strategy := by
  rw [ofBytes?, toBytes, Binary.takeNumber?_append (by cases strategy <;> decide)]
  cases strategy <;> rfl

end FitStrategy

namespace SyncStrategy

/-- The tag of a strategy. -/
def tag : SyncStrategy → Nat
  | lockFree => 0
  | mutex => 1

/-- The strategy of a tag. -/
def ofTag? : Nat → Option SyncStrategy
  | 0 => some lockFree
  | 1 => some mutex
  | _ => none

/-- A strategy as bytes. -/
def toBytes (strategy : SyncStrategy) : List UInt8 := Word.toBytes Binary.tagWidth strategy.tag

/-- Read a strategy from the front of some bytes. -/
def ofBytes? (bytes : List UInt8) : Option SyncStrategy := do
  ofTag? (← Binary.takeNumber? Binary.tagWidth bytes).1

theorem ofBytes?_toBytes (strategy : SyncStrategy) (rest : List UInt8) :
    ofBytes? (strategy.toBytes ++ rest) = some strategy := by
  rw [ofBytes?, toBytes, Binary.takeNumber?_append (by cases strategy <;> decide)]
  cases strategy <;> rfl

end SyncStrategy

end Suballoc
