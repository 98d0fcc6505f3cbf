import Suballoc.Platform

/-!
# Windows

The platform of a session. The engines of a session are numbered, and each number has a window of
addresses of its own, far above zero, in which its region is placed. So the addresses of a session
do not depend on what else happens on a machine, and the regions of two engines never meet.

A window has room for a region of the largest size granted, wherever in it the region starts for
its skew and its alignment.
-/

namespace Suballoc

namespace Window

/-- The address of the first window. -/
def first : Nat := 0x200000000000

/-- The bytes of a window. -/
def span : Nat := 0x2000000

/-- The largest region granted. -/
def largestSize : Nat := 0x1000000

/-- The largest alignment granted. -/
def largestAlignment : Nat := 0x100000

/-- What fresh memory holds. -/
def freshByte : UInt8 := 0xA5

/-- The first multiple of an alignment that is not below an address. -/
def roundUp (address alignment : Nat) : Nat := (address + alignment - 1) / alignment * alignment

/-- The platform of the engine of a number. Its region starts so many bytes into the window, and
then at the next multiple of the alignment. -/
def platform (number skew : Nat) : Platform where
  grants size alignment := size ≤ largestSize && alignment ≤ largestAlignment
  base alignment := roundUp (first + number * span + skew) alignment
  fresh _ := freshByte

end Window

end Suballoc
