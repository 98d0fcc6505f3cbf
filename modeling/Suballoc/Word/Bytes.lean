import Suballoc.Word

/-!
# Words as bytes

A word lies in memory as its bytes, least significant first. The width is a parameter, because
settings are also stored with 32-bit tags and single-byte flags; on every width what was written is
read back, modulo the numbers of that width.
-/

namespace Suballoc.Word

/-- The `width` lowest bytes of a number, least significant first. -/
def toBytes : (width : Nat) → Nat → List UInt8
  | 0, _ => []
  | width + 1, value => UInt8.ofNat (value % 256) :: toBytes width (value / 256)

/-- The number with the given bytes, least significant first. -/
def ofBytes : List UInt8 → Nat
  | [] => 0
  | byte :: rest => byte.toNat + 256 * ofBytes rest

/-- How many numbers there are of so many bytes. -/
def span : (width : Nat) → Nat
  | 0 => 1
  | width + 1 => 256 * span width

theorem span_width : span width = limit := rfl

@[simp] theorem length_toBytes (width value : Nat) : (toBytes width value).length = width := by
  induction width generalizing value with
  | zero => rfl
  | succ width ih => simp [toBytes, ih]

theorem ofBytes_lt (bytes : List UInt8) : ofBytes bytes < span bytes.length := by
  induction bytes with
  | nil => simp [ofBytes, span]
  | cons byte rest ih =>
    have hbyte : byte.toNat < 256 := byte.toNat_lt
    rw [ofBytes, List.length_cons, span]
    omega

/-- **Reading back.** Bytes beyond the width are the only thing that is lost. -/
theorem ofBytes_toBytes (width value : Nat) :
    ofBytes (toBytes width value) = value % span width := by
  induction width generalizing value with
  | zero => simp [toBytes, ofBytes, span, Nat.mod_one]
  | succ width ih =>
    have h : (UInt8.ofNat (value % 256)).toNat = value % 256 := by
      rw [UInt8.toNat_ofNat']
      exact Nat.mod_eq_of_lt (Nat.mod_lt _ (by decide))
    rw [toBytes, ofBytes, ih, h, span, Nat.mod_mul]

theorem ofBytes_toBytes_of_lt {value : Nat} (h : value < limit) :
    ofBytes (toBytes width value) = value := by
  rw [ofBytes_toBytes, span_width, Nat.mod_eq_of_lt h]

theorem ofBytes_lt_limit {bytes : List UInt8} (h : bytes.length = width) :
    ofBytes bytes < limit := by
  have hlt := ofBytes_lt bytes
  rwa [h, span_width] at hlt

end Suballoc.Word
