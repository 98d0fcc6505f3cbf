import Suballoc.Build
import Suballoc.Word.Bytes

/-!
# Regions

A region is a stretch of bytes at a fixed address. All state an engine threads through its memory —
links, nodes, headers — is in these bytes, next to what callers write there.

Engines work with offsets from the first byte. Reading outside the region gives zero and writing
there does nothing, so both are total; an engine whose invariant holds never does either, as
`Engine.Tenancy.Reachable.confined` shows with calls that fault instead. The lemmas that matter
here are about bytes inside: what was written is read back, and what lies elsewhere is unchanged.
-/

namespace Suballoc

/-- A stretch of bytes at a fixed address. -/
structure Region where
  /-- The address of the first byte. -/
  base : Nat
  /-- What the region was aligned to when it was reserved. -/
  alignment : Nat
  /-- The bytes, by offset. -/
  bytes : ByteArray

namespace Region

/-- The number of bytes. -/
def size (region : Region) : Nat := region.bytes.size

/-- The address after the last byte. -/
def stop (region : Region) : Nat := region.base + region.size

/-- Whether an address is that of a byte of the region. -/
def contains (region : Region) (address : Nat) : Bool :=
  region.base ≤ address && address < region.stop

/-- The offset of an address inside the region. -/
def offsetOf? (region : Region) (address : Nat) : Option Nat :=
  if region.contains address then some (address - region.base) else none

/-- The address at an offset; the end of the region has one too. -/
def address (build : Build) (region : Region) (offset : Nat) : Except Fault Nat := do
  build.assert .offsetInRegion (offset ≤ region.size)
  return Word.add region.base offset

theorem address_of_le (build : Build) {region : Region} {offset : Nat}
    (hinside : offset ≤ region.size) (hstop : region.stop < Word.limit) :
    region.address build offset = .ok (region.base + offset) := by
  rw [stop] at hstop
  rw [address, decide_eq_true hinside, Build.assert_true, Word.add_of_lt (by omega)]
  rfl

/-! ## Bytes -/

/-- The byte at an offset. -/
def byteAt (region : Region) (offset : Nat) : UInt8 :=
  if h : offset < region.bytes.size then region.bytes[offset] else 0

/-- Replace the byte at an offset. -/
def setByte (region : Region) (offset : Nat) (byte : UInt8) : Region :=
  { region with bytes := region.bytes.set! offset byte }

/-- The bytes from an offset on. -/
def read (region : Region) (offset length : Nat) : List UInt8 :=
  (List.range' offset length).map region.byteAt

/-- Replace the bytes from an offset on. -/
def write (region : Region) (offset : Nat) : List UInt8 → Region
  | [] => region
  | byte :: rest => (region.setByte offset byte).write (offset + 1) rest

@[simp] theorem base_setByte (region : Region) (offset : Nat) (byte : UInt8) :
    (region.setByte offset byte).base = region.base := rfl

@[simp] theorem alignment_setByte (region : Region) (offset : Nat) (byte : UInt8) :
    (region.setByte offset byte).alignment = region.alignment := rfl

@[simp] theorem size_setByte (region : Region) (offset : Nat) (byte : UInt8) :
    (region.setByte offset byte).size = region.size := by
  rcases region with ⟨_, _, ⟨bytes⟩⟩
  simp [setByte, size, ByteArray.set!, ByteArray.size]

theorem byteAt_setByte (region : Region) (offset : Nat) (byte : UInt8) (at_ : Nat) :
    (region.setByte offset byte).byteAt at_ =
      if offset = at_ ∧ offset < region.size then byte else region.byteAt at_ := by
  rcases region with ⟨_, _, ⟨bytes⟩⟩
  simp only [setByte, byteAt, size, ByteArray.set!, ByteArray.size,
    ByteArray.getElem_eq_getElem_data, Array.set!_eq_setIfInBounds, Array.size_setIfInBounds]
  by_cases hat : at_ < bytes.size
  · by_cases hoff : offset = at_
    · simp [hat, hoff]
    · simp [hat, hoff]
  · by_cases hoff : offset = at_
    · simp [hat, hoff]
    · simp [hat, hoff]

@[simp] theorem base_write (region : Region) (offset : Nat) (values : List UInt8) :
    (region.write offset values).base = region.base := by
  induction values generalizing region offset with
  | nil => rfl
  | cons byte rest ih => rw [write, ih, base_setByte]

@[simp] theorem alignment_write (region : Region) (offset : Nat) (values : List UInt8) :
    (region.write offset values).alignment = region.alignment := by
  induction values generalizing region offset with
  | nil => rfl
  | cons byte rest ih => rw [write, ih, alignment_setByte]

@[simp] theorem size_write (region : Region) (offset : Nat) (values : List UInt8) :
    (region.write offset values).size = region.size := by
  induction values generalizing region offset with
  | nil => rfl
  | cons byte rest ih => rw [write, ih, size_setByte]

/-- **Frame.** A write changes nothing outside the bytes it covers. -/
theorem byteAt_write_of_not_mem {region : Region} {offset at_ : Nat} {values : List UInt8}
    (h : at_ < offset ∨ offset + values.length ≤ at_) :
    (region.write offset values).byteAt at_ = region.byteAt at_ := by
  induction values generalizing region offset with
  | nil => rfl
  | cons byte rest ih =>
    rw [List.length_cons] at h
    rw [write, ih (by omega), byteAt_setByte, if_neg (by omega)]

/-- **Reading back.** A write inside the region puts each value in its place. -/
theorem byteAt_write {region : Region} {offset i : Nat} {values : List UInt8}
    (hi : i < values.length) (hfits : offset + values.length ≤ region.size) :
    (region.write offset values).byteAt (offset + i) = values[i] := by
  induction values generalizing region offset i with
  | nil => cases hi
  | cons byte rest ih =>
    rw [List.length_cons] at hi hfits
    cases i with
    | zero =>
      rw [write, byteAt_write_of_not_mem (by omega), byteAt_setByte,
        if_pos ⟨rfl, by omega⟩, List.getElem_cons_zero]
    | succ i =>
      rw [write, show offset + (i + 1) = offset + 1 + i by omega,
        ih (by omega) (by rw [size_setByte]; omega), List.getElem_cons_succ]

@[simp] theorem length_read (region : Region) (offset length : Nat) :
    (region.read offset length).length = length := by
  simp [read]

theorem read_write {region : Region} {offset : Nat} {values : List UInt8}
    (hfits : offset + values.length ≤ region.size) :
    (region.write offset values).read offset values.length = values := by
  refine List.ext_getElem (by simp) fun i h₁ h₂ ↦ ?_
  simp only [read, List.getElem_map, List.getElem_range', Nat.one_mul]
  exact byteAt_write h₂ hfits

theorem read_congr {a b : Region} {offset length : Nat}
    (h : ∀ i, offset ≤ i → i < offset + length → a.byteAt i = b.byteAt i) :
    a.read offset length = b.read offset length := by
  refine List.map_congr_left fun i hi ↦ ?_
  obtain ⟨k, hk, rfl⟩ := List.mem_range'.mp hi
  exact h _ (by omega) (by omega)

/-! ## Words -/

/-- The word at an offset. -/
def word (region : Region) (offset : Nat) : Nat := Word.ofBytes (region.read offset Word.width)

/-- Replace the word at an offset. -/
def setWord (region : Region) (offset value : Nat) : Region :=
  region.write offset (Word.toBytes Word.width value)

@[simp] theorem base_setWord (region : Region) (offset value : Nat) :
    (region.setWord offset value).base = region.base := base_write _ _ _

@[simp] theorem alignment_setWord (region : Region) (offset value : Nat) :
    (region.setWord offset value).alignment = region.alignment := alignment_write _ _ _

@[simp] theorem size_setWord (region : Region) (offset value : Nat) :
    (region.setWord offset value).size = region.size := size_write _ _ _

theorem word_lt (region : Region) (offset : Nat) : region.word offset < Word.limit :=
  Word.ofBytes_lt_limit (length_read _ _ _)

theorem word_setWord {region : Region} {offset value : Nat}
    (hfits : offset + Word.width ≤ region.size) (hvalue : value < Word.limit) :
    (region.setWord offset value).word offset = value := by
  have h := @read_write region offset (Word.toBytes Word.width value)
    (by rw [Word.length_toBytes]; exact hfits)
  rw [Word.length_toBytes] at h
  rw [word, setWord, h, Word.ofBytes_toBytes_of_lt hvalue]

theorem word_congr {a b : Region} {offset : Nat}
    (h : ∀ i, offset ≤ i → i < offset + Word.width → a.byteAt i = b.byteAt i) :
    a.word offset = b.word offset := congrArg Word.ofBytes (read_congr h)

theorem word_write_of_disjoint {region : Region} {offset at_ : Nat} {values : List UInt8}
    (h : at_ + Word.width ≤ offset ∨ offset + values.length ≤ at_) :
    (region.write offset values).word at_ = region.word at_ :=
  word_congr fun _ _ _ ↦ byteAt_write_of_not_mem (by omega)

theorem word_setWord_of_disjoint {region : Region} {offset at_ value : Nat}
    (h : at_ + Word.width ≤ offset ∨ offset + Word.width ≤ at_) :
    (region.setWord offset value).word at_ = region.word at_ :=
  word_write_of_disjoint (by rw [Word.length_toBytes]; exact h)

theorem byteAt_setWord_of_not_mem {region : Region} {offset at_ value : Nat}
    (h : at_ < offset ∨ offset + Word.width ≤ at_) :
    (region.setWord offset value).byteAt at_ = region.byteAt at_ :=
  byteAt_write_of_not_mem (by rw [Word.length_toBytes]; exact h)

end Region

end Suballoc
