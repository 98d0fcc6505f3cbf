import Suballoc.Word.Alignment

/-!
# What an engine is built from

Every engine lives in one region, described by a `Reservation`: how many bytes, aligned how, and
whether they start out zero. Construction is the only thing that can fail with an error value. An
error names the parameter that is at fault, or reports that the platform had no memory to give.

The checks come in a fixed order, so that of two faults in one description always the same one is
reported: size zero, alignment not a power of two, alignment below a word, size too large.
-/

namespace Suballoc

/-- The alignment of a region for which none was asked. -/
def defaultAlignment : Nat := 16

/-! ## Errors -/

/-- What is wrong with a parameter. -/
inductive BadParameter where
  /-- A region of no bytes. -/
  | emptyRegion
  | alignmentNotPowerOfTwo (alignment : Nat)
  | alignmentBelowWord
  /-- A region that, rounded to its alignment, spans more than half of the addresses. -/
  | regionTooLarge (size : Nat)
  /-- A slot that cannot hold the link to the next free slot. -/
  | blockTooSmall
  /-- A pool without slots. -/
  | noBlocks
  /-- A slot whose size, rounded to the alignment, is not a word. -/
  | blockOverflow
  /-- A pool whose total size is not a word. -/
  | poolOverflow
  /-- A shared pool with more slots than a packed head can name. -/
  | tooManyBlocks
  /-- A free list that cannot hold more than one node. -/
  | capacityTooSmall
  /-- A complaint made outside this library, under a name of its own. -/
  | other (name reason : String)
deriving DecidableEq, Repr

/-- A shared pool has fewer slots than this: the largest 32-bit value marks the empty chain. -/
def packedIndexLimit : Nat := 0xFFFFFFFF

/-- The bytes a free-list node or an allocation header takes: two words. -/
def nodeSize : Nat := 2 * Word.width

namespace BadParameter

/-- The parameter at fault. -/
def name : BadParameter → String
  | emptyRegion | regionTooLarge _ => "size"
  | alignmentNotPowerOfTwo _ | alignmentBelowWord => "alignment"
  | blockTooSmall | blockOverflow => "block_size"
  | noBlocks | poolOverflow | tooManyBlocks => "block_count"
  | capacityTooSmall => "capacity"
  | other name _ => name

/-- What is wrong with it, in words. -/
def reason : BadParameter → String
  | emptyRegion => "Region size must be greater than 0"
  | alignmentNotPowerOfTwo alignment => s!"Alignment {alignment} is not a power of 2"
  | alignmentBelowWord => "Alignment must be at least the machine word size"
  | regionTooLarge size => s!"Region size {size} is too large"
  | blockTooSmall => s!"Block size must be at least {Word.width} bytes"
  | noBlocks => "Block count must be greater than 0"
  | blockOverflow => "Block size overflows when aligned"
  | poolOverflow => "Pool size overflows usize"
  | tooManyBlocks => s!"Block count must be below {packedIndexLimit}"
  | capacityTooSmall => s!"Capacity must be larger than {nodeSize} bytes"
  | other _ reason => reason

end BadParameter

/-- Why an engine could not be built. -/
inductive SetupError where
  | invalid (parameter : BadParameter)
  /-- The platform had no region of this size and alignment to give. -/
  | refused (size alignment : Nat)
deriving DecidableEq, Repr

namespace SetupError

/-- The name of the parameter at fault, unless the platform is. -/
def parameter? : SetupError → Option String
  | invalid parameter => some parameter.name
  | refused _ _ => none

/-- The wording of a construction error. -/
def message : SetupError → String
  | invalid parameter => s!"Invalid parameter: {parameter.name} - {parameter.reason}"
  | refused size alignment => s!"Reservation failed: {size} bytes aligned to {alignment}"

end SetupError

/-! ## Reservations -/

/-- The region an engine asks for. -/
structure Reservation where
  /-- Its size in bytes. -/
  size : Nat := 0
  /-- What the address of its first byte is a multiple of. -/
  alignment : Nat := defaultAlignment
  /-- Whether its bytes start out zero. -/
  zeroed : Bool := false
deriving DecidableEq, Repr

namespace Reservation

/-- The span that a region, rounded to its alignment, stays below: half of the addresses. -/
def spanLimit : Nat := 0x8000000000000000

/-- Whether a region of this description can exist at all. -/
def check (wanted : Reservation) : Except SetupError Unit :=
  if wanted.size = 0 then .error (.invalid .emptyRegion)
  else if ¬ wanted.alignment.isPowerOfTwo then
    .error (.invalid (.alignmentNotPowerOfTwo wanted.alignment))
  else if wanted.alignment < Word.width then .error (.invalid .alignmentBelowWord)
  else if spanLimit - wanted.alignment < wanted.size then
    .error (.invalid (.regionTooLarge wanted.size))
  else .ok ()

/-- The descriptions that pass. -/
structure Valid (wanted : Reservation) : Prop where
  size_pos : 0 < wanted.size
  isPowerOfTwo : wanted.alignment.isPowerOfTwo
  width_le : Word.width ≤ wanted.alignment
  size_le : wanted.size ≤ spanLimit - wanted.alignment

theorem check_eq_ok_iff (wanted : Reservation) : wanted.check = .ok () ↔ wanted.Valid := by
  unfold check
  constructor
  · intro h
    split at h
    · cases h
    · split at h
      · cases h
      · split at h
        · cases h
        · split at h
          · cases h
          · rename_i hsize hpow hwidth hlarge
            exact ⟨by omega, Decidable.of_not_not hpow, by omega, by omega⟩
  · rintro ⟨hsize, hpow, hwidth, hlarge⟩
    rw [if_neg (by omega), if_neg (not_not_intro hpow), if_neg (by omega), if_neg (by omega)]

end Reservation

end Suballoc
