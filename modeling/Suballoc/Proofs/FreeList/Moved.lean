import Suballoc.Proofs.FreeList.Placement
import Suballoc.Proofs.FreeList.Tenancy

/-!
# Free lists at another address

Links, nodes and headers are offsets, so whatever is written to a free list can as well be written
after its region was moved to another address. Only the search looks at addresses. It finds the same
where the alignment of the payload does not tell the two addresses apart, although its roundings may
leave the words at one address and not at the other: what a request demands of a block, in exact
integers, depends on the remainder of the address alone.
-/

namespace Suballoc

/-! ## Regions -/

namespace Region

/-- The region at another address. -/
def movedTo (base : Nat) (region : Region) : Region := { region with base }

theorem eq_movedTo {a b : Region} (halignment : a.alignment = b.alignment)
    (hbytes : a.bytes = b.bytes) : b = a.movedTo b.base := by
  obtain ⟨_, alignment, bytes⟩ := a
  obtain ⟨_, alignment', bytes'⟩ := b
  obtain rfl : alignment = alignment' := halignment
  obtain rfl : bytes = bytes' := hbytes
  rfl

@[simp] theorem write_movedTo (base : Nat) (region : Region) (offset : Nat)
    (values : List UInt8) :
    (region.movedTo base).write offset values = (region.write offset values).movedTo base := by
  induction values generalizing region offset with
  | nil => rfl
  | cons byte rest ih =>
    rw [write, write]
    exact ih (region.setByte offset byte) (offset + 1)

end Region

/-! ## Free lists -/

namespace FreeList

/-- The free list at another address. -/
def movedTo (base : Nat) (list : FreeList) : FreeList :=
  { list with region := list.region.movedTo base }

section Moved

variable (base : Nat) (list : FreeList) (offset previous next : Nat)

/-! ### Changes to a moved list -/

@[simp] theorem setNode_movedTo (node : Node) :
    (list.movedTo base).setNode offset node = (list.setNode offset node).movedTo base := by
  simp [setNode, movedTo, Region.setWord]

@[simp] theorem setHeader_movedTo (header : Header) :
    (list.movedTo base).setHeader offset header = (list.setHeader offset header).movedTo base := by
  simp [setHeader, movedTo, Region.setWord]

@[simp] theorem setNext_movedTo :
    (list.movedTo base).setNext previous next = (list.setNext previous next).movedTo base := by
  rw [setNext, setNext]
  split
  · rfl
  · simp [movedTo, Region.setWord]

@[simp] theorem linkIn_movedTo (block : FreeBlock) :
    (list.movedTo base).linkIn previous block next =
      (list.linkIn previous block next).movedTo base := by
  rw [linkIn, setNode_movedTo, setNext_movedTo, linkIn]

@[simp] theorem merged_movedTo :
    (list.movedTo base).merged offset = (list.merged offset).movedTo base := by
  have hnode (offset : Nat) : (list.movedTo base).node offset = list.node offset := rfl
  simp only [merged, hnode, setNode_movedTo]
  split <;> rfl

theorem granted_movedTo (fit : Fit) :
    (list.movedTo base).granted fit = (list.granted fit).movedTo base := by
  have hcut : (list.movedTo base).cutOut fit = (list.cutOut fit).movedTo base := by
    have hnode : (list.movedTo base).node fit.block.offset = list.node fit.block.offset := rfl
    simp only [cutOut, hnode, linkIn_movedTo, setNext_movedTo]
    split <;> rfl
  rw [granted, hcut, setHeader_movedTo]
  rfl

theorem returnedTo_movedTo (before : List FreeBlock) (lease : Lease) (after : List FreeBlock) :
    (list.movedTo base).returnedTo before lease after =
      (list.returnedTo before lease after).movedTo base := by
  have hblock : (list.movedTo base).blockOf lease = list.blockOf lease := rfl
  have hmerged (list : FreeList) (previous : Nat) :
      (list.movedTo base).mergedInto previous = (list.mergedInto previous).movedTo base := by
    simp only [mergedInto, merged_movedTo]
    split <;> rfl
  simp only [returnedTo, hblock, restored, linkIn_movedTo, merged_movedTo, hmerged]
  rfl

theorem blocks_movedTo : (list.movedTo base).blocks = list.blocks := by
  have hfrom (most offset : Nat) : blocksFrom (list.region.movedTo base) most offset =
      blocksFrom list.region most offset := by
    induction most generalizing offset with
    | zero => rfl
    | succ most ih =>
      rw [blocksFrom, ih, blocksFrom]
      rfl
  exact hfrom _ _

theorem write_movedTo (values : List UInt8) :
    (list.movedTo base).write offset values = (list.write offset values).movedTo base := by
  simp [write, movedTo]

end Moved

/-! ### A moved list in use -/

variable {list : FreeList} {leases : List Lease} {base base' size alignment : Nat}

/-- The fits of a request are the same at two addresses that its alignment does not tell apart. -/
theorem fits_eq_of_modEq {previous : Nat} {blocks : List FreeBlock}
    (hpow : alignment.isPowerOfTwo) (hmod : base ≡ base' [MOD alignment])
    (hwords : ∀ block ∈ blocks, base + block.stop < Word.limit)
    (hwords' : ∀ block ∈ blocks, base' + block.stop < Word.limit) :
    fits base size alignment previous blocks = fits base' size alignment previous blocks := by
  have hpos : 0 < alignment := Nat.pos_of_isPowerOfTwo hpow
  induction blocks generalizing previous with
  | nil => rfl
  | cons block rest ih =>
    have hmod' := hmod.add_right block.offset
    have hsame : ((demand? (base + block.offset) size alignment).filter
          fun demand ↦ demand.2 ≤ block.size) =
        (demand? (base' + block.offset) size alignment).filter
          fun demand ↦ demand.2 ≤ block.size := by
      refine Option.ext fun ⟨adjustment, needed⟩ ↦ ?_
      -- in exact integers both tests are the same
      rw [FreeBlock.filter_demand?_eq_some_iff hpow (hwords block List.mem_cons_self),
        FreeBlock.filter_demand?_eq_some_iff hpow (hwords' block List.mem_cons_self)]
      exact and_congr_left fun _ ↦
        ⟨Demands.of_modEq hpos hmod', Demands.of_modEq hpos hmod'.symm⟩
    rw [fits, fits, hsame, ih (fun b hb ↦ hwords b (List.mem_cons_of_mem _ hb))
      fun b hb ↦ hwords' b (List.mem_cons_of_mem _ hb)]

/-- The alignment of a payload tells two words apart only if the alignment asked for does. -/
theorem modEq_payloadAlignment (hbase : Word.width ∣ base) (hbase' : Word.width ∣ base')
    (hmod : base ≡ base' [MOD alignment]) : base ≡ base' [MOD payloadAlignment alignment] := by
  rcases Nat.le_total alignment Word.width with h | h
  · rw [payloadAlignment, Nat.max_eq_right h]
    exact (Nat.modEq_zero_iff_dvd.mpr hbase).trans (Nat.modEq_zero_iff_dvd.mpr hbase').symm
  · rwa [payloadAlignment, Nat.max_eq_left h]

theorem Tiled.find_movedTo (build : Build) (h : list.Tiled list.blocks leases)
    (h' : (list.movedTo base).Tiled list.blocks leases) (hpow : alignment.isPowerOfTwo)
    (hmod : list.region.base ≡ base [MOD alignment]) :
    (list.movedTo base).find build size (payloadAlignment alignment) =
      list.find build size (payloadAlignment alignment) := by
  have hwords' := h'.block_stop_lt
  rw [blocks_movedTo] at hwords'
  rw [find, search_eq build _ none fun _ hblock ↦ h'.address_lt hblock, find,
    search_eq build _ none fun _ hblock ↦ h.address_lt hblock, blocks_movedTo]
  refine congrArg (fun fits ↦ Except.ok (list.strategy.choose none fits)) ?_
  exact (fits_eq_of_modEq (isPowerOfTwo_payloadAlignment hpow)
    (modEq_payloadAlignment h.base_aligned h'.base_aligned hmod) h.block_stop_lt hwords').symm

end FreeList

end Suballoc
