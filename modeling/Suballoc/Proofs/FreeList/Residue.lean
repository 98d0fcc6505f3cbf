import Suballoc.Proofs.FreeList.Stray
import Suballoc.Proofs.FreeList.Take

/-!
# What a block leaves behind

A block that came back leaves bytes in memory: a node was written at its start, and the rest of it
is as its holder left it. When its address comes back once more, the words where the header was are
read as one again. So which fault refuses it depends on what the node and the header have in common.
-/

namespace Suballoc

/-- Whether the test of a header adds up to more than a word. -/
def Header.Overflows (header : Header) (payload : Nat) : Prop :=
  nodeSize ≤ header.adjustment ∧ header.adjustment ≤ payload ∧ header.adjustment ≤ header.size ∧
    Word.limit ≤ payload - header.adjustment + header.size

instance (header : Header) (payload : Nat) : Decidable (header.Overflows payload) :=
  inferInstanceAs (Decidable (_ ∧ _))

/-- Merging with the first of ascending blocks leaves the others behind, and the first one too if it
does not touch. -/
theorem FreeBlock.exists_mergeAfter_behind {block : FreeBlock} {after : List FreeBlock}
    (hle : ∀ b ∈ after, block.stop ≤ b.offset)
    (hordered : after.Pairwise fun a b ↦ a.stop < b.offset) :
    ∃ first rest, block.mergeAfter after = first :: rest ∧ first.offset = block.offset ∧
      ∀ b ∈ rest, block.stop < b.offset ∧ b ∈ after := by
  cases after with
  | nil => exact ⟨block, [], rfl, rfl, fun _ hb ↦ absurd hb List.not_mem_nil⟩
  | cons next rest =>
    obtain ⟨hnext, -⟩ := List.pairwise_cons.mp hordered
    have hfirst := hle next List.mem_cons_self
    have hbehind : ∀ b ∈ rest, block.stop < b.offset := by
      intro b hb
      have hlt := hnext b hb
      rw [stop] at hlt
      omega
    rw [mergeAfter]
    split
    · exact ⟨_, rest, rfl, rfl, fun b hb ↦ ⟨hbehind b hb, List.mem_cons_of_mem _ hb⟩⟩
    · rename_i htouch
      refine ⟨block, next :: rest, rfl, rfl, fun b hb ↦ ⟨?_, hb⟩⟩
      rcases List.mem_cons.mp hb with rfl | hb
      · exact Nat.lt_of_le_of_ne hfirst htouch
      · exact hbehind b hb

namespace FreeList

variable {list : FreeList} {free before after : List FreeBlock} {leases : List Lease}
  {block : FreeBlock} {lease : Lease} {address start size : Nat}

/-! ## Which fault refuses a stray address -/

/-- The test of a header faults only if the sum in it is no word. -/
theorem describes_checked {header : Header} {payload capacity : Nat} :
    header.describes .checked payload capacity =
      if header.Overflows payload then .error (.overflow .add)
      else .ok (decide (nodeSize ≤ header.adjustment ∧ header.adjustment ≤ payload ∧
        header.adjustment ≤ header.size ∧
          payload - header.adjustment + header.size ≤ capacity)) := by
  rw [Header.describes]
  by_cases hheader : nodeSize ≤ header.adjustment ∧ header.adjustment ≤ payload ∧
      header.adjustment ≤ header.size
  · obtain ⟨hnode, hpayload, hsize⟩ := hheader
    rw [if_pos ⟨hnode, hpayload, hsize⟩, Build.sub_of_le .checked hpayload, Call.ok_bind]
    by_cases hword : payload - header.adjustment + header.size < Word.limit
    · rw [Build.add_of_lt .checked hword, Call.ok_bind, if_neg fun h ↦ absurd h.2.2.2 (by omega)]
      simp [hnode, hpayload, hsize]
      rfl
    · rw [if_pos ⟨hnode, hpayload, hsize, Nat.not_lt.mp hword⟩, Build.add, if_neg hword]
      rfl
  · rw [if_neg hheader, if_neg fun h ↦ hheader ⟨h.1, h.2.1, h.2.2.1⟩,
      decide_eq_false fun h ↦ hheader ⟨h.1, h.2.1, h.2.2.1⟩]
    rfl

theorem Tiled.exists_endsBefore (h : list.Tiled free leases) (start : Nat) :
    ∃ ends, endsBefore .checked start (list.neighbours start).1 = .ok ends := by
  cases hlast : (list.neighbours start).1 with
  | none => exact ⟨true, rfl⟩
  | some last =>
    have hmem : last ∈ list.blocks :=
      (List.takeWhile_sublist _).mem (List.mem_of_getLast? hlast)
    rw [h.blocks_eq] at hmem
    have hadd : Build.checked.add last.offset last.size = .ok last.stop :=
      Build.add_of_lt .checked (Nat.lt_of_le_of_lt (h.free_stop_le hmem) h.capacity_lt)
    exact ⟨decide (last.stop ≤ start), by rw [endsBefore, hadd]; rfl⟩

theorem exists_endsBeforeNext (next : Nat) (hstop : start + size < Word.limit) :
    ∃ ends, endsBeforeNext .checked start size next = .ok ends := by
  rw [endsBeforeNext]
  split
  · exact ⟨true, rfl⟩
  · exact ⟨decide (start + size ≤ next), by rw [Build.add_of_lt .checked hstop]; rfl⟩

/-- A test whose condition comes to an answer is passed, or it is a broken contract. -/
theorem violation_or_of_requireM {broken : Violation} {holds : Bool} {Answer : Type}
    {next : Unit → Except Fault Answer} {fault : Fault}
    (hfault : (Build.checked.requireM broken (.ok holds) >>= next) = .error fault) :
    fault = .violation broken ∨ holds = true ∧ next () = .error fault := by
  cases holds with
  | false => exact Or.inl (Except.error.inj hfault).symm
  | true => exact Or.inr ⟨rfl, hfault⟩

theorem eq_of_requireM_error {broken : Violation} {inner : Fault} {Answer : Type}
    {next : Unit → Except Fault Answer} {fault : Fault}
    (hfault : (Build.checked.requireM broken (.error inner) >>= next) = .error fault) :
    fault = inner := (Except.error.inj hfault).symm

/-- **Faults.** An address in the region that a checked build does not take back breaks the
contract, unless the test of the words before it overflows. -/
theorem Tiled.fault_of_returned (h : list.Tiled free leases) (hlive : 0 < list.allocations)
    {payload : Nat} (hpayload : Word.sub address list.region.base = payload)
    (hnode : nodeSize ≤ payload) (hinside : payload ≤ list.capacity) {fault : Fault}
    (hfault : list.returned .checked address = .error fault) :
    ((list.header (payload - nodeSize)).Overflows payload → fault = .overflow .add) ∧
      (¬ (list.header (payload - nodeSize)).Overflows payload →
        ∃ broken, fault = .violation broken) := by
  have hcount : decide (0 < list.allocations) = true := decide_eq_true hlive
  have hown : decide (nodeSize ≤ payload ∧ payload ≤ list.capacity) = true :=
    decide_eq_true ⟨hnode, hinside⟩
  have hheader : Build.checked.sub payload nodeSize = .ok (payload - nodeSize) :=
    Build.sub_of_le .checked hnode
  rw [returned, hpayload] at hfault
  simp only [hcount, hown, hheader, Build.require_true, Call.ok_bind] at hfault
  generalize list.header (payload - nodeSize) = header at hfault ⊢
  rw [describes_checked] at hfault
  refine ⟨fun hover ↦ ?_, fun hover ↦ ?_⟩
  · rw [if_pos hover] at hfault
    exact eq_of_requireM_error hfault
  · rw [if_neg hover] at hfault
    rcases violation_or_of_requireM hfault with rfl | ⟨hdescribes, hfault⟩
    · exact ⟨_, rfl⟩
    obtain ⟨-, hadjustment, -, hstop⟩ := of_decide_eq_true hdescribes
    rw [Build.sub_of_le .checked hadjustment, Call.ok_bind] at hfault
    obtain ⟨ends, hbefore⟩ := h.exists_endsBefore (payload - header.adjustment)
    rw [hbefore] at hfault
    rcases violation_or_of_requireM hfault with rfl | ⟨-, hfault⟩
    · exact ⟨_, rfl⟩
    obtain ⟨ends, hnext⟩ := exists_endsBeforeNext
      (list.neighbours (payload - header.adjustment)).2 (Nat.lt_of_le_of_lt hstop h.capacity_lt)
    rw [hnext] at hfault
    rcases violation_or_of_requireM hfault with rfl | ⟨-, hfault⟩
    · exact ⟨_, rfl⟩
    · cases hfault

/-- **Refused addresses.** An address in the region whose header would be in a free block is
refused, for breaking the contract unless the test of the words there overflows. -/
theorem Tiled.release_fault (h : list.Tiled free leases) (hlive : 0 < list.allocations)
    (hnull : address ≠ 0) {payload : Nat} (hpayload : Word.sub address list.region.base = payload)
    (hnode : nodeSize ≤ payload) (hinside : payload ≤ list.capacity)
    (hstray : list.Stray address) :
    ∃ fault, release .checked address list = .error fault list ∧
      ((list.header (payload - nodeSize)).Overflows payload → fault = .overflow .add) ∧
      (¬ (list.header (payload - nodeSize)).Overflows payload →
        ∃ broken, fault = .violation broken) := by
  obtain ⟨fault, hreturned⟩ := h.returned_stray hstray
  exact ⟨fault, release_of_returned hnull hreturned,
    h.fault_of_returned hlive hpayload hnode hinside hreturned⟩

/-! ## Where the chain writes -/

/-- No block in use has a byte of a block. -/
def Vacant (list : FreeList) (leases : List Lease) (block : FreeBlock) : Prop :=
  ∀ lease ∈ leases, ∀ i, block.Covers i → ¬ (list.blockOf lease).Covers i

theorem eq_or_apart {a b : FreeBlock} (hordered : free.Pairwise fun a b ↦ a.stop < b.offset)
    (ha : a ∈ free) (hb : b ∈ free) : b = a ∨ b.stop < a.offset ∨ a.stop < b.offset := by
  obtain ⟨front, back, rfl⟩ := List.append_of_mem ha
  obtain ⟨-, hback, hcross⟩ := List.pairwise_append.mp hordered
  rcases List.mem_append.mp hb with hb | hb
  · exact Or.inr (Or.inl (hcross b hb a List.mem_cons_self))
  · rcases List.mem_cons.mp hb with rfl | hb
    · exact Or.inl rfl
    · exact Or.inr (Or.inr (List.rel_of_pairwise_cons hback hb))

/-- A vacant block lies in one free block, as free blocks do not touch. -/
theorem Tiled.exists_free_over (h : list.Tiled free leases) (hpos : 0 < block.size)
    (hstop : block.stop ≤ list.capacity) (hvacant : list.Vacant leases block) :
    ∃ outer ∈ free, outer.offset ≤ block.offset ∧ block.stop ≤ outer.stop := by
  have hfree {i : Nat} (hcovers : block.Covers i) : ∃ outer ∈ free, outer.Covers i :=
    h.exists_free_covers (Nat.lt_of_lt_of_le hcovers.2 hstop) fun lease hlease ↦
      hvacant lease hlease i hcovers
  obtain ⟨outer, houter, hle, hlt⟩ :=
    hfree ⟨Nat.le_refl _, Nat.lt_add_of_pos_right hpos⟩
  refine ⟨outer, houter, hle, ?_⟩
  -- were the byte after it in the block, another free block would have it and touch this one
  by_contra hends
  obtain ⟨other, hother, hle', hlt'⟩ : ∃ other ∈ free, other.Covers outer.stop :=
    hfree ⟨Nat.le_of_lt hlt, Nat.not_le.mp hends⟩
  rcases eq_or_apart h.apart houter hother with rfl | hbefore | hafter
  · exact Nat.lt_irrefl _ hlt'
  · omega
  · omega

/-- The bytes of a free block behind its node are in no node. -/
theorem Tiled.outside_nodes (h : list.Tiled free leases) (hblock : block ∈ free) {i : Nat}
    (hle : block.offset + nodeSize ≤ i) (hlt : i < block.stop) :
    ∀ other ∈ free, i < other.offset ∨ other.offset + nodeSize ≤ i := by
  intro other hother
  by_contra hnode
  have hsize := (h.sized other hother).2
  rcases eq_or_apart h.apart hblock hother with rfl | hbefore | hafter
  · omega
  · rw [FreeBlock.stop] at hbefore
    omega
  · omega

/-- **Frame.** An allocation leaves what is in neither the block that it takes nor a node of the
chain afterwards. -/
theorem byteAt_granted_of_nodes {fit : Fit} {i : Nat} (hsound : fit.Sound before size)
    (htaken : ¬ fit.taken.Covers i)
    (hnodes : ∀ b ∈ before ++ fit.rest ++ after, i < b.offset ∨ b.offset + nodeSize ≤ i) :
    (list.granted fit).region.byteAt i = list.region.byteAt i := by
  have hneeded := Fit.needed_le_taken hsound.needed_le
  rw [byteAt_granted_of_cutOut hsound, byteAt_cutOut_of_nodes hsound]
  · exact fun b hb ↦ hnodes b (List.mem_append_left _ hb)
  · have hoffset : fit.taken.offset = fit.block.offset := rfl
    simp only [FreeBlock.Covers, FreeBlock.stop, hoffset] at htaken
    omega

/-- **Frame.** A release leaves what is in neither the block that comes back nor a node of the chain
afterwards. -/
theorem byteAt_returnedTo_of_nodes (h : list.Tiled (before ++ after) (lease :: leases)) {i : Nat}
    (hblock : ¬ (list.blockOf lease).Covers i)
    (hnodes : ∀ b ∈ mergeBetween before (list.blockOf lease) after,
      i < b.offset ∨ b.offset + nodeSize ≤ i) :
    (list.returnedTo before lease after).region.byteAt i = list.region.byteAt i := by
  have hsize := (h.headed lease List.mem_cons_self).nodeSize_le
  refine byteAt_restored ?_ ?_
  · simp only [FreeBlock.Covers, FreeBlock.stop] at hblock
    omega
  · intro hends
    -- the block before keeps its offset when it is merged with
    rcases List.eq_nil_or_concat' before with rfl | ⟨front, last, rfl⟩
    · exact absurd lastOffset_nil hends
    · obtain ⟨first, rest, hmerged, hoffset⟩ :=
        last.exists_mergeAfter ((list.blockOf lease).mergeAfter after)
      rw [mergeBetween_concat, hmerged] at hnodes
      rw [lastOffset_concat, ← hoffset]
      exact hnodes first (List.mem_append_right _ List.mem_cons_self)

/-! ## What is left of a block -/

/-- What is left of a block since it came back: the bytes behind a node at its start are those of
before, and the second word of that node ends the chain or leads to a block behind. -/
structure Residue (start list : FreeList) (block : FreeBlock) : Prop where
  bytes : ∀ i, block.offset + nodeSize ≤ i → i < block.stop →
    list.region.byteAt i = start.region.byteAt i
  next : list.region.word (block.offset + Word.width) = chainEnd ∨
    block.stop < list.region.word (block.offset + Word.width) ∧
      list.region.word (block.offset + Word.width) < list.capacity

theorem firstOffset_eq_or (h : list.Tiled free leases) {rest : List FreeBlock}
    (hrest : ∀ b ∈ rest, block.stop < b.offset ∧ b ∈ free) :
    firstOffset rest = chainEnd ∨
      block.stop < firstOffset rest ∧ firstOffset rest < list.capacity := by
  cases rest with
  | nil => exact Or.inl rfl
  | cons b rest =>
    obtain ⟨hlt, hmem⟩ := hrest b List.mem_cons_self
    have hfits := h.spaced.fits b hmem
    have hnode := nodeSize_pos
    rw [firstOffset_cons]
    exact Or.inr ⟨hlt, by omega⟩

/-- **What a return leaves.** -/
theorem Tiled.residue_returnedTo (h : list.Tiled (before ++ after) (lease :: leases))
    (hbetween : Between before (list.blockOf lease) after) :
    Residue list (list.returnedTo before lease after) (list.blockOf lease) where
  bytes := by
    intro i hle hlt
    refine byteAt_restored (Or.inr hle) fun hends ↦ Or.inr ?_
    obtain ⟨last, hmem, hoffset⟩ := exists_mem_of_lastOffset_ne hends
    have hstop := hbetween.stop_le last hmem
    have hsize := (h.sized last (List.mem_append_left _ hmem)).2
    rw [FreeBlock.stop] at hstop
    omega
  next := by
    have hafter := (List.pairwise_append.mp hbetween.apart).2.1
    obtain ⟨first, rest, hmerged, hoffset, hbehind⟩ :=
      FreeBlock.exists_mergeAfter_behind hbetween.le_offset hafter
    -- the node is written when the block joins the chain and merges with the block after it
    have hlinked := (h.place hbetween).linked_merged
    rw [hmerged] at hlinked
    have hnext := hlinked.word_add_eq
    rw [hoffset] at hnext
    have hword : (list.returnedTo before lease after).region.word
        ((list.blockOf lease).offset + Word.width) = firstOffset rest := by
      rw [← hnext]
      refine Region.word_congr fun i hle hlt ↦ ?_
      rw [FreeList.returnedTo, region_restored, mergedInto]
      split
      · rfl
      · rename_i hends
        obtain ⟨last, hmem, hlast⟩ := exists_mem_of_lastOffset_ne hends
        have hstop := hbetween.stop_le last hmem
        have hroom := (h.sized last (List.mem_append_left _ hmem)).2
        rw [FreeBlock.stop] at hstop
        exact byteAt_merged (Or.inr (by omega))
    rw [hword, FreeList.returnedTo, capacity_restored]
    exact firstOffset_eq_or h fun b hb ↦
      ⟨(hbehind b hb).1, List.mem_append_right _ (hbehind b hb).2⟩

/-- **What stays.** As long as no block in use has a byte of it, what is left of a block changes
with the chain only. -/
theorem Residue.step {start next : FreeList} {rest : List Lease} (h : Residue start list block)
    (htiled : next.Tiled free rest) (hcapacity : next.capacity = list.capacity)
    (haligned : Word.width ∣ block.offset) (hsize : nodeSize ≤ block.size)
    (hstop : block.stop ≤ list.capacity) (hvacant : next.Vacant rest block)
    (hframe : ∀ i, block.Covers i → (∀ b ∈ free, i < b.offset ∨ b.offset + nodeSize ≤ i) →
      next.region.byteAt i = list.region.byteAt i) :
    Residue start next block := by
  have hnode := nodeSize_pos
  obtain ⟨outer, houter, hoffset, hends⟩ :=
    htiled.exists_free_over (by omega) (hcapacity ▸ hstop) hvacant
  have hsame {i : Nat} (hle : outer.offset + nodeSize ≤ i) (hcovers : block.Covers i) :
      next.region.byteAt i = list.region.byteAt i :=
    hframe i hcovers (htiled.outside_nodes houter hle (Nat.lt_of_lt_of_le hcovers.2 hends))
  refine ⟨fun i hle hlt ↦ ?_, ?_⟩
  · rw [hsame (by omega) ⟨by omega, hlt⟩]
    exact h.bytes i hle hlt
  · rcases Nat.eq_or_lt_of_le hoffset with heq | hlt
    · -- the node is on the chain
      obtain ⟨front, back, rfl⟩ := List.append_of_mem houter
      rw [← heq, htiled.linked.word_add_eq]
      refine firstOffset_eq_or htiled fun b hb ↦ ⟨?_, by simp [hb]⟩
      have hapart := List.rel_of_pairwise_cons (List.pairwise_append.mp htiled.apart).2.1 hb
      omega
    · -- the node on the chain starts at an earlier word, and the second word here is not in it
      have haligned' := htiled.sized outer houter
      have hword : next.region.word (block.offset + Word.width) =
          list.region.word (block.offset + Word.width) := by
        refine Region.word_congr fun i hle hlt ↦ hsame ?_ ⟨by omega, ?_⟩
        · have hword : 8 ∣ block.offset := haligned
          have hword' : 8 ∣ outer.offset := haligned'.1
          rw [nodeSize_eq]
          rw [Word.width] at hle ⊢
          omega
        · rw [FreeBlock.stop]
          rw [nodeSize_eq] at hsize
          omega
      rw [hword, hcapacity]
      exact h.next

section Reading

variable {start : FreeList}

/-- Where the header lies behind the node, it is read as it was, and its test does not overflow. -/
theorem Residue.not_overflows_of_le (hstart : start.Tiled free leases) (hlease : lease ∈ leases)
    (h : Residue start list (start.blockOf lease))
    (hle : (start.blockOf lease).offset + (nodeSize + nodeSize) ≤ lease.payload) :
    ¬ (list.header (lease.payload - nodeSize)).Overflows lease.payload := by
  have hstop := (hstart.headed lease hlease).le_stop
  have hinside := hstart.lease_stop_le hlease
  have hcapacity := hstart.capacity_lt
  have hsame : list.header (lease.payload - nodeSize) = start.header (lease.payload - nodeSize) :=
    header_congr fun i hfrom hlt ↦ h.bytes i (by omega) (by omega)
  rw [hsame]
  rintro ⟨-, -, -, hover⟩
  rw [blockOf, FreeBlock.stop] at hinside
  exact absurd hover (Nat.not_le.mpr (Nat.lt_of_le_of_lt hinside hcapacity))

/-- Where the header is the node, its second word leads too far to be an adjustment. -/
theorem Residue.not_overflows_of_eq (hstart : start.Tiled free leases) (hlease : lease ∈ leases)
    (hspan : start.capacity ≤ Reservation.spanLimit)
    (h : Residue start list (start.blockOf lease))
    (heq : lease.payload = (start.blockOf lease).offset + nodeSize) :
    ¬ (list.header (lease.payload - nodeSize)).Overflows lease.payload := by
  have hstop := (hstart.headed lease hlease).le_stop
  have hinside := hstart.lease_stop_le hlease
  have hend : Reservation.spanLimit < chainEnd := by decide
  rintro ⟨-, hadjustment, -, -⟩
  rw [heq, Nat.add_sub_cancel, header] at hadjustment
  dsimp only at hadjustment
  rcases h.next with hlast | ⟨hbehind, -⟩
  · omega
  · omega

/-- Where the header starts in the middle of the node, the second word of the node is read as a
size, and the adjustment as it was. -/
theorem Residue.overflows_iff_of_eq (hstart : start.Tiled free leases) (hlease : lease ∈ leases)
    (hcapacity : list.capacity = start.capacity) (hspan : start.capacity ≤ Reservation.spanLimit)
    (h : Residue start list (start.blockOf lease))
    (heq : lease.payload = (start.blockOf lease).offset + (nodeSize + Word.width)) :
    (list.header (lease.payload - nodeSize)).Overflows lease.payload ↔
      0 < (start.blockOf lease).offset ∧
        list.region.word ((start.blockOf lease).offset + Word.width) = chainEnd := by
  have hheaded := hstart.headed lease hlease
  have hstop := hheaded.le_stop
  have hinside := hstart.lease_stop_le hlease
  have hoffset : lease.payload - nodeSize = (start.blockOf lease).offset + Word.width := by omega
  have hadjustment : list.region.word ((start.blockOf lease).offset + Word.width + Word.width) =
      nodeSize + Word.width := by
    have hstarts : lease.payload - (start.header (lease.payload - nodeSize)).adjustment =
        (start.blockOf lease).offset := rfl
    have hle := hheaded.adjustment_le
    have hsame : list.region.word ((start.blockOf lease).offset + Word.width + Word.width) =
        start.region.word ((start.blockOf lease).offset + Word.width + Word.width) :=
      Region.word_congr fun i hfrom hlt ↦
        h.bytes i (by rw [nodeSize_eq]; omega) (by rw [nodeSize_eq] at heq; omega)
    rw [hsame, ← hoffset]
    show (start.header (lease.payload - nodeSize)).adjustment = _
    omega
  have hword : chainEnd + 1 = Word.limit := by decide
  have hhalf : Reservation.spanLimit + Reservation.spanLimit = Word.limit := by decide
  have hsize : nodeSize + Word.width ≤ chainEnd := by decide
  rw [Header.Overflows, hoffset, header, hadjustment]
  dsimp only
  rcases h.next with hlast | ⟨hbehind, hlt⟩
  · rw [hlast]
    omega
  · omega

/-- **What is read as a header.** In a region below half of the addresses, the words before the
payload of a block that is vacant add up to more than a word in one case only: the payload starts
three words after the block, so that the header and the node have one word in common; and that word
ends the chain, in a block that is not at the start of the region. -/
theorem Residue.overflows_iff (hstart : start.Tiled free leases) (hlease : lease ∈ leases)
    (hcapacity : list.capacity = start.capacity) (hspan : start.capacity ≤ Reservation.spanLimit)
    (h : Residue start list (start.blockOf lease)) :
    (list.header (lease.payload - nodeSize)).Overflows lease.payload ↔
      lease.payload = (start.blockOf lease).offset + (nodeSize + Word.width) ∧
        0 < (start.blockOf lease).offset ∧
        list.region.word ((start.blockOf lease).offset + Word.width) = chainEnd := by
  have hheaded := hstart.headed lease hlease
  have hstart_le := hheaded.start_add_le
  -- payload and block start at words, so the header is the node, or half of it, or behind it
  have hcases : lease.payload = (start.blockOf lease).offset + nodeSize ∨
      lease.payload = (start.blockOf lease).offset + (nodeSize + Word.width) ∨
      (start.blockOf lease).offset + (nodeSize + nodeSize) ≤ lease.payload := by
    have hpayload : 8 ∣ lease.payload := hheaded.payload_aligned
    have hoffset : 8 ∣ (start.blockOf lease).offset := hheaded.start_aligned
    have hwidth : Word.width = 8 := rfl
    have hnode : nodeSize = 16 := rfl
    omega
  have hwidth : 0 < Word.width := by decide
  rcases hcases with heq | heq | hle
  · refine iff_of_false (h.not_overflows_of_eq hstart hlease hspan heq) fun hcase ↦ ?_
    omega
  · rw [h.overflows_iff_of_eq hstart hlease hcapacity hspan heq]
    exact (and_iff_right heq).symm
  · refine iff_of_false (h.not_overflows_of_le hstart hlease hle) fun hcase ↦ ?_
    have hnode : Word.width < nodeSize := by decide
    omega

end Reading

end FreeList

end Suballoc
