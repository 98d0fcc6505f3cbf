import Suballoc.Proofs.SlotArray
import Suballoc.SharedPool

/-!
# The ledger of a shared pool

Between two atomic steps a shared pool need not agree with itself: a block may have left the chain
and not be counted yet, or be counted and not be marked as held. What is always true is a ledger
with separate columns. Every slot is either on the chain or owned by someone; some of the owned
slots are held; and the count is a number that the owners know.

Each atomic step moves one entry of one column. Who the owners are does not matter here, only that a
step is made by one who may make it.
-/

namespace Suballoc.SharedPool

open SlotArray (Chained Flagged Laid)

theorem stored_first {strategy : SyncStrategy} {region : Region} {stride first : Nat}
    {free : List Nat} (h : Chained region stride first free)
    (hlt : ∀ index ∈ free, index < packedIndexLimit) : strategy.stored first = first := by
  cases free with
  | nil =>
    obtain rfl : first = chainEnd := h
    exact strategy.stored_chainEnd
  | cons index rest =>
    obtain ⟨rfl, -⟩ := h
    exact strategy.stored_of_lt (hlt index List.mem_cons_self)

/-- The books of a shared pool: which slots are free, owned and held, and how many are counted. -/
structure Ledger (build : Build) (pool : SharedPool) (free owned held : List Nat)
    (counted : Nat) : Prop where
  laid : pool.slots.Laid
  /-- A packed head can name every slot. -/
  count_lt : pool.slots.count < packedIndexLimit
  /-- The links lead from the head through the free slots and end. -/
  chained : Chained pool.slots.region pool.slots.stride pool.head free
  /-- Every slot is free or owned, once. -/
  shared : (free ++ owned).Perm (List.range pool.slots.count)
  allocated_eq : pool.allocated = counted
  /-- A checked build knows the slots that are held. -/
  flagged : Flagged build pool.slots fun index ↦ index ∈ held

namespace Ledger

variable {build : Build} {pool : SharedPool} {free owned held : List Nat} {counted index : Nat}

/-! ## Reading the books -/

theorem perm {owned' held' : List Nat} (h : Ledger build pool free owned held counted)
    (howned : owned.Perm owned') (hheld : held.Perm held') :
    Ledger build pool free owned' held' counted where
  laid := h.laid
  count_lt := h.count_lt
  chained := h.chained
  shared := (howned.symm.append_left free).trans h.shared
  allocated_eq := h.allocated_eq
  flagged := h.flagged.imp fun _ _ ↦ hheld.symm.mem_iff

theorem nodup (h : Ledger build pool free owned held counted) : (free ++ owned).Nodup :=
  h.shared.nodup_iff.mpr List.nodup_range

theorem lt_of_mem_free (h : Ledger build pool free owned held counted) (hindex : index ∈ free) :
    index < pool.slots.count :=
  List.mem_range.mp (h.shared.mem_iff.mp (List.mem_append_left _ hindex))

theorem lt_of_mem_owned (h : Ledger build pool free owned held counted) (hindex : index ∈ owned) :
    index < pool.slots.count :=
  List.mem_range.mp (h.shared.mem_iff.mp (List.mem_append_right _ hindex))

theorem not_mem_free (h : Ledger build pool free owned held counted) (hindex : index ∈ owned) :
    index ∉ free := fun hfree ↦
  (List.nodup_append.mp h.nodup).2.2 index hfree index hindex rfl

theorem length_le (h : Ledger build pool free owned held counted) :
    owned.length ≤ pool.slots.count := by
  have hlength := h.shared.length_eq
  rw [List.length_append, List.length_range] at hlength
  omega

theorem stored_eq (h : Ledger build pool (index :: free) owned held counted) :
    pool.strategy.stored (pool.slots.region.word (index * pool.slots.stride)) =
      pool.slots.region.word (index * pool.slots.stride) := by
  obtain ⟨-, hrest⟩ := h.chained
  refine stored_first hrest fun next hnext ↦ ?_
  exact Nat.lt_trans (h.lt_of_mem_free (List.mem_cons_of_mem index hnext)) h.count_lt

/-! ## Taking a block -/

theorem pop_nil (h : Ledger build pool [] owned held counted) : pop build pool = .ok none pool := by
  have hhead : pool.head = chainEnd := h.chained
  rw [pop]
  simp only [Call.run_bind, Call.run_get, if_pos hhead, Call.run_pure]

/-- **Popping.** The first free slot gets an owner. -/
theorem pop_cons (h : Ledger build pool (index :: free) owned held counted) :
    ∃ after, pop build pool = .ok (some index) after ∧
      Ledger build after free (index :: owned) held counted ∧ after.slots.count = pool.slots.count ∧
      after.peak = pool.peak := by
  obtain ⟨hhead, hrest⟩ := h.chained
  have hindex : index < pool.slots.count := h.lt_of_mem_free List.mem_cons_self
  have hend : index ≠ chainEnd := Nat.ne_of_lt (h.laid.lt_chainEnd hindex)
  refine ⟨{ pool with head := pool.slots.region.word (index * pool.slots.stride) }, ?_, ?_, rfl,
    rfl⟩
  · rw [pop]
    simp only [Call.run_bind, Call.run_get, ← hhead, if_neg hend, h.laid.link_eq build hindex,
      Call.run_lift_ok, Call.run_modify, h.stored_eq, Call.run_pure]
  · refine ⟨h.laid, h.count_lt, hrest, List.perm_middle.trans h.shared, h.allocated_eq,
      h.flagged⟩

/-- **Counting.** One of the slots that are owned and not counted yet is counted. -/
theorem countUp_run (h : Ledger build pool free owned held counted)
    (hroom : counted < owned.length) :
    ∃ after, countUp build pool = .ok (counted + 1) after ∧
      Ledger build after free owned held (counted + 1) ∧ after.slots.count = pool.slots.count ∧
      after.peak = pool.peak := by
  have hlength := h.length_le
  have hlimit : pool.slots.count < Word.limit := h.laid.count_lt
  have hcount := h.allocated_eq
  have hadd : build.add pool.allocated 1 = .ok (counted + 1) := by
    rw [Build.add_of_lt build (by omega), hcount]
  refine ⟨{ pool with allocated := Word.add pool.allocated 1 }, ?_,
    ⟨h.laid, h.count_lt, h.chained, h.shared, ?_, h.flagged⟩, rfl, rfl⟩
  · rw [countUp]
    simp only [Call.run_bind, Call.run_get, Call.run_modify, hadd, Call.run_lift_ok]
  · show Word.add pool.allocated 1 = counted + 1
    rw [Word.add_of_lt (by omega), hcount]

theorem raisePeak (h : Ledger build pool free owned held counted) (live : Nat) :
    Ledger build { pool with peak := max pool.peak live } free owned held counted :=
  ⟨h.laid, h.count_lt, h.chained, h.shared, h.allocated_eq, h.flagged⟩

/-- **Marking.** A slot that has an owner and is not held becomes held. -/
theorem markLive_run (h : Ledger build pool free owned held counted) (hindex : index ∈ owned)
    (hheld : index ∉ held) :
    ∃ after, markLive build index pool = .ok () after ∧
      Ledger build after free owned (index :: held) counted ∧ after.slots.count = pool.slots.count ∧
      after.peak = pool.peak := by
  have hlt : index < pool.slots.count := h.lt_of_mem_owned hindex
  have hflag := h.flagged.require_not_isLive hlt hheld (.slotStillLive index)
  refine ⟨{ pool with slots := pool.slots.setLive index true }, ?_,
    ⟨h.laid.congr ?_ ?_ ?_, h.count_lt, h.chained, h.shared, h.allocated_eq, ?_⟩, ?_, rfl⟩
  · rw [markLive]
    simp only [Call.run_bind, Call.run_get, Call.run_modify, hflag, Call.run_lift_ok]
  · exact SlotArray.stride_setLive _ _ _
  · exact SlotArray.count_setLive _ _ _
  · rw [SlotArray.region_setLive]
  · refine h.flagged.setLive hlt ?_ ?_
    · exact iff_of_true List.mem_cons_self rfl
    · intro other hother
      rw [List.mem_cons, or_iff_right hother]
  · exact SlotArray.count_setLive _ _ _

/-! ## Giving a block back -/

/-- **Unmarking.** A slot that is held is no longer held. -/
theorem markFree_run (h : Ledger build pool free owned (index :: held) counted)
    (hindex : index ∈ owned) (hheld : index ∉ held) :
    ∃ after, markFree build index pool = .ok () after ∧
      Ledger build after free owned held counted ∧ after.slots.count = pool.slots.count ∧
      after.peak = pool.peak := by
  have hlt : index < pool.slots.count := h.lt_of_mem_owned hindex
  have hflag := h.flagged.require_isLive hlt List.mem_cons_self (.slotReleasedTwice index)
  refine ⟨{ pool with slots := pool.slots.setLive index false }, ?_,
    ⟨h.laid.congr ?_ ?_ ?_, h.count_lt, h.chained, h.shared, h.allocated_eq, ?_⟩, ?_, rfl⟩
  · rw [markFree]
    simp only [Call.run_bind, Call.run_get, Call.run_modify, hflag, Call.run_lift_ok]
  · exact SlotArray.stride_setLive _ _ _
  · exact SlotArray.count_setLive _ _ _
  · rw [SlotArray.region_setLive]
  · refine h.flagged.setLive hlt ?_ ?_
    · exact iff_of_false hheld Bool.false_ne_true
    · intro other hother
      rw [List.mem_cons, or_iff_right hother]
  · exact SlotArray.count_setLive _ _ _

/-- **Uncounting.** What was counted is taken off the count. -/
theorem countDown_run (h : Ledger build pool free owned held (counted + 1))
    (hroom : counted < owned.length) :
    ∃ after, countDown build pool = .ok () after ∧
      Ledger build after free owned held counted ∧ after.slots.count = pool.slots.count ∧
      after.peak = pool.peak := by
  have hcount := h.allocated_eq
  have hpos : decide (0 < pool.allocated) = true := decide_eq_true (by omega)
  have hlength := h.length_le
  have hlimit := h.laid.count_lt
  refine ⟨{ pool with allocated := Word.sub pool.allocated 1 }, ?_,
    ⟨h.laid, h.count_lt, h.chained, h.shared, ?_, h.flagged⟩, rfl, rfl⟩
  · rw [countDown]
    simp only [Call.run_bind, Call.run_get, Call.run_modify, hpos, Build.require_true,
      Call.run_lift_ok]
  · show Word.sub pool.allocated 1 = counted
    rw [Word.sub_of_le (by omega) (by omega)]
    omega

/-- **Pushing.** A slot that had an owner is the first free one. -/
theorem push_run (h : Ledger build pool free (index :: owned) held counted) :
    ∃ after, push build index pool = .ok () after ∧
      Ledger build after (index :: free) owned held counted ∧
      after.slots.count = pool.slots.count ∧ after.peak = pool.peak := by
  have hlt : index < pool.slots.count := h.lt_of_mem_owned List.mem_cons_self
  have hfree := h.not_mem_free List.mem_cons_self
  have hslot := h.laid.slot_le hlt
  have hwidth := h.laid.width_le
  have hstored : pool.strategy.stored index = index :=
    SyncStrategy.stored_of_lt _ (Nat.lt_trans hlt h.count_lt)
  have hfirst : pool.head < Word.limit := h.chained.first_lt fun other hother ↦
    Nat.lt_trans (h.lt_of_mem_free hother) h.laid.count_lt
  have hpush := h.chained.push hwidth hfree (by omega) hfirst
  refine ⟨{ pool with
      slots := pool.slots.setLink (index * pool.slots.stride) pool.head
      head := index }, ?_, ⟨h.laid.congr ?_ ?_ ?_, ?_, ?_, ?_, h.allocated_eq,
        h.flagged.congr ?_ ?_⟩, ?_, rfl⟩
  · rw [push]
    simp only [Call.run_bind, Call.run_get, h.laid.linkOffset_eq build hlt, Call.run_lift_ok,
      Call.run_modify, hstored]
  · exact SlotArray.stride_setLink _ _ _
  · exact SlotArray.count_setLink _ _ _
  · rw [SlotArray.region_setLink, Region.size_setWord]
  · rw [SlotArray.count_setLink]
    exact h.count_lt
  · rw [SlotArray.region_setLink, SlotArray.stride_setLink]
    exact hpush
  · rw [SlotArray.count_setLink]
    exact List.perm_middle.symm.trans h.shared
  · exact SlotArray.live_setLink _ _ _
  · exact SlotArray.count_setLink _ _ _
  · exact SlotArray.count_setLink _ _ _

/-! ## What holders do -/

/-- **Writing.** What owners write to their slots leaves the books alone. -/
theorem write {offset : Nat} {values : List UInt8}
    (h : Ledger build pool free owned held counted) (hindex : index ∈ owned)
    (hfits : offset + values.length ≤ pool.slots.stride) :
    Ledger build (pool.write index offset values) free owned held counted := by
  have hwrite := h.chained.write h.laid.width_le (h.not_mem_free hindex) hfits
  rw [SharedPool.write]
  exact ⟨h.laid.congr rfl rfl (Region.size_write _ _ _), h.count_lt, hwrite, h.shared,
    h.allocated_eq, h.flagged.congr rfl rfl⟩

end Ledger

/-- **Construction.** In a new pool every slot is free and nothing is counted. -/
theorem ledger_new {build : Build} {platform : Platform} {blockSize blockCount alignment : Nat}
    {strategy : SyncStrategy} {pool : SharedPool}
    (hnew : new build platform blockSize blockCount alignment strategy = .ok pool) :
    Ledger build pool (List.range blockCount) [] [] 0 ∧ pool.slots.count = blockCount ∧
      pool.peak = 0 := by
  rw [new] at hnew
  by_cases hmany : packedIndexLimit ≤ blockCount
  · rw [if_pos hmany] at hnew
    cases hnew
  · rw [if_neg hmany] at hnew
    obtain ⟨slots, hslots, hnew⟩ := Call.bind_eq_ok.mp hnew
    obtain rfl := Except.ok.inj hnew
    obtain ⟨hlaid, hcount, -, hchained, hflagged⟩ := SlotArray.new_eq_ok hslots
    rw [hcount] at hchained
    refine ⟨⟨hlaid, ?_, hchained, ?_, rfl, hflagged.imp ?_⟩, hcount, rfl⟩
    · rw [hcount]
      exact Nat.not_le.mp hmany
    · rw [List.append_nil, hcount]
    · intro index hindex
      exact iff_of_false List.not_mem_nil not_false

end Suballoc.SharedPool
