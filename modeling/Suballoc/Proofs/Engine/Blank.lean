import Suballoc.Proofs.Engine.Builds

/-!
# Engines without the contents of their memory

An engine keeps some of its state in fields and the rest between the bytes of its callers: the links
of free slots, the nodes of free blocks, the headers of allocations. `blank` keeps the fields and
where the region is, and sets every byte to zero; `freeSpace` and `headers` read the rest from the
memory. Together they are all that an engine goes by.

No operation of an engine moves its region, whatever it writes.
-/

namespace Suballoc

/-! ## Regions -/

namespace Region

/-- The region with every byte zero. -/
def blank (region : Region) : Region :=
  { region with bytes := fillBytes region.size fun _ ↦ 0 }

@[simp] theorem size_blank (region : Region) : region.blank.size = region.size :=
  size_fillBytes _ _

theorem blank_eq_blank_iff {a b : Region} : a.blank = b.blank ↔
    a.base = b.base ∧ a.alignment = b.alignment ∧ a.size = b.size := by
  constructor
  · intro h
    have hbase : a.blank.base = b.blank.base := congrArg base h
    have halignment : a.blank.alignment = b.blank.alignment := congrArg alignment h
    refine ⟨hbase, halignment, ?_⟩
    rw [← size_blank a, h, size_blank]
  · rintro ⟨hbase, halignment, hsize⟩
    rw [blank, blank, hbase, halignment, hsize]

@[simp] theorem blank_write (region : Region) (offset : Nat) (values : List UInt8) :
    (region.write offset values).blank = region.blank :=
  blank_eq_blank_iff.mpr ⟨base_write _ _ _, alignment_write _ _ _, size_write _ _ _⟩

/-- New regions of one shape in one place differ in their bytes at most. -/
theorem blank_reserve {platform platform' : Platform} {wanted wanted' : Reservation} {a b : Region}
    (ha : reserve platform wanted = .ok a) (hb : reserve platform' wanted' = .ok b)
    (hsize : wanted.size = wanted'.size) (halignment : wanted.alignment = wanted'.alignment)
    (hbase : a.base = b.base) : a.blank = b.blank := by
  obtain ⟨-, -, haligned, hsized⟩ := reserve_eq_ok ha
  obtain ⟨-, -, haligned', hsized'⟩ := reserve_eq_ok hb
  rw [blank_eq_blank_iff, haligned, haligned', hsized, hsized']
  exact ⟨hbase, halignment, hsize⟩

@[simp] theorem blank_setWord (region : Region) (offset value : Nat) :
    (region.setWord offset value).blank = region.blank := blank_write _ _ _

end Region

/-! ## Slots -/

namespace SlotArray

/-- The slots with every byte zero. -/
def blank (slots : SlotArray) : SlotArray := { slots with region := slots.region.blank }

theorem blank_eq_blank_iff {a b : SlotArray} :
    a.blank = b.blank ↔ a.region.blank = b.region.blank ∧ a.stride = b.stride ∧
      a.count = b.count ∧ a.live = b.live := by
  rw [blank, blank, SlotArray.mk.injEq]

theorem blank_setLive (slots : SlotArray) (index : Nat) (flag : Bool) :
    (slots.setLive index flag).blank = slots.blank.setLive index flag := rfl

theorem blank_setLink (slots : SlotArray) (offset next : Nat) :
    (slots.setLink offset next).blank = slots.blank := by
  rw [blank, blank, setLink, Region.blank_setWord]

theorem blank_forBuild (build : Build) (slots : SlotArray) :
    (slots.forBuild build).blank = slots.blank.forBuild build := by
  cases build <;> rfl

theorem blank_chainSlots (region : Region) (stride count : Nat) :
    (chainSlots region stride count).blank = region.blank := by
  have hfold (link : Nat → Nat) (n : Nat) :
      (Nat.fold n (fun index _ region ↦ region.setWord (index * stride) (link index))
        region).blank = region.blank := by
    induction n with
    | zero => rfl
    | succ n ih => rw [Nat.fold_succ, Region.blank_setWord, ih]
  rw [chainSlots, hfold]

theorem blank_new {build : Build} {platform platform' : Platform}
    {blockSize blockCount alignment : Nat} {a b : SlotArray}
    (ha : new build platform blockSize blockCount alignment = .ok a)
    (hb : new build platform' blockSize blockCount alignment = .ok b)
    (hbase : a.region.base = b.region.base) : a.blank = b.blank := by
  rw [new] at ha hb
  obtain ⟨⟨stride, wanted⟩, hlayout, ha⟩ := Call.bind_eq_ok.mp ha
  rw [hlayout, Call.ok_bind] at hb
  obtain ⟨region, hreserve, ha⟩ := Call.bind_eq_ok.mp ha
  obtain ⟨region', hreserve', hb⟩ := Call.bind_eq_ok.mp hb
  obtain rfl := Except.ok.inj ha
  obtain rfl := Except.ok.inj hb
  rw [base_chainSlots, base_chainSlots] at hbase
  rw [blank, blank]
  dsimp only
  rw [blank_chainSlots, blank_chainSlots, Region.blank_reserve hreserve hreserve' rfl rfl hbase]

/-- The indices that the links lead through, so many at most. -/
def chainFrom (region : Region) (stride : Nat) : (most first : Nat) → List Nat
  | 0, _ => []
  | most + 1, first =>
    if first = chainEnd then []
    else first :: chainFrom region stride most (region.word (first * stride))

/-- The free slots, in the order of the chain. -/
def freeSlots (slots : SlotArray) (head : Nat) : List FreeBlock :=
  (chainFrom slots.region slots.stride slots.count head).map fun index ↦
    { offset := index * slots.stride, size := slots.stride }

/-- The view of a chain that ends is the slots it leads through, when it may read enough of them. -/
theorem Chained.chainFrom_eq {region : Region} {stride first most : Nat} {free : List Nat}
    (h : Chained region stride first free) (hends : ∀ index ∈ free, index ≠ chainEnd)
    (hmost : free.length ≤ most) : chainFrom region stride most first = free := by
  induction free generalizing first most with
  | nil =>
    obtain rfl : first = chainEnd := h
    cases most with
    | zero => rfl
    | succ most => rw [chainFrom, if_pos rfl]
  | cons index rest ih =>
    obtain ⟨rfl, hrest⟩ := h
    rw [List.length_cons] at hmost
    obtain ⟨hhere, hrests⟩ := List.forall_mem_cons.mp hends
    obtain ⟨most, rfl⟩ : ∃ k, most = k + 1 := ⟨most - 1, by omega⟩
    rw [chainFrom, if_neg hhere, ih hrest hrests (by omega)]

end SlotArray

namespace Pool

variable {pool : Pool} {free : List Nat}

/-- The pool with every byte zero. -/
def blank (pool : Pool) : Pool := { pool with slots := pool.slots.blank }

theorem blank_forBuild (build : Build) (pool : Pool) :
    (pool.forBuild build).blank = pool.blank.forBuild build := by
  rw [blank, forBuild, SlotArray.blank_forBuild, forBuild, blank]

theorem blank_popped (pool : Pool) (index : Nat) :
    (pool.popped index).slots.blank = pool.slots.blank.setLive index true := by
  rw [popped, SlotArray.blank_setLive]

theorem blank_pushed (pool : Pool) (index : Nat) :
    (pool.pushed index).slots.blank = pool.slots.blank.setLive index false := by
  rw [pushed, SlotArray.blank_setLink, SlotArray.blank_setLive]

theorem blank_write (pool : Pool) (index offset : Nat) (values : List UInt8) :
    (pool.write index offset values).slots.blank = pool.slots.blank := by
  refine SlotArray.blank_eq_blank_iff.mpr ⟨?_, rfl, rfl, rfl⟩
  rw [region_write, Region.blank_write]

theorem Represents.freeSlots_eq {build : Build} (h : pool.Represents build free) :
    pool.slots.freeSlots pool.head = free.map fun index ↦
      { offset := index * pool.slots.stride, size := pool.slots.stride } := by
  have hcount := h.allocated_add
  rw [capacity] at hcount
  have hends : ∀ index ∈ free, index ≠ chainEnd := fun index hindex ↦
    Nat.ne_of_lt (h.laid.lt_chainEnd (h.lt_capacity index hindex))
  rw [SlotArray.freeSlots, h.chained.chainFrom_eq hends (by omega)]

theorem Represents.head_eq {build : Build} (h : pool.Represents build free) :
    pool.head = free.head?.getD chainEnd := by
  cases free with
  | nil => exact h.chained
  | cons index rest => exact h.chained.1.symm

end Pool

/-! ## Free lists -/

namespace FreeList

/-- The free list with every byte zero. -/
def blank (list : FreeList) : FreeList := { list with region := list.region.blank }

/-- Where a free list is, and how it chooses. -/
def site (list : FreeList) : Region × FitStrategy := (list.region.blank, list.strategy)

section Site

variable (list : FreeList) (offset previous next : Nat)

theorem site_setNode (node : Node) : (list.setNode offset node).site = list.site := by
  rw [site, setNode, Region.blank_setWord, Region.blank_setWord, site]

theorem site_setHeader (header : Header) : (list.setHeader offset header).site = list.site := by
  rw [site, setHeader, Region.blank_setWord, Region.blank_setWord, site]

theorem site_setNext : (list.setNext previous next).site = list.site := by
  rw [setNext]
  split
  · rfl
  · rw [site, Region.blank_setWord, site]

theorem site_linkIn (block : FreeBlock) : (list.linkIn previous block next).site = list.site := by
  rw [linkIn, site_setNext, site_setNode]

theorem site_merged : (list.merged offset).site = list.site := by
  rw [merged]
  dsimp only
  split
  · rw [site_setNode]
  · rfl

theorem site_granted (fit : Fit) : (list.granted fit).site = list.site := by
  have hcut : (list.cutOut fit).site = list.site := by
    rw [cutOut]
    split
    · rw [site_linkIn]
    · rw [site_setNext]
  have hheader := site_setHeader (list.cutOut fit)
    (fit.block.offset + fit.adjustment - nodeSize)
    { size := fit.taken.size, adjustment := fit.adjustment }
  rw [hcut, site, ← region_granted] at hheader
  rw [← hheader, site, granted]

theorem site_restored (block : FreeBlock) :
    (list.restored previous block next).site = list.site := by
  have hmerged : (((list.linkIn previous block next).merged block.offset).mergedInto
      previous).site = list.site := by
    rw [mergedInto]
    split
    · rw [site_merged, site_linkIn]
    · rw [site_merged, site_merged, site_linkIn]
  rw [restored]
  exact hmerged

end Site

theorem Effect.site_eq {list next : FreeList} {leases rest : List Lease} {errand : Engine.Errand}
    {outcome : Outcome} (h : Effect list leases errand outcome next rest) :
    next.site = list.site := by
  cases h with
  | idle | full => rfl
  | granted => exact site_granted _ _
  | returned => exact site_restored _ _ _ _
  | written => rw [site, write, Region.blank_write, site]

end FreeList

/-! ## Stacks -/

namespace ScopedStack

/-- The stack with every byte zero. -/
def blank (state : ScopedStack) : ScopedStack :=
  { state with stack := { state.stack with region := state.stack.region.blank } }

theorem capacity_blank (state : ScopedStack) :
    state.blank.stack.capacity = state.stack.capacity := Region.size_blank _

theorem bounded_blank {state : ScopedStack} (h : state.stack.Bounded) :
    state.blank.stack.Bounded where
  stop_lt := by
    rw [Region.stop, blank, Region.size_blank]
    exact h.stop_lt
  cursor_le := by
    rw [capacity_blank]
    exact h.cursor_le

theorem room?_blank (state : ScopedStack) (size alignment : Nat) :
    state.blank.stack.room? size alignment = state.stack.room? size alignment := by
  rw [Stack.room?, capacity_blank, Stack.room?]
  rfl

theorem taken_blank (state : ScopedStack) (first size : Nat) :
    { state.blank with stack := state.blank.stack.taken first size } =
      blank { state with stack := state.stack.taken first size } := by
  rw [Stack.taken, Stack.taken]
  split <;> rfl

theorem acted_blank (state : ScopedStack) (what : Act) :
    state.blank.acted what = ((state.acted what).1, (state.acted what).2.blank) := by
  cases what with
  | allocate | mark | reset | openScope => rfl
  | rewind marker =>
    rw [acted, acted, Stack.rewound, capacity_blank, Stack.rewound]
    rfl
  | endScope =>
    rw [acted, acted, endScope?, endScope?]
    obtain ⟨stack, scopes⟩ := state
    cases scopes with
    | nil => rfl
    | cons marker outer =>
      dsimp only [blank, Option.getD_some]
      rw [Stack.close, Stack.close]
      split <;> rfl

end ScopedStack

/-! ## Engines -/

namespace Engine

/-- The engine with every byte of its memory zero. -/
def blank : Engine → Engine
  | .pool p => .pool p.blank
  | .sharedPool p => .sharedPool { p with slots := p.slots.blank }
  | .stack state => .stack state.blank
  | .freeList list => .freeList list.blank
  | .region r => .region r.blank

/-- What is free, as the chain in the memory tells: the slots of a pool, the blocks of a free
list. -/
def freeSpace : Engine → List FreeBlock
  | .pool p => p.slots.freeSlots p.head
  | .sharedPool p => p.slots.freeSlots p.head
  | .freeList list => list.blocks
  | .stack _ | .region _ => []

/-- The headers before what is held, where there are headers. -/
def headers (held : List Holding) : Engine → List Header
  | .freeList list =>
    held.map fun holding ↦ list.header (holding.address - list.region.base - nodeSize)
  | .pool _ | .sharedPool _ | .stack _ | .region _ => []

section Guises

variable (guise : Guise) (peak : Nat) (pool : Pool)

theorem blank_engine : (guise.engine peak pool).blank = guise.engine peak pool.blank := by
  cases guise <;> rfl

theorem freeSpace_engine :
    (guise.engine peak pool).freeSpace = pool.slots.freeSlots pool.head := by
  cases guise <;> rfl

theorem headers_engine (held : List Holding) : (guise.engine peak pool).headers held = [] := by
  cases guise <;> rfl

end Guises

end Engine

end Suballoc
