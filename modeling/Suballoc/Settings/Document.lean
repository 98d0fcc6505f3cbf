import Suballoc.FreeList
import Suballoc.SharedPool

/-!
# Settings as documents

A document is a tree of plain values, the kind that configuration files hold. Three settings can be
written to one and read back: a reservation and the two strategies. Writing has one form for each;
reading accepts two, so that a reservation may be given by position and a strategy as an entry
without content.

Numbers are read only if they are whole and fit a word. What was written is always read back,
provided that the numbers were words.
-/

namespace Suballoc

/-- A tree of plain values. -/
inductive Document where
  | null
  | flag (value : Bool)
  /-- A whole number from zero on. -/
  | number (value : Nat)
  /-- Any other number. -/
  | otherNumber
  | text (value : String)
  | list (items : List Document)
  /-- Named entries, with no name twice. -/
  | record (entries : List (String × Document))
deriving Inhabited

namespace Document

/-- The word that a document is, if it is one. -/
def word? : Document → Option Nat
  | number value => if value < Word.limit then some value else none
  | _ => none

/-- The flag that a document is, if it is one. -/
def flag? : Document → Option Bool
  | flag value => some value
  | _ => none

/-- The entry of a record with the given name. -/
def entry? (name : String) (entries : List (String × Document)) : Option Document :=
  entries.lookup name

/-- The name of a variant: a text, or a record with a single entry that is empty. -/
def variantName? : Document → Option String
  | text name => some name
  | record [(name, null)] => some name
  | _ => none

end Document

/-! ## Reservations -/

namespace Reservation

/-- A reservation as a record. -/
def toDocument (wanted : Reservation) : Document :=
  .record [("size", .number wanted.size), ("alignment", .number wanted.alignment),
    ("zeroed", .flag wanted.zeroed)]

/-- Put a reservation together from documents for its three parts. -/
def ofParts? (size alignment zeroed : Document) : Option Reservation := do
  return { size := ← size.word?, alignment := ← alignment.word?, zeroed := ← zeroed.flag? }

/-- Read a reservation: a record with at least its three entries, or a list of exactly three. -/
def ofDocument? : Document → Option Reservation
  | .record entries => do
    ofParts? (← Document.entry? "size" entries) (← Document.entry? "alignment" entries)
      (← Document.entry? "zeroed" entries)
  | .list [size, alignment, zeroed] => ofParts? size alignment zeroed
  | _ => none

/-- Whether the numbers of a reservation are words. -/
def InWords (wanted : Reservation) : Prop :=
  wanted.size < Word.limit ∧ wanted.alignment < Word.limit

theorem ofParts?_eq_some {wanted : Reservation} (h : wanted.InWords) :
    ofParts? (.number wanted.size) (.number wanted.alignment) (.flag wanted.zeroed) =
      some wanted := by
  simp only [ofParts?, Document.word?, Document.flag?, if_pos h.1, if_pos h.2]
  rfl

/-- **Reading back.** The form that is written is read. -/
theorem ofDocument?_toDocument {wanted : Reservation} (h : wanted.InWords) :
    ofDocument? wanted.toDocument = some wanted := ofParts?_eq_some h

/-- The form by position is read, too. -/
theorem ofDocument?_list {wanted : Reservation} (h : wanted.InWords) :
    ofDocument? (.list [.number wanted.size, .number wanted.alignment, .flag wanted.zeroed]) =
      some wanted := ofParts?_eq_some h

/-- Whatever was read has words for its numbers. -/
theorem inWords_of_ofParts? {size alignment zeroed : Document} {wanted : Reservation}
    (h : ofParts? size alignment zeroed = some wanted) : wanted.InWords := by
  have hword : ∀ {document : Document} {value : Nat},
      document.word? = some value → value < Word.limit := by
    intro document value hvalue
    unfold Document.word? at hvalue
    split at hvalue
    · split at hvalue
      · cases hvalue
        assumption
      · cases hvalue
    · cases hvalue
  simp only [ofParts?, bind, Option.bind_eq_some_iff] at h
  obtain ⟨s, hs, a, ha, z, -, hwanted⟩ := h
  cases hwanted
  exact ⟨hword hs, hword ha⟩

end Reservation

/-! ## Strategies -/

namespace FitStrategy

/-- The strategy of a name. -/
def ofText? : String → Option FitStrategy
  | "FirstFit" => some firstFit
  | "BestFit" => some bestFit
  | _ => none

/-- A strategy as its name. -/
def toDocument (strategy : FitStrategy) : Document := .text strategy.text

/-- Read a strategy. -/
def ofDocument? (document : Document) : Option FitStrategy := document.variantName?.bind ofText?

theorem ofText?_text (strategy : FitStrategy) : ofText? strategy.text = some strategy := by
  cases strategy <;> rfl

theorem text_of_ofText? {name : String} {strategy : FitStrategy}
    (h : ofText? name = some strategy) : strategy.text = name := by
  unfold ofText? at h
  split at h <;> cases h <;> rfl

theorem ofDocument?_toDocument (strategy : FitStrategy) :
    ofDocument? strategy.toDocument = some strategy := ofText?_text strategy

end FitStrategy

namespace SyncStrategy

/-- The strategy of a name. -/
def ofText? : String → Option SyncStrategy
  | "LockFree" => some lockFree
  | "Mutex" => some mutex
  | _ => none

/-- A strategy as its name. -/
def toDocument (strategy : SyncStrategy) : Document := .text strategy.text

/-- Read a strategy. -/
def ofDocument? (document : Document) : Option SyncStrategy := document.variantName?.bind ofText?

theorem ofText?_text (strategy : SyncStrategy) : ofText? strategy.text = some strategy := by
  cases strategy <;> rfl

theorem text_of_ofText? {name : String} {strategy : SyncStrategy}
    (h : ofText? name = some strategy) : strategy.text = name := by
  unfold ofText? at h
  split at h <;> cases h <;> rfl

theorem ofDocument?_toDocument (strategy : SyncStrategy) :
    ofDocument? strategy.toDocument = some strategy := ofText?_text strategy

end SyncStrategy

end Suballoc
