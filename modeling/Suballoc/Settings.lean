import Suballoc.Settings.Binary
import Suballoc.Settings.Document
import Suballoc.Text.Record
import Suballoc.Usage

/-!
# Settings

The three settings that can be stored, as one type, each with a text for a person to read beside its
two stored forms. A reader has to know which kind of setting it expects: the bytes of the two
strategies are the same.
-/

namespace Suballoc

/-- The version of the settings and of everything that reads them. -/
def version : String := "0.1.0"

/-- A reservation for a person to read. -/
def Reservation.describe (wanted : Reservation) : String :=
  let record : Record :=
    { name := "RegionConfig"
      fields := [("size", toString wanted.size), ("alignment", toString wanted.alignment),
        ("zeroed", toString wanted.zeroed)] }
  record.inline

/-- What can be set. -/
inductive SettingKind where
  | reservation
  | fitStrategy
  | syncStrategy
deriving DecidableEq, Repr

/-- A setting. -/
inductive Setting where
  | reservation (wanted : Reservation)
  | fitStrategy (strategy : FitStrategy)
  | syncStrategy (strategy : SyncStrategy)
deriving DecidableEq, Repr

namespace Setting

/-- What a setting is about. -/
def kind : Setting → SettingKind
  | reservation _ => .reservation
  | fitStrategy _ => .fitStrategy
  | syncStrategy _ => .syncStrategy

/-- A setting for a person to read. -/
def describe : Setting → String
  | reservation wanted => wanted.describe
  | fitStrategy strategy => strategy.text
  | syncStrategy strategy => strategy.text

/-- A setting as a document. -/
def toDocument : Setting → Document
  | reservation wanted => wanted.toDocument
  | fitStrategy strategy => strategy.toDocument
  | syncStrategy strategy => strategy.toDocument

/-- A setting as bytes. -/
def toBytes : Setting → List UInt8
  | reservation wanted => wanted.toBytes
  | fitStrategy strategy => strategy.toBytes
  | syncStrategy strategy => strategy.toBytes

/-- Read a setting from a document. -/
def ofDocument? (document : Document) : SettingKind → Option Setting
  | .reservation => (Reservation.ofDocument? document).map reservation
  | .fitStrategy => (FitStrategy.ofDocument? document).map fitStrategy
  | .syncStrategy => (SyncStrategy.ofDocument? document).map syncStrategy

/-- Read a setting from the front of some bytes. -/
def ofBytes? (bytes : List UInt8) : SettingKind → Option Setting
  | .reservation => (Reservation.ofBytes? bytes).map reservation
  | .fitStrategy => (FitStrategy.ofBytes? bytes).map fitStrategy
  | .syncStrategy => (SyncStrategy.ofBytes? bytes).map syncStrategy

theorem kind_of_ofDocument? {document : Document} {expected : SettingKind} {setting : Setting}
    (h : ofDocument? document expected = some setting) : setting.kind = expected := by
  cases expected <;>
    · obtain ⟨_, -, rfl⟩ := Option.map_eq_some_iff.mp h
      rfl

end Setting

end Suballoc
