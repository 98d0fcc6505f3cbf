/-!
# Records as text

How a value with named fields is shown to a person: its name and then its fields in braces, all on
one line or one to a line.
-/

namespace Suballoc

/-- A named value with named fields whose values are already text. -/
structure Record where
  name : String
  fields : List (String × String)

namespace Record

/-- A field with its value. -/
def entry (field : String × String) : String := field.1 ++ ": " ++ field.2

/-- The record on one line. -/
def inline (record : Record) : String :=
  record.name ++ " \x7b " ++ ", ".intercalate (record.fields.map entry) ++ " \x7d"

/-- The record with a line for every field. -/
def indented (record : Record) : String :=
  let lines := record.fields.map fun field ↦ "    " ++ entry field ++ ",\n"
  record.name ++ " \x7b\n" ++ String.join lines ++ "\x7d"

end Record

end Suballoc
