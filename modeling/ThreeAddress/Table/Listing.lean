import ThreeAddress.Table
import ThreeAddress.Text.JsonString

/-!
# Listing a table

The table of names as a JSON object: one member for each name in the order of the table, two
blanks of indentation for each level, no line feed at the end.
-/

namespace ThreeAddress

namespace Entry

/-- A member of a JSON object whose value is given as text, indented by four blanks. -/
def memberLine (key value : String) : String := "    \"" ++ key ++ "\": " ++ value

/-- What is known of a name, as a member of the listing. -/
def listing (entry : Entry) : String :=
  "  " ++ Text.jsonString entry.name ++ ": \x7b\n" ++
    ",\n".intercalate
      [memberLine "type" (Text.jsonString entry.type.name),
        memberLine "mutable" (toString entry.assignable),
        memberLine "temporary" (toString entry.temporary)] ++
    "\n  \x7d"

end Entry

/-- The table as a JSON object. -/
def Table.listing (table : Table) : String :=
  if table.entries.isEmpty then "\x7b\x7d"
  else "\x7b\n" ++ ",\n".intercalate (table.entries.map (·.listing)) ++ "\n\x7d"

end ThreeAddress
