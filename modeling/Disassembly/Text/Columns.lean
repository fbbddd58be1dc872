/-!
# Columns

How a cell of a listing is filled up to its column.
-/

namespace Disassembly.Text

/-- A text filled with spaces up to `width` characters; a longer one stays as it is. -/
def padRight (width : Nat) (text : String) : String :=
  text ++ String.ofList (List.replicate (width - text.length) ' ')

end Disassembly.Text
