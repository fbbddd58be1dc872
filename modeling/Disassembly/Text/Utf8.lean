/-!
# Bytes of a text cut short

A text that was written into too little room may end inside a character. What there is of that
character is shown as one replacement character.
-/

namespace Disassembly.Text

/-- What stands for a character that is not all there. -/
def replacement : String := "\uFFFD"

/-- The text of bytes of which at most the last character is cut short. A character has at most
    four bytes, so at most three of them can stand alone at the end. -/
def ofCutBytes (bytes : ByteArray) : String :=
  match String.fromUTF8? bytes with
  | some text => text
  | none =>
    match [1, 2, 3].findSome? fun cut => String.fromUTF8? (bytes.extract 0 (bytes.size - cut)) with
    | some text => text ++ replacement
    | none => replacement

end Disassembly.Text
