/-!
# Lines and fields

How a text falls into lines and a line into comma-separated fields. Neither loses a character
that is not a separator, and neither answers an empty list of pieces (`split_ne_nil`).
-/

namespace Disassembly.Text

/-! ## 1. Splitting -/

/-- The pieces between the separators: `n` separators make `n + 1` pieces, empty ones included. -/
def split (separator : Char) (text : List Char) : List (List Char) :=
  text.foldr
    (fun c pieces =>
      if c = separator then [] :: pieces
      else match pieces with
        | [] => [[c]]
        | piece :: others => (c :: piece) :: others)
    [[]]

@[simp] theorem split_nil (separator : Char) : split separator [] = [[]] := rfl

/-- A separator closes an (empty) piece in front of what follows it. -/
theorem split_cons_self (separator : Char) (text : List Char) :
    split separator (separator :: text) = [] :: split separator text := by
  simp [split]

/-- Splitting never answers nothing: there is always a first piece. -/
theorem split_ne_nil (separator : Char) (text : List Char) : split separator text ≠ [] := by
  cases text with
  | nil => simp
  | cons c cs =>
    unfold split
    rw [List.foldr_cons]
    split
    · simp
    · split <;> simp

/-- The comma-separated fields of a line. -/
def fields (line : List Char) : List (List Char) := split ',' line

/-! ## 2. Lines -/

/-- A line without the carriage return that belongs to its line end. -/
def dropReturn (line : List Char) : List Char :=
  if line.getLast? = some '\r' then line.dropLast else line

/-- The lines of a text. A line ends at `\n` or at `\r\n`; a carriage return elsewhere is text,
    and what follows the last line end is a line only if there is something. -/
def lines (text : List Char) : List (List Char) :=
  let pieces := split '\n' text
  pieces.dropLast.map dropReturn ++ pieces.getLast?.toList.filter (· ≠ [])

@[simp] theorem lines_nil : lines [] = [] := rfl

end Disassembly.Text
