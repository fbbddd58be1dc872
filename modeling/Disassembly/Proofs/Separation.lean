import Mathlib.Data.List.TakeWhile
import Disassembly.Text.Blank
import Disassembly.Text.Split

/-!
# Texts taken apart

Three ways in which a text falls into parts, each told from the parts: blanks around a text
(`Trims`), pieces between separators (`Separates`), and lines (`FallsInto`). Put together again the
parts are the text, and what they may not hold fixes where it was cut, so in each of the three ways
a text falls apart in exactly one manner. It is the one that `trim`, `split` and `lines` find
(`trims_iff`, `separates_iff`, `fallsInto_iff`).
-/

namespace Disassembly.Text

/-! ## 1. Blanks around a text -/

/-- Nothing but blanks. -/
def AllBlank (text : List Char) : Prop := ∀ c ∈ text, isBlank c = true

instance (text : List Char) : Decidable (AllBlank text) :=
  inferInstanceAs (Decidable (∀ c ∈ text, _))

/-- `Trims text inner`: the text is `inner` with blanks around it, and `inner` neither begins nor
    ends with a blank. -/
structure Trims (text inner : List Char) : Prop where
  around : ∃ front behind, text = front ++ inner ++ behind ∧ AllBlank front ∧ AllBlank behind
  first : ∀ c ∈ inner.head?, isBlank c = false
  last : ∀ c ∈ inner.getLast?, isBlank c = false

variable {text inner : List Char}

theorem head?_dropWhile_isBlank (text : List Char) :
    ∀ c ∈ (text.dropWhile isBlank).head?, isBlank c = false := by
  intro c hc
  have hhead := List.head?_dropWhile_not isBlank text
  rwa [hc] at hhead

/-- Blanks are dropped up to the first character that is none. -/
theorem dropWhile_isBlank_append {front rest : List Char} (hfront : AllBlank front)
    (hrest : ∀ c ∈ rest.head?, isBlank c = false) :
    (front ++ rest).dropWhile isBlank = rest := by
  rw [List.dropWhile_append_of_pos hfront]
  cases rest with
  | nil => rfl
  | cons c rest =>
    rw [List.dropWhile_cons_of_neg]
    exact Bool.eq_false_iff.mp (hrest c rfl)

/-- A text without the blanks in front of it, and these. -/
theorem exists_dropWhile_isBlank (text : List Char) :
    ∃ front, text = front ++ text.dropWhile isBlank ∧ AllBlank front :=
  ⟨text.takeWhile isBlank, List.takeWhile_append_dropWhile.symm,
    fun _ hc => List.mem_takeWhile_imp hc⟩

theorem trims_trim (text : List Char) : Trims text (trim text) := by
  obtain ⟨front, htext, hfront⟩ := exists_dropWhile_isBlank text
  obtain ⟨back, hkept, hback⟩ := exists_dropWhile_isBlank (text.dropWhile isBlank).reverse
  have hinner : text.dropWhile isBlank = trim text ++ back.reverse := by
    rw [← List.reverse_reverse (text.dropWhile isBlank), hkept, List.reverse_append]
    rfl
  refine ⟨⟨front, back.reverse, ?_, hfront, fun c hc => hback c (List.mem_reverse.mp hc)⟩, ?_, ?_⟩
  · rw [List.append_assoc, ← hinner]
    exact htext
  · intro c hc
    refine head?_dropWhile_isBlank text c ?_
    rw [hinner, List.head?_append, hc]
    rfl
  · intro c hc
    rw [trim, List.getLast?_reverse] at hc
    exact head?_dropWhile_isBlank _ c hc

theorem Trims.trim_eq (h : Trims text inner) : trim text = inner := by
  obtain ⟨⟨front, behind, rfl, hfront, hbehind⟩, hfirst, hlast⟩ := h
  have hblank : AllBlank behind.reverse := fun c hc => hbehind c (List.mem_reverse.mp hc)
  rw [List.append_assoc, trim]
  cases inner with
  | nil =>
    rw [List.dropWhile_append_of_pos hfront, List.nil_append, List.dropWhile_eq_nil_iff.mpr hbehind]
    rfl
  | cons c inner =>
    have hrest : ∀ first ∈ (c :: inner ++ behind).head?, isBlank first = false := hfirst
    rw [dropWhile_isBlank_append hfront hrest, List.reverse_append,
      dropWhile_isBlank_append hblank, List.reverse_reverse]
    rw [List.head?_reverse]
    exact hlast

/-- **A text is trimmed in one way**, and trimming finds it. -/
theorem trims_iff : Trims text inner ↔ trim text = inner :=
  ⟨Trims.trim_eq, fun h => h ▸ trims_trim text⟩

/-- Nothing is left of a text only if it is nothing but blanks. -/
theorem trim_eq_nil_iff : trim text = [] ↔ AllBlank text := by
  rw [← trims_iff]
  constructor
  · rintro ⟨⟨front, behind, rfl, hfront, hbehind⟩, -, -⟩ c hc
    rw [List.append_nil, List.mem_append] at hc
    exact hc.elim (hfront c) (hbehind c)
  · intro h
    refine ⟨⟨text, [], by simp, h, nofun⟩, nofun, nofun⟩

/-! ## 2. Pieces between separators -/

/-- `Separates separator text pieces`: the text is these pieces with a separator between any two,
    and none of them has a separator inside. There is always a piece. -/
structure Separates (separator : Char) (text : List Char) (pieces : List (List Char)) : Prop where
  ne_nil : pieces ≠ []
  joined : [separator].intercalate pieces = text
  inside : ∀ piece ∈ pieces, separator ∉ piece

variable {separator : Char} {piece rest : List Char} {pieces : List (List Char)}

theorem split_cons_of_ne {c : Char} (h : c ≠ separator) {text first : List Char}
    {others : List (List Char)} (hsplit : split separator text = first :: others) :
    split separator (c :: text) = (c :: first) :: others := by
  unfold split at hsplit ⊢
  rw [List.foldr_cons, if_neg h, hsplit]

/-- A piece ends at the first separator behind it. -/
theorem split_append_cons (h : separator ∉ piece) :
    split separator (piece ++ separator :: rest) = piece :: split separator rest := by
  induction piece with
  | nil => exact split_cons_self separator rest
  | cons c piece ih =>
    have hc : c ≠ separator := fun heq => h (heq ▸ List.mem_cons_self)
    have hpiece : separator ∉ piece := fun hmem => h (List.mem_cons_of_mem c hmem)
    exact split_cons_of_ne hc (ih hpiece)

/-- A text without separators is one piece. -/
theorem split_of_not_mem (h : separator ∉ piece) : split separator piece = [piece] := by
  induction piece with
  | nil => rfl
  | cons c piece ih =>
    have hc : c ≠ separator := fun heq => h (heq ▸ List.mem_cons_self)
    have hpiece : separator ∉ piece := fun hmem => h (List.mem_cons_of_mem c hmem)
    exact split_cons_of_ne hc (ih hpiece)

theorem Separates.split_eq (h : Separates separator text pieces) :
    split separator text = pieces := by
  obtain ⟨hne, rfl, hinside⟩ := h
  induction pieces with
  | nil => exact absurd rfl hne
  | cons piece pieces ih =>
    have hpiece := hinside piece List.mem_cons_self
    cases pieces with
    | nil => rw [List.intercalate_singleton, split_of_not_mem hpiece]
    | cons next pieces =>
      have hpieces := ih (List.cons_ne_nil _ _)
        fun other hother => hinside other (List.mem_cons_of_mem piece hother)
      rw [List.intercalate_cons_cons, List.append_assoc, List.singleton_append,
        split_append_cons hpiece, hpieces]

theorem separates_split (separator : Char) (text : List Char) :
    Separates separator text (split separator text) := by
  induction htext : text.length using Nat.strongRecOn generalizing text with
  | _ n ih =>
    subst htext
    by_cases hmem : separator ∈ text
    · obtain ⟨piece, rest, rfl, hpiece⟩ := List.eq_append_cons_of_mem hmem
      obtain ⟨hne, hjoined, hinside⟩ := ih rest.length (by simp; omega) rest rfl
      rw [split_append_cons hpiece]
      refine ⟨List.cons_ne_nil _ _, ?_, ?_⟩
      · cases hsplit : split separator rest with
        | nil => exact absurd hsplit hne
        | cons next pieces =>
          rw [List.intercalate_cons_cons, ← hsplit, hjoined, List.append_assoc]
          rfl
      · intro other hother
        rcases List.mem_cons.mp hother with rfl | hother
        · exact hpiece
        · exact hinside other hother
    · rw [split_of_not_mem hmem]
      refine ⟨List.cons_ne_nil _ _, List.intercalate_singleton, fun other hother => ?_⟩
      rw [List.mem_singleton.mp hother]
      exact hmem

/-- **A text falls into pieces in one way**, and splitting finds it. -/
theorem separates_iff : Separates separator text pieces ↔ split separator text = pieces :=
  ⟨Separates.split_eq, fun h => h ▸ separates_split separator text⟩

/-! ## 3. Lines -/

/-- `FallsInto text lines`: the text is made of these lines, each with its end behind it. A line
    ends with `\n`, or with `\r\n` and then the return is not part of it. What stands behind the
    last end is a line if it is anything at all, and a return at its end is part of it. -/
inductive FallsInto : List Char → List (List Char) → Prop
  | nil : FallsInto [] []
  | unended {line : List Char} (hne : line ≠ []) (h : '\n' ∉ line) : FallsInto line [line]
  | feed {line rest : List Char} {lines : List (List Char)} (h : '\n' ∉ line)
      (hreturn : line.getLast? ≠ some '\r') (hrest : FallsInto rest lines) :
      FallsInto (line ++ '\n' :: rest) (line :: lines)
  | returnFeed {line rest : List Char} {lines : List (List Char)} (h : '\n' ∉ line)
      (hrest : FallsInto rest lines) :
      FallsInto (line ++ '\r' :: '\n' :: rest) (line :: lines)

variable {line : List Char} {others : List (List Char)}

/-- A line ends at the first line feed behind it. -/
theorem lines_append_feed (h : '\n' ∉ line) (rest : List Char) :
    lines (line ++ '\n' :: rest) = dropReturn line :: lines rest := by
  have hne := split_ne_nil '\n' rest
  unfold lines
  rw [split_append_cons h]
  dsimp only
  rw [List.dropLast_cons_of_ne_nil hne, List.getLast?_cons_of_ne_nil hne]
  rfl

theorem lines_of_not_mem (h : '\n' ∉ line) : lines line = [line].filter (· ≠ []) := by
  unfold lines
  rw [split_of_not_mem h]
  rfl

theorem dropReturn_of_ne (h : line.getLast? ≠ some '\r') : dropReturn line = line := if_neg h

theorem dropReturn_append (line : List Char) : dropReturn (line ++ ['\r']) = line := by
  rw [dropReturn, if_pos List.getLast?_concat, List.dropLast_concat]

theorem FallsInto.lines_eq (h : FallsInto text others) : lines text = others := by
  induction h with
  | nil => rfl
  | unended hne h =>
    rw [lines_of_not_mem h]
    simp [hne]
  | feed h hreturn _ ih => rw [lines_append_feed h, dropReturn_of_ne hreturn, ih]
  | @returnFeed line rest lines h _ ih =>
    have hfeed : '\n' ∉ line ++ ['\r'] := by simpa using h
    rw [← ih, List.append_cons, lines_append_feed hfeed, dropReturn_append]

theorem fallsInto_lines (text : List Char) : FallsInto text (lines text) := by
  induction htext : text.length using Nat.strongRecOn generalizing text with
  | _ n ih =>
    subst htext
    by_cases hmem : '\n' ∈ text
    · obtain ⟨line, rest, rfl, hline⟩ := List.eq_append_cons_of_mem hmem
      have hrest := ih rest.length (by simp; omega) rest rfl
      rw [lines_append_feed hline]
      by_cases hreturn : line.getLast? = some '\r'
      · obtain ⟨before, rfl⟩ := List.getLast?_eq_some_iff.mp hreturn
        rw [dropReturn_append, ← List.append_cons]
        exact .returnFeed (fun h => hline (List.mem_append_left _ h)) hrest
      · rw [dropReturn_of_ne hreturn]
        exact .feed hline hreturn hrest
    · rw [lines_of_not_mem hmem]
      by_cases hne : text = []
      · rw [hne]
        exact .nil
      · simpa [hne] using FallsInto.unended hne hmem

/-- **A text falls into lines in one way**, and `lines` finds it. -/
theorem fallsInto_iff : FallsInto text others ↔ lines text = others :=
  ⟨FallsInto.lines_eq, fun h => h ▸ fallsInto_lines text⟩

end Disassembly.Text
