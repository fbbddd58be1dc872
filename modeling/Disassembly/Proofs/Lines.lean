import Disassembly.Proofs.Separation
import Disassembly.Proofs.StringData
import Disassembly.Proofs.Written

/-!
# Lines read back

A listing is written line by line, each line with its end. Where no line has a line end inside, the
text falls into just these lines again (`split_ofLines`). Most of a line is put together from
numbers and fixed texts; the closing section says that none of the ways to put texts together brings
a line end with it.
-/

namespace Disassembly.Text

/-! ## 1. Lines -/

/-- The text has no line end inside. -/
def OneLine (text : String) : Prop := '\n' ∉ text.toList

instance (text : String) : Decidable (OneLine text) := inferInstanceAs (Decidable (¬ _))

/-- **A text of lines falls into these lines**, and an empty piece behind the last line end. -/
theorem split_ofLines {lines : List String} (h : ∀ line ∈ lines, OneLine line) :
    split '\n' (ofLines lines).toList = lines.map String.toList ++ [[]] := by
  induction lines with
  | nil => rfl
  | cons line lines ih =>
    have hline := h line List.mem_cons_self
    have hlines := ih fun other hother => h other (List.mem_cons_of_mem line hother)
    rw [ofLines, String.toList_append, String.toList_append, List.append_assoc]
    exact (split_append_cons hline).trans (congrArg (line.toList :: ·) hlines)

/-! ## 2. Texts put together -/

theorem OneLine.append {text other : String} (h : OneLine text) (hother : OneLine other) :
    OneLine (text ++ other) := by
  unfold OneLine
  rw [String.toList_append, List.mem_append]
  exact fun hmem => hmem.elim h hother

theorem OneLine.join {texts : List String} (h : ∀ text ∈ texts, OneLine text) :
    OneLine (String.join texts) := by
  unfold OneLine
  rw [String.toList_join, List.mem_flatMap]
  rintro ⟨text, htext, hmem⟩
  exact h text htext hmem

theorem OneLine.intercalate {separator : String} (hseparator : OneLine separator)
    {texts : List String} (h : ∀ text ∈ texts, OneLine text) :
    OneLine (separator.intercalate texts) := by
  induction texts with
  | nil =>
    rw [String.intercalate_nil]
    decide
  | cons text texts ih =>
    have htext := h text List.mem_cons_self
    have htexts := ih fun other hother => h other (List.mem_cons_of_mem text hother)
    cases texts with
    | nil =>
      rw [String.intercalate_singleton]
      exact htext
    | cons next texts =>
      rw [String.intercalate_cons_cons]
      exact (htext.append hseparator).append htexts

theorem OneLine.padRight {text : String} (h : OneLine text) (width : Nat) :
    OneLine (padRight width text) := by
  refine h.append ?_
  unfold OneLine
  rw [String.toList_ofList]
  intro hmem
  cases (List.mem_replicate.mp hmem).2

theorem oneLine_of_isDigit {text : String} (h : ∀ c ∈ text.toList, Hex.IsDigit c) :
    OneLine text := by
  intro hmem
  exact absurd (h _ hmem) (by decide)

theorem oneLine_byte (b : UInt8) : OneLine (Hex.byte b) := oneLine_of_isDigit fun _ => Hex.mem_byte

theorem oneLine_word (w : UInt16) : OneLine (Hex.word w) := oneLine_of_isDigit fun _ => Hex.mem_word

theorem oneLine_escape (b : UInt8) : OneLine (escape b) := by
  intro hmem
  exact absurd (isPlain_escape b _ hmem) (by decide)

theorem oneLine_quote (bytes : List UInt8) : OneLine (quote bytes) := by
  have hescapes : OneLine (String.join (bytes.map escape)) := by
    refine .join fun text htext => ?_
    obtain ⟨b, -, rfl⟩ := List.mem_map.mp htext
    exact oneLine_escape b
  have hmark : OneLine "'" := by decide
  exact (hmark.append hescapes).append hmark

end Disassembly.Text
