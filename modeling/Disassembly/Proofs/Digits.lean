import Disassembly.Text.Hex
import Disassembly.Text.Numeral

/-!
# Hexadecimal text read back

Bytes and words are written with a fixed number of digits, so their text says which byte or word it
was: `value?` reads any row of digits, and gives back what `Hex.byte`, `Hex.lowerByte` and
`Hex.word` wrote. None of these writes anything but digits (`mem_byte`, `mem_word`), so a separator
is never taken for a part of a number.
-/

namespace Disassembly.Hex

/-! ## 1. Digits -/

/-- A character that is a hexadecimal digit, of either case. -/
def IsDigit (c : Char) : Prop := (Text.digitValue? 16 c).isSome = true

instance (c : Char) : Decidable (IsDigit c) := inferInstanceAs (Decidable (_ = true))

theorem digitValue?_digit : ∀ n < 16, Text.digitValue? 16 (digit n) = some n := by decide

theorem digitValue?_lowerDigit : ∀ n < 16, Text.digitValue? 16 (lowerDigit n) = some n := by decide

theorem isDigit_digit {n : Nat} (h : n < 16) : IsDigit (digit n) := by
  rw [IsDigit, digitValue?_digit n h]
  rfl

/-! ## 2. Rows of digits -/

/-- The number that a row of digits spells; nothing, if there is something else among them. -/
def value? (digits : List Char) : Option Nat :=
  digits.foldlM (fun value c => (Text.digitValue? 16 c).map (value * 16 + ·)) 0

theorem value?_pair {high low : Char} {m n : Nat} (hm : Text.digitValue? 16 high = some m)
    (hn : Text.digitValue? 16 low = some n) : value? [high, low] = some (m * 16 + n) := by
  simp [value?, hm, hn]

theorem value?_byte (b : UInt8) : value? (byte b).toList = some b.toNat := by
  have hb := b.toNat_lt
  have hhigh := digitValue?_digit (b.toNat / 16) (by omega)
  have hlow := digitValue?_digit (b.toNat % 16) (by omega)
  have hsum : b.toNat / 16 * 16 + b.toNat % 16 = b.toNat := by omega
  rw [byte, String.toList_ofList, value?_pair hhigh hlow, hsum]

theorem value?_lowerByte (b : UInt8) : value? (lowerByte b).toList = some b.toNat := by
  have hb := b.toNat_lt
  have hhigh := digitValue?_lowerDigit (b.toNat / 16) (by omega)
  have hlow := digitValue?_lowerDigit (b.toNat % 16) (by omega)
  have hsum : b.toNat / 16 * 16 + b.toNat % 16 = b.toNat := by omega
  rw [lowerByte, String.toList_ofList, value?_pair hhigh hlow, hsum]

theorem value?_word (w : UInt16) : value? (word w).toList = some w.toNat := by
  have hw := w.toNat_lt
  have h3 := digitValue?_digit (w.toNat / 4096) (by omega)
  have h2 := digitValue?_digit (w.toNat / 256 % 16) (by omega)
  have h1 := digitValue?_digit (w.toNat / 16 % 16) (by omega)
  have h0 := digitValue?_digit (w.toNat % 16) (by omega)
  have hsum : ((w.toNat / 4096 * 16 + w.toNat / 256 % 16) * 16 + w.toNat / 16 % 16) * 16 +
      w.toNat % 16 = w.toNat := by omega
  simp [word, value?, h3, h2, h1, h0, hsum]

/-! ## 3. What is written -/

theorem mem_byte {b : UInt8} {c : Char} (h : c ∈ (byte b).toList) : IsDigit c := by
  have hb := b.toNat_lt
  simp only [byte, String.toList_ofList, List.mem_cons, List.not_mem_nil, or_false] at h
  rcases h with rfl | rfl
  · exact isDigit_digit (by omega)
  · exact isDigit_digit (by omega)

theorem mem_word {w : UInt16} {c : Char} (h : c ∈ (word w).toList) : IsDigit c := by
  have hw := w.toNat_lt
  simp only [word, String.toList_ofList, List.mem_cons, List.not_mem_nil, or_false] at h
  rcases h with rfl | rfl | rfl | rfl
  · exact isDigit_digit (by omega)
  · exact isDigit_digit (by omega)
  · exact isDigit_digit (by omega)
  · exact isDigit_digit (by omega)

@[simp] theorem length_byte (b : UInt8) : (byte b).toList.length = 2 := by
  simp [byte]

@[simp] theorem length_word (w : UInt16) : (word w).toList.length = 4 := by
  simp [word]

end Disassembly.Hex
