import Mathlib.Data.List.Forall2
import Mathlib.Data.List.Induction
import Mathlib.Data.Nat.Digits.Defs
import Disassembly.Proofs.Digits

/-!
# What numerals say

A numeral is a row of digits, with a sign in front or none. What it says is positional notation and
knows no order of reading: every character stands for a value below the base (`Denotes`), and the
row for the number that has these values as its digits (`Spells`). Reading goes from left to right
and stops at the first fault. This file fixes

* what a row is read as (`RowReads`): its number, if that stays below the limit; otherwise a fault,
  and which one the front of the row up to it says. A row has one reading (`RowReads.unique`), and
  it is the one that `readDigits` finds (`readDigits_eq_iff`);
* the same for a numeral with its sign (`readNumeral_eq_iff`);
* that a row of hexadecimal digits is such a numeral (`Hex.readNumeral_of_value?`);
* the digits in which a number is written in hexadecimal (`upperNumeral_iff`).
-/

namespace Disassembly.Text

/-! ## 1. Digits -/

/-- The digits in the order of their values. -/
def lowerDigits : List Char := "0123456789abcdefghijklmnopqrstuvwxyz".toList

/-- The same in upper case. -/
def upperDigits : List Char := "0123456789ABCDEFGHIJKLMNOPQRSTUVWXYZ".toList

/-- `Denotes base c value`: the character is the digit, in either case, of a value below the
    base. -/
def Denotes (base : Nat) (c : Char) (value : Nat) : Prop :=
  value < base ∧ (lowerDigits[value]? = some c ∨ upperDigits[value]? = some c)

variable {base value : Nat} {c : Char}

/-- A smaller base has the same digits, up to its own value. -/
theorem digitValue?_eq_some_iff_lt :
    digitValue? base c = some value ↔ value < base ∧ digitValue? 36 c = some value := by
  have hdigit : '0' ≤ c ∧ c ≤ '9' → 48 ≤ c.toNat ∧ c.toNat ≤ 57 := id
  have hlower : 'a' ≤ c ∧ c ≤ 'z' → 97 ≤ c.toNat ∧ c.toNat ≤ 122 := id
  have hupper : 'A' ≤ c ∧ c ≤ 'Z' → 65 ≤ c.toNat ∧ c.toNat ≤ 90 := id
  unfold digitValue?
  grind

theorem toNat_lt_of_digitValue? (h : digitValue? 36 c = some value) : c.toNat < 128 := by
  have hdigit : c ≤ '9' → c.toNat ≤ 57 := id
  have hlower : c ≤ 'z' → c.toNat ≤ 122 := id
  have hupper : c ≤ 'Z' → c.toNat ≤ 90 := id
  unfold digitValue? at h
  grind

theorem digits_of_digitValue? : ∀ n < 128, ∀ value ∈ digitValue? 36 (Char.ofNat n),
    lowerDigits[value]? = some (Char.ofNat n) ∨ upperDigits[value]? = some (Char.ofNat n) := by
  decide +kernel

theorem digitValue?_lowerDigits : ∀ value < 36,
    lowerDigits[value]?.bind (digitValue? 36) = some value := by decide

theorem digitValue?_upperDigits : ∀ value < 36,
    upperDigits[value]?.bind (digitValue? 36) = some value := by decide

/-- **A character is read as the value of which it is the digit.** -/
theorem digitValue?_eq_some_iff : digitValue? base c = some value ↔ Denotes base c value := by
  rw [digitValue?_eq_some_iff_lt, Denotes]
  refine and_congr_right fun _ => ⟨fun h => ?_, ?_⟩
  · have hdigits := digits_of_digitValue? c.toNat (toNat_lt_of_digitValue? h) value
    rw [Char.ofNat_toNat] at hdigits
    exact hdigits h
  · rintro (h | h)
    · have hread := digitValue?_lowerDigits value (List.getElem?_eq_some_iff.mp h).1
      rwa [h] at hread
    · have hread := digitValue?_upperDigits value (List.getElem?_eq_some_iff.mp h).1
      rwa [h] at hread

theorem digitValue?_eq_none_iff : digitValue? base c = none ↔ ∀ value, ¬ Denotes base c value := by
  rw [Option.eq_none_iff_forall_ne_some]
  exact forall_congr' fun value => not_congr digitValue?_eq_some_iff

theorem Denotes.eq {other : Nat} (h : Denotes base c value) (hother : Denotes base c other) :
    value = other :=
  Option.some.inj <|
    (digitValue?_eq_some_iff.mpr h).symm.trans (digitValue?_eq_some_iff.mpr hother)

/-! ## 2. Rows -/

/-- `Spells base row n`: the row consists of digits, and their values, the highest first, are those
    of the digits of `n`. -/
def Spells (base : Nat) (row : List Char) (n : Nat) : Prop :=
  ∃ values, List.Forall₂ (Denotes base) row values ∧ Nat.ofDigits base values.reverse = n

variable {row front behind : List Char} {m n : Nat}

theorem spells_nil (base : Nat) : Spells base [] 0 := ⟨[], .nil, rfl⟩

/-- A digit behind a row moves the others up by one place. -/
theorem Spells.append_digit (h : Spells base row n) (hc : Denotes base c value) :
    Spells base (row ++ [c]) (n * base + value) := by
  obtain ⟨values, hvalues, rfl⟩ := h
  refine ⟨values ++ [value], List.rel_append hvalues (.cons hc .nil), ?_⟩
  rw [List.reverse_append, List.reverse_singleton, List.singleton_append, Nat.ofDigits_cons,
    Nat.mul_comm, Nat.add_comm]

theorem Spells.eq (h : Spells base row m) (h' : Spells base row n) : m = n := by
  obtain ⟨values, hvalues, rfl⟩ := h
  obtain ⟨others, hothers, rfl⟩ := h'
  have hunique : Relator.RightUnique (Denotes base) := fun _ _ _ => Denotes.eq
  rw [hunique.forall₂ hvalues hothers]

theorem Spells.exists_denotes (h : Spells base row n) (hc : c ∈ row) :
    ∃ value, Denotes base c value := by
  obtain ⟨values, hvalues, -⟩ := h
  induction hvalues with
  | nil => cases hc
  | cons hdigit _ ih =>
    rcases List.mem_cons.mp hc with rfl | hc
    · exact ⟨_, hdigit⟩
    · exact ih hc

/-- The front of a row spells no more than the row. -/
theorem Spells.front_le (h : Spells base (front ++ behind) n) :
    ∃ m, Spells base front m ∧ m ≤ n := by
  obtain ⟨values, hvalues, rfl⟩ := h
  obtain ⟨high, low, rfl, hhigh, hlow⟩ : ∃ high low, values = high ++ low ∧
      List.Forall₂ (Denotes base) front high ∧ List.Forall₂ (Denotes base) behind low := by
    refine ⟨values.take front.length, values.drop front.length,
      (List.take_append_drop _ _).symm, ?_, ?_⟩
    · simpa using List.forall₂_take front.length hvalues
    · simpa using List.forall₂_drop front.length hvalues
  have hplaces : 0 < base ^ low.reverse.length := by
    cases hlow with
    | nil => simp
    | cons hdigit _ => exact Nat.pow_pos (Nat.zero_lt_of_lt hdigit.1)
  refine ⟨_, ⟨high, hhigh, rfl⟩, ?_⟩
  rw [List.reverse_append, Nat.ofDigits_append]
  exact Nat.le_add_left_of_le (Nat.le_mul_of_pos_left _ hplaces)

/-! ## 3. Reading a row -/

/-- What a row of digits is read as below a limit. The front of the row up to its first fault says
    which fault it is: a character that is no digit behind digits that keep the limit, or digits
    that do not keep it. -/
inductive RowReads (base limit : Nat) (row : List Char) : Except NumeralError Nat → Prop
  | value {n : Nat} (h : Spells base row n) (hlt : n < limit) : RowReads base limit row (.ok n)
  | invalidDigit {front behind : List Char} {c : Char} {m : Nat} (h : row = front ++ c :: behind)
      (hfront : Spells base front m) (hlt : m < limit) (hc : ∀ value, ¬ Denotes base c value) :
      RowReads base limit row (.error .invalidDigit)
  | tooLarge {front behind : List Char} {m : Nat} (h : row = front ++ behind)
      (hfront : Spells base front m) (hle : limit ≤ m) :
      RowReads base limit row (.error .tooLarge)

namespace RowReads

variable {limit : Nat} {answer other : Except NumeralError Nat}

/-- Digits that keep the limit are no front of a row that does not. -/
theorem not_value_and_tooLarge (h : Spells base (front ++ behind) n) (hlt : n < limit)
    (hfront : Spells base front m) (hle : limit ≤ m) : False := by
  obtain ⟨k, hk, hkn⟩ := h.front_le
  have heq := hk.eq hfront
  omega

/-- Whichever of the two comes first in a row rules out the other. -/
theorem not_invalidDigit_and_tooLarge {front' behind' : List Char}
    (h : front ++ c :: behind = front' ++ behind') (hfront : Spells base front m) (hlt : m < limit)
    (hc : ∀ value, ¬ Denotes base c value) (hfront' : Spells base front' n) (hle : limit ≤ n) :
    False := by
  rcases List.append_eq_append_iff.mp h with ⟨more, rfl, hmore⟩ | ⟨more, rfl, -⟩
  · cases more with
    | nil =>
      rw [List.append_nil] at hfront'
      have heq := hfront.eq hfront'
      omega
    | cons first more =>
      obtain ⟨rfl, -⟩ := List.cons.inj hmore
      obtain ⟨value, hvalue⟩ := hfront'.exists_denotes List.mem_append_cons_self
      exact hc value hvalue
  · exact not_value_and_tooLarge hfront hlt hfront' hle

/-- **A row has one reading.** -/
theorem unique (h : RowReads base limit row answer) (h' : RowReads base limit row other) :
    answer = other := by
  cases h with
  | value h hlt =>
    cases h' with
    | value h' _ => rw [h.eq h']
    | invalidDigit hrow _ _ hc =>
      obtain ⟨value, hvalue⟩ := h.exists_denotes (hrow ▸ List.mem_append_cons_self)
      exact absurd hvalue (hc value)
    | tooLarge hrow hfront hle => exact (not_value_and_tooLarge (hrow ▸ h) hlt hfront hle).elim
  | invalidDigit hrow hfront hlt hc =>
    cases h' with
    | value h' _ =>
      obtain ⟨value, hvalue⟩ := h'.exists_denotes (hrow ▸ List.mem_append_cons_self)
      exact absurd hvalue (hc value)
    | invalidDigit => rfl
    | tooLarge hrow' hfront' hle =>
      exact (not_invalidDigit_and_tooLarge (hrow.symm.trans hrow') hfront hlt hc hfront' hle).elim
  | tooLarge hrow hfront hle =>
    cases h' with
    | value h' hlt => exact (not_value_and_tooLarge (hrow ▸ h') hlt hfront hle).elim
    | invalidDigit hrow' hfront' hlt hc =>
      exact (not_invalidDigit_and_tooLarge (hrow'.symm.trans hrow) hfront' hlt hc hfront hle).elim
    | tooLarge => rfl

/-- A row that is not read as zero has something in it. -/
theorem ne_nil (h : RowReads base limit row answer) (hlimit : 0 < limit)
    (hanswer : answer ≠ .ok 0) : row ≠ [] := by
  rintro rfl
  exact hanswer (h.unique (.value (spells_nil base) hlimit))

end RowReads

variable {limit : Nat} {answer : Except NumeralError Nat}

/-- Reading goes on behind a front that has been read. -/
theorem rowReads_readDigits (hfront : Spells base front m) (hlt : m < limit) :
    RowReads base limit (front ++ behind) (readDigits base limit m behind) := by
  induction behind generalizing front m with
  | nil =>
    rw [List.append_nil]
    exact .value hfront hlt
  | cons c behind ih =>
    rw [readDigits]
    cases hdigit : digitValue? base c with
    | none => exact .invalidDigit rfl hfront hlt (digitValue?_eq_none_iff.mp hdigit)
    | some value =>
      have hlonger := hfront.append_digit (digitValue?_eq_some_iff.mp hdigit)
      rw [List.append_cons]
      dsimp only
      split
      · rename_i hkept
        exact ih hlonger hkept
      · rename_i hover
        exact .tooLarge rfl hlonger (Nat.le_of_not_lt hover)

/-- **Reading a row finds its reading.** -/
theorem readDigits_eq_iff (hlimit : 0 < limit) :
    readDigits base limit 0 row = answer ↔ RowReads base limit row answer := by
  have hreads : RowReads base limit ([] ++ row) (readDigits base limit 0 row) :=
    rowReads_readDigits (spells_nil base) hlimit
  exact ⟨fun h => h ▸ hreads, hreads.unique⟩

/-! ## 4. Numerals -/

/-- A numeral without the plus sign in front, if it has one. -/
def unsigned : List Char → List Char
  | '+' :: row => row
  | row => row

/-- What a numeral is read as below a limit. -/
inductive NumeralReads (base limit : Nat) (text : List Char) : Except NumeralError Nat → Prop
  | empty (h : text = []) : NumeralReads base limit text (.error .empty)
  | sign (h : text = ['+']) : NumeralReads base limit text (.error .invalidDigit)
  | row {answer : Except NumeralError Nat} (hne : unsigned text ≠ [])
      (h : RowReads base limit (unsigned text) answer) : NumeralReads base limit text answer

/-- Nothing is left of a numeral without its sign only if there was nothing else. -/
theorem unsigned_eq_nil_iff {text : List Char} : unsigned text = [] ↔ text = [] ∨ text = ['+'] := by
  unfold unsigned
  split
  · simp
  · rename_i hsigned
    exact ⟨Or.inl, fun h => h.resolve_right (hsigned [])⟩

theorem readNumeral_of_unsigned_ne_nil {text : List Char} (hne : unsigned text ≠ []) :
    readNumeral base limit text = readDigits base limit 0 (unsigned text) := by
  unfold readNumeral
  split
  · exact absurd rfl hne
  · exact absurd rfl hne
  · rfl
  · rename_i hsigned
    rw [unsigned]
    exact hsigned

/-- **Reading a numeral finds its reading.** -/
theorem readNumeral_eq_iff (hlimit : 0 < limit) {text : List Char} :
    readNumeral base limit text = answer ↔ NumeralReads base limit text answer := by
  constructor
  · rintro rfl
    by_cases hnil : unsigned text = []
    · rcases unsigned_eq_nil_iff.mp hnil with rfl | rfl
      · exact .empty rfl
      · exact .sign rfl
    · rw [readNumeral_of_unsigned_ne_nil hnil]
      exact .row hnil ((readDigits_eq_iff hlimit).mp rfl)
  · intro h
    cases h with
    | empty h => rw [h, readNumeral]
    | sign h => rw [h, readNumeral]
    | row hne h =>
      rw [readNumeral_of_unsigned_ne_nil hne]
      exact (readDigits_eq_iff hlimit).mpr h

-- The first fault counts: eight digits keep thirty-two bits, whatever they are, and nine need not.
example : readNumeral 16 (2 ^ 32) "FFFFFFFFg".toList = .error .invalidDigit := by decide

example : readNumeral 16 (2 ^ 32) "FFFFFFFF0g".toList = .error .tooLarge := by decide

/-! ## 5. Numbers in hexadecimal -/

/-- The digits of a number in base sixteen, the highest first, in upper case. -/
def UpperNumeral (digits : List Char) (n : Nat) : Prop :=
  List.Forall₂ (fun c value => upperDigits[value]? = some c) digits (Nat.digits 16 n).reverse

theorem toUpper_digitChar : ∀ value < 16,
    upperDigits[value]? = some (Nat.digitChar value).toUpper := by decide

theorem upperNumeral_digits (n : Nat) (hn : 0 < n) : UpperNumeral (Hex.digits n) n := by
  induction n using Nat.strongRecOn with
  | _ n ih =>
    have hlow := toUpper_digitChar (n % 16) (Nat.mod_lt _ (by decide))
    unfold UpperNumeral Hex.digits
    rw [Nat.digits_def' (by decide) hn, List.reverse_cons]
    rcases Nat.lt_or_ge n 16 with hlt | hge
    · rw [Nat.toDigits_of_lt_base hlt, Nat.div_eq_of_lt hlt]
      rw [Nat.mod_eq_of_lt hlt] at hlow ⊢
      exact .cons hlow .nil
    · rw [Nat.toDigits_of_base_le (by decide) hge, List.map_append]
      exact List.rel_append (ih (n / 16) (by omega) (by omega)) (.cons hlow .nil)

/-- **A number is written with its digits in base sixteen.** -/
theorem upperNumeral_iff {digits : List Char} (hn : 0 < n) :
    UpperNumeral digits n ↔ Hex.digits n = digits := by
  have hwritten := upperNumeral_digits n hn
  have hunique : Relator.LeftUnique fun (c : Char) (value : Nat) => upperDigits[value]? = some c :=
    fun _ _ _ h h' => Option.some.inj (h.symm.trans h')
  exact ⟨fun h => hunique.forall₂ hwritten h, fun h => h ▸ hwritten⟩

/-- No zero is put in front of a number that is written with at least one digit. -/
theorem number_one (hn : 0 < n) : Hex.number 1 n = String.ofList (Hex.digits n) := by
  have hlength := (upperNumeral_digits n hn).length_eq
  have hpos : 0 < (Nat.digits 16 n).length :=
    List.length_pos_of_ne_nil (Nat.digits_ne_nil_iff_ne_zero.mpr (Nat.ne_of_gt hn))
  rw [List.length_reverse] at hlength
  rw [Hex.number, Nat.sub_eq_zero_of_le (by omega)]
  rfl

end Disassembly.Text

namespace Disassembly.Hex

/-! ## 6. Rows of hexadecimal digits -/

variable {row : List Char} {limit n : Nat}

/-- What the digits of a row are counted as is what the row spells. -/
theorem spells_of_value? (h : value? row = some n) : Text.Spells 16 row n := by
  induction row using List.reverseRecOn generalizing n with
  | nil =>
    cases h
    exact Text.spells_nil 16
  | append_singleton front c ih =>
    rw [value?, List.foldlM_append] at h
    obtain ⟨m, hfront, hlast⟩ := Option.bind_eq_some_iff.mp h
    rw [List.foldlM_cons] at hlast
    obtain ⟨k, hmapped, hvalue⟩ := Option.bind_eq_some_iff.mp hlast
    obtain ⟨value, hdigit, rfl⟩ := Option.map_eq_some_iff.mp hmapped
    cases hvalue
    exact (ih hfront).append_digit (Text.digitValue?_eq_some_iff.mp hdigit)

/-- **A row of digits is read as the number it spells**, if that is below the limit. -/
theorem readNumeral_of_value? (h : value? row = some n) (hlt : n < limit) (hne : row ≠ []) :
    Text.readNumeral 16 limit row = .ok n := by
  have hspells := spells_of_value? h
  -- a sign is no digit
  have hunsigned : Text.unsigned row = row := by
    unfold Text.unsigned
    split
    · cases h
    · rfl
  refine (Text.readNumeral_eq_iff (Nat.zero_lt_of_lt hlt)).mpr (.row ?_ ?_)
  · rw [hunsigned]
    exact hne
  · rw [hunsigned]
    exact .value hspells hlt

end Disassembly.Hex
