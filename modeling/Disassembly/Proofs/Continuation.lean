import Disassembly.Proofs.Encoding
import Disassembly.Proofs.PrefixFree

/-!
# Opcodes that go on behind their operand

An opcode may end behind its operand: what its front means says how many bytes there are, and the
last of them is the rest of the opcode, which is looked up once more. Two entries of the table take
part in such a unit, and this file says which of them decides what:

* the entry of the front decides how many bytes are taken, and nothing else
  (`Continues.length_eq`, `Continues.decode_eq`);
* the entry of the whole opcode decides what is shown, whatever length it declares and whether it
  claims to go on itself or not (`completeExtended_of_known`);
* of the bytes in between only the first shows (`continuedOperand`), so units that differ in the
  others look alike.
-/

namespace Disassembly

/-- One byte more behind an opcode, in terms of bits. -/
theorem Opcode.ofBytes_concat_bits (bytes : List UInt8) (last : UInt8) :
    ofBytes (bytes ++ [last]) = ofBytes bytes <<< 8 ||| last.toNat := by
  rw [ofBytes_concat, ← Nat.shiftLeft_add_eq_or_of_lt last.toNat_lt, Nat.shiftLeft_eq]

namespace Decoder

variable {decoder : Decoder} {address : Address} {opcode operands bytes more : List UInt8}
  {parent child : Descriptor} {format : OperandFormat} {last : UInt8} {source : Source}

/-! ## 1. The bytes of the unit -/

/-- The opcode in front of an operand is read as such, whatever stands behind it. -/
theorem scan?_of_opens (h : decoder.Opens opcode bytes) (address : Address)
    (behind : List UInt8) :
    decoder.scan? address (opcode ++ behind) = decoder.scanFrom? address opcode behind := by
  obtain ⟨-, ⟨first, rfl, halone⟩ | ⟨first, second, rfl, hlead⟩⟩ := h
  · exact if_neg halone
  · exact if_pos hlead

/-- `decoder.Continues opcode operands parent`: the opcode bytes `opcode` mean `parent`, an entry
    with a known mode by which the opcode goes on, and `operands` are as many bytes as this entry
    asks for behind them. -/
structure Continues (decoder : Decoder) (opcode operands : List UInt8) (parent : Descriptor) :
    Prop where
  opens : decoder.Opens opcode (opcode ++ operands)
  visible : decoder.visible? (Opcode.ofBytes opcode) = some parent
  known : ∃ format, decoder.format? parent = some format
  extended : parent.flags.extended = true
  count : operands.length = parent.length - opcode.length

namespace Continues

/-- The unit is as long as the entry of the front says, and has at least the front. -/
theorem length_eq (h : decoder.Continues opcode operands parent) :
    (opcode ++ operands).length = max parent.length opcode.length := by
  have hcount := h.count
  rw [List.length_append]
  omega

/-- As many operand bytes with the same opcode in front make such a unit too. -/
theorem of_length_eq (h : decoder.Continues opcode operands parent) {others : List UInt8}
    (hlength : others.length = operands.length) : decoder.Continues opcode others parent where
  opens := ⟨List.prefix_append opcode others, h.opens.2⟩
  visible := h.visible
  known := h.known
  extended := h.extended
  count := hlength.trans h.count

/-- **All bytes that the entry of the front asks for are taken**, whatever they are and whatever
    stands behind them, and then the opcode is looked up again. -/
theorem decode_eq (h : decoder.Continues opcode operands parent)
    (hahead : source.ahead = opcode ++ operands ++ more) (address : Address) :
    ∃ rest, decoder.decode address source =
        (decoder.completeExtended address opcode operands, rest) ∧
      source.Yields (opcode ++ operands) rest := by
  obtain ⟨format, hformat⟩ := h.known
  have hthere : parent.length - opcode.length ≤ (operands ++ more).length := by
    rw [← h.count]
    exact (List.prefix_append operands more).length_le
  have hcomplete : decoder.complete address opcode operands parent format =
      decoder.completeExtended address opcode operands := if_pos h.extended
  have hscan : decoder.scan? address source.ahead =
      some { reading := decoder.completeExtended address opcode operands
             taken := opcode ++ operands } := by
    rw [hahead, List.append_assoc, scan?_of_opens h.opens]
    simp only [scanFrom?, h.visible, hformat]
    rw [if_pos hthere, List.take_left' h.count, hcomplete]
  exact decode_of_scan hscan

end Continues

/-! ## 2. What the unit shows -/

/-- The operand of an opcode that ended behind it. It depends on the address and the length of the
    whole unit, from where a displacement counts, on the labels, on what the whole opcode means, and
    on the first byte behind its front. -/
def continuedOperand (labels : LabelTable) (address : Address) (length : Nat)
    (child : Descriptor) (format : OperandFormat) (first : UInt8) : String :=
  let target := if child.flags.pcRelative then target? format address [first] length else none
  format.render { bytes := [first], target, labels }

/-- Without an operand byte there is nothing to end the opcode with. -/
theorem completeExtended_of_nil (decoder : Decoder) (address : Address) (opcode : List UInt8) :
    decoder.completeExtended address opcode [] = .line (decoder.invalid address (opcode ++ [])) :=
  rfl

theorem completeExtended_of_hidden (hlast : operands.getLast? = some last)
    (hhidden : decoder.visible? (Opcode.ofBytes (opcode ++ [last])) = none) (address : Address) :
    decoder.completeExtended address opcode operands =
      .line (decoder.invalid address (opcode ++ operands)) := by
  simp only [completeExtended, hlast, hhidden]

theorem completeExtended_of_unknown (hlast : operands.getLast? = some last)
    (hvisible : decoder.visible? (Opcode.ofBytes (opcode ++ [last])) = some child)
    (hformat : decoder.format? child = none) (address : Address) :
    decoder.completeExtended address opcode operands =
      .failed (.unknownMode child.mode (Opcode.ofBytes (opcode ++ [last]))) := by
  simp only [completeExtended, hlast, hvisible, hformat]

/-- **What is shown is what the whole opcode means**, with the first operand byte in its place. -/
theorem completeExtended_of_known {first : UInt8} (hfirst : operands.head? = some first)
    (hlast : operands.getLast? = some last)
    (hvisible : decoder.visible? (Opcode.ofBytes (opcode ++ [last])) = some child)
    (hformat : decoder.format? child = some format) (address : Address) :
    decoder.completeExtended address opcode operands =
      .line (decoder.unit address (opcode ++ operands) child.mnemonic
        (continuedOperand decoder.labels address (opcode ++ operands).length child format
          first)) := by
  have hshown : operands.take 1 = [first] := by
    rw [List.take_one, hfirst]
    rfl
  simp only [completeExtended, hlast, hvisible, hformat, hshown]
  rfl

/-- The body of a unit does not depend on its bytes, unless it is shown as data. -/
theorem body_unit_congr {mnemonic : String}
    (h : mnemonic = invalidMnemonic → decoder.showInvalid = true) (address : Address)
    (bytes others : List UInt8) (operand : String) :
    (decoder.unit address bytes mnemonic operand).body =
      (decoder.unit address others mnemonic operand).body := by
  have hshown : ¬ (mnemonic = invalidMnemonic ∧ decoder.showInvalid = false) := by
    rintro ⟨hinvalid, hdata⟩
    rw [h hinvalid] at hdata
    cases hdata
  simp only [unit, if_neg hshown]

/-! ## 3. Both entries together -/

/-- **Units whose opcode ends behind the operand.** Let opcode bytes mean an entry by which the
    opcode goes on, and let the bytes that it asks for be there. Then the unit has exactly these:
    as many as the entry declares, and at least the opcode bytes, from any source that begins with
    them. If there is no byte behind the opcode bytes, or the last one does not end an opcode that
    means something, all of them are an opcode that means nothing. If it ends one with a known mode,
    this one's mnemonic is shown, and an operand in its format that comes of the first byte behind
    the opcode bytes; and other bytes in its place, with the same first and the same last one, are
    shown alike, unless they are to be shown as data. If its mode is unknown, the opcode that is
    named is the whole one, and all bytes of the unit have been taken. -/
theorem continued_units (decoder : Decoder) (opcode operands : List UInt8) (parent : Descriptor)
    (hcontinues : decoder.Continues opcode operands parent) :
    let length := max parent.length opcode.length
    let bytes := opcode ++ operands
    bytes.length = length ∧
    ∀ (address : Address) (source : Source) more, source.ahead = bytes ++ more →
      ∃ reading rest, decoder.decode address source = (reading, rest) ∧
        source.Yields bytes rest ∧
        (operands = [] → reading = .line (decoder.invalid address bytes)) ∧
        ∀ first last, operands.head? = some first → operands.getLast? = some last →
          let key := Opcode.ofBytes opcode <<< 8 ||| last.toNat
          (decoder.visible? key = none → reading = .line (decoder.invalid address bytes)) ∧
          ∀ child, decoder.visible? key = some child →
            (decoder.format? child = none → reading = .failed (.unknownMode child.mode key)) ∧
            ∀ format, decoder.format? child = some format →
              let operand :=
                continuedOperand decoder.labels address length child format first
              let unit := decoder.unit address bytes child.mnemonic operand
              reading = .line unit ∧
              ∀ others : List UInt8, others.length = operands.length →
                others.head? = some first → others.getLast? = some last →
                ∀ (another : Source) behind, another.ahead = opcode ++ others ++ behind →
                  ∃ other left, decoder.decode address another = (.line other, left) ∧
                    another.Yields (opcode ++ others) left ∧
                    ((child.mnemonic = invalidMnemonic → decoder.showInvalid = true) →
                      other.body = unit.body) := by
  refine ⟨hcontinues.length_eq, fun address source more hahead => ?_⟩
  obtain ⟨rest, hdecode, hyields⟩ := hcontinues.decode_eq hahead address
  refine ⟨_, rest, hdecode, hyields, ?_, fun first last hfirst hlast => ?_⟩
  · rintro rfl
    exact completeExtended_of_nil decoder address opcode
  rw [← Opcode.ofBytes_concat_bits]
  refine ⟨fun hhidden => completeExtended_of_hidden hlast hhidden address,
    fun child hvisible => ⟨fun hunknown => ?_, fun format hformat => ?_⟩⟩
  · exact completeExtended_of_unknown hlast hvisible hunknown address
  · rw [← hcontinues.length_eq]
    refine ⟨completeExtended_of_known hfirst hlast hvisible hformat address, ?_⟩
    intro others hlength hfirst' hlast' another behind hahead'
    have hothers := hcontinues.of_length_eq hlength
    obtain ⟨left, hdecode', hyields'⟩ := hothers.decode_eq hahead' address
    rw [completeExtended_of_known hfirst' hlast' hvisible hformat address, hothers.length_eq,
      ← hcontinues.length_eq] at hdecode'
    exact ⟨_, left, hdecode', hyields', fun hshown => body_unit_congr hshown address _ _ _⟩

/-- A decoder of one opcode byte that goes on three bytes further, and of what it can go on to: an
    entry that declares more bytes than there are and claims to go on once more. -/
def gapped : Decoder where
  instructions := Processor.instructionSet
    { id := "gapped", description := "An opcode in two parts", leadIns := [], maxLength := 4
      modes := [⟨"near", .relative8 {}⟩]
      layers :=
        [[{ opcode := 0x10, length := 4, mnemonic := invalidMnemonic, mode := "near",
            flags := { extended := true } },
          { opcode := 0x1042, length := 9, mnemonic := "loop", mode := "near",
            flags := { pcRelative := true, extended := true } }]] }

/-- The unit has four bytes, and leads one byte back from behind them; with another byte in the gap
    it looks the same. A byte that ends no opcode makes four bytes that mean nothing. -/
theorem continued_units_gapped :
    let parent : Descriptor :=
      { length := 4, mnemonic := invalidMnemonic, mode := "near", flags := { extended := true } }
    let shown : Body := .instruction "loop" "$2003"
    gapped.Continues [0x10] [0xFF, 0x00, 0x42] parent ∧
    (∃ rest, gapped.decode 0x2000 (.ofBytes [0x10, 0xFF, 0x00, 0x42, 0x10]) =
      (.line ⟨0x2000, [0x10, 0xFF, 0x00, 0x42], shown⟩, rest) ∧ rest.ahead = [0x10]) ∧
    (∃ other rest, gapped.decode 0x2000 (.ofBytes [0x10, 0xFF, 0x77, 0x42]) =
      (.line other, rest) ∧ other.body = shown) ∧
    ∃ rest, gapped.decode 0x2000 (.ofBytes [0x10, 0xFF, 0x00, 0x43]) =
      (.line (gapped.invalid 0x2000 [0x10, 0xFF, 0x00, 0x43]), rest) := by
  intro parent shown
  let child : Descriptor :=
    { length := 9, mnemonic := "loop", mode := "near"
      flags := { pcRelative := true, extended := true } }
  have hopens : ∀ operands, gapped.Opens [0x10] ([0x10] ++ operands) := fun operands =>
    ⟨List.prefix_append _ operands, Or.inl ⟨0x10, rfl, by decide⟩⟩
  have hvisible : gapped.visible? (Opcode.ofBytes [0x10]) = some parent := by decide +kernel
  have hchild : gapped.visible? (Opcode.ofBytes [0x10] <<< 8 ||| 0x42) = some child := by
    decide +kernel
  have hhidden : gapped.visible? (Opcode.ofBytes [0x10] <<< 8 ||| 0x43) = none := by
    decide +kernel
  have hformat : gapped.format? parent = some (.relative8 {}) := by decide +kernel
  have hcontinues : ∀ operands : List UInt8, operands.length = 3 →
      gapped.Continues [0x10] operands parent :=
    fun operands hlength => ⟨hopens operands, hvisible, ⟨_, hformat⟩, rfl, hlength⟩
  obtain ⟨-, hunits⟩ :=
    continued_units gapped [0x10] [0xFF, 0x00, 0x42] parent (hcontinues _ rfl)
  obtain ⟨reading, rest, hdecode, hyields, -, hcases⟩ :=
    hunits 0x2000 (.ofBytes [0x10, 0xFF, 0x00, 0x42, 0x10]) [0x10] rfl
  obtain ⟨-, hknown⟩ := hcases 0xFF 0x42 rfl rfl
  obtain ⟨-, hknown⟩ := hknown child hchild
  obtain ⟨rfl, hothers⟩ := hknown (.relative8 {}) hformat
  obtain ⟨other, left, hother, -, hbody⟩ :=
    hothers [0xFF, 0x77, 0x42] rfl rfl rfl (.ofBytes [0x10, 0xFF, 0x77, 0x42]) [] rfl
  obtain ⟨-, hunits⟩ :=
    continued_units gapped [0x10] [0xFF, 0x00, 0x43] parent (hcontinues _ rfl)
  obtain ⟨reading, gone, hnothing, -, -, hcases⟩ :=
    hunits 0x2000 (.ofBytes [0x10, 0xFF, 0x00, 0x43]) [] rfl
  obtain ⟨hinvalid, -⟩ := hcases 0xFF 0x43 rfl rfl
  rw [hinvalid hhidden] at hnothing
  have hunit : gapped.unit 0x2000 ([0x10] ++ [0xFF, 0x00, 0x42]) child.mnemonic
      (continuedOperand gapped.labels 0x2000 4 child (.relative8 {}) 0xFF) =
        ⟨0x2000, [0x10, 0xFF, 0x00, 0x42], shown⟩ := by decide +kernel
  refine ⟨hcontinues _ rfl, ⟨rest, ?_, ?_⟩, ⟨other, left, hother, ?_⟩, gone, hnothing⟩
  · rw [← hunit]
    exact hdecode
  · exact List.append_cancel_left hyields.ahead.symm
  · exact (hbody fun hinvalid => absurd hinvalid (by decide)).trans (congrArg Line.body hunit)

end Decoder

end Disassembly
