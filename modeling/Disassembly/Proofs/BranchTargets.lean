import Disassembly.Proofs.PrefixFree
import Disassembly.Proofs.Relocation
import Disassembly.Proofs.Units

/-!
# Where branches lead

A displacement counts from the unit behind the branch. Two places have to agree on where that is:
the decoder, which adds the length of the instruction it is about to show, and the run, which moves
its cursor over the bytes of the unit it was given. They do, since a unit has all the bytes that its
length was computed from, whichever way the length came about:

* `relative8_toInt`, `relative16_toInt`: both kinds of displacement are signed numbers, added to the
  address behind the instruction, and the sum is taken round the address space;
* `Decoder.selection?`, `Decoder.line_of_decode`: which instruction the bytes of a unit are, and
  which of them its operand is shown from;
* `Decoder.CountsFrom`: the operand of a branch shows where its displacement leads from an address;
* `Trace.cursorBehind`, `Disassembler.cursorBehind_eq`: the cursor behind a unit of a run, where the
  next unit stands or the run ended.
-/

namespace Disassembly

/-! ## 1. Displacements -/

theorem toInt_toInt8 (b : UInt8) :
    b.toInt8.toInt = if b < 0x80 then (b.toNat : Int) else b.toNat - 256 := by
  have hsmall : b < 0x80 ↔ 2 * b.toNat < 2 ^ 8 := by
    rw [UInt8.lt_iff_toNat_lt]
    show b.toNat < 128 ↔ 2 * b.toNat < 256
    omega
  simp only [hsmall]
  exact BitVec.toInt_eq_toNat_cond b.toBitVec

theorem toInt_toInt16_emod (word : UInt16) : word.toInt16.toInt % 65536 = word.toNat := by
  have hlt := word.toNat_lt
  have hbmod : word.toInt16.toInt = (word.toNat : Int).bmod (2 ^ 16) :=
    BitVec.toInt_eq_toNat_bmod word.toBitVec
  rw [hbmod, show (65536 : Int) = ((2 ^ 16 : Nat) : Int) from rfl, Int.bmod_emod]
  omega

namespace Address

/-- **A byte is a signed displacement from behind the instruction**, round the address space. -/
theorem relative8_toInt (address : Address) (displacement : UInt8) (length : Nat) :
    ((address.relative8 displacement length).toNat : Int) =
      (address.toNat + length + displacement.toInt8.toInt) % 65536 := by
  have hd := displacement.toNat_lt
  rw [toNat_relative8, toNat_advance, toInt_toInt8]
  unfold reach
  split
  · omega
  · omega

/-- **So is a word.** -/
theorem relative16_toInt (address : Address) (displacement : UInt16) (length : Nat) :
    ((address.relative16 displacement length).toNat : Int) =
      (address.toNat + length + displacement.toInt16.toInt) % 65536 := by
  have hd := toInt_toInt16_emod displacement
  rw [relative16, UInt16.toNat_add, toNat_advance]
  omega

/-- A byte leads where the word leads that has the same sign and value. -/
theorem relative8_eq_relative16 (address : Address) (displacement : UInt8) (length : Nat) :
    address.relative8 displacement length =
      address.relative16 displacement.toInt8.toInt16.toUInt16 length := by
  have hsame := relative8_toInt address displacement length
  rw [← Int8.toInt_toInt16, ← Int16.toInt16_toUInt16 displacement.toInt8.toInt16,
    ← relative16_toInt] at hsame
  exact UInt16.toNat_inj.mp (Int.ofNat_inj.mp hsame)

theorem relative16_injective {address : Address} {displacement displacement' : UInt16}
    {length : Nat}
    (h : address.relative16 displacement length = address.relative16 displacement' length) :
    displacement = displacement' :=
  (UInt16.add_right_inj _).mp h

end Address

/-! ## 2. Operands of branches -/

namespace OperandFormat

variable {format : OperandFormat} {operands : List UInt8}

/-- The displacement among the bytes that an operand is shown from: the last of them, or the last
    two as a word, with their sign. -/
def displacement? (operands : List UInt8) : OperandFormat → Option Int
  | relative16 order _ => (lastWord? operands order).map fun word => word.toInt16.toInt
  | _ => operands.getLast?.map fun b => b.toInt8.toInt

/-- How many bytes the displacement takes. -/
def displacementSize : OperandFormat → Nat
  | relative16 .. => 2
  | _ => 1

theorem exists_lastWord? (order : ByteOrder) (h : 2 ≤ operands.length) :
    ∃ word, lastWord? operands order = some word := by
  refine ⟨_, (if_pos h).trans (wordAt?_eq_some (by omega) order)⟩

theorem exists_getLast? (h : 1 ≤ operands.length) : ∃ b, operands.getLast? = some b :=
  ⟨_, List.getLast?_eq_some_getLast (List.ne_nil_of_length_pos h)⟩

/-- **Where a branch leads**: as far from behind the instruction as its displacement says, if this
    is among the operand bytes. -/
theorem exists_target (format : OperandFormat) (h : format.displacementSize ≤ operands.length)
    (address : Address) (length : Nat) :
    ∃ displacement target, format.displacement? operands = some displacement ∧
      Decoder.target? format address operands length = some target ∧
      (target.toNat : Int) = (address.toNat + length + displacement) % 65536 := by
  have hnear : 1 ≤ operands.length → ∃ displacement target,
      (operands.getLast?.map fun b => b.toInt8.toInt) = some displacement ∧
      (operands.getLast?.map fun b => address.relative8 b length) = some target ∧
      (target.toNat : Int) = (address.toNat + length + displacement) % 65536 := by
    intro hone
    obtain ⟨b, hlast⟩ := exists_getLast? hone
    rw [hlast]
    exact ⟨_, _, rfl, rfl, address.relative8_toInt b length⟩
  cases format with
  | relative16 order affix =>
    obtain ⟨word, hword⟩ := exists_lastWord? order h
    refine ⟨word.toInt16.toInt, address.relative16 word length, ?_, ?_,
      address.relative16_toInt word length⟩
    · rw [displacement?, hword]
      rfl
    · rw [Decoder.target?, hword]
      rfl
  | implied => exact hnear h
  | fixed shown => exact hnear h
  | byte affix => exact hnear h
  | word order affix label => exact hnear h
  | relative8 affix => exact hnear h
  | registerPair names => exact hnear h
  | pieces parts => exact hnear h

/-- In the operand of a branch the target shows in its places, by its name if it has one, and there
    is such a place. -/
theorem render_of_isRelative (h : format.isRelative = true) (operands : List UInt8)
    (target : Address) (labels : LabelTable) :
    none ∈ format.places operands ∧
      format.render { bytes := operands, target := some target, labels } =
        fill (showAddress labels (some target)) (format.places operands) := by
  cases format with
  | relative8 affix => exact ⟨List.mem_cons_of_mem _ List.mem_cons_self, join_wrap affix _⟩
  | relative16 order affix => exact ⟨List.mem_cons_of_mem _ List.mem_cons_self, join_wrap affix _⟩
  | pieces parts =>
    have hpiece : .target ∈ parts := List.contains_iff_mem.mp h
    exact ⟨List.mem_map.mpr ⟨.target, hpiece, rfl⟩,
      render_pieces_eq_fill parts operands target labels⟩
  | implied => cases h
  | fixed shown => cases h
  | byte affix => cases h
  | word order affix label => cases h
  | registerPair names => cases h

end OperandFormat

/-! ## 3. The instruction of a unit -/

/-- An instruction, and the bytes that its operand is shown from. -/
structure Selection where
  descriptor : Descriptor
  format : OperandFormat
  operands : List UInt8
deriving DecidableEq, Repr

namespace Decoder

variable {decoder : Decoder} {address : Address} {source : Source} {opcode bytes : List UInt8}

/-- How many opcode bytes there are in front of the operand. -/
def frontLength (decoder : Decoder) : List UInt8 → Nat
  | [] => 0
  | first :: _ => if first ∈ decoder.instructions.leadIns then 2 else 1

/-- The instruction that the bytes of a unit are, or nothing where they are an opcode that means
    nothing. An opcode that goes on behind its operand is looked up twice, and shows one byte. -/
def selection? (decoder : Decoder) (bytes : List UInt8) : Option Selection := do
  let opcode := bytes.take (decoder.frontLength bytes)
  let operands := bytes.drop (decoder.frontLength bytes)
  let front ← decoder.visible? (Opcode.ofBytes opcode)
  if front.flags.extended then
    let last ← operands.getLast?
    let descriptor ← decoder.visible? (Opcode.ofBytes (opcode ++ [last]))
    let format ← decoder.format? descriptor
    return { descriptor, format, operands := operands.take 1 }
  else
    let format ← decoder.format? front
    return { descriptor := front, format, operands }

/-- The unit that some bytes at an address are, by the instruction they are. -/
def unitOf (decoder : Decoder) (address : Address) (bytes : List UInt8) : Option Selection → Line
  | none => decoder.invalid address bytes
  | some selection => decoder.instruction address bytes selection.descriptor selection.format
      selection.operands

theorem frontLength_of_opcode (operands : List UInt8)
    (h : (∃ first, opcode = [first] ∧ first ∉ decoder.instructions.leadIns) ∨
      ∃ first second, opcode = [first, second] ∧ first ∈ decoder.instructions.leadIns) :
    decoder.frontLength (opcode ++ operands) = opcode.length := by
  rcases h with ⟨first, rfl, halone⟩ | ⟨first, second, rfl, hlead⟩
  · exact if_neg halone
  · exact if_pos hlead

/-- What stands behind an opcode that goes on there selects the same instruction when it is decoded
    and when its bytes are looked at again. -/
theorem line_of_completeExtended {operands : List UInt8} {unit : Line}
    (h : decoder.completeExtended address opcode operands = .line unit) :
    unit = decoder.unitOf address (opcode ++ operands) (do
      let last ← operands.getLast?
      let descriptor ← decoder.visible? (Opcode.ofBytes (opcode ++ [last]))
      let format ← decoder.format? descriptor
      return { descriptor, format, operands := operands.take 1 }) := by
  unfold completeExtended at h
  cases hlast : operands.getLast? with
  | none =>
    rw [hlast] at h
    exact (Reading.line.inj h).symm
  | some last =>
    rw [hlast] at h
    simp only [Option.bind_eq_bind, Option.bind_some]
    dsimp only at h
    cases hvisible : decoder.visible? (Opcode.ofBytes (opcode ++ [last])) with
    | none =>
      rw [hvisible] at h
      exact (Reading.line.inj h).symm
    | some descriptor =>
      rw [hvisible] at h
      simp only [Option.bind_some]
      dsimp only at h
      cases hformat : decoder.format? descriptor with
      | none =>
        rw [hformat] at h
        cases h
      | some format =>
        rw [hformat] at h
        exact (Reading.line.inj h).symm

/-- **A unit is what its own bytes say**: the instruction they select, shown from the bytes that are
    selected with it. -/
theorem line_of_scan? {taken : List UInt8} {unit : Line}
    (h : decoder.scan? address bytes = some { reading := .line unit, taken }) :
    unit = decoder.unitOf address unit.bytes (decoder.selection? unit.bytes) := by
  have halone := scan?_taken h
  obtain ⟨-, -, ⟨-, rfl⟩, -⟩ := scan?_spec h
  obtain ⟨opcode, operands, hbytes, hfrom, hopcode⟩ := exists_opcode_of_scan? halone
  have hlength := frontLength_of_opcode operands hopcode
  dsimp only at hbytes
  rw [hbytes, selection?, hlength]
  simp only [List.take_left, List.drop_left]
  rcases scanFrom?_cases hfrom with ⟨hhidden, hinvalid⟩ | ⟨descriptor, -, -, hunknown⟩ |
    ⟨descriptor, format, hvisible, hformat, hle, hcomplete⟩
  · rw [hhidden]
    have hline := congrArg Scan.reading hinvalid
    have htaken := congrArg Scan.taken hinvalid
    dsimp only at hline htaken
    rw [← hbytes, htaken]
    exact Reading.line.inj hline
  · cases hunknown
  · have hreading := congrArg Scan.reading hcomplete
    have htaken := congrArg Scan.taken hcomplete
    dsimp only at hreading htaken
    have hall : operands = operands.take (descriptor.length - opcode.length) :=
      List.append_cancel_left (hbytes.symm.trans htaken)
    rw [← hall] at hreading
    unfold complete at hreading
    rw [hvisible]
    simp only [Option.bind_eq_bind, Option.bind_some]
    split at hreading
    · rename_i hextended
      rw [if_pos hextended]
      exact line_of_completeExtended hreading.symm
    · rename_i hwhole
      rw [if_neg hwhole, hformat]
      exact Reading.line.inj hreading

/-- `decoder.CountsFrom next unit`: if `unit` is a branch, and its displacement is among the bytes
    its operand is shown from, then the operand shows, in every place there is for it and by its
    name if it has one, the address that lies this displacement from behind the bytes of the unit;
    which is as far from `next`. -/
def CountsFrom (decoder : Decoder) (next : Address) (unit : Line) : Prop :=
  ∀ selection mnemonic operand, decoder.selection? unit.bytes = some selection →
    selection.descriptor.flags.pcRelative = true → selection.format.isRelative = true →
    selection.format.displacementSize ≤ selection.operands.length →
    unit.body = .instruction mnemonic operand →
    ∃ displacement target,
      selection.format.displacement? selection.operands = some displacement ∧
      (target.toNat : Int) =
        (unit.address.toNat + unit.bytes.length + displacement) % 65536 ∧
      (target.toNat : Int) = (next.toNat + displacement) % 65536 ∧
      none ∈ selection.format.places selection.operands ∧
      operand = fill (showAddress decoder.labels (some target))
        (selection.format.places selection.operands)

/-- The operand of an instruction is what its format makes of the target. -/
theorem operand_of_instruction {descriptor : Descriptor} {format : OperandFormat}
    {operands : List UInt8} {mnemonic operand : String}
    (h : (decoder.instruction address bytes descriptor format operands).body =
      .instruction mnemonic operand) (hbranch : descriptor.flags.pcRelative = true) :
    operand = format.render { bytes := operands
                              target := target? format address operands bytes.length
                              labels := decoder.labels } := by
  unfold instruction unit at h
  rw [if_pos hbranch] at h
  dsimp only at h
  split at h
  · cases h
  · exact (Body.instruction.inj h).2.symm

/-- **A unit that is settled counts from behind its own bytes.** -/
theorem countsFrom_of_scan? {taken : List UInt8} {unit : Line}
    (h : decoder.scan? address bytes = some { reading := .line unit, taken }) :
    decoder.CountsFrom (unit.address.advance unit.bytes.length) unit := by
  obtain ⟨-, -, ⟨haddress, -⟩, -⟩ := scan?_spec h
  intro selection mnemonic operand hselected hbranch hrelative hsize hbody
  have hline := line_of_scan? h
  rw [hselected, ← haddress] at hline
  obtain ⟨displacement, target, hdisplacement, htarget, hleads⟩ :=
    selection.format.exists_target hsize unit.address unit.bytes.length
  rw [hline] at hbody
  have hoperand := operand_of_instruction hbody hbranch
  obtain ⟨hplace, hrender⟩ := OperandFormat.render_of_isRelative hrelative selection.operands
    target decoder.labels
  rw [htarget, hrender] at hoperand
  refine ⟨displacement, target, hdisplacement, hleads, ?_, hplace, hoperand⟩
  rw [hleads, Address.toNat_advance]
  omega

end Decoder

/-! ## 4. Runs -/

/-- The cursor behind a complete unit of a run: where the next one stands, or where the run
    ended. -/
def Trace.cursorBehind (trace : Trace) (index : Nat) : Address :=
  trace.units[index + 1]?.elim trace.cursor (·.address)

namespace Disassembler

/-- **The cursor moves over the bytes of each unit**, so the next unit stands behind them. -/
theorem cursorBehind_eq {d : Disassembler} {cursor : Address} {source : Source}
    {stopAfter : Option Nat} {index : Nat} {unit : Line}
    (h : (d.walk stopAfter cursor source).units[index]? = some unit) :
    (d.walk stopAfter cursor source).cursorBehind index =
      unit.address.advance unit.bytes.length := by
  -- the induction needs to know where the first unit stands, to put another one in front of it
  have hwalk : (d.walk stopAfter cursor source).units[0]?.elim
        (d.walk stopAfter cursor source).cursor (·.address) = cursor ∧
      ∀ index unit, (d.walk stopAfter cursor source).units[index]? = some unit →
        (d.walk stopAfter cursor source).cursorBehind index =
          unit.address.advance unit.bytes.length := by
    apply walk_induction (motive := fun cursor trace =>
      trace.units[0]?.elim trace.cursor (fun unit : Line => unit.address) = cursor ∧
        ∀ index unit, trace.units[index]? = some unit →
          trace.cursorBehind index = unit.address.advance unit.bytes.length)
    · exact fun cursor => ⟨rfl, nofun⟩
    · intro cursor source first trace hread ⟨hnext, ih⟩
      have haddress := address_of_readAt hread
      refine ⟨haddress, fun index unit hunit => ?_⟩
      cases index with
      | zero =>
        cases hunit
        rw [haddress]
        exact hnext
      | succ index => exact ih index unit hunit
    · exact fun cursor source reading ending _ _ => ⟨rfl, nofun⟩
  exact hwalk.2 index unit h

/-- **Branches count from the next unit.** A decoded branch whose displacement is among the bytes
    its operand is shown from, the last byte or the last word of them read as a signed number, shows
    the address that lies so far from behind its bytes, round the address space; and in a run,
    however it ends, that is as far from the cursor of the unit that follows. A displacement of one
    byte leads where the word of the same value does, over any length, and no two displacements lead
    from one place to the same address. -/
theorem branches_count_from_next_unit :
    (∀ (decoder : Decoder) address source unit rest,
      decoder.decode address source = (.line unit, rest) →
      unit.address = address ∧ decoder.CountsFrom (address.advance unit.bytes.length) unit) ∧
    (∀ (d : Disassembler) source stopAfter index unit,
      (d.trace source stopAfter).units[index]? = some unit → d.regions.at? unit.address = none →
      let next := (d.trace source stopAfter).cursorBehind index
      next = unit.address.advance unit.bytes.length ∧ d.toDecoder.CountsFrom next unit) ∧
    (∀ (address : Address) displacement length, address.relative8 displacement length =
      address.relative16 displacement.toInt8.toInt16.toUInt16 length) ∧
    ∀ (address : Address) length,
      (∀ displacement displacement', address.relative8 displacement length =
        address.relative8 displacement' length → displacement = displacement') ∧
      ∀ displacement displacement', address.relative16 displacement length =
        address.relative16 displacement' length → displacement = displacement' := by
  refine ⟨fun decoder address source unit rest hline => ?_,
    fun d source stopAfter index unit hunit houtside => ?_,
    fun address displacement length => address.relative8_eq_relative16 displacement length,
    fun address length => ⟨fun _ _ => Address.relative8_injective,
      fun _ _ => Address.relative16_injective⟩⟩
  · obtain ⟨hscan, -⟩ := Decoder.scan?_of_decode_line hline
    obtain ⟨-, -, ⟨rfl, -⟩, -⟩ := Decoder.scan?_spec hscan
    exact ⟨rfl, Decoder.countsFrom_of_scan? hscan⟩
  · have hbehind := cursorBehind_eq hunit
    have hsettles : d.Settles unit := settles_of_mem_units (List.mem_of_getElem? hunit)
    unfold Settles scan? at hsettles
    rw [houtside] at hsettles
    have hcounts := Decoder.countsFrom_of_scan? hsettles
    rw [← hbehind] at hcounts
    exact ⟨hbehind, hcounts⟩

/-- A long branch to itself over the end of the address space, where a label stands. The next unit
    is at `$0002`, and the branch leads four bytes back from there. -/
theorem branches_count_from_next_unit_wrapped :
    let d : Disassembler := { Decoder.halfDeclared with
      labels := .ofList [⟨"top", 0xFFFE⟩], start := 0xFFFE }
    let unit : Line := ⟨0xFFFE, [0x10, 0x26, 0xFF, 0xFC], .instruction "lbne" "top"⟩
    let trace := d.trace (.ofBytes [0x10, 0x26, 0xFF, 0xFC, 0x42])
    trace.units[0]? = some unit ∧ d.regions.at? unit.address = none ∧
    trace.cursorBehind 0 = 0x0002 ∧
    ∃ selection, d.toDecoder.selection? unit.bytes = some selection ∧
      selection.descriptor.flags.pcRelative = true ∧ selection.format.isRelative = true ∧
      selection.format.displacementSize ≤ selection.operands.length ∧
      ∃ target : Address, (target.toNat : Int) = (0x0002 + -4) % 65536 ∧
        "top" = fill (showAddress d.labels (some target)) [some "", none, some ""] := by
  intro d unit trace
  have hunit : trace.units[0]? = some unit := by decide +kernel
  have hselected : d.toDecoder.selection? unit.bytes = some
      { descriptor := { length := 4, mnemonic := "lbne", mode := "rel16",
                        flags := { pcRelative := true } }
        format := .relative16 .big {}
        operands := [0xFF, 0xFC] } := by decide +kernel
  obtain ⟨-, hruns, -⟩ := branches_count_from_next_unit
  obtain ⟨hbehind, hcounts⟩ := hruns d _ none 0 unit hunit rfl
  have hnext : trace.cursorBehind 0 = 0x0002 := hbehind.trans (by decide)
  obtain ⟨displacement, target, hdisplacement, -, hleads, -, hshown⟩ :=
    hcounts _ _ _ hselected rfl rfl (by decide) rfl
  have hback : displacement = -4 := by
    have hword : (OperandFormat.relative16 .big {}).displacement? [0xFF, 0xFC] = some (-4) := by
      decide
    exact Option.some.inj (hdisplacement.symm.trans hword)
  rw [hback, show (d.trace _ none).cursorBehind 0 = _ from hnext] at hleads
  exact ⟨hunit, rfl, hnext, _, hselected, rfl, rfl, by decide, target, hleads, hshown⟩

end Disassembler

end Disassembly
