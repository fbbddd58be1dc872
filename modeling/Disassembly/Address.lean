/-!
# Addresses of a 64 KiB space

The processors described here see sixteen address lines. This file fixes

* the cursor's step: `advance` counts bytes of any number, only the low sixteen bits of the count
  matter (`toNat_advance`), and steps add up (`advance_advance`);
* the targets of branches: a displacement counts from the address AFTER the instruction, so both
  forms take the address of the instruction and its length.
-/

namespace Disassembly

/-- An address. Sixteen bits, so a step past `$FFFF` lands at the bottom again. -/
abbrev Address := UInt16

namespace Address

/-! ## 1. Steps -/

/-- The address `length` bytes further on. -/
def advance (a : Address) (length : Nat) : Address := a + UInt16.ofNat length

@[simp] theorem advance_zero (a : Address) : a.advance 0 = a := by
  simp [advance]

/-- Two steps are one step of the summed length: where a unit starts depends only on how many
    bytes stand before it, not on how they were split. -/
theorem advance_advance (a : Address) (m n : Nat) :
    (a.advance m).advance n = a.advance (m + n) := by
  simp [advance, UInt16.ofNat_add, UInt16.add_assoc]

theorem toNat_advance (a : Address) (n : Nat) :
    (a.advance n).toNat = (a.toNat + n) % 65536 := by
  simp [advance, UInt16.toNat_add]

/-! ## 2. Branch targets -/

/-- Target of a signed 8-bit displacement: `$00`-`$7F` lead forward from the next instruction,
    `$80`-`$FF` lead back. -/
def relative8 (a : Address) (displacement : UInt8) (length : Nat) : Address :=
  if displacement < 0x80 then a.advance length + displacement.toUInt16
  else a.advance length - (0x100 - displacement.toUInt16)

/-- Target of a 16-bit displacement. The space wraps, so the sign takes care of itself. -/
def relative16 (a : Address) (displacement : UInt16) (length : Nat) : Address :=
  a.advance length + displacement

end Address

end Disassembly
