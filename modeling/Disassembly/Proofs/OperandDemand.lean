import Disassembly.Proofs.SuppliedOperands

/-!
# How many bytes an operand asks for

A format says how many operand bytes it asks for (`OperandFormat.operandBytes`), and it shows them
(`OperandFormat.render`): two functions, which know nothing of each other. This file says that they
agree:

* with fewer bytes there is a mark in the text in place of one that is not there, and with as many
  there is none (`OperandFormat.mark_mem_render_iff`);
* further bytes behind these do not show (`OperandFormat.render_append`), unless it is the last byte
  that shows, in place of a branch target that is not known.

Each is said of the values first, then of a piece, and then of a format, which asks for as many
bytes as the most demanding of its pieces (`OperandFormat.operandBytes_pieces_le_iff`).
-/

namespace Disassembly

/-! ## 1. Values -/

theorem mark_mem_showByte_iff (value : Option UInt8) :
    '?' ∈ (showByte value).toList ↔ value = none := by
  cases value with
  | none => exact iff_of_true (by decide) rfl
  | some b => exact iff_of_false (not_mem_showByte b) nofun

theorem mark_mem_showWord_iff (value : Option UInt16) :
    '?' ∈ (showWord value).toList ↔ value = none := by
  cases value with
  | none => exact iff_of_true (by decide) rfl
  | some w => exact iff_of_false (not_mem_showWord w) nofun

/-- Without labels an address is shown as the word that it is. -/
theorem mark_mem_showAddress_iff (value : Option Address) :
    '?' ∈ (showAddress .empty value).toList ↔ value = none := by
  have hnames : ({ bytes := [] } : OperandContext).NoNames := LabelTable.nameAt?_empty
  have hword : showAddress .empty value = showWord value := showAddress_of_no_names hnames value
  rw [hword]
  exact mark_mem_showWord_iff value

/-- Text around a value adds no mark. -/
theorem Affix.mark_mem_wrap_iff {affix : Affix} (htexts : ∀ text ∈ affix.texts, '?' ∉ text.toList)
    (value : String) : '?' ∈ (affix.wrap value).toList ↔ '?' ∈ value.toList := by
  have hbefore := htexts affix.before List.mem_cons_self
  have hafter := htexts affix.after (List.mem_cons_of_mem _ List.mem_cons_self)
  rw [wrap, String.toList_append, String.toList_append, List.mem_append, List.mem_append,
    or_iff_left hafter, or_iff_right hbefore]

variable {bytes : List UInt8}

theorem wordAt?_eq_none_iff (bytes : List UInt8) (index : Nat) (order : ByteOrder) :
    wordAt? bytes index order = none ↔ bytes.length < index + 2 := by
  rcases Nat.lt_or_ge (index + 1) bytes.length with hlt | hge
  · rw [wordAt?_eq_some hlt]
    exact iff_of_false nofun (Nat.not_lt.mpr hlt)
  · unfold wordAt?
    rw [List.getElem?_eq_none hge]
    refine iff_of_true ?_ (Nat.lt_succ_of_le hge)
    split
    · rename_i hnone
      cases hnone
    · rfl

theorem lastWord?_eq_none_iff (bytes : List UInt8) (order : ByteOrder) :
    lastWord? bytes order = none ↔ bytes.length < 2 := by
  unfold lastWord?
  split
  · rename_i hle
    rw [wordAt?_eq_none_iff]
    omega
  · rename_i hlt
    exact iff_of_true rfl (Nat.lt_of_not_le hlt)

/-- Where no target is known, there is nothing to show if there are no bytes. -/
theorem OperandContext.target8?_eq_none_iff (bytes : List UInt8) :
    { bytes : OperandContext }.target8? = none ↔ bytes = [] := by
  show bytes.getLast?.map UInt8.toUInt16 = none ↔ bytes = []
  rw [Option.map_eq_none_iff, List.getLast?_eq_none_iff]

theorem OperandContext.target16?_eq_none_iff (bytes : List UInt8) (order : ByteOrder) :
    { bytes : OperandContext }.target16? order = none ↔ bytes.length < 2 :=
  lastWord?_eq_none_iff bytes order

/-! ## 2. Too few bytes -/

namespace Piece

/-- A piece shows a mark exactly if there are fewer bytes than it asks for. The target of a branch
    asks for none, but it is shown by one. -/
theorem mark_mem_render_iff {piece : Piece} (htexts : ∀ text ∈ piece.texts, '?' ∉ text.toList)
    (hbegun : piece = target → bytes ≠ []) :
    '?' ∈ (piece.render { bytes }).toList ↔ bytes.length < piece.operandBytes := by
  cases piece with
  | text shown => exact iff_of_false (htexts shown List.mem_cons_self) (Nat.not_lt_zero _)
  | byte index =>
    rw [render, mark_mem_showByte_iff, List.getElem?_eq_none_iff]
    exact Nat.lt_succ_iff.symm
  | word index order =>
    rw [render, mark_mem_showWord_iff]
    exact wordAt?_eq_none_iff bytes index order
  | target =>
    rw [render, mark_mem_showAddress_iff, OperandContext.target8?_eq_none_iff]
    exact iff_of_false (hbegun rfl) (Nat.not_lt_zero _)

end Piece

namespace OperandFormat

/-- The names of two registers are shown without a mark, if they have none themselves. -/
theorem mark_notMem_registerPair {names : Vector String 16}
    (hnames : ∀ name ∈ names.toList, '?' ∉ name.toList) (b : UInt8) :
    '?' ∉ ((registerPair names).render { bytes := b :: bytes }).toList := by
  have hname : ∀ index : Fin 16, '?' ∉ (names.get index).toList := fun index =>
    hnames _ (Vector.mem_toList_iff.mpr (Vector.getElem_mem index.isLt))
  simp only [render, List.head?_cons, String.toList_append, List.mem_append]
  rintro ((hfirst | hcomma) | hsecond)
  · exact hname _ hfirst
  · exact absurd hcomma (by decide)
  · exact hname _ hsecond

/-- **A mark shows exactly if there are fewer bytes than the format asks for.** -/
theorem mark_mem_render_iff {format : OperandFormat}
    (htexts : ∀ text ∈ format.texts, '?' ∉ text.toList)
    (hbegun : ∀ parts, format = pieces parts → .target ∈ parts → bytes ≠ []) :
    '?' ∈ (format.render { bytes }).toList ↔ bytes.length < format.operandBytes := by
  cases format with
  | implied => exact iff_of_false List.not_mem_nil (Nat.not_lt_zero _)
  | fixed shown => exact iff_of_false (htexts shown List.mem_cons_self) (Nat.not_lt_zero _)
  | byte affix =>
    rw [render, Affix.mark_mem_wrap_iff htexts, mark_mem_showByte_iff, List.head?_eq_none_iff,
      ← List.length_eq_zero_iff]
    exact Nat.lt_one_iff.symm
  | word order affix label =>
    rw [render, Affix.mark_mem_wrap_iff htexts]
    cases label with
    | true => exact (mark_mem_showAddress_iff _).trans (wordAt?_eq_none_iff bytes 0 order)
    | false => exact (mark_mem_showWord_iff _).trans (wordAt?_eq_none_iff bytes 0 order)
  | relative8 affix =>
    rw [render, Affix.mark_mem_wrap_iff htexts, mark_mem_showAddress_iff,
      OperandContext.target8?_eq_none_iff, ← List.length_eq_zero_iff]
    exact Nat.lt_one_iff.symm
  | relative16 order affix =>
    rw [render, Affix.mark_mem_wrap_iff htexts, mark_mem_showAddress_iff]
    exact OperandContext.target16?_eq_none_iff bytes order
  | registerPair names =>
    cases bytes with
    | nil => exact iff_of_true (by decide : '?' ∈ "??,??".toList) Nat.one_pos
    | cons b bytes =>
      have hcount : ¬ (b :: bytes).length < 1 := Nat.not_lt.mpr (Nat.le_add_left 1 _)
      exact iff_of_false (mark_notMem_registerPair htexts b) hcount
  | pieces parts =>
    have hpiece : ∀ piece ∈ parts,
        ('?' ∈ (piece.render { bytes }).toList ↔ bytes.length < piece.operandBytes) := by
      refine fun piece hpiece => Piece.mark_mem_render_iff (fun text htext => ?_) ?_
      · exact htexts text (List.mem_flatMap.mpr ⟨piece, hpiece, htext⟩)
      · rintro rfl
        exact hbegun parts rfl hpiece
    -- there is a mark in the text if there is one in a piece, so one asks for more than there is
    rw [render, String.toList_join, List.flatMap_map, List.mem_flatMap, ← Nat.not_le,
      operandBytes_pieces_le_iff, not_forall]
    simp only [Classical.not_imp, Nat.not_le]
    exact exists_congr fun piece => and_congr_right fun hmem => hpiece piece hmem

end OperandFormat

/-! ## 3. Further bytes -/

theorem wordAt?_append {index : Nat} (h : index + 2 ≤ bytes.length) (more : List UInt8)
    (order : ByteOrder) : wordAt? (bytes ++ more) index order = wordAt? bytes index order := by
  unfold wordAt?
  rw [List.getElem?_append_left (by omega), List.getElem?_append_left (by omega)]

variable {target : Option Address}

theorem Piece.render_append {piece : Piece} (hbytes : piece.operandBytes ≤ bytes.length)
    (htarget : piece = .target → ∃ address, target = some address) (labels : LabelTable)
    (more : List UInt8) :
    piece.render { bytes := bytes ++ more, target, labels } =
      piece.render { bytes, target, labels } := by
  cases piece with
  | text shown => rfl
  | byte index =>
    rw [render, render, List.getElem?_append_left hbytes]
  | word index order =>
    rw [render, render, wordAt?_append hbytes]
  | target =>
    obtain ⟨address, rfl⟩ := htarget rfl
    rfl

namespace OperandFormat

/-- **As many bytes as the format asks for are all that show**, if no branch target is to be shown,
    or the target is known. -/
theorem render_append {format : OperandFormat} (hbytes : format.operandBytes ≤ bytes.length)
    (htarget : format.isRelative = true → ∃ address, target = some address) (labels : LabelTable)
    (more : List UInt8) :
    format.render { bytes := bytes ++ more, target, labels } =
      format.render { bytes, target, labels } := by
  cases format with
  | implied => rfl
  | fixed shown => rfl
  | byte affix =>
    rw [render, render, List.head?_append_of_ne_nil _ (List.ne_nil_of_length_pos hbytes)]
  | word order affix label =>
    simp only [render, wordAt?_append hbytes more order]
  | relative8 affix =>
    obtain ⟨address, rfl⟩ := htarget rfl
    rfl
  | relative16 order affix =>
    obtain ⟨address, rfl⟩ := htarget rfl
    rfl
  | registerPair names =>
    simp only [render, List.head?_append_of_ne_nil _ (List.ne_nil_of_length_pos hbytes)]
  | pieces parts =>
    rw [render, render]
    refine congrArg String.join (List.map_congr_left fun piece hpiece => ?_)
    refine Piece.render_append (operandBytes_pieces_le_iff.mp hbytes piece hpiece) ?_ labels more
    rintro rfl
    exact htarget (List.contains_iff_mem.mpr hpiece)

/-- **How many bytes a format asks for is exactly how many it needs.** Let there be no mark in its
    own texts. Without labels and without a target, a mark shows exactly if there are fewer operand
    bytes than it asks for; where a piece shows the target there must be a byte to show it by. And
    under any labels, once there are as many bytes as it asks for, further ones change nothing,
    provided the target is known or none is to be shown. -/
theorem operandBytes_is_demand :
    (∀ (format : OperandFormat) (bytes : List UInt8),
      (∀ text ∈ format.texts, '?' ∉ text.toList) →
      (∀ parts, format = pieces parts → .target ∈ parts → bytes ≠ []) →
      ('?' ∈ (format.render { bytes }).toList ↔ bytes.length < format.operandBytes)) ∧
    ∀ (format : OperandFormat) (labels : LabelTable) (target : Option Address)
      (bytes more : List UInt8), format.operandBytes ≤ bytes.length →
      ((∃ address, target = some address) ∨ format.isRelative = false) →
      format.render { bytes := bytes ++ more, target, labels } =
        format.render { bytes, target, labels } := by
  refine ⟨fun format bytes => mark_mem_render_iff,
    fun format labels target bytes more hbytes htarget => ?_⟩
  refine render_append hbytes (fun hrelative => ?_) labels more
  exact htarget.resolve_right fun hnone => Bool.false_ne_true (hnone.symm.trans hrelative)

/-- A byte, the word behind it, and a branch target. Two bytes are too few, three are enough, and a
    fourth does not show where the target is known. -/
theorem operandBytes_is_demand_pieces :
    let format := pieces [.byte 0, .text ",", .word 1 .big, .text ",", .target]
    let labels : LabelTable := .ofList [⟨"loop", 0x2000⟩]
    (∀ text ∈ format.texts, '?' ∉ text.toList) ∧ format.operandBytes = 3 ∧
    '?' ∈ (format.render { bytes := [0x12, 0x34] }).toList ∧
    '?' ∉ (format.render { bytes := [0x12, 0x34, 0x56] }).toList ∧
    format.render { bytes := [0x12, 0x34, 0x56, 0x78], target := some 0x2000, labels } =
      format.render { bytes := [0x12, 0x34, 0x56], target := some 0x2000, labels } := by
  intro format labels
  have htexts : ∀ text ∈ format.texts, '?' ∉ text.toList := by decide
  obtain ⟨hmarks, hfurther⟩ := operandBytes_is_demand
  refine ⟨htexts, rfl, ?_, ?_, ?_⟩
  · exact (hmarks format [0x12, 0x34] htexts (fun _ _ _ => nofun)).mpr (by decide)
  · exact (hmarks format [0x12, 0x34, 0x56] htexts (fun _ _ _ => nofun)).not.mpr (by decide)
  · exact hfurther format labels _ [0x12, 0x34, 0x56] [0x78] (by decide) (Or.inl ⟨_, rfl⟩)

end OperandFormat

end Disassembly
