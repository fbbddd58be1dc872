import Disassembly.CommandLine.Arguments
import Disassembly.Proofs.Numerals

/-!
# Arguments spelled out

Whatever can be asked for on the command line can be spelled (`Arguments.spell`): every option by
its long name, a value behind `=`, the file behind `--`. What is spelled is read back as it was
meant (`Arguments.parse?_spell`), for values and files of any look: a value that begins with a dash
or holds another `=` is a value all the same, and so is a file of that kind behind `--`.
-/

namespace Disassembly.CommandLine

/-! ## 1. What arguments say -/

/-- The arguments say the items, whatever arguments follow. -/
def Says (arguments : List String) (items : List Item) : Prop :=
  ∀ others, itemsOf? (arguments ++ others) = (itemsOf? others).map (items ++ ·)

theorem Says.nil : Says [] [] := by
  intro others
  cases hothers : itemsOf? others with
  | none => exact hothers
  | some items => exact hothers

theorem Says.append {arguments more : List String} {items others : List Item}
    (h : Says arguments items) (hmore : Says more others) :
    Says (arguments ++ more) (items ++ others) := by
  intro rest
  rw [List.append_assoc, h, hmore, Option.map_map]
  exact congrArg (Option.map · _) (funext fun rest => (List.append_assoc items others rest).symm)

/-- An argument that needs no value says its items. -/
theorem says_of_said? {argument : String} {items : List Item}
    (h : said? argument = some { items }) : Says [argument] items := by
  have hne : argument ≠ "--" := by
    rintro rfl
    cases h
  intro others
  rw [List.singleton_append, itemsOf?, if_neg hne, h]

/-- The name of a long option ends at the first `=`. -/
theorem name_of_longOption {name : List Char} (hname : '=' ∉ name) (value : List Char)
    (hvalue : ∀ c, value.head? = some c → c = '=') :
    (name ++ value).takeWhile (· ≠ '=') = name ∧ (name ++ value).dropWhile (· ≠ '=') = value := by
  have hall : ∀ c ∈ name, decide (c ≠ '=') = true :=
    fun c hc => decide_eq_true fun heq => hname (heq ▸ hc)
  rw [List.takeWhile_append_of_pos hall, List.dropWhile_append_of_pos hall]
  cases value with
  | nil => exact ⟨List.append_nil name, rfl⟩
  | cons c value =>
    cases hvalue c rfl
    exact ⟨List.append_nil name, rfl⟩

/-- An option by its long name, with its value behind `=`. -/
def spellSetting (name value : String) : String := "--" ++ name ++ "=" ++ value

/-- A value is what stands behind the first `=`, whatever it looks like. -/
theorem says_spellSetting {name : String} {setting : Setting}
    (h : longOption? name = some (.inr setting)) (hname : '=' ∉ name.toList) (value : String) :
    Says [spellSetting name value] [{ topic := .setting setting, text := value }] := by
  have hchars : (spellSetting name value).toList =
      '-' :: '-' :: (name.toList ++ '=' :: value.toList) := by
    simp [spellSetting]
  obtain ⟨htake, hdrop⟩ := name_of_longOption hname ('=' :: value.toList)
    fun c hc => (Option.some.inj hc).symm
  apply says_of_said?
  rw [said?, hchars]
  show longOption (name.toList ++ '=' :: value.toList) = _
  rw [longOption, htake, hdrop, String.ofList_toList, h]
  simp [attached]

/-- A flag that is given or not. -/
def spellFlag (name : String) (given : Bool) : List String := if given then ["--" ++ name] else []

/-- What it says. -/
def flagItems (flag : Flag) (given : Bool) : List Item :=
  if given then [{ topic := .flag flag }] else []

theorem says_spellFlag {name : String} {flag : Flag} (h : longOption? name = some (.inl flag))
    (hname : '=' ∉ name.toList) (given : Bool) :
    Says (spellFlag name given) (flagItems flag given) := by
  cases given with
  | false => exact .nil
  | true =>
    have hchars : ("--" ++ name).toList = '-' :: '-' :: (name.toList ++ []) := by simp
    obtain ⟨htake, hdrop⟩ := name_of_longOption hname [] nofun
    apply says_of_said?
    rw [said?, hchars]
    show longOption (name.toList ++ []) = _
    rw [longOption, htake, hdrop, String.ofList_toList, h]
    rfl

/-- Behind `--` there are only files. -/
theorem itemsOf?_files (names : List String) :
    itemsOf? ("--" :: names) = some (names.map fun name => { topic := .file, text := name }) := by
  rw [itemsOf?, if_pos rfl]

namespace Arguments

/-! ## 2. Spelling -/

/-- Arguments spelled out. -/
def spell (arguments : Arguments) : List String :=
  [spellSetting "cpu" arguments.processor] ++
  [spellSetting "address" ("0x" ++ Hex.word arguments.address)] ++
  (arguments.regions.map (spellSetting "block")).toList ++
  spellFlag "nolist" (!arguments.listing) ++
  spellFlag "undocumented" arguments.undocumented ++
  spellFlag "invalid" arguments.showInvalid ++
  spellFlag "list-cpus" arguments.listProcessors ++
  "--" :: arguments.file.toList

/-- A value or a file that is named or not. -/
def namedItems (topic : Topic) (text : Option String) : List Item :=
  text.toList.map fun text => { topic, text }

/-- What arguments say that are spelled out. -/
def spelledItems (arguments : Arguments) : List Item :=
  namedItems (.setting .processor) (some arguments.processor) ++
  namedItems (.setting .address) (some ("0x" ++ Hex.word arguments.address)) ++
  namedItems (.setting .regions) arguments.regions ++
  flagItems .noListing (!arguments.listing) ++
  flagItems .undocumented arguments.undocumented ++
  flagItems .showInvalid arguments.showInvalid ++
  flagItems .listProcessors arguments.listProcessors ++
  namedItems .file arguments.file

variable (arguments : Arguments)

theorem itemsOf?_spell : itemsOf? arguments.spell = some arguments.spelledItems := by
  have hprocessor : Says [spellSetting "cpu" arguments.processor] _ :=
    says_spellSetting rfl (by decide) _
  have haddress : Says [spellSetting "address" ("0x" ++ Hex.word arguments.address)] _ :=
    says_spellSetting rfl (by decide) _
  have hregions : Says (arguments.regions.map (spellSetting "block")).toList
      (namedItems (.setting .regions) arguments.regions) := by
    cases arguments.regions with
    | none => exact .nil
    | some path => exact says_spellSetting rfl (by decide) path
  have hnoListing : Says (spellFlag "nolist" (!arguments.listing)) _ :=
    says_spellFlag rfl (by decide) _
  have hundocumented : Says (spellFlag "undocumented" arguments.undocumented) _ :=
    says_spellFlag rfl (by decide) _
  have hinvalid : Says (spellFlag "invalid" arguments.showInvalid) _ :=
    says_spellFlag rfl (by decide) _
  have hlist : Says (spellFlag "list-cpus" arguments.listProcessors) _ :=
    says_spellFlag rfl (by decide) _
  have hoptions := (((((hprocessor.append haddress).append hregions).append hnoListing).append
    hundocumented).append hinvalid).append hlist
  exact (hoptions _).trans (congrArg _ (itemsOf?_files arguments.file.toList))

/-! ## 3. Reading -/

theorem textOf?_append (items others : List Item) (topic : Topic) :
    textOf? (items ++ others) topic = (textOf? items topic).or (textOf? others topic) := by
  unfold textOf?
  rw [List.find?_append]
  cases items.find? (·.topic = topic) with
  | none => rfl
  | some item => rfl

theorem textOf?_namedItems (topic other : Topic) (text : Option String) :
    textOf? (namedItems topic text) other = if topic = other then text else none := by
  cases text with
  | none =>
    show none = _
    split <;> rfl
  | some text =>
    by_cases h : topic = other
    · simp [textOf?, namedItems, h]
    · simp [textOf?, namedItems, h]

theorem textOf?_flagItems (flag : Flag) (given : Bool) (topic : Topic) :
    textOf? (flagItems flag given) topic =
      if given = true ∧ topic = .flag flag then some "" else none := by
  cases given with
  | false => rfl
  | true =>
    by_cases h : topic = .flag flag
    · simp [textOf?, flagItems, h]
    · simp [textOf?, flagItems, h, Ne.symm h]

/-- Every topic there is. -/
def topics : List Topic :=
  [.setting .processor, .setting .address, .setting .regions, .flag .noListing,
    .flag .undocumented, .flag .showInvalid, .flag .listProcessors, .file]

theorem topics_namedItems (topic : Topic) (text : Option String) :
    ((namedItems topic text).map (·.topic)).Sublist [topic] := by
  cases text with
  | none => exact List.nil_sublist _
  | some text => exact List.Sublist.refl _

theorem topics_flagItems (flag : Flag) (given : Bool) :
    ((flagItems flag given).map (·.topic)).Sublist [.flag flag] := by
  cases given with
  | false => exact List.nil_sublist _
  | true => exact List.Sublist.refl _

/-- Nothing is said twice. -/
theorem nodup_spelledItems : (arguments.spelledItems.map (·.topic)).Nodup := by
  have hsublist : (arguments.spelledItems.map (·.topic)).Sublist topics := by
    unfold spelledItems
    simp only [List.map_append]
    exact (topics_namedItems _ _).append (topics_namedItems _ _)
      |>.append (topics_namedItems _ _)
      |>.append (topics_flagItems _ _)
      |>.append (topics_flagItems _ _)
      |>.append (topics_flagItems _ _)
      |>.append (topics_flagItems _ _)
      |>.append (topics_namedItems _ _)
  exact hsublist.nodup (by decide)

/-- An address is read back from its four digits. -/
theorem ofArgument_word (address : Address) :
    Address.ofArgument ("0x" ++ Hex.word address).toList = .ok address := by
  have hlt := address.toNat_lt
  have hne : (Hex.word address).toList ≠ [] := by
    intro h
    have hlength := Hex.length_word address
    rw [h] at hlength
    cases hlength
  have hread := Hex.readNumeral_of_value? (Hex.value?_word address)
    (Nat.lt_trans hlt (by decide) : _ < UInt64.size) hne
  rw [String.toList_append]
  show Except.map UInt16.ofNat (Text.readNumeral 16 UInt64.size (Hex.word address).toList) = _
  rw [hread]
  exact congrArg Except.ok (UInt16.ofNat_toNat)

/-- A flag is said or not, and there is no more to it. -/
def flagText (given : Bool) : Option String := if given then some "" else none

/-- What is said about each topic is what was meant. -/
theorem textOf?_spelledItems (topic : Topic) :
    textOf? arguments.spelledItems topic = match topic with
      | .setting .processor => some arguments.processor
      | .setting .address => some ("0x" ++ Hex.word arguments.address)
      | .setting .regions => arguments.regions
      | .flag .noListing => flagText (!arguments.listing)
      | .flag .undocumented => flagText arguments.undocumented
      | .flag .showInvalid => flagText arguments.showInvalid
      | .flag .listProcessors => flagText arguments.listProcessors
      | .file => arguments.file := by
  unfold spelledItems
  simp only [textOf?_append, textOf?_namedItems, textOf?_flagItems]
  cases topic with
  | flag flag => cases flag <;> simp [flagText]
  | setting setting => cases setting <;> simp
  | file => simp

theorem isSome_flagText (given : Bool) : (flagText given).isSome = given := by
  cases given with
  | true => rfl
  | false => rfl

theorem guard_of {p : Prop} [Decidable p] (h : p) : (guard p : Option Unit) = some () := if_pos h

/-- What items ask for that pass every check and name an address. -/
theorem ofItems?_eq {items : List Item} {text : String} {address : Address}
    (hnodup : (items.map (·.topic)).Nodup)
    (hpaths : textOf? items .file ≠ some "" ∧ textOf? items (.setting .regions) ≠ some "")
    (hsome : (textOf? items .file).isSome ∨ (textOf? items (.flag .listProcessors)).isSome)
    (htext : textOf? items (.setting .address) = some text)
    (haddress : Address.ofArgument text.toList = .ok address) :
    ofItems? items = some {
      file := textOf? items .file
      processor := (textOf? items (.setting .processor)).getD "6502"
      address
      regions := textOf? items (.setting .regions)
      listing := !(textOf? items (.flag .noListing)).isSome
      undocumented := (textOf? items (.flag .undocumented)).isSome
      showInvalid := (textOf? items (.flag .showInvalid)).isSome
      listProcessors := (textOf? items (.flag .listProcessors)).isSome } := by
  unfold ofItems?
  dsimp only
  rw [guard_of hnodup, guard_of hpaths, guard_of hsome, htext]
  dsimp only [Option.bind_eq_bind, Option.bind_some]
  rw [haddress]
  rfl

/-- **What is spelled out is read back as it was meant**, as long as there is a file, or a list of
    the processors is asked for instead, and no path is empty. -/
theorem parse?_spell (hfile : arguments.file ≠ some "") (hregions : arguments.regions ≠ some "")
    (hsome : arguments.file.isSome ∨ arguments.listProcessors = true) :
    parse? arguments.spell = some arguments := by
  have htext := arguments.textOf?_spelledItems
  have hlist : (textOf? arguments.spelledItems (.flag .listProcessors)).isSome =
      arguments.listProcessors := by
    rw [htext]
    exact isSome_flagText _
  have hpaths : textOf? arguments.spelledItems .file ≠ some "" ∧
      textOf? arguments.spelledItems (.setting .regions) ≠ some "" := by
    rw [htext, htext]
    exact ⟨hfile, hregions⟩
  have hasked : (textOf? arguments.spelledItems .file).isSome ∨
      (textOf? arguments.spelledItems (.flag .listProcessors)).isSome := by
    rw [hlist, htext]
    exact hsome
  rw [parse?, itemsOf?_spell, Option.bind_some,
    ofItems?_eq arguments.nodup_spelledItems hpaths hasked (htext _)
      (ofArgument_word arguments.address)]
  simp only [htext, isSome_flagText, Bool.not_not, Option.getD_some]

end Arguments

end Disassembly.CommandLine
