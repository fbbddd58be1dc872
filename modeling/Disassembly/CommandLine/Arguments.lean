import Disassembly.Address.Field

/-!
# Command line arguments

The program takes one file and a few options. An option has a long name, most have a short one
too; some stand alone (`Flag`), some take a value (`Setting`). The arguments are read in two
steps: into items, one for each thing said (`itemsOf?`), and from the items into `Arguments`. In
both there is one way to fail, a usage error, and no item is acted on before all have been read.

* Short options may share a dash; the last of them may take a value.
* A value follows in the same argument, behind `=` or, for a short option, at once; or it is the
  next argument, which then must not look like an option. A lone dash does not.
* Behind `--` every argument is a file.
* Nothing may be said twice.
-/

namespace Disassembly.CommandLine

/-! ## 1. Options -/

/-- An option that stands alone. -/
inductive Flag where
  | noListing
  | undocumented
  | showInvalid
  | listProcessors
deriving DecidableEq, Repr

/-- An option that takes a value. -/
inductive Setting where
  | processor
  | address
  | regions
deriving DecidableEq, Repr

/-- What an argument may be about. -/
inductive Topic where
  | flag (flag : Flag)
  | setting (setting : Setting)
  | file
deriving DecidableEq, Repr

/-- The option of a short name. -/
def shortOption? : Char → Option (Flag ⊕ Setting)
  | 'n' => some (.inl .noListing)
  | 'u' => some (.inl .undocumented)
  | 'i' => some (.inl .showInvalid)
  | 'c' => some (.inr .processor)
  | 'a' => some (.inr .address)
  | 'b' => some (.inr .regions)
  | _ => none

/-- The option of a long name. -/
def longOption? (name : String) : Option (Flag ⊕ Setting) :=
  [("nolist", Sum.inl Flag.noListing), ("undocumented", .inl .undocumented),
   ("invalid", .inl .showInvalid), ("list-cpus", .inl .listProcessors),
   ("cpu", .inr .processor), ("address", .inr .address), ("block", .inr .regions)].lookup name

/-! ## 2. Items -/

/-- One thing said: what it is about, and the value or file that was named. -/
structure Item where
  topic : Topic
  text : String := ""
deriving DecidableEq, Repr

/-- What one argument says, and the option at its end that still waits for its value. -/
structure Said where
  items : List Item := []
  waiting : Option Setting := none
deriving DecidableEq, Repr

/-- A value in the argument of its option, behind `=` or at once. -/
def attached : List Char → String
  | '=' :: value => String.ofList value
  | value => String.ofList value

/-- What the short options behind one dash say. -/
def shortOptions? : List Char → Option Said
  | [] => some {}
  | name :: others =>
    match shortOption? name with
    | none => none
    | some (.inl flag) =>
      (shortOptions? others).map fun said =>
        { said with items := { topic := .flag flag } :: said.items }
    | some (.inr setting) =>
      if others.isEmpty then some { waiting := some setting }
      else some { items := [{ topic := .setting setting, text := attached others }] }

/-- What a long option says, read from behind its two dashes. -/
def longOption (text : List Char) : Option Said :=
  let name := String.ofList (text.takeWhile (· ≠ '='))
  let value := text.dropWhile (· ≠ '=')
  match longOption? name with
  | none => none
  | some (.inl flag) => if value.isEmpty then some { items := [{ topic := .flag flag }] } else none
  | some (.inr setting) =>
    if value.isEmpty then some { waiting := some setting }
    else some { items := [{ topic := .setting setting, text := attached value }] }

/-- What an argument says that is not `--`. A lone dash is the name of a file. -/
def said? (argument : String) : Option Said :=
  match argument.toList with
  | '-' :: '-' :: text => longOption text
  | '-' :: name :: others => shortOptions? (name :: others)
  | _ => some { items := [{ topic := .file, text := argument }] }

/-- Whether an argument may be the value of the option before it. -/
def isValue (argument : String) : Bool :=
  match argument.toList with
  | '-' :: _ :: _ => false
  | _ => true

/-- Everything that a list of arguments says. -/
def itemsOf? : List String → Option (List Item)
  | [] => some []
  | argument :: others =>
    if argument = "--" then some (others.map fun name => { topic := .file, text := name })
    else
      match said? argument with
      | none => none
      | some { items, waiting := none } => (itemsOf? others).map (items ++ ·)
      | some { items, waiting := some setting } =>
        match others with
        | [] => none
        | value :: others =>
          if isValue value then
            (itemsOf? others).map (items ++ { topic := .setting setting, text := value } :: ·)
          else none

/-! ## 3. Arguments -/

/-- What the arguments ask for. -/
structure Arguments where
  /-- There is one unless the processors are to be listed. -/
  file : Option String
  processor : String := "6502"
  address : Address := 0
  regions : Option String := none
  listing : Bool := true
  undocumented : Bool := false
  showInvalid : Bool := false
  listProcessors : Bool := false
deriving DecidableEq, Repr

namespace Arguments

/-- What is said about a topic. -/
def textOf? (items : List Item) (topic : Topic) : Option String :=
  (items.find? (·.topic = topic)).map (·.text)

/-- The arguments of a list of items. Paths must not be empty. -/
def ofItems? (items : List Item) : Option Arguments := do
  guard (items.map (·.topic)).Nodup
  let given flag := (textOf? items (.flag flag)).isSome
  let file := textOf? items .file
  let regions := textOf? items (.setting .regions)
  guard (file ≠ some "" ∧ regions ≠ some "")
  guard (file.isSome ∨ given .listProcessors)
  let address ← match textOf? items (.setting .address) with
    | some text => (Address.ofArgument text.toList).toOption
    | none => some 0
  return {
    file
    processor := (textOf? items (.setting .processor)).getD "6502"
    address
    regions
    listing := !given .noListing
    undocumented := given .undocumented
    showInvalid := given .showInvalid
    listProcessors := given .listProcessors }

/-- The arguments as they are given, where they are understood. -/
def parse? (arguments : List String) : Option Arguments := (itemsOf? arguments).bind ofItems?

end Arguments

end Disassembly.CommandLine
