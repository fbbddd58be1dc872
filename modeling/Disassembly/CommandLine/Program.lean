import Disassembly.CommandLine.Arguments
import Disassembly.CommandLine.FileTree
import Disassembly.CommandLine.Path
import Disassembly.Setup

/-!
# The program

What the program does is decided by its arguments and by what a few paths lead to: the input, the
label file that lies beside it under the same name, and the block file that was asked for. This
file says which paths those are (`Arguments.paths`) and what comes of it (`run`).

The input is opened before the label file is looked for, and the label file is read before the
block file; the first of them that cannot be used decides. A label file that is not there is not
missed.
-/

namespace Disassembly.CommandLine

/-! ## 1. What the program answers -/

/-- What the program answers. -/
inductive Exit where
  /-- The arguments were not understood. -/
  | usage
  /-- The exit status, and what was written as output and as messages. -/
  | done (status : Nat) (output : String) (messages : String)
deriving DecidableEq, Repr

/-- What made the program fail, and what made that fail. -/
structure Failure where
  message : String
  cause : Option String := none
deriving DecidableEq, Repr

namespace Failure

/-- The words for a failure, with a cause set apart from what it caused. -/
def text (failure : Failure) : String :=
  "Error: " ++ failure.message ++ "\n" ++
    match failure.cause with
    | some cause => "\nCaused by:\n    " ++ cause ++ "\n"
    | none => ""

/-- The failure of a run. -/
def ofFault (fault : Fault) : Failure where
  message := fault.message
  cause := match fault with
    | .io detail => some detail
    | .unknownMode .. => none

end Failure

/-! ## 2. Paths -/

/-- Behind the name of a label file. -/
def labelExtension : String := "lbl"

def labelPath (file : String) : String := Path.withExtension file labelExtension

namespace Arguments

/-- The paths that the program looks at. -/
def paths (arguments : Arguments) : List String :=
  match arguments.file with
  | some file =>
    [file, labelPath file] ++ (arguments.regions.map (Path.beside file)).toList
  | none => []

def options (arguments : Arguments) : Options where
  start := arguments.address
  listing := arguments.listing
  undocumented := arguments.undocumented
  showInvalid := arguments.showInvalid

end Arguments

/-! ## 3. What the program does -/

/-- The processors with their descriptions, one a line. -/
def processorList : String :=
  String.join (Registry.processors.map fun processor =>
    Text.padRight 8 processor.id ++ processor.description ++ "\n")

/-- A line for every opcode that a processor defines more than once. -/
def warnings (d : Disassembler) : String :=
  String.join (d.instructions.table.collisions.map fun collision =>
    "warning: opcode $" ++ Hex.number 4 collision.opcode ++
      " defined more than once, using last definition\n")

/-- Sets a disassembler up with the text of a definition file. `what` is what the file declares. -/
def define (what path : String) (entry : Entry)
    (use : String → Except Error Disassembler) : Except Failure Disassembler :=
  match entry.text with
  | .error cause =>
    .error { message := "Failed to read " ++ what ++ " file: " ++ path, cause := some cause }
  | .ok text =>
    (use text).mapError fun error =>
      { message := "Failed to parse " ++ what ++ " file: " ++ path, cause := some error.message }

/-- Opens the input. -/
def openInput (path : String) : Entry → Except Failure Source
  | .refused cause =>
    .error { message := "Failed to open input file: " ++ path, cause := some cause }
  | .directory => .ok { pending := [.fault Entry.directoryFault] }
  | .file bytes => .ok (.ofBytes bytes.data.toList)

/-- The disassembler with the definition files of an input, and the opened input. -/
def prepare (files : String → Entry) (arguments : Arguments) (file : String) (d : Disassembler) :
    Except Failure (Disassembler × Source) := do
  let source ← openInput file (files file)
  let label := labelPath file
  let d ←
    if (files label).isFile then define "label" label (files label) d.withLabels else pure d
  let d ← match arguments.regions with
    | some path =>
      let path := Path.beside file path
      define "block" path (files path) d.withRegions
    | none => pure d
  return (d, source)

/-- Disassembles a file as the arguments ask for. -/
def disassembleFile (files : String → Entry) (arguments : Arguments) (file : String) : Exit :=
  match Disassembler.forName arguments.processor arguments.options with
  | .error error => .done 1 "" { message := error.message : Failure }.text
  | .ok d =>
    match prepare files arguments file d with
    | .error failure => .done 1 "" (warnings d ++ failure.text)
    | .ok (d, source) =>
      let report := d.run source
      match report.result with
      | .ok _ => .done 0 report.text (warnings d)
      | .error fault => .done 1 report.text (warnings d ++ (Failure.ofFault fault).text)

/-- The program, as far as arguments have been understood. -/
def perform (files : String → Entry) (arguments : Arguments) : Exit :=
  if arguments.listProcessors then .done 0 processorList ""
  else match arguments.file with
    | some file => disassembleFile files arguments file
    | none => .usage

/-- The program. -/
def run (files : String → Entry) (arguments : List String) : Exit :=
  match Arguments.parse? arguments with
  | some arguments => perform files arguments
  | none => .usage

end Disassembly.CommandLine
