import Disassembly.CommandLine.Program

/-!
# The program on this system

Reads what the paths of the program lead to, lets the program decide, and writes what it answers.
-/

namespace Disassembly.CommandLine

/-- What a path leads to on this system. -/
def look (path : String) : IO Entry := do
  match ← (IO.FS.readBinFile path).toBaseIO with
  | .ok bytes => return .file bytes
  | .error (.inappropriateType _ code _) => return if code = 21 then .directory else .behindFile
  | .error (.permissionDenied ..) => return .refused "Permission denied (os error 13)"
  | .error _ => return .absent

/-- The paths of a list of arguments with what they lead to. -/
def lookAll (arguments : List String) : IO (List (String × Entry)) := do
  match Arguments.parse? arguments with
  | some arguments => arguments.paths.mapM fun path => return (path, ← look path)
  | none => return []

end Disassembly.CommandLine

open Disassembly.CommandLine in
def main (arguments : List String) : IO UInt32 := do
  let entries ← lookAll arguments
  match run (fun path => (entries.lookup path).getD .absent) arguments with
  | .usage =>
    IO.eprintln "error: arguments not understood"
    return 2
  | .done status output messages =>
    IO.print output
    IO.eprint messages
    return UInt32.ofNat status
