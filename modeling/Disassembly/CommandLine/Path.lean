/-!
# Paths as text

The names of the files that go with an input are made from its path, and the path is taken as it
is written: what is not asked to change stays, doubled slashes and all. Slashes and `/.` behind the
last part of a path say nothing (`body`).
-/

namespace Disassembly.CommandLine.Path

/-- A path, read from its end, without the slashes and `/.` there. -/
def dropIdle : List Char → List Char
  | '/' :: rest => dropIdle rest
  | '.' :: '/' :: rest => dropIdle rest
  | reversed => reversed

/-- A path up to the end of its last part. Nothing is left of the root. -/
def body (path : List Char) : List Char := (dropIdle path.reverse).reverse

/-- The last part of a path's body, and what stands before it, the slash between them included. -/
def splitLast (path : List Char) : List Char × List Char :=
  let reversed := (body path).reverse
  ((reversed.dropWhile (· ≠ '/')).reverse, (reversed.takeWhile (· ≠ '/')).reverse)

def isAbsolute (path : String) : Bool := path.toList.head? = some '/'

/-- A file name without its extension. A dot at the very front begins no extension. -/
def stem (name : List Char) : List Char :=
  match name.reverse.dropWhile (· ≠ '.') with
  | '.' :: before => if before.isEmpty then name else before.reverse
  | _ => name

/-- A path with its extension, if it has one, replaced. What names no file has none and stays. -/
def withExtension (path extension : String) : String :=
  let (before, name) := splitLast path.toList
  if name = [] ∨ name = ['.'] ∨ name = ['.', '.'] then path
  else String.ofList (before ++ stem name ++ '.' :: extension.toList)

/-- The directory in which a path lies: nothing for a path of one part, the root for what lies
    there. The root itself lies nowhere. -/
def parent? (path : String) : Option String :=
  let (before, name) := splitLast path.toList
  if name = [] then none
  else
    let directory := body before
    if directory = [] ∧ before.head? = some '/' then some "/"
    else some (String.ofList directory)

/-- A relative path taken from a directory. -/
def join (directory path : String) : String :=
  if directory = "" ∨ directory.toList.getLast? = some '/' then directory ++ path
  else directory ++ "/" ++ path

/-- Where a path leads that is given beside another one: relative paths start in the directory of
    the other. -/
def beside (other path : String) : String :=
  if isAbsolute path then path
  else match parent? other with
    | some directory => join directory path
    | none => path

end Disassembly.CommandLine.Path
