import Disassembly.Text.Split

/-!
# Files

What a path can lead to (`Entry`), and a tree of files in which paths are followed (`FileTree`).
The program sees files through entries alone, and so does not ask where they come from.
-/

namespace Disassembly.CommandLine

/-! ## 1. Entries -/

/-- What a path leads to. -/
inductive Entry where
  /-- Nothing that can be opened, in the words of the system. -/
  | refused (cause : String)
  | directory
  | file (bytes : ByteArray)

namespace Entry

/-- There is nothing of that name. -/
def absent : Entry := refused "No such file or directory (os error 2)"

/-- A part of the path before its end is a file. -/
def behindFile : Entry := refused "Not a directory (os error 20)"

/-- What the system says to an attempt to read a directory. Opening it is no fault. -/
def directoryFault : String := "Is a directory (os error 21)"

def isFile : Entry → Bool
  | file _ => true
  | refused _ | directory => false

/-- The text of the entry, or what keeps it from being read. -/
def text : Entry → Except String String
  | refused cause => .error cause
  | directory => .error directoryFault
  | file bytes =>
    match String.fromUTF8? bytes with
    | some text => .ok text
    | none => .error "stream did not contain valid UTF-8"

end Entry

/-! ## 2. Trees -/

/-- A node of a tree. -/
inductive Node where
  | directory
  | file (bytes : ByteArray)

/-- The nodes below a directory, each with the names that lead to it. -/
abbrev FileTree := List (List String × Node)

/-- Where following a path has come to: below the directory it set out from, or above it. -/
inductive Place where
  | below (names : List String)
  | above
deriving DecidableEq, Repr

namespace FileTree

/-- The node that some names lead to. -/
def node? (tree : FileTree) (names : List String) : Option Node := tree.lookup names

/-- The tree with a directory and those on the way to it. -/
def addDirectory (tree : FileTree) (names : List String) : FileTree :=
  (List.range names.length).foldl
    (fun tree count =>
      let names := names.take (count + 1)
      if (tree.node? names).isSome then tree else tree ++ [(names, .directory)])
    tree

/-- The tree with a file and the directories on the way to it. -/
def addFile (tree : FileTree) (names : List String) (bytes : ByteArray) : FileTree :=
  (names, .file bytes) :: tree.addDirectory names.dropLast

/-- Follows the parts of a path. Empty parts and `.` stay where they are, `..` goes back, and where
    there is nothing to go back to (`top` says where that leads) it is outside the tree, of which
    nothing is known but that it is directories. -/
def follow (tree : FileTree) (top : Place) : Place → List String → Entry
  | _, [] => .directory
  | place, name :: others =>
    if name = "" ∨ name = "." then follow tree top place others
    else match place with
      | .above => if name = ".." then follow tree top .above others else .absent
      | .below names =>
        if name = ".." then
          follow tree top (if names = [] then top else .below names.dropLast) others
        else match tree.node? (names ++ [name]) with
          | none => .absent
          | some .directory => follow tree top (.below (names ++ [name])) others
          | some (.file bytes) => if others.isEmpty then .file bytes else .behindFile

/-- What is known below the root of any system: a device that reads as an empty file. -/
def system : FileTree := [(["dev"], .directory), (["dev", "null"], .file .empty)]

/-- What a path leads to, where a relative one starts at the tree. -/
def entry (tree : FileTree) (path : String) : Entry :=
  if path = "" then .absent
  else
    let parts := (Text.split '/' path.toList).map String.ofList
    if path.toList.head? = some '/' then system.follow (.below []) (.below []) parts
    else tree.follow .above (.below []) parts

end FileTree

end Disassembly.CommandLine
