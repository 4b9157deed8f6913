/-!
# Files

What a path leads to in a tree of directories. A path is read from the left, from the root if it
begins with a slash and from the current directory otherwise; the first part that leads nowhere
decides.

* `Place.read`: the bytes of the file at a path.
* `Place.create`: whether a file can be made at a path.
* `FileFault`: why not.
-/

namespace MerkleBatch.CommandLine

/-- Why there is no file at a path. -/
inductive FileFault where
  | missing
  | notDirectory
  | isDirectory
  | nameTooLong
  /-- Another reason, in these words. -/
  | other (message : String)
deriving DecidableEq

namespace FileFault

/-- The wording of a fault. -/
def message : FileFault → String
  | missing => "No such file or directory (os error 2)"
  | notDirectory => "Not a directory (os error 20)"
  | isDirectory => "Is a directory (os error 21)"
  | nameTooLong => "File name too long (os error 36)"
  | other message => message

end FileFault

/-- A file, or a directory with its entries. -/
inductive Node where
  | file (bytes : List UInt8)
  | directory (entries : List (String × Node))

/-- A directory within a tree. -/
structure Place where
  /-- The directories around the current one, the innermost first and the root last. -/
  around : List Node
  current : Node

/-- The parts of a path between its slashes. -/
def parts : List Char → List (List Char)
  | [] => [[]]
  | '/' :: rest => [] :: parts rest
  | c :: rest =>
    match parts rest with
    | [] => [[c]]
    | part :: more => (c :: part) :: more

/-- The greatest number of bytes of a part of a path. -/
def maxName : Nat := 255

/-- The greatest number of bytes of a path. -/
def maxPath : Nat := 4095

namespace Node

/-- What the parts of a path lead to from a node, within the directories around it. -/
def walk (around : List Node) (node : Node) : List String → Except FileFault Node
  | [] => .ok node
  | name :: rest =>
    match node with
    | file _ => .error .notDirectory
    | directory entries =>
      if name = "" ∨ name = "." then walk around node rest
      else if name = ".." then
        match around with
        | [] => walk [] node rest
        | outer :: around => walk around outer rest
      else if maxName < name.utf8ByteSize then .error .nameTooLong
      else
        match entries.lookup name with
        | none => .error .missing
        | some inner => walk (node :: around) inner rest

end Node

namespace Place

/-- The root of the tree. -/
def root (p : Place) : Node := p.around.getLast?.getD p.current

/-- What the parts of a path lead to. -/
def walk (p : Place) (path : String) (names : List String) : Except FileFault Node :=
  if maxPath < path.utf8ByteSize then .error .nameTooLong
  else if path.toList.head? = some '/' then p.root.walk [] names
  else p.current.walk p.around names

/-- The bytes of the file at a path. -/
def read (p : Place) (path : String) : Except FileFault (List UInt8) :=
  match p.walk path ((parts path.toList).map String.ofList) with
  | .error fault => .error fault
  | .ok (.directory _) => .error .isDirectory
  | .ok (.file bytes) => .ok bytes

/-- Whether a file can be made at a path, or made empty where there is one. -/
def create (p : Place) (path : String) : Except FileFault Unit :=
  let names := ((parts path.toList).map String.ofList).filter (· ≠ "")
  let last := names.getLast?.getD "."
  match p.walk path names.dropLast with
  | .error fault => .error fault
  | .ok (.file _) => .error .notDirectory
  | .ok (.directory entries) =>
    if last = "." ∨ last = ".." ∨ path.toList.getLast? = some '/' then .error .isDirectory
    else if maxName < last.utf8ByteSize then .error .nameTooLong
    else
      match entries.lookup last with
      | some (.directory _) => .error .isDirectory
      | some (.file _) | none => .ok ()

end Place

end MerkleBatch.CommandLine
