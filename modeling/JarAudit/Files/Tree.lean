import JarAudit.Files.Path

/-!
# File trees

A file tree is a directory of named files and directories, with a working directory from which
relative paths are seen. A path is followed component by component: every component but the last has
to lead to a directory, also when what comes after it means nothing. Names in a directory are unique
and in order.
-/

namespace JarAudit.Files

/-- What the system answers when a path leads nowhere, or to something of the wrong kind. -/
inductive SystemFault where
  | notFound
  | notADirectory
  | isADirectory
  /-- A directory has no contents to map. -/
  | noDevice
  | nameTooLong
  /-- No file can have the path, for it holds the character NUL. -/
  | nulInName
  deriving DecidableEq, Repr

/-- The wording of a system fault. -/
def SystemFault.message : SystemFault → String
  | notFound => "No such file or directory (os error 2)"
  | notADirectory => "Not a directory (os error 20)"
  | isADirectory => "Is a directory (os error 21)"
  | noDevice => "No such device (os error 19)"
  | nameTooLong => "File name too long (os error 36)"
  | nulInName => "file name contained an unexpected NUL byte"

/-- A file or a directory. -/
inductive Node where
  /-- A file and when it was last modified, in seconds since the start of 1970. -/
  | file (contents : ByteArray) (modified : Int)
  | directory (children : List (String × Node))

namespace Node

instance : Inhabited Node := ⟨directory []⟩

/-- What a directory has under a name. -/
def child? (children : List (String × Node)) (name : String) : Option Node :=
  (children.find? (·.1 == name)).map (·.2)

/-- Puts a node under a name into a directory, in order of names, in place of what had the name. -/
def putChild (name : String) (node : Node) : List (String × Node) → List (String × Node)
  | [] => [(name, node)]
  | (other, old) :: rest =>
    if name == other then (name, node) :: rest
    else if name < other then (name, node) :: (other, old) :: rest
    else (other, old) :: putChild name node rest

/-- What lies at a place, given by the names that lead there. -/
def at? : List String → Node → Option Node
  | [], node => some node
  | name :: rest, directory children => (child? children name).bind (at? rest)
  | _ :: _, file .. => none

/-- Puts a node at a place; directories that lead there are made, and a file in the way is replaced
by one. -/
def put (node : Node) : List String → Node → Node
  | [], _ => node
  | name :: rest, directory children =>
    directory (putChild name (put node rest ((child? children name).getD (directory []))) children)
  | name :: rest, file .. => directory [(name, put node rest (directory []))]

/-- Takes away what lies at a place. -/
def remove : List String → Node → Node
  | [name], directory children => directory (children.filter (·.1 != name))
  | name :: rest, directory children =>
    match child? children name with
    | some node => directory (putChild name (remove rest node) children)
    | none => directory children
  | _, node => node

/-- Whether the node is a directory. -/
def isDirectory : Node → Bool
  | directory _ => true
  | file .. => false

end Node

/-- Files below a root, seen from a working directory. -/
structure Tree where
  root : Node := .directory []
  /-- The names that lead to the working directory. -/
  workingDirectory : List String := []

namespace Tree

/-- The absolute path of the working directory. -/
def workingPath (tree : Tree) : String := Path.ofNames tree.workingDirectory

/-- The longest name, in bytes. -/
def maxName : Nat := 255

/-- The longest path, in bytes. -/
def maxPath : Nat := 4095

/-- Follows pieces of a path from a place, which is held in reverse. -/
def follow (root : Node) : (place : List String) → List String → Except SystemFault (List String)
  | place, [] => .ok place
  | place, piece :: rest =>
    match root.at? place.reverse with
    | some (.directory children) =>
      if Path.isIdle piece then follow root place rest
      else if piece == ".." then follow root (place.drop 1) rest
      else if maxName < piece.utf8ByteSize then .error .nameTooLong
      else match Node.child? children piece with
        | some _ => follow root (piece :: place) rest
        | none => .error .notFound
    | some (.file ..) => .error .notADirectory
    | none => .error .notFound

/-- The place to which a path leads. -/
def locate (tree : Tree) (path : String) : Except SystemFault (List String) :=
  if path.toList.contains '\x00' then .error .nulInName
  else if path.isEmpty then .error .notFound
  else if maxPath < path.utf8ByteSize then .error .nameTooLong
  else
    let start := if Path.isAbsolute path then [] else tree.workingDirectory.reverse
    (follow tree.root start (Path.pieces path)).map List.reverse

/-- What a path leads to. -/
def node (tree : Tree) (path : String) : Except SystemFault Node := do
  match tree.root.at? (← tree.locate path) with
  | some node => return node
  | none => throw .notFound

/-- The contents and the time of a file. -/
def read (tree : Tree) (path : String) : Except SystemFault (ByteArray × Int) := do
  match ← tree.node path with
  | .file contents modified => return (contents, modified)
  | .directory _ => throw .isADirectory

/-- The path leads to a file. -/
def isFile (tree : Tree) (path : String) : Bool :=
  match tree.node path with
  | .ok (.file ..) => true
  | _ => false

/-- The path leads to a directory. -/
def isDirectory (tree : Tree) (path : String) : Bool :=
  match tree.node path with
  | .ok (.directory _) => true
  | _ => false

/-- The names that a path consists of when each `..` takes back the name before it. -/
def place (tree : Tree) (path : String) : List String :=
  let start := if Path.isAbsolute path then [] else tree.workingDirectory.reverse
  ((Path.components path).foldl (fun place name =>
    if name == ".." then place.drop 1 else name :: place) start).reverse

/-- Puts a node at a path, with the directories that lead there. -/
def write (tree : Tree) (path : String) (node : Node) : Tree :=
  { tree with root := Node.put node (tree.place path) tree.root }

/-- Takes away what is at a path. -/
def delete (tree : Tree) (path : String) : Tree :=
  { tree with root := tree.root.remove (tree.place path) }

end Tree

end JarAudit.Files
