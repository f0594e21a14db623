/-!
# Paths

Paths are texts with `/` between their components. A path that starts with `/` is absolute. Empty
components and `.` mean nothing, except that a relative path may start with `.`; `..` is a component
like any other here, for only a file tree can tell where it leads.
-/

namespace JarAudit.Files.Path

/-- What stands between the separators. -/
def pieces (path : String) : List String := (path.toList.splitOn '/').map String.ofList

/-- The path starts at the root. -/
def isAbsolute (path : String) : Bool := path.toList.head? == some '/'

/-- The path ends in a separator. -/
def endsInSeparator (path : String) : Bool := path.toList.getLast? == some '/'

/-- The piece means nothing. -/
def isIdle (piece : String) : Bool := piece == "" || piece == "."

/-- Pieces without those at the end that mean nothing. -/
def dropIdle (pieces : List String) : List String := (pieces.reverse.dropWhile isIdle).reverse

/-- Pieces of a relative path without those at the end that mean nothing; a `.` at the start stays.
-/
def dropIdleRelative : List String → List String
  | [] => []
  | first :: rest =>
    match dropIdle rest with
    | [] => if first == "" then [] else [first]
    | rest => first :: rest

/-- The significant end of a path, and the pieces before it: for an absolute path without the piece
before the root. -/
def splitLast (path : String) : Option (List String × String) :=
  let kept :=
    if isAbsolute path then dropIdle ((pieces path).drop 1) else dropIdleRelative (pieces path)
  match kept.reverse with
  | [] => none
  | last :: before => some (before.reverse, last)

/-- The path without its last component; empty if there is none to drop. -/
def parent (path : String) : String :=
  match splitLast path with
  | none => ""
  | some (before, _) =>
    if isAbsolute path then "/" ++ "/".intercalate (dropIdle before)
    else "/".intercalate (dropIdleRelative before)

/-- The last component, if it is a name. -/
def fileName? (path : String) : Option String :=
  match splitLast path with
  | some (_, last) => if last == "." || last == ".." then none else some last
  | none => none

/-- What follows the last dot of a name; a dot at the start does not count. -/
def extensionOf? (name : String) : Option String :=
  let backwards := name.toList.reverse
  let tail := backwards.takeWhile (· != '.')
  if tail.length + 1 < backwards.length then some (String.ofList tail.reverse) else none

/-- The path's last component is a name with this extension. -/
def hasExtension (path wanted : String) : Bool :=
  ((fileName? path).bind extensionOf?) == some wanted

/-- A path as seen from a base. -/
def join (base path : String) : String :=
  if isAbsolute path || base.isEmpty then path
  else if endsInSeparator base then base ++ path
  else base ++ "/" ++ path

/-- The absolute path along some names. -/
def ofNames (names : List String) : String := "/" ++ "/".intercalate names

/-- The components that mean something. -/
def components (path : String) : List String := (pieces path).filter (!isIdle ·)

/-- The parts of a path that count when paths are compared: the root, or what comes first in a
relative path, and behind it what means something. -/
def parts (path : String) : List String :=
  let start := if isAbsolute path then "/" else (pieces path).headD ""
  [start].filter (· != "") ++ ((pieces path).drop 1).filter (!isIdle ·)

/-- Two paths have the same parts. -/
def hasSameParts (a b : String) : Bool := parts a == parts b

/-- A path without a text at its start, if it starts with it. -/
def dropStart? (start path : String) : Option String :=
  if start.toList.isPrefixOf path.toList then some (String.ofList (path.toList.drop start.length))
  else none

/-- A path without one `./` at its start. -/
def dropDot (path : String) : String := (dropStart? "./" path).getD path

/-- A path without the text of a directory at its start and one separator behind it; the whole path
if it does not start like that. -/
def below (directory path : String) : String :=
  match dropStart? directory path with
  | some rest => (dropStart? "/" rest).getD rest
  | none => path

/-- An absolute form of a path, as seen from an absolute directory; `..` stays. Two separators at
the start, and no more, are kept as they are. -/
def absolute (directory path : String) : String :=
  let start :=
    if !isAbsolute path then directory
    else match path.toList with
      | '/' :: '/' :: '/' :: _ => "/"
      | '/' :: '/' :: _ => "//"
      | _ => "/"
  let whole := (components path).foldl join start
  if endsInSeparator path && !endsInSeparator whole then whole ++ "/" else whole

end JarAudit.Files.Path
