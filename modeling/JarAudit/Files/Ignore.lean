import JarAudit.Files.Glob.Limits
import JarAudit.Files.Glob.Matching
import JarAudit.Files.Glob.Reading
import JarAudit.Files.Path
import JarAudit.Text.Blank
import JarAudit.Text.Pieces

/-!
# Ignore files

A directory may hold a file of rules that say which of the files and directories below it are passed
over. A rule is a glob, one a line. A rule with a separator before its end is about a path from the
directory on, any other about a name anywhere below; a separator at the end makes a rule one about
directories only, and an exclamation mark turns it into one against passing over. The last rule that
matches decides.

Paths are compared as they are written, not by where they lead: a path is about what is below a
directory when its text begins with the text of the directory.
-/

namespace JarAudit.Files

open JarAudit.Text

/-- A rule of an ignore file. -/
structure IgnoreRule where
  glob : Glob
  /-- What matches is kept. -/
  keeps : Bool
  onlyDirectories : Bool

namespace IgnoreRule

/-- The name of the files that hold rules. -/
def fileName : String := ".ignore"

/-- The glob of a rule from what is left of its line: a rule that is not bound to the directory
matches at any depth, and one for everything in a directory does not match the directory itself. -/
def anchor (bound : Bool) (pattern : List Char) : List Char :=
  let deep := bound || pattern.contains '/' || pattern == ['*', '*']
  let pattern := if deep then pattern else ['*', '*', '/'] ++ pattern
  if "/**".toList.isSuffixOf pattern then pattern ++ ['/', '*'] else pattern

/-- Reads a line. Comments, empty lines and globs that cannot be read are no rules. Blanks at the
end do not count unless a backslash stands before the last one. -/
def ofLine? (line : List Char) : Option IgnoreRule :=
  let line := if "\\ ".toList.isSuffixOf line then line else trimEnd line
  match line with
  | [] | '#' :: _ => none
  | _ =>
    let (keeps, bound, pattern) := match line with
      | '\\' :: '!' :: rest => (false, false, '!' :: rest)
      | '\\' :: '#' :: rest => (false, false, '#' :: rest)
      | '!' :: '/' :: rest => (true, true, rest)
      | '!' :: rest => (true, false, rest)
      | '/' :: rest => (false, true, rest)
      | rest => (false, false, rest)
    let onlyDirectories := pattern.getLast? == some '/'
    let pattern := if onlyDirectories then
        let pattern := pattern.dropLast
        if pattern.getLast? == some '\\' then pattern.dropLast else pattern
      else pattern
    (Glob.ofString? (String.ofList (anchor bound pattern))).map fun glob =>
      { glob, keeps, onlyDirectories }

/-- The text of a file up to the first line that is no text. -/
def readable (contents : ByteArray) : List (List Char) :=
  let lines := (cutBehind (· == 0x0A) contents.data.toList).map fun line =>
    String.fromUTF8? ⟨line.toArray⟩
  (lines.takeWhile Option.isSome).filterMap fun line? =>
    line?.map fun line => dropLineEnding line.toList

/-- The rules of a file. A byte order mark at the start is no part of the first rule. Rules whose
globs cannot be used together do not count. -/
def ofFile (contents : ByteArray) : List IgnoreRule :=
  let lines := match readable contents with
    | [] => []
    | first :: rest => first.dropWhile (· == '\ufeff') :: rest
  let rules := lines.filterMap ofLine?
  if Glob.areUsable (rules.map (·.glob)) then rules else []

/-- What rules say about a path: to pass over it, to keep it, or nothing. -/
def verdict? (rules : List IgnoreRule) (path : String) (isDirectory : Bool) : Option Bool :=
  (rules.reverse.find? fun rule =>
    (!rule.onlyDirectories || isDirectory) && rule.glob.isMatch path).map fun rule => !rule.keeps

end IgnoreRule

/-- The rules of a directory and the path of the directory as it is written. -/
structure IgnoreLayer where
  directory : String
  rules : List IgnoreRule

namespace IgnoreLayer

/-- A path as the rules see it: from the directory on, if the path is written with the directory at
its start. A name alone and what is below `.` have no directory to take off. -/
def relative (layer : IgnoreLayer) (path : String) : String :=
  let directory := Path.dropDot layer.directory
  let path := Path.dropDot path
  if Path.hasSameParts directory "." || !path.toList.contains '/' then path
  else Path.below directory path

/-- What the rules of a directory say about a path. -/
def verdict? (layer : IgnoreLayer) (path : String) (isDirectory : Bool) : Option Bool :=
  IgnoreRule.verdict? layer.rules (layer.relative path) isDirectory

end IgnoreLayer

/-- The rules that count where one stands, nearest first: those of the directories from a base on,
whose paths are written as the base is, and those of the directories above it, whose paths are
absolute. -/
structure IgnoreScope where
  base : String
  /-- The absolute path of the base. -/
  absoluteBase : String
  inner : List IgnoreLayer := []
  outer : List IgnoreLayer := []

namespace IgnoreScope

/-- The absolute path of what lies below the base. -/
def absolutePath (scope : IgnoreScope) (path : String) : String :=
  let path := Path.dropDot path
  Path.join scope.absoluteBase
    (if Path.hasSameParts scope.base "." then path else Path.below (Path.dropDot scope.base) path)

/-- Whether a path is passed over. -/
def passesOver (scope : IgnoreScope) (path : String) (isDirectory : Bool) : Bool :=
  let near := scope.inner.findSome? (·.verdict? (Path.dropDot path) isDirectory)
  let far := scope.outer.findSome? (·.verdict? (scope.absolutePath path) isDirectory)
  (near.or far).getD false

/-- Adds the rules of a directory below the base. A directory without rules adds no layer. -/
def enter (scope : IgnoreScope) (directory : String) (rules : List IgnoreRule) : IgnoreScope :=
  if rules.isEmpty then scope else { scope with inner := ⟨directory, rules⟩ :: scope.inner }

end IgnoreScope

end JarAudit.Files
