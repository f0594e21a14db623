import JarAudit.Files.Search

/-!
# Class paths

A class path is a list of archives. It is given as a list of files and directories, where a
directory stands for the archives below it, or by the directory of a platform, where the archives
with the platform's classes lie at known places.
-/

namespace JarAudit.ClassPath

open JarAudit.Files

/-- The archives with the classes of a platform. -/
def bootArchives : List String :=
  ["rt.jar", "jce.jar", "jsse.jar", "charsets.jar", "resources.jar", "jfr.jar"]

/-- A name is that of an archive. -/
def isArchiveName (name : String) : Bool := Path.extensionOf? name == some "jar"

/-- The archives at and below a path. The path `-` stands for what is read from outside, where no
archive is. -/
def archivesBelow (tree : Tree) (path : String) : List String :=
  if Path.hasSameParts path "-" then [] else search tree isArchiveName path

/-- The archives that a list of files and directories stands for; a file counts whatever its name.
-/
def expand (tree : Tree) (elements : List String) : List String :=
  elements.flatMap fun element =>
    if tree.isDirectory element then archivesBelow tree element
    else if tree.isFile element then [element]
    else []

/-- Where the archives lie in the directory of a platform. -/
def platformPlaces (home : String) : List String :=
  [Path.join (Path.join home "jre") "lib", Path.join home "lib"]

/-- The archives of the platform in a directory. -/
def ofPlatform (tree : Tree) (home : String) : List String :=
  ((platformPlaces home).flatMap fun place => bootArchives.map (Path.join place)).filter tree.isFile

end JarAudit.ClassPath
