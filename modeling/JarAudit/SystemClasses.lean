import JarAudit.Jar

/-!
# The classes of the platform

The classes of all readable archives of a class path. Archives that cannot be read are set aside
with the reason. The archives are looked at once, when the classes are first asked for.
-/

namespace JarAudit

open JarAudit.Files

/-- An archive that could not be read, and why. -/
structure ArchiveFailure where
  archive : String
  error : Failure
  deriving DecidableEq, Repr

/-- What the archives of a class path hold. -/
structure SystemClasses where
  names : NameSet := ∅
  /-- The archives that could be read. -/
  archives : List String := []
  /-- The archives that could not be read. -/
  failures : List ArchiveFailure := []

namespace SystemClasses

/-- Adds what was found in one archive. -/
def add (classes : SystemClasses) (archive : String) (found : Except Failure (List String)) :
    SystemClasses :=
  match found with
  | .ok names =>
    { classes with
      names := NameSet.addAll classes.names names
      archives := classes.archives ++ [archive] }
  | .error error => { classes with failures := classes.failures ++ [⟨archive, error⟩] }

/-- Looks at the archives of a class path, in its order. -/
def load (tree : Tree) (classPath : List String) : SystemClasses :=
  classPath.foldl (fun classes archive => classes.add archive (Jar.classNames tree archive)) {}

end SystemClasses

/-- The classes of a class path, which may not have been asked for yet. -/
structure SystemLibrary where
  classPath : List String := []
  loaded : Option SystemClasses := none

namespace SystemLibrary

/-- The classes have been asked for. -/
def isLoaded (library : SystemLibrary) : Bool := library.loaded.isSome

/-- Asks for the classes: those found when they were first asked for. -/
def get (library : SystemLibrary) (tree : Tree) : SystemClasses × SystemLibrary :=
  match library.loaded with
  | some classes => (classes, library)
  | none =>
    let classes := SystemClasses.load tree library.classPath
    (classes, { library with loaded := some classes })

end SystemLibrary

end JarAudit
