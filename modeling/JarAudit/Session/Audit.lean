import JarAudit.Session.Query

/-!
# Questions about a whole session

All class images of a session are gone through at once. An archive that cannot be read and an image
that cannot be read are set aside with the reason, and the others are reported on.
-/

namespace JarAudit

open JarAudit.Files JarAudit.ClassFile

/-- A class image of a session. -/
structure ClassImage where
  /-- The archive that holds the image; empty for a file that stands alone. -/
  archive : String
  entry : String
  /-- The name by which the class does not miss itself. -/
  self : Option String
  image : List UInt8

/-- What could not be read, and why. An archive that could not be read has no entry. -/
structure EntryFailure where
  archive : String
  entry : String
  error : Failure
  deriving DecidableEq, Repr

/-- The classes that the images of a session miss. -/
structure VerifyReport where
  scanned : Nat := 0
  missing : NameSet := ∅
  failures : List EntryFailure := []

/-- The classes that the images of a session refer to. -/
structure ReferenceReport where
  scanned : Nat := 0
  referenced : NameSet := ∅
  failures : List EntryFailure := []

/-- Parts a list of results: what went well and what went wrong, both in order. -/
def partResults (results : List (Except ε α)) : List α × List ε :=
  (results.filterMap fun | .ok value => some value | .error _ => none,
    results.filterMap fun | .ok _ => none | .error error => some error)

namespace Session

/-- The class images in an archive. A class goes by the name of its record. -/
def archiveImages (tree : Tree) (archive : String) : Except EntryFailure (List ClassImage) :=
  match Jar.classFiles tree archive with
  | .ok files => .ok (files.map fun (entry, image) =>
      { archive, entry, self := Entry.dropClassSuffix? entry, image })
  | .error error => .error { archive, entry := "", error }

/-- The class image of a file that stands alone. The class goes by the name that the image gives. -/
def fileImage (tree : Tree) (entry : Entry) : Except EntryFailure (List ClassImage) :=
  match read tree entry with
  | .ok image => .ok [{
      archive := "", entry := entry.fullPath, self := (parse image).outline.className, image }]
  | .error error => .error { archive := "", entry := entry.fullPath, error }

/-- The class images of a session, and what could not be read. -/
def images (session : Session) (tree : Tree) : List ClassImage × List EntryFailure :=
  let results := match session.kind with
    | .classFile => session.entries.map (fileImage tree)
    | .archive =>
      (session.archives.filter (·.found)).map fun status => archiveImages tree status.path
  let (read, failures) := partResults results
  (read.flatten, failures)

/-- The classes that an image refers to, beside the image. -/
def scanImage (image : ClassImage) : Except EntryFailure (ClassImage × List String) :=
  match Reference.references image.image with
  | .ok names => .ok (image, names)
  | .error fault =>
    .error { archive := image.archive, entry := image.entry, error := ⟨.imageFault fault, []⟩ }

/-- The images of a session that could be scanned with the classes they refer to, and everything
that could not be read or scanned: first what could not be read. -/
def scanned (session : Session) (tree : Tree) :
    List (ClassImage × List String) × List EntryFailure :=
  let (images, unread) := session.images tree
  let (scanned, unscanned) := partResults (images.map scanImage)
  (scanned, unread ++ unscanned)

/-- Reports the classes that some image refers to and that are not at hand for it. -/
def verify (session : Session) (tree : Tree) (system : NameSet) : VerifyReport :=
  let (scanned, failures) := session.scanned tree
  { scanned := scanned.length
    missing := scanned.foldl (fun set (image, names) =>
      NameSet.addAll set (JarAudit.missing names session.provided system image.self).toList) ∅
    failures }

/-- Reports the classes that some image refers to. -/
def referenced (session : Session) (tree : Tree) : ReferenceReport :=
  let (scanned, failures) := session.scanned tree
  { scanned := scanned.length
    referenced := scanned.foldl (fun set (_, names) => NameSet.addAll set names) ∅
    failures }

end Session

end JarAudit
