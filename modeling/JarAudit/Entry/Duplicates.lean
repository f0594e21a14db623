import Std.Data.TreeMap
import JarAudit.Entry.Basic

/-!
# Duplicate entries

Two entries match by name when they have the same full path, and by checksum when they have the same
checksum besides. A report has one pair of flags for each entry of the list it was made from;
raising the flags of a report on a list pairs them by position.
-/

namespace JarAudit

/-- Whether another entry matches. -/
structure MatchFlags where
  name : Bool := false
  checksum : Bool := false
  deriving DecidableEq, Repr

/-- The flags of a list of entries, and how many of each kind are raised. -/
structure DuplicateReport where
  flags : List MatchFlags := []
  nameMatches : Nat := 0
  checksumMatches : Nat := 0
  deriving DecidableEq, Repr

namespace DuplicateReport

/-- How often each number occurs. -/
def tally (numbers : List Nat) : Std.TreeMap Nat Nat compare :=
  numbers.foldl (fun counts number =>
    counts.alter number fun count => some (count.getD 0 + 1)) ∅

/-- The entries that share a path: how many there are, and how many of them have each checksum. -/
structure PathGroup where
  count : Nat := 0
  checksums : Std.TreeMap Nat Nat compare := ∅

/-- The group of entries with the given checksums. -/
def PathGroup.ofChecksums (checksums : List Nat) : PathGroup :=
  ⟨checksums.length, tally checksums⟩

/-- The checksums that occur under each full path, with repeats. -/
def checksumsByPath (entries : List Entry) : Std.TreeMap String (List Nat) compare :=
  entries.foldl (fun paths entry =>
    paths.alter entry.fullPath fun found => some (entry.checksum :: found.getD [])) ∅

/-- The entries under each full path. -/
def groupsByPath (entries : List Entry) : Std.TreeMap String PathGroup compare :=
  (checksumsByPath entries).map fun _ => PathGroup.ofChecksums

/-- The flags of one entry: more than one entry shares its path, and its path and checksum. -/
def flagsOf (groups : Std.TreeMap String PathGroup compare) (entry : Entry) : MatchFlags :=
  let group := groups[entry.fullPath]?.getD {}
  ⟨1 < group.count, 1 < group.checksums[entry.checksum]?.getD 0⟩

/-- Compares every entry with every other. -/
def detect (entries : List Entry) : DuplicateReport :=
  let flags := entries.map (flagsOf (groupsByPath entries))
  { flags, nameMatches := flags.countP (·.name), checksumMatches := flags.countP (·.checksum) }

/-- Some entries share a path. -/
def hasDuplicates (report : DuplicateReport) : Bool := 0 < report.nameMatches

/-- Raises flags on an entry. -/
def raise (flags : MatchFlags) (entry : Entry) : Entry :=
  { entry with
    isNameMatch := entry.isNameMatch || flags.name
    isChecksumMatch := entry.isChecksumMatch || flags.checksum }

/-- How many flags would be raised that are not raised yet. -/
def newlyRaised (flags : MatchFlags) (entry : Entry) : Nat :=
  (flags.name && !entry.isNameMatch).toNat + (flags.checksum && !entry.isChecksumMatch).toNat

/-- Raises flags on entries by position, and tells how many were newly raised. Entries without flags
and flags without entries stay out of it. -/
def raiseAll : List MatchFlags → List Entry → List Entry × Nat
  | flags :: restFlags, entry :: rest =>
    let (raised, count) := raiseAll restFlags rest
    (raise flags entry :: raised, newlyRaised flags entry + count)
  | _, entries => (entries, 0)

/-- Raises the flags of a report on entries, and tells how many were newly raised. -/
def apply (report : DuplicateReport) (entries : List Entry) : List Entry × Nat :=
  raiseAll report.flags entries

end DuplicateReport

end JarAudit
