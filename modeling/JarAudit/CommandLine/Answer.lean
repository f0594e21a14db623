import JarAudit.ClassFile.Listing
import JarAudit.ClassFile.Report
import JarAudit.CommandLine.Invocation
import JarAudit.Session.Audit
import JarAudit.SystemClasses

/-!
# Answers

What a command answers, and how it is written: as JSON with its fields in a fixed order, or as lines
of text. Sets are written in the order of their characters.
-/

namespace JarAudit.CommandLine

open JarAudit.ClassFile

/-- The answer to a command. -/
inductive Answer where
  | info (source entry : String) (outline : Outline)
  | refs (source entry : String) (referenced : NameSet)
  | missing (source entry : String) (system : SystemClasses) (missing : NameSet)
  | verify (path : String) (system : SystemClasses) (report : VerifyReport)
  | references (path : String) (report : ReferenceReport)
  | entries (path : String) (entries : List Entry)
  | duplicates (path : String) (nameMatches checksumMatches : List Entry)
  | archives (path : String) (kind : SessionKind) (manifest : Option Manifest)
    (archives : List ArchiveStatus)

namespace Answer

/-! ### As JSON -/

/-- The time that an answer took. It is not measured. -/
def duration : Json := .nat 0

/-- A set of names. -/
def ofNames (names : NameSet) : Json := .strings names.toList

/-- The archives of the platform that could not be read. -/
def ofArchiveFailures (failures : List ArchiveFailure) : Json :=
  .array (failures.map fun failure =>
    .object [("archive", .string failure.archive), ("error", .string failure.error.message)])

/-- The entries that could not be read. -/
def ofEntryFailures (failures : List EntryFailure) : Json :=
  .array (failures.map fun failure =>
    .object [("archive", .string failure.archive), ("entry", .string failure.entry),
      ("error", .string failure.error.message)])

/-- An entry. -/
def ofEntry (entry : Entry) : Json :=
  .object [("file_name", .string entry.fileName), ("directory", .string entry.directory),
    ("full_path", .string entry.fullPath), ("checksum", .nat entry.checksum),
    ("last_modified", .nat entry.lastModified), ("size_bytes", .nat entry.size),
    ("owning_archive", .string entry.owningArchive),
    ("is_checksum_match", .bool entry.isChecksumMatch), ("is_name_match", .bool entry.isNameMatch)]

/-- The status of an archive. -/
def ofStatus (status : ArchiveStatus) : Json :=
  .object [("path", .string status.path), ("found", .bool status.found),
    ("entry_count", .nat status.entryCount), ("size_bytes", .nat status.size),
    ("last_modified", .nat status.lastModified)]

/-- What a session is over. -/
def ofKind : SessionKind → Json
  | .archive => .string "archive"
  | .classFile => .string "class_file"

/-- The attributes of a manifest. -/
def attributes (manifest : Option Manifest) : List (String × String) :=
  match manifest with
  | some manifest => manifest.attributes
  | none => []

/-- An answer as JSON. -/
def json : Answer → Json
  | info source entry outline =>
    .object [("source", .string source), ("entry", .string entry),
      ("class", Report.ofSummary outline.summary)]
  | refs source entry referenced =>
    .object [("source", .string source), ("entry", .string entry),
      ("referenced", ofNames referenced)]
  | missing source entry system names =>
    .object [("source", .string source), ("entry", .string entry),
      ("system_classes", .nat system.names.size),
      ("system_failures", ofArchiveFailures system.failures), ("missing", ofNames names)]
  | verify path system report =>
    .object [("path", .string path), ("system_classes", .nat system.names.size),
      ("system_failures", ofArchiveFailures system.failures), ("duration_ms", duration),
      ("scanned_entries", .nat report.scanned), ("missing", ofNames report.missing),
      ("failures", ofEntryFailures report.failures)]
  | references path report =>
    .object [("path", .string path), ("duration_ms", duration),
      ("scanned_entries", .nat report.scanned), ("referenced", ofNames report.referenced),
      ("failures", ofEntryFailures report.failures)]
  | entries path listed =>
    .object [("path", .string path), ("entries", .array (listed.map ofEntry))]
  | duplicates path nameMatches checksumMatches =>
    .object [("path", .string path), ("name_matches", .array (nameMatches.map ofEntry)),
      ("checksum_matches", .array (checksumMatches.map ofEntry))]
  | archives path kind manifest statuses =>
    .object [("path", .string path), ("kind", ofKind kind),
      ("main_class", .ofOption .string (manifest.bind Manifest.mainClass?)),
      ("class_path", .strings ((manifest.map Manifest.classPath).getD [])),
      ("manifest", .array ((attributes manifest).map fun (key, value) => .strings [key, value])),
      ("archives", .array (statuses.map ofStatus))]

/-! ### As text -/

/-- The lines of a titled set of names, or a line that stands for an empty one. -/
def nameLines (title absent : String) (names : NameSet) : List String :=
  (Section.mk title absent names.toList).lines

/-- The lines for archives of the platform that could not be read. -/
def archiveFailureLines (failures : List ArchiveFailure) : List String :=
  failures.map fun failure =>
    "- system archive skipped: " ++ failure.archive ++ ": " ++ failure.error.message

/-- The lines for entries that could not be read. -/
def entryFailureLines (failures : List EntryFailure) : List String :=
  failures.map fun failure =>
    "- failed: " ++ failure.archive ++ " " ++ failure.entry ++ ": " ++ failure.error.message

/-- The line of a duplicate entry. -/
def duplicateLine (entry : Entry) : String :=
  let identical := if entry.isChecksumMatch then ", identical" else ""
  "- " ++ entry.fullPath ++ " in " ++ entry.owningArchive ++
    " (crc " ++ Text.Numeral.hex 8 entry.checksum ++ identical ++ ")"

/-- The line of an entry: its fields with tabs between them. -/
def entryLine (entry : Entry) : String :=
  let flags := (if entry.isNameMatch then ["name"] else []) ++
    (if entry.isChecksumMatch then ["crc"] else [])
  "\t".intercalate [entry.fileName, entry.directory, toString entry.lastModified,
    Text.Numeral.hex 8 entry.checksum, toString entry.size, entry.owningArchive,
    ",".intercalate flags]

/-- The line of an archive. -/
def statusLine (status : ArchiveStatus) : String :=
  let found := if status.found then "true" else "false"
  s!"- {status.path} found: {found}, entries: {status.entryCount}, size: {status.size}"

/-- The lines of an answer. -/
def lines : Answer → List String
  | info _ _ outline => outline.listingLines
  | refs _ entry referenced =>
    ("entry: " ++ entry) :: nameLines "Referenced classes" "No referenced classes" referenced
  | missing _ entry system names =>
    ("entry: " ++ entry) :: nameLines "Missing classes" "No missing classes" names ++
      archiveFailureLines system.failures
  | verify _ system report =>
    [s!"scanned_entries: {report.scanned}", s!"system_classes: {system.names.size}",
      "duration_ms: " ++ duration.pretty] ++
      nameLines "Missing classes" "No missing classes" report.missing ++
      entryFailureLines report.failures ++ archiveFailureLines system.failures
  | references _ report =>
    [s!"scanned_entries: {report.scanned}", "duration_ms: " ++ duration.pretty] ++
      nameLines "Referenced classes" "No referenced classes" report.referenced ++
      entryFailureLines report.failures
  | entries _ listed => listed.map entryLine
  | duplicates _ nameMatches _ =>
    if nameMatches.isEmpty then ["No duplicate entries"] else nameMatches.map duplicateLine
  | archives _ _ manifest statuses =>
    statuses.map statusLine ++ (attributes manifest).map fun (key, value) => key ++ ": " ++ value

/-- An answer as it is written. Something is always written, and it ends in a line feed. -/
def render (answer : Answer) : Format → String
  | .json => answer.json.pretty ++ "\n"
  | .text =>
    match answer.lines with
    | [] => "\n"
    | lines => String.join (lines.map (· ++ "\n"))

end Answer

end JarAudit.CommandLine
