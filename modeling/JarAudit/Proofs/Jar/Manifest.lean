import JarAudit.Proofs.Jar
import JarAudit.Proofs.Manifest.Folding
import JarAudit.Proofs.Text.Utf8

/-!
# Manifests folded byte by byte

The lines of a manifest are limited in bytes, so that a fold can fall between the bytes of one
character. An archive gives its manifest as bytes, and these are read as text before the lines are
put together again. What is between two folds is therefore read on its own: the text that comes of
folded bytes is folded itself, chunk by chunk (`lossy_write`). It is a folding of attributes with
the same keys, and with values that may be other ones (`Folded.decoded`).

The values are the original ones if and only if no fold falls between the bytes of a character
(`manifest_of_folded`).
-/

namespace JarAudit

open JarAudit.Files JarAudit.Text JarAudit.Zip

namespace Manifest

/-! ### Folded bytes as text -/

/-- The value that is read: the chunks are, each on its own. -/
def Folded.readValue (folded : Folded Utf8.encode) : List Char := folded.chunks.flatMap Utf8.lossy

theorem Folded.isReading (folded : Folded Utf8.encode) :
    Utf8.IsReading (Utf8.encode folded.plain.value) folded.readValue := by
  rw [← folded.flatten_chunks]
  exact Utf8.isReading_flatMap_lossy folded.chunks

/-- Reading in chunks makes no characters but replacements that were not there, and so it gives an
attribute that can be written. -/
def Folded.readAttribute (folded : Folded Utf8.encode) : Attribute :=
  { folded.plain with
    value := folded.readValue
    value_no_feed := fun h =>
      folded.plain.value_no_feed (folded.isReading.mem_of_ascii h (by decide))
    value_no_return := fun h =>
      folded.plain.value_no_return (folded.isReading.mem_of_ascii h (by decide))
    value_starts := by
      intro char hchar
      by_cases hreplaced : char = '\ufffd'
      · rw [hreplaced]
        decide
      · exact folded.plain.value_starts char (folded.isReading.head?_eq hchar hreplaced) }

/-- The folded text that folded bytes are read as. -/
def Folded.decoded (folded : Folded Utf8.encode) : Folded (id : List Char → List Char) where
  plain := folded.readAttribute
  first := (Utf8.lossy folded.first.1, folded.first.2)
  more := folded.more.map fun chunk => (Utf8.lossy chunk.1, chunk.2)
  whole := by
    show _ = folded.chunks.flatMap Utf8.lossy
    rw [chunks, List.flatMap_cons, List.flatMap_map, List.flatMap_map]

/-- What stands behind a section, as text. -/
def Closing.decoded : Closing UInt8 → Closing Char
  | .ended => .ended
  | .unended => .unended
  | .followed ending rest => .followed ending (Utf8.lossy rest)

/-- A line as text. -/
def decodedLine (line : List UInt8 × LineEnding) : List Char × LineEnding :=
  (Utf8.lossy line.1, line.2)

/-- The ending of a line ends its last character. -/
theorem lossy_line (line : List UInt8) (ending : LineEnding) (rest : List UInt8) :
    Utf8.lossy (line ++ (Utf8.encode ending.chars ++ rest)) =
      Utf8.lossy line ++ (ending.chars ++ Utf8.lossy rest) := by
  cases ending with
  | feed => exact Utf8.lossy_append_cons line (by decide) rest
  | returnFeed =>
    have hfeed : Utf8.lossy (0x0A :: rest) = '\n' :: Utf8.lossy rest :=
      Utf8.lossy_append_cons [] (by decide) rest
    show Utf8.lossy (line ++ 0x0D :: 0x0A :: rest) =
      Utf8.lossy line ++ '\r' :: '\n' :: Utf8.lossy rest
    rw [Utf8.lossy_append_cons line (by decide), hfeed]
    rfl

/-- Lines are read as text one by one. -/
theorem lossy_writeLines (lines : List (List UInt8 × LineEnding)) (closing : Closing UInt8) :
    Utf8.lossy (writeLines Utf8.encode lines closing) =
      writeLines id (lines.map decodedLine) closing.decoded := by
  have hended : ∀ (lines : List (List UInt8 × LineEnding)) (rest : List UInt8),
      Utf8.lossy (lines.flatMap (writeLine Utf8.encode) ++ rest) =
        (lines.map decodedLine).flatMap (writeLine id) ++ Utf8.lossy rest := by
    intro lines rest
    induction lines with
    | nil => rfl
    | cons line lines ih =>
      rw [List.flatMap_cons, writeLine, List.append_assoc, List.append_assoc, lossy_line, ih]
      simp [decodedLine, writeLine]
  cases closing with
  | ended =>
    have hall := hended lines []
    rw [List.append_nil, show Utf8.lossy [] = [] from rfl, List.append_nil] at hall
    exact hall
  | unended =>
    rcases List.eq_nil_or_concat lines with rfl | ⟨front, last, rfl⟩
    · rfl
    · simp [writeLines, Closing.decoded, hended, decodedLine]
  | followed ending rest =>
    have hempty := lossy_line [] ending rest
    rw [List.nil_append, show Utf8.lossy [] = [] from rfl, List.nil_append] at hempty
    rw [writeLines, hended, hempty]
    rfl

theorem Folded.lines_decoded (folded : Folded Utf8.encode) :
    folded.decoded.lines = folded.lines.map decodedLine := by
  simp [Folded.lines, decoded, readAttribute, decodedLine, Utf8.lossy_encode_append]

/-- Folded bytes are read as folded text. -/
theorem lossy_write (attributes : List (Folded Utf8.encode)) (closing : Closing UInt8) :
    Utf8.lossy (write Utf8.encode attributes closing) =
      write id (attributes.map Folded.decoded) closing.decoded := by
  have hlines : (attributes.map Folded.decoded).flatMap Folded.lines =
      (attributes.flatMap Folded.lines).map decodedLine := by
    rw [List.flatMap_map, List.map_flatMap]
    simp only [Folded.lines_decoded]
  rw [write, lossy_writeLines, write, hlines]

/-- The attribute as it is read from folded bytes. -/
def Folded.readPair (folded : Folded Utf8.encode) : String × String :=
  (String.ofList folded.plain.key, String.ofList folded.readValue)

theorem parse_decodeLossy_write (attributes : List (Folded Utf8.encode)) (closing : Closing UInt8) :
    parse (Utf8.decodeLossy (write Utf8.encode attributes closing)) =
      ⟨attributes.map Folded.readPair⟩ := by
  rw [parse, Utf8.decodeLossy_eq, String.toList_ofList, lossy_write, readLines_write]
  simp [Folded.decoded, Folded.readAttribute, Folded.readPair]

theorem Folded.readPair_eq_iff (folded : Folded Utf8.encode) :
    folded.readPair = folded.plain.pair ↔ ∀ chunk ∈ folded.chunks, Utf8.IsWhole chunk := by
  rw [← Utf8.flatMap_lossy_eq_iff folded.flatten_chunks, readPair, Attribute.pair, Prod.mk.injEq,
    String.ofList_inj, String.ofList_inj]
  exact ⟨And.right, fun h => ⟨rfl, h⟩⟩

end Manifest

/-! ### Archives with folded manifests -/

namespace Jar

open JarAudit.Manifest

variable {tree : Tree} {path : String}

/-- The manifest of an archive is made of the contents of its record. -/
theorem manifest_of_contents {bytes : List UInt8}
    (h : contents tree path recordName = .ok bytes) :
    manifest tree path = .ok (some (parse (Utf8.decodeLossy bytes))) := by
  rw [contents] at h
  obtain ⟨archive, hopen, -⟩ := bind_eq_ok.mp h
  obtain ⟨record, hfind, hdata⟩ := (contents_eq_ok hopen).mp h
  obtain ⟨stored, hstored, hcontents⟩ := Archive.data?_eq_some.mp hdata
  rw [manifest, bind_eq_ok]
  refine ⟨archive, hopen, ?_⟩
  simp only [hfind, bind_eq_ok, inContext_eq_ok, liftFault, liftData, mapError_eq_ok]
  exact ⟨stored, hstored, bytes, hcontents, rfl⟩

/-- Of a folded manifest the original keys are read, and for each value its chunks, each on its own.
That makes the original values if and only if no fold falls between the bytes of a character. -/
theorem manifest_of_folded (attributes : List (Folded Utf8.encode)) (closing : Closing UInt8)
    (h : contents tree path recordName = .ok (write Utf8.encode attributes closing)) :
    manifest tree path = .ok (some ⟨attributes.map Folded.readPair⟩) ∧
      (manifest tree path = .ok (some ⟨attributes.map fun folded => folded.plain.pair⟩) ↔
        ∀ folded ∈ attributes, ∀ chunk ∈ folded.chunks, Utf8.IsWhole chunk) := by
  have hread := manifest_of_contents h
  rw [parse_decodeLossy_write] at hread
  refine ⟨hread, ?_⟩
  rw [hread, Except.ok.injEq, Option.some.injEq, Manifest.mk.injEq, List.map_inj_left]
  simp only [Folded.readPair_eq_iff]

/-! ### A fold in a character -/

/-- A main class whose name is one character of two bytes. -/
def accented : Attribute where
  key := "Main-Class".toList
  value := ['é']
  key_no_colon := by decide
  key_no_feed := by decide
  key_starts := by rintro _ ⟨⟩; decide
  key_ends := by rintro _ ⟨⟩; decide
  value_no_feed := by decide
  value_no_return := by decide
  value_starts := by rintro _ ⟨⟩; decide

/-- The fold is between the two bytes. -/
def accentedCut : Folded Utf8.encode where
  plain := accented
  first := ([0xC3], .returnFeed)
  more := [([0xA9], .returnFeed)]
  whole := by decide

/-- The fold is in front of both. -/
def accentedWhole : Folded Utf8.encode where
  plain := accented
  first := ([], .returnFeed)
  more := [([0xC3, 0xA9], .returnFeed)]
  whole := by decide

/-- An archive with the first of these manifests. -/
def cutArchive : ByteArray := ⟨#[
    80, 75, 3, 4, 10, 0, 0, 0, 0, 0, 0, 0, 33, 0, 212, 76, 99, 221, 19, 0, 0, 0, 19, 0, 0, 0, 20,
    0, 0, 0, 77, 69, 84, 65, 45, 73, 78, 70, 47, 77, 65, 78, 73, 70, 69, 83, 84, 46, 77, 70, 77,
    97, 105, 110, 45, 67, 108, 97, 115, 115, 58, 32, 195, 13, 10, 32, 169, 13, 10, 80, 75, 1, 2,
    10, 0, 10, 0, 0, 0, 0, 0, 0, 0, 33, 0, 212, 76, 99, 221, 19, 0, 0, 0, 19, 0, 0, 0, 20, 0, 0,
    0, 0, 0, 0, 0, 0, 0, 0, 0, 0, 0, 0, 0, 0, 0, 77, 69, 84, 65, 45, 73, 78, 70, 47, 77, 65, 78,
    73, 70, 69, 83, 84, 46, 77, 70, 80, 75, 5, 6, 0, 0, 0, 0, 1, 0, 1, 0, 66, 0, 0, 0, 69, 0, 0,
    0, 0, 0]⟩

/-- An archive with the second. -/
def wholeArchive : ByteArray := ⟨#[
    80, 75, 3, 4, 10, 0, 0, 0, 0, 0, 0, 0, 33, 0, 201, 65, 255, 19, 19, 0, 0, 0, 19, 0, 0, 0, 20,
    0, 0, 0, 77, 69, 84, 65, 45, 73, 78, 70, 47, 77, 65, 78, 73, 70, 69, 83, 84, 46, 77, 70, 77,
    97, 105, 110, 45, 67, 108, 97, 115, 115, 58, 32, 13, 10, 32, 195, 169, 13, 10, 80, 75, 1, 2,
    10, 0, 10, 0, 0, 0, 0, 0, 0, 0, 33, 0, 201, 65, 255, 19, 19, 0, 0, 0, 19, 0, 0, 0, 20, 0, 0,
    0, 0, 0, 0, 0, 0, 0, 0, 0, 0, 0, 0, 0, 0, 0, 77, 69, 84, 65, 45, 73, 78, 70, 47, 77, 65, 78,
    73, 70, 69, 83, 84, 46, 77, 70, 80, 75, 5, 6, 0, 0, 0, 0, 1, 0, 1, 0, 66, 0, 0, 0, 69, 0, 0,
    0, 0, 0]⟩

def accentedTree : Tree :=
  { root := .directory [("cut.jar", .file cutArchive 0), ("whole.jar", .file wholeArchive 0)] }

theorem contents_cut :
    contents accentedTree "cut.jar" recordName = .ok (write Utf8.encode [accentedCut] .ended) := by
  decide +kernel

theorem contents_whole :
    contents accentedTree "whole.jar" recordName =
      .ok (write Utf8.encode [accentedWhole] .ended) := by
  decide +kernel

/-- A fold in front of a character changes nothing. -/
theorem manifest_of_folded_whole :
    contents accentedTree "whole.jar" recordName =
        .ok (write Utf8.encode [accentedWhole] .ended) ∧
      manifest accentedTree "whole.jar" = .ok (some ⟨[accented.pair]⟩) :=
  ⟨contents_whole, (manifest_of_folded [accentedWhole] .ended contents_whole).2.mpr (by decide)⟩

/-- A fold inside of one makes two replacement characters of it, although both manifests are
foldings of the same attribute. -/
theorem manifest_of_cut_character :
    [accentedCut].map Folded.plain = [accentedWhole].map Folded.plain ∧
      contents accentedTree "cut.jar" recordName =
        .ok (write Utf8.encode [accentedCut] .ended) ∧
      contents accentedTree "whole.jar" recordName =
        .ok (write Utf8.encode [accentedWhole] .ended) ∧
      manifest accentedTree "cut.jar" = .ok (some ⟨[("Main-Class", "\ufffd\ufffd")]⟩) ∧
      manifest accentedTree "whole.jar" = .ok (some ⟨[("Main-Class", "é")]⟩) := by
  refine ⟨rfl, contents_cut, contents_whole, ?_, ?_⟩
  · decide +kernel
  · decide +kernel

end Jar

end JarAudit
