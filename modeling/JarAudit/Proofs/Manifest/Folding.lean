import JarAudit.Manifest

/-!
# Folded manifests

A manifest is written with the values of its attributes cut into chunks. The first chunk stands
behind the key, and each other chunk on a line of its own, behind a space. Where the cuts are, and
which ending each line has, is up to the writer (`Folded`, `write`).

Reading takes back all of that. Lines are found again one by one (`lines_line`), the lines of an
attribute are put together again (`readLines_lines`), and so a section is read as it was before it
was folded (`parse_write`). What is written can be text or bytes: `encode` says how a text stands in
it.
-/

namespace JarAudit.Manifest

open JarAudit.Text

/-! ### The written form -/

/-- How a line ends. -/
inductive LineEnding where
  | feed
  | returnFeed
  deriving DecidableEq, Repr

def LineEnding.chars : LineEnding → List Char
  | feed => ['\n']
  | returnFeed => ['\r', '\n']

/-- An attribute that can be written: nothing in it ends a line, the key ends before the first
colon, and there are no blanks where reading drops them. -/
structure Attribute where
  key : List Char
  value : List Char
  key_no_colon : ':' ∉ key
  key_no_feed : '\n' ∉ key
  key_starts : ∀ char ∈ key.head?, isBlank char = false
  key_ends : ∀ char ∈ key.getLast?, isBlank char = false
  value_no_feed : '\n' ∉ value
  value_no_return : '\r' ∉ value
  value_starts : ∀ char ∈ value.head?, isBlank char = false

/-- The attribute as it is read. -/
def Attribute.pair (plain : Attribute) : String × String :=
  (String.ofList plain.key, String.ofList plain.value)

/-- An attribute with its value cut into chunks, each with the ending of its line. The chunks can be
empty, and begin and end with anything. -/
structure Folded {α : Type} (encode : List Char → List α) where
  plain : Attribute
  first : List α × LineEnding
  more : List (List α × LineEnding)
  whole : first.1 ++ more.flatMap Prod.fst = encode plain.value

/-- What stands behind the lines of a section. -/
inductive Closing (α : Type) where
  /-- Nothing. -/
  | ended
  /-- Nothing, and the last line has no ending. -/
  | unended
  /-- An empty line, and whatever follows it. -/
  | followed (ending : LineEnding) (rest : List α)

/-- The chunks of the value, in order. -/
def Folded.chunks {α : Type} {encode : List Char → List α} (folded : Folded encode) :
    List (List α) :=
  folded.first.1 :: folded.more.map Prod.fst

theorem Folded.flatten_chunks {α : Type} {encode : List Char → List α} (folded : Folded encode) :
    folded.chunks.flatten = encode folded.plain.value := by
  rw [← folded.whole, chunks, List.flatten_cons, List.flatMap_def]

section Write

variable {α : Type} (encode : List Char → List α)

/-- The lines of an attribute, without and with their endings. -/
def Folded.lines {encode : List Char → List α} (folded : Folded encode) :
    List (List α × LineEnding) :=
  (encode (folded.plain.key ++ [':', ' ']) ++ folded.first.1, folded.first.2) ::
    folded.more.map fun chunk => (encode [' '] ++ chunk.1, chunk.2)

/-- A line with its ending. -/
def writeLine (line : List α × LineEnding) : List α := line.1 ++ encode line.2.chars

/-- Lines with their endings, and what stands behind them. -/
def writeLines (lines : List (List α × LineEnding)) : Closing α → List α
  | .ended => lines.flatMap (writeLine encode)
  | .unended => lines.dropLast.flatMap (writeLine encode) ++ (lines.getLast?.elim [] Prod.fst)
  | .followed ending rest => lines.flatMap (writeLine encode) ++ (encode ending.chars ++ rest)

/-- A manifest with folded attributes. -/
def write (attributes : List (Folded encode)) (closing : Closing α) : List α :=
  writeLines encode (attributes.flatMap Folded.lines) closing

end Write

/-! ### Lines -/

/-- A line is found again in front of its ending. -/
theorem lines_line {line : List Char} (hfeed : '\n' ∉ line) (hreturn : line.getLast? ≠ some '\r')
    (ending : LineEnding) (rest : List Char) :
    lines (line ++ (ending.chars ++ rest)) = line :: lines rest := by
  have hnone : ∀ char ∈ line, (char == '\n') = false := by
    intro char hchar
    rw [beq_eq_false_iff_ne]
    rintro rfl
    exact hfeed hchar
  cases ending with
  | feed =>
    have hcut := cutBehind_append_cons hnone (beq_self_eq_true '\n') rest
    rw [LineEnding.chars, List.singleton_append, lines, hcut, List.map_cons, dropLineEnding]
    simp [dropReturn_eq_self hreturn, lines]
  | returnFeed =>
    have hboth : ∀ char ∈ line ++ ['\r'], (char == '\n') = false := by
      simpa [or_imp, forall_and] using hnone
    have hcut := cutBehind_append_cons hboth (beq_self_eq_true '\n') rest
    have hsplit : line ++ (['\r', '\n'] ++ rest) = line ++ ['\r'] ++ '\n' :: rest := by simp
    rw [LineEnding.chars, hsplit, lines, hcut, List.map_cons, dropLineEnding]
    simp [dropReturn, lines]

/-- The last line is found also without an ending. -/
theorem lines_last {line : List Char} (hfeed : '\n' ∉ line) (hne : line ≠ []) :
    lines line = [line] := by
  have hnone : ∀ char ∈ line, (char == '\n') = false := by
    intro char hchar
    rw [beq_eq_false_iff_ne]
    rintro rfl
    exact hfeed hchar
  have hlast : line.getLast? ≠ some '\n' := fun h => hfeed (List.mem_of_getLast? h)
  rw [lines, cutBehind_eq_singleton hnone hne, List.map_singleton, dropLineEnding, if_neg hlast]

/-- A line that reading leaves as it is. -/
structure IsLine (line : List Char) : Prop where
  ne_nil : line ≠ []
  no_feed : '\n' ∉ line
  no_return : line.getLast? ≠ some '\r'

/-- The lines that are read behind those of a section. -/
def Closing.lines : Closing Char → List (List Char)
  | .followed _ rest => [] :: (Text.lines rest).map dropReturn
  | _ => []

/-- Behind the lines of a section come those that its closing has. -/
theorem lines_writeLines {written : List (List Char × LineEnding)}
    (h : ∀ line ∈ written, IsLine line.1) (closing : Closing Char) :
    (lines (writeLines id written closing)).map dropReturn =
      written.map Prod.fst ++ closing.lines := by
  have hended : ∀ (written : List (List Char × LineEnding)), (∀ line ∈ written, IsLine line.1) →
      ∀ rest, (lines (written.flatMap (writeLine id) ++ rest)).map dropReturn =
        written.map Prod.fst ++ (lines rest).map dropReturn := by
    intro written
    induction written with
    | nil => simp
    | cons line written ih =>
      intro h rest
      obtain ⟨hline, hwritten⟩ := List.forall_mem_cons.mp h
      rw [List.flatMap_cons, writeLine, id_eq, List.append_assoc, List.append_assoc,
        lines_line hline.no_feed hline.no_return, List.map_cons, ih hwritten,
        dropReturn_eq_self hline.no_return]
      rfl
  cases closing with
  | ended =>
    have hall := hended written h []
    rw [List.append_nil] at hall
    exact hall
  | unended =>
    rcases List.eq_nil_or_concat written with rfl | ⟨front, last, rfl⟩
    · rfl
    · have hfront : ∀ line ∈ front, IsLine line.1 := fun line hline => h line (by simp [hline])
      have hlast : IsLine last.1 := h last (by simp)
      simp [writeLines, hended front hfront, lines_last hlast.no_feed hlast.ne_nil,
        dropReturn_eq_self hlast.no_return, Closing.lines]
  | followed ending rest =>
    have hempty : lines ([] ++ (ending.chars ++ rest)) = [] :: lines rest :=
      lines_line List.not_mem_nil (by simp) ending rest
    rw [List.nil_append] at hempty
    rw [writeLines, hended written h, id_eq, hempty]
    rfl

/-! ### Attributes -/

/-- A line with a space in it and no carriage return behind that. -/
theorem isLine_append {front chunk : List Char} (hfront : '\n' ∉ front) (hfeed : '\n' ∉ chunk)
    (hreturn : '\r' ∉ chunk) : IsLine (front ++ [' '] ++ chunk) := by
  refine ⟨by simp, by simp [hfront, hfeed], fun hlast => ?_⟩
  rw [List.getLast?_append, List.getLast?_concat] at hlast
  cases hchunk : chunk.getLast? with
  | none => simp [hchunk] at hlast
  | some char =>
    rw [hchunk, Option.some_or] at hlast
    exact hreturn (List.mem_of_getLast? (hchunk.trans hlast))

theorem Folded.isLine (folded : Folded (id : List Char → List Char)) :
    ∀ line ∈ folded.lines, IsLine line.1 := by
  have hwhole : folded.first.1 ++ folded.more.flatMap Prod.fst = folded.plain.value := folded.whole
  have hfeed := folded.plain.value_no_feed
  have hreturn := folded.plain.value_no_return
  rw [← hwhole] at hfeed hreturn
  intro line hline
  rcases List.mem_cons.mp hline with rfl | hline
  · have hfront : '\n' ∉ folded.plain.key ++ [':'] := by simp [folded.plain.key_no_feed]
    have hline := isLine_append hfront (fun h => hfeed (List.mem_append_left _ h))
      (fun h => hreturn (List.mem_append_left _ h))
    rwa [List.append_assoc folded.plain.key] at hline
  · obtain ⟨chunk, hmem, rfl⟩ := List.mem_map.mp hline
    have hchunk : ∀ char ∈ chunk.1, char ∈ folded.more.flatMap Prod.fst :=
      fun char hchar => List.mem_flatMap.mpr ⟨chunk, hmem, hchar⟩
    exact isLine_append List.not_mem_nil (fun h => hfeed (List.mem_append_right _ (hchunk _ h)))
      (fun h => hreturn (List.mem_append_right _ (hchunk _ h)))

/-- The first line of an attribute is cut into the key and the first chunk. -/
theorem attribute?_first (plain : Attribute) {first : List Char}
    (h : ∀ char ∈ first.head?, isBlank char = false) :
    attribute? (plain.key ++ ':' :: ' ' :: first) = some (plain.key, first) := by
  have hkey : trim plain.key = plain.key := by
    rw [trim, trimStart_eq_self plain.key_starts, trimEnd_eq_self plain.key_ends]
  have hvalue : trimStart (' ' :: first) = first := by
    have hblank : isBlank ' ' = true := by decide
    rw [trimStart, List.dropWhile_cons, if_pos hblank]
    exact trimStart_eq_self h
  rw [attribute?, splitAtFirst_append plain.key_no_colon, Option.map_some]
  simp only [hkey, hvalue]

/-- The first line of an attribute begins with its key, and so it continues nothing. -/
theorem readLines_first (plain : Attribute) {first : List Char}
    (h : ∀ char ∈ first.head?, isBlank char = false) (read : List (List Char × List Char))
    (rest : List (List Char)) :
    readLines read ((plain.key ++ ':' :: ' ' :: first) :: rest) =
      readLines ((plain.key, first.reverse) :: read) rest := by
  have hattribute := attribute?_first plain h
  have hstarts := plain.key_starts
  cases hkey : plain.key with
  | nil =>
    rw [hkey] at hattribute
    rw [List.nil_append, readLines, ← List.nil_append (':' :: _), hattribute]
    all_goals simp
  | cons char key =>
    have hspace : char ≠ ' ' := by
      rintro rfl
      exact absurd (hstarts ' ' (by rw [hkey]; rfl)) (by decide)
    rw [hkey] at hattribute
    rw [List.cons_append, readLines, ← List.cons_append, hattribute]
    all_goals simp [hspace]

/-- A chunk on a line of its own continues the value. -/
theorem readLines_chunks (key value : List Char) (chunks : List (List Char × LineEnding))
    (read : List (List Char × List Char)) (rest : List (List Char)) :
    readLines ((key, value.reverse) :: read) (chunks.map (fun chunk => ' ' :: chunk.1) ++ rest) =
      readLines ((key, (value ++ chunks.flatMap Prod.fst).reverse) :: read) rest := by
  induction chunks generalizing value with
  | nil => simp
  | cons chunk chunks ih =>
    rw [List.map_cons, List.cons_append, readLines, ← List.reverse_append, ih]
    simp

/-- The lines of an attribute are read as the attribute. -/
theorem readLines_lines (folded : Folded (id : List Char → List Char))
    (read : List (List Char × List Char)) (rest : List (List Char)) :
    readLines read (folded.lines.map Prod.fst ++ rest) =
      readLines ((folded.plain.key, folded.plain.value.reverse) :: read) rest := by
  have hwhole : folded.first.1 ++ folded.more.flatMap Prod.fst = folded.plain.value := folded.whole
  -- A first chunk with characters begins as the value does.
  have hfirst : ∀ char ∈ folded.first.1.head?, isBlank char = false := by
    intro char hchar
    apply folded.plain.value_starts
    rw [← hwhole, List.head?_append, hchar]
    rfl
  have hlines : folded.lines.map Prod.fst =
      (folded.plain.key ++ ':' :: ' ' :: folded.first.1) ::
        folded.more.map fun chunk => ' ' :: chunk.1 := by
    simp [Folded.lines]
  rw [hlines, List.cons_append, readLines_first folded.plain hfirst, readLines_chunks, hwhole]

theorem readLines_closing (closing : Closing Char) (read : List (List Char × List Char)) :
    readLines read closing.lines = read.reverse := by
  cases closing <;> rfl

theorem readLines_write (attributes : List (Folded (id : List Char → List Char)))
    (closing : Closing Char) :
    readLines [] ((lines (write id attributes closing)).map dropReturn) =
      attributes.map fun folded => (folded.plain.key, folded.plain.value.reverse) := by
  have hlines : ∀ line ∈ attributes.flatMap Folded.lines, IsLine line.1 := by
    intro line hline
    obtain ⟨folded, -, hfolded⟩ := List.mem_flatMap.mp hline
    exact folded.isLine line hfolded
  have hread : ∀ (attributes : List (Folded (id : List Char → List Char)))
      (read : List (List Char × List Char)),
      readLines read ((attributes.flatMap Folded.lines).map Prod.fst ++ closing.lines) =
        read.reverse ++ attributes.map fun folded =>
          (folded.plain.key, folded.plain.value.reverse) := by
    intro attributes
    induction attributes with
    | nil => simp [readLines_closing]
    | cons folded attributes ih =>
      intro read
      rw [List.flatMap_cons, List.map_append, List.append_assoc, readLines_lines, ih]
      simp
  rw [write, lines_writeLines hlines, hread, List.reverse_nil, List.nil_append]

/-- However a manifest was folded, and whatever stands behind its main section, it is read as the
attributes that were written, in their order. -/
theorem parse_write (attributes : List (Folded (id : List Char → List Char)))
    (closing : Closing Char) :
    parse (String.ofList (write id attributes closing)) =
      ⟨attributes.map fun folded => folded.plain.pair⟩ := by
  rw [parse, String.toList_ofList, readLines_write]
  simp [Attribute.pair]

end JarAudit.Manifest
