import Mathlib.Data.List.TakeWhile
import JarAudit.ClassFile.Listing
import JarAudit.Text.Pieces

/-!
# Reading a listing back

What a listing says of a class can be read off its lines again: a line that is not set in opens a
block, and the lines below it that are set in are its items (`Listing.blocks`). Behind the heading the
blocks of a listing are its sections, each with its items or with the line that stands for none
(`Listing.blocks_flatMap_lines`). The text itself falls into these lines as long as no name has a line
feed in it (`Listing.splitOn_join`).

The first line names the class and its parent. A placeholder stands for a class that cannot be
resolved, but the root class for a parent that cannot be, as if the class had no parent index
(`Listing.firstLine_eq_iff`, `Listing.unresolved_parent_listed_as_root`).
-/

namespace JarAudit.ClassFile

open JarAudit.Text

namespace Section

/-- The line that opens a section. -/
def opening (part : Section) : String :=
  if part.items = [] then part.absent else part.title ++ ":"

theorem lines_eq (part : Section) :
    part.lines = part.opening :: part.items.map ("  " ++ ·) := by
  unfold lines opening
  simp only [List.isEmpty_iff]
  split
  case isTrue h => rw [h, List.map_nil]
  case isFalse => rfl

end Section

namespace Listing

/-! ### Blocks -/

/-- A line that is set in by two blanks is an item. -/
def isItem (line : String) : Bool := line.toList.take 2 == [' ', ' ']

/-- The blocks of a listing: a line that is not set in, and the items below it without their
blanks. -/
def blocks : List String → List (String × List String)
  | [] => []
  | opening :: rest =>
    (opening, (rest.takeWhile isItem).map fun line => String.ofList (line.toList.drop 2)) ::
      blocks (rest.dropWhile isItem)
termination_by lines => lines.length
decreasing_by exact Nat.lt_succ_of_le (List.length_dropWhile_le _ _)

theorem isItem_append (item : String) : isItem ("  " ++ item) = true := by
  rw [isItem, String.toList_append]
  rfl

theorem drop_two_append (item : String) :
    String.ofList (("  " ++ item).toList.drop 2) = item := by
  rw [String.toList_append]
  exact String.ofList_toList

/-- Items are read up to the next line that is not set in. -/
theorem blocks_cons_append (opening : String) (items : List String) {more : List String}
    (h : ∀ line ∈ more.head?, isItem line = false) :
    blocks (opening :: (items.map ("  " ++ ·) ++ more)) = (opening, items) :: blocks more := by
  have hitems : ∀ line ∈ items.map ("  " ++ ·), isItem line = true := by
    intro line hline
    obtain ⟨item, -, rfl⟩ := List.mem_map.mp hline
    exact isItem_append item
  have hmore : more.takeWhile isItem = [] ∧ more.dropWhile isItem = more := by
    cases more with
    | nil => exact ⟨rfl, rfl⟩
    | cons line rest =>
      have hline : ¬ isItem line = true := by simp [h line rfl]
      exact ⟨List.takeWhile_cons_of_neg hline, List.dropWhile_cons_of_neg hline⟩
  rw [blocks, List.takeWhile_append_of_pos hitems, List.dropWhile_append_of_pos hitems, hmore.1,
    hmore.2, List.append_nil, List.map_map]
  congr 2
  exact (List.map_congr_left fun item _ => drop_two_append item).trans (List.map_id' items)

/-- The first line of some sections opens the first of them. -/
theorem isItem_head?_flatMap_lines {parts : List Section}
    (h : ∀ part ∈ parts, isItem part.opening = false) :
    ∀ line ∈ (parts.flatMap Section.lines).head?, isItem line = false := by
  cases parts with
  | nil => exact nofun
  | cons part rest =>
    intro line hline
    rw [List.flatMap_cons, part.lines_eq] at hline
    obtain rfl : part.opening = line := Option.some.inj hline
    exact h part List.mem_cons_self

/-- Sections are read back from their lines. -/
theorem blocks_flatMap_lines {parts : List Section}
    (h : ∀ part ∈ parts, isItem part.opening = false) :
    blocks (parts.flatMap Section.lines) = parts.map fun part => (part.opening, part.items) := by
  induction parts with
  | nil => rw [List.flatMap_nil, blocks, List.map_nil]
  | cons part rest ih =>
    obtain ⟨-, hrest⟩ := List.forall_mem_cons.mp h
    have hnext := isItem_head?_flatMap_lines hrest
    rw [List.flatMap_cons, part.lines_eq, List.cons_append, blocks_cons_append _ _ hnext, ih hrest,
      List.map_cons]

/-! ### The text -/

/-- A text up to its first line feed. -/
def firstLine (text : String) : List Char := text.toList.takeWhile (· != '\n')

/-- The line that names a class and its parent, with a placeholder for a name that is absent. -/
def namingLine (own parent : Option String) : String :=
  "Class " ++ own.getD unresolved ++ " extending " ++ parent.getD unresolved

theorem toList_join_cons (line : String) (rest : List String) :
    (String.join ((line :: rest).map (· ++ "\n"))).toList =
      line.toList ++ '\n' :: (String.join (rest.map (· ++ "\n"))).toList := by
  rw [List.map_cons, String.join_cons, String.toList_append, String.toList_append,
    List.append_assoc]
  rfl

/-- Lines without a line feed are read back from their text. -/
theorem splitOn_join {lines : List String} (h : ∀ line ∈ lines, '\n' ∉ line.toList) :
    (String.join (lines.map (· ++ "\n"))).toList.splitOn '\n' =
      lines.map String.toList ++ [[]] := by
  induction lines with
  | nil => rfl
  | cons line rest ih =>
    obtain ⟨hfirst, hrest⟩ := List.forall_mem_cons.mp h
    rw [toList_join_cons, List.splitOn_append_cons_self_of_not_mem hfirst, ih hrest]
    rfl

/-- The heading of a listing. -/
def heading (outline : Outline) : List String :=
  [headline outline.summary, s!"Access Flag ({outline.accessFlags.toNat}): {outline.summary.access}",
    s!"Version {outline.versionText}"]

theorem listingLines_eq {outline : Outline} (h : outline.valid = true) :
    outline.listingLines =
      heading outline ++ (sections outline.summary).flatMap Section.lines := by
  rw [Outline.listingLines, if_pos h]
  rfl

/-- The text begins with the first line of the heading. -/
theorem firstLine_listing {outline : Outline} (h : outline.valid = true) :
    firstLine outline.listing = (headline outline.summary).toList.takeWhile (· != '\n') := by
  rw [firstLine, Outline.listing, listingLines_eq h, heading, List.cons_append, toList_join_cons,
    List.takeWhile_append]
  split
  case isTrue hlength =>
    have hself := (List.takeWhile_prefix (· != '\n')).eq_of_length hlength
    rw [hself, List.takeWhile_cons_of_neg (by decide), List.append_nil]
  case isFalse => rfl

theorem not_mem_namingLine {own parent : Option String} :
    '\n' ∉ (namingLine own parent).toList ↔
      (∀ name ∈ own, '\n' ∉ name.toList) ∧ ∀ name ∈ parent, '\n' ∉ name.toList := by
  have hunresolved : '\n' ∉ unresolved.toList := by decide
  have hname : ∀ name : Option String,
      '\n' ∉ (name.getD unresolved).toList ↔ ∀ text ∈ name, '\n' ∉ text.toList := by
    intro name
    cases name with
    | none => exact ⟨fun _ => nofun, fun _ => hunresolved⟩
    | some text => simp
  rw [← hname own, ← hname parent, namingLine]
  simp only [String.toList_append, List.mem_append, not_or]
  simp

/-- The first line is the one that names the class and its parent exactly when the parent can be
resolved and no line feed stands in either name. -/
theorem firstLine_eq_iff {outline : Outline} (h : outline.valid = true) :
    firstLine outline.listing = (namingLine outline.className outline.parentName).toList ↔
      (∀ own ∈ outline.className, '\n' ∉ own.toList) ∧
        ∃ parent ∈ outline.parentName, '\n' ∉ parent.toList := by
  rw [firstLine_listing h]
  have hheadline : headline outline.summary = "Class " ++ outline.className.getD unresolved ++
      " extending " ++ outline.parentName.getD Outline.rootClass := rfl
  constructor
  · intro hline
    have hnone : '\n' ∉ (namingLine outline.className outline.parentName).toList := by
      intro hmem
      rw [← hline] at hmem
      simpa using List.mem_takeWhile_imp hmem
    rw [not_mem_namingLine] at hnone
    obtain ⟨hown, hparent⟩ := hnone
    refine ⟨hown, ?_⟩
    cases hname : outline.parentName with
    | some parent => exact ⟨parent, rfl, hparent parent hname⟩
    | none =>
      -- The line up to a line feed begins the heading, which names the root class there.
      have hprefix : (namingLine outline.className none).toList <+:
          (headline outline.summary).toList := by
        rw [← hname, ← hline]
        exact List.takeWhile_prefix _
      rw [hheadline, namingLine, hname] at hprefix
      simp only [String.toList_append, List.prefix_append_right_inj] at hprefix
      exact absurd hprefix (by decide)
  · rintro ⟨hown, parent, hname, hparent⟩
    have hname : outline.parentName = some parent := hname
    have hnone : '\n' ∉ (namingLine outline.className outline.parentName).toList := by
      rw [not_mem_namingLine, hname]
      exact ⟨hown, fun text htext => Option.some.inj htext ▸ hparent⟩
    have hsame : headline outline.summary =
        namingLine outline.className outline.parentName := by
      rw [hheadline, namingLine, hname]
      rfl
    rw [hsame, List.takeWhile_eq_self_iff]
    intro char hchar
    rw [bne_iff_ne]
    rintro rfl
    exact hnone hchar

/-! ### Sections -/

/-- The titles of the sections, each with the line that stands for a section without items. -/
def labels : List (String × String) :=
  [("Integers", "No integers were found"), ("Floats", "No floats were found"),
    ("Longs", "No longs were found"), ("Doubles", "No doubles were found"),
    ("Classes", "No class references were found"), ("Strings", "No string references were found"),
    ("Field data", "Field data not found"), ("Method data", "Method data not found"),
    ("Interface Method data", "Interface Method data not found"),
    ("Interfaces", "No interfaces were found"), ("Fields", "No fields were found"),
    ("Methods", "No methods were found")]

/-- What a summary lists, section by section. -/
def listed (summary : Summary) : List (List String) :=
  [summary.integers.map fun value => toString value.toInt,
    summary.floats.map fun bits => number (Decimal.Binary.ofBits32 bits),
    summary.longs.map fun value => toString value.toInt,
    summary.doubles.map fun bits => number (Decimal.Binary.ofBits64 bits),
    summary.classes, summary.strings, summary.fieldRefs, summary.methodRefs,
    summary.interfaceMethodRefs, summary.interfaces, summary.fields.map member,
    summary.methods.map member]

/-- The block of a section. -/
def shown (label : String × String) (items : List String) : String × List String :=
  (if items = [] then label.2 else label.1 ++ ":", items)

/-- Neither the title of a section nor the line that stands for it is set in, and they differ. -/
theorem label_lines {label : String × String} (h : label ∈ labels) :
    isItem label.2 = false ∧ isItem (label.1 ++ ":") = false ∧ label.1 ++ ":" ≠ label.2 := by
  revert label
  decide

theorem label_mem {summary : Summary} {part : Section} (h : part ∈ sections summary) :
    (part.title, part.absent) ∈ labels :=
  List.mem_map_of_mem (f := fun part : Section => (part.title, part.absent)) h

theorem isItem_opening {summary : Summary} {part : Section} (h : part ∈ sections summary) :
    isItem part.opening = false := by
  obtain ⟨habsent, htitle, -⟩ := label_lines (label_mem h)
  unfold Section.opening
  split
  · exact habsent
  · exact htitle

/-- Whether a line is set in shows at its front. -/
theorem isItem_append_of_le {front : String} (h : 2 ≤ front.toList.length) (rest : String) :
    isItem (front ++ rest) = isItem front := by
  rw [isItem, String.toList_append, List.take_append_of_le_length h]
  rfl

/-- The lines of the heading are not set in. -/
theorem isItem_heading {outline : Outline} {line : String} (h : line ∈ heading outline) :
    isItem line = false := by
  simp only [heading, List.mem_cons, List.not_mem_nil, or_false] at h
  rcases h with rfl | rfl | rfl
  · rw [headline, String.append_assoc, String.append_assoc]
    exact isItem_append_of_le (by decide) _
  · simp only [String.append_assoc]
    exact isItem_append_of_le (by decide) _
  · exact isItem_append_of_le (by decide) _

/-- Lines that are not set in are blocks of their own. -/
theorem blocks_append {lines more : List String} (hlines : ∀ line ∈ lines, isItem line = false)
    (hmore : ∀ line ∈ more.head?, isItem line = false) :
    blocks (lines ++ more) = lines.map (·, []) ++ blocks more := by
  induction lines with
  | nil => rfl
  | cons line rest ih =>
    obtain ⟨-, hrest⟩ := List.forall_mem_cons.mp hlines
    have hnext : ∀ next ∈ (rest ++ more).head?, isItem next = false := by
      cases rest with
      | nil => exact hmore
      | cons next rest =>
        intro line hline
        obtain rfl : next = line := Option.some.inj hline
        exact hrest next List.mem_cons_self
    exact (blocks_cons_append line [] hnext).trans (by rw [ih hrest]; rfl)

/-- The blocks of a listing are its heading, line by line, and its sections. -/
theorem blocks_listingLines {outline : Outline} (h : outline.valid = true) :
    blocks outline.listingLines =
      (heading outline).map (·, []) ++ List.zipWith shown labels (listed outline.summary) := by
  have hsections : List.zipWith shown labels (listed outline.summary) =
      (sections outline.summary).map fun part => (part.opening, part.items) := rfl
  have hopening : ∀ part ∈ sections outline.summary, isItem part.opening = false :=
    fun part hpart => isItem_opening hpart
  rw [listingLines_eq h, hsections, ← blocks_flatMap_lines hopening]
  exact blocks_append (fun line hline => isItem_heading hline) (isItem_head?_flatMap_lines hopening)

/-- The listing of a class tells what its summary tells. Its first line names the class and its
parent, with a placeholder for a class that cannot be resolved, exactly when the parent can be
resolved and there is no line feed in either name. It is made of lines, into which it falls again
unless one of them has a line feed in it. In these, behind a heading of three lines, stand twelve
sections, and each has the items of its list in the summary, in their order and as often as they
occur there; where there are none, and only there, a line of its own stands for the section. -/
theorem listing_reads_back {image : List UInt8} (h : (parse image).outline.valid = true) :
    let outline := (parse image).outline
    let summary := outline.summary
    (firstLine outline.listing = (namingLine summary.className summary.parentName).toList ↔
      (∀ own ∈ summary.className, '\n' ∉ own.toList) ∧
        ∃ parent ∈ summary.parentName, '\n' ∉ parent.toList) ∧
    ∃ lines : List String,
      outline.listing = String.join (lines.map (· ++ "\n")) ∧
      ((∀ line ∈ lines, '\n' ∉ line.toList) →
        outline.listing.toList.splitOn '\n' = lines.map String.toList ++ [[]]) ∧
      blocks lines = (heading outline).map (·, []) ++ List.zipWith shown labels (listed summary) ∧
      ∀ label ∈ labels, ∀ items, (shown label items).1 = label.2 ↔ items = [] := by
  intro outline summary
  refine ⟨firstLine_eq_iff h, outline.listingLines, rfl, splitOn_join, blocks_listingLines h, ?_⟩
  intro label hlabel items
  obtain ⟨-, -, hne⟩ := label_lines hlabel
  unfold shown
  split
  case isTrue hitems => exact ⟨fun _ => hitems, fun _ => rfl⟩
  case isFalse hitems => exact ⟨fun hsame => absurd hsame hne, fun hnil => absurd hnil hitems⟩

/-- An image without members; its class is the constant at index 2, which names the text `A`, and its
parent is the constant at index `parent`. -/
def childImage (parent : UInt8) : List UInt8 :=
  [0xCA, 0xFE, 0xBA, 0xBE, 0, 0, 0, 52, 0, 3] ++ [1, 0, 1, 65] ++ [7, 0, 1] ++
    [0, 0x21, 0, 2, 0, parent] ++ [0, 0, 0, 0, 0, 0, 0, 0]

/-- Without a parent index the parent is the root class. -/
theorem listing_reads_back_child :
    (parse (childImage 0)).outline.valid = true ∧
      firstLine (parse (childImage 0)).outline.listing =
        "Class A extending java/lang/Object".toList := by
  have hvalid : (parse (childImage 0)).outline.valid = true := by decide +kernel
  have hown : (parse (childImage 0)).outline.summary.className = some "A" := by decide +kernel
  have hparent : (parse (childImage 0)).outline.summary.parentName =
      some "java/lang/Object" := by decide +kernel
  have hline := (listing_reads_back hvalid).1
  rw [hown, hparent] at hline
  refine ⟨hvalid, (hline.mpr ⟨?_, "java/lang/Object", rfl, by decide⟩).trans (by decide)⟩
  intro own hmem
  obtain rfl := Option.some.inj hmem
  decide

/-- The first line does not always name the parent as the summary does. A parent index that leads
nowhere has no name there, and the line names the root class. -/
theorem unresolved_parent_listed_as_root :
    ¬ ∀ image : List UInt8, (parse image).outline.valid = true →
      firstLine (parse image).outline.listing =
        (namingLine (parse image).outline.summary.className
          (parse image).outline.summary.parentName).toList := by
  intro hline
  have hvalid : (parse (childImage 9)).outline.valid = true := by decide +kernel
  have hparent : (parse (childImage 9)).outline.parentName = none := by decide +kernel
  obtain ⟨-, parent, hname, -⟩ := (firstLine_eq_iff hvalid).mp (hline _ hvalid)
  rw [hparent] at hname
  cases hname

end Listing

end JarAudit.ClassFile
