import JarAudit.Proofs.Reference.Agreement
import JarAudit.Proofs.Reference.TypeText

/-!
# Plain class names

A plain name has characters and no bracket. The names of class constants are cleaned, so what comes
from them is plain. What comes from the descriptors of an old format is not cleaned: a name is what
stands between an `L` that counts and the next `;`, and in a malformed descriptor this can be nothing
or have a bracket in it. So the names of an image are plain exactly when those in its descriptors
are, which they are when the descriptors follow the grammar (`IsDescriptor.plain`).
-/

namespace JarAudit.Reference

open JarAudit.ClassFile JarAudit.ClassFile.Reader

/-- A class name with characters and without brackets. -/
def Plain (name : List Char) : Prop := name ≠ [] ∧ '[' ∉ name

/-- A text that follows the grammar of descriptors. -/
def IsDescriptor (text : List Char) : Prop :=
  (∃ type : FieldType, type.text = text) ∨ ∃ type : MethodType, type.text = text

/-- The texts that are searched for class names: before format 50, those that names and types give as
their descriptors. -/
def searchedTexts (outline : Outline) : List String :=
  if outline.majorVersion < firstPlainMajor then
    outline.nameAndTypes.filterMap fun pair => outline.pool.utf8 pair.2.descriptor
  else []

theorem FieldType.plain_of_mem_names {type : FieldType} {name : List Char} (h : name ∈ type.names) :
    Plain name := by
  induction type with
  | primitive type => cases h
  | ofClass own =>
    obtain rfl : name = own.chars := List.mem_singleton.mp h
    exact ⟨own.ne_nil, own.no_bracket⟩
  | array element ih => exact ih h

theorem MethodType.plain_of_mem_names {type : MethodType} {name : List Char}
    (h : name ∈ type.names) : Plain name := by
  rcases List.mem_append.mp h with hparameters | hresult
  · obtain ⟨parameter, -, hname⟩ := List.mem_flatMap.mp hparameters
    exact FieldType.plain_of_mem_names hname
  · cases htype : type.result with
    | none =>
      rw [htype] at hresult
      cases hresult
    | some result =>
      rw [htype] at hresult
      exact FieldType.plain_of_mem_names hresult

/-- The names in a text that follows the grammar are plain. -/
theorem IsDescriptor.plain {text name : List Char} (h : IsDescriptor text)
    (hname : name ∈ descriptorNames text) : Plain name := by
  obtain ⟨type, rfl⟩ | ⟨type, rfl⟩ := h
  · rw [descriptorNames_field] at hname
    exact FieldType.plain_of_mem_names hname
  · rw [descriptorNames_method] at hname
    exact MethodType.plain_of_mem_names hname

theorem mem_searchedTexts {outline : Outline} {text : String} :
    text ∈ searchedTexts outline ↔ outline.majorVersion < firstPlainMajor ∧
      ∃ descriptor ∈ outline.nameAndTypes.map fun pair => pair.2.descriptor,
        outline.pool.utf8 descriptor = some text := by
  rw [searchedTexts]
  split
  case isTrue hmajor =>
    simp only [List.mem_filterMap, List.mem_map, exists_exists_and_eq_and, hmajor, true_and]
  case isFalse hmajor => simp only [List.not_mem_nil, hmajor, false_and]

/-- A name that an outline shows is that of a class constant or stands in a text that is searched. -/
theorem mem_visibleReferences {outline : Outline} {name : String} :
    name ∈ visibleReferences outline ↔
      (∃ index ∈ outline.classRefs.map Prod.snd,
        (outline.pool.utf8 index).bind cleanText = some name) ∨
      ∃ text ∈ searchedTexts outline, name.toList ∈ descriptorNames text.toList := by
  rw [visibleReferences, List.mem_append, List.mem_filterMap]
  refine or_congr (by simp only [mem_ascending]) ?_
  simp only [mem_searchedTexts]
  split
  case isFalse hmajor => simp only [List.not_mem_nil, hmajor, false_and, exists_false]
  case isTrue hmajor =>
    simp only [List.mem_flatMap, mem_ascending, Option.mem_toList, List.mem_map, hmajor, true_and]
    constructor
    · rintro ⟨descriptor, hdescriptor, text, htext, own, hown, rfl⟩
      exact ⟨text, ⟨descriptor, hdescriptor, htext⟩, by rwa [String.toList_ofList]⟩
    · rintro ⟨text, ⟨descriptor, hdescriptor, htext⟩, hname⟩
      exact ⟨descriptor, hdescriptor, text, htext, name.toList, hname, String.ofList_toList⟩

theorem plain_of_cleanText {text name : String} (h : cleanText text = some name) :
    Plain name.toList := by
  obtain ⟨own, hown, rfl⟩ := Option.map_eq_some_iff.mp h
  rw [String.toList_ofList]
  exact plain_of_cleanName hown

/-- The references of an image are those that its outline shows. -/
theorem eq_visibleReferences {image : List UInt8} {names : List String}
    (h : references image = .ok names) : names = visibleReferences (parse image).outline := by
  have hruns := opening_lockstep (Cursor.front image) {} {} ⟨Outline.openFrom_empty 0, rfl⟩
  rw [references] at h
  generalize hopening : Outline.readOpening (Cursor.front image, {}) = opening at hruns
  generalize scan (Cursor.front image, {}) = scanned at hruns h
  cases hruns with
  | ok _ next opened findings htracks =>
    have hcontinues := parse_of_opens hopening
    rw [← hcontinues.sameMajor, ← hcontinues.samePool] at htracks
    rw [← names_eq_visibleReferences htracks]
    exact (Except.ok.inj h).symm
  | error => cases h

/-- The names that a scan answers are plain exactly when those in the texts that it searches are.
From format 50 on nothing is searched, and texts that follow the grammar have no other names. -/
theorem names_plain_iff {image : List UInt8} {names : List String}
    (h : references image = .ok names) :
    ((∀ name ∈ names, Plain name.toList) ↔
      ∀ text ∈ searchedTexts (parse image).outline, ∀ name ∈ descriptorNames text.toList,
        Plain name) ∧
    ((∀ text ∈ searchedTexts (parse image).outline, IsDescriptor text.toList) →
      ∀ name ∈ names, Plain name.toList) := by
  have hiff : (∀ name ∈ names, Plain name.toList) ↔
      ∀ text ∈ searchedTexts (parse image).outline, ∀ name ∈ descriptorNames text.toList,
        Plain name := by
    simp only [eq_visibleReferences h, mem_visibleReferences]
    constructor
    · intro hplain text htext name hname
      have hlist := String.toList_ofList (l := name)
      have hname := hplain (String.ofList name) (.inr ⟨text, htext, hlist.symm ▸ hname⟩)
      rwa [hlist] at hname
    · rintro hplain name (⟨index, -, hclean⟩ | ⟨text, htext, hname⟩)
      · obtain ⟨own, -, hclean⟩ := Option.bind_eq_some_iff.mp hclean
        exact plain_of_cleanText hclean
      · exact hplain text htext _ hname
  refine ⟨hiff, fun hgrammar => hiff.mpr fun text htext name hname => ?_⟩
  exact (hgrammar text htext).plain hname

/-- An image of format 49 with two names and types. Their descriptors are the texts at these indices;
the first text is `Lx/Y;`, the second `L;` and the third `L[;`. -/
def oldImage (first second : UInt8) : List UInt8 :=
  [0xCA, 0xFE, 0xBA, 0xBE, 0, 0, 0, 49, 0, 6] ++
    [1, 0, 5, 76, 120, 47, 89, 59] ++ [1, 0, 2, 76, 59] ++ [1, 0, 3, 76, 91, 59] ++
    [12, 0, 1, 0, first] ++ [12, 0, 1, 0, second]

/-- A well-formed descriptor, and the name in it. -/
theorem names_plain_iff_old :
    references (oldImage 1 1) = .ok ["x/Y"] ∧
      (∀ text ∈ searchedTexts (parse (oldImage 1 1)).outline, IsDescriptor text.toList) ∧
      ∀ name ∈ ["x/Y"], Plain name.toList := by
  have hnames : references (oldImage 1 1) = .ok ["x/Y"] := by decide +kernel
  have htexts : searchedTexts (parse (oldImage 1 1)).outline = ["Lx/Y;", "Lx/Y;"] := by
    decide +kernel
  have hgrammar : ∀ text ∈ searchedTexts (parse (oldImage 1 1)).outline,
      IsDescriptor text.toList := by
    intro text htext
    rw [htexts] at htext
    obtain rfl : text = "Lx/Y;" := by simpa using htext
    exact .inl ⟨.ofClass ⟨"x/Y".toList, by decide, by decide, by decide⟩, by decide⟩
  exact ⟨hnames, hgrammar, (names_plain_iff hnames).2 hgrammar⟩

/-- Not all names are plain: the descriptors `L;` and `L[;` of an old image have the empty name and a
bracket in them. -/
theorem not_names_plain :
    ¬ ∀ (image : List UInt8) (names : List String), references image = .ok names →
      ∀ name ∈ names, name ≠ "" ∧ '[' ∉ name.toList := by
  intro hplain
  have hnames : references (oldImage 2 3) = .ok ["", "["] := by decide +kernel
  exact (hplain _ _ hnames "" List.mem_cons_self).1 rfl

end JarAudit.Reference
