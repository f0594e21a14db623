import Mathlib.Data.List.TakeWhile
import JarAudit.Reference.TypeText

/-!
# Type texts by their grammar

The walk through a descriptor looks for an `L`, one character back and for the next `;`. The type
texts of the platform have a grammar (`FieldType`, `MethodType`), and on what it allows the walk
finds the names that it should: behind every type text it is between names again, where an `L` opens
a name (`namesFrom_text`). The name of a class constant, which is read from its end, is that of the
same class (`cleanName_array`).

On other texts less can be said. Every name that is found stands in the text where a name may stand,
and no two of them overlap (`exists_occurrences`).
-/

namespace JarAudit.Reference

/-! ### The grammar -/

/-- The primitive types. -/
inductive Primitive where
  | byte | char | double | float | int | long | short | boolean
  deriving DecidableEq, Repr

/-- The code of a primitive type. -/
def Primitive.code : Primitive → Char
  | byte => 'B'
  | char => 'C'
  | double => 'D'
  | float => 'F'
  | int => 'I'
  | long => 'J'
  | short => 'S'
  | boolean => 'Z'

/-- A name as a type text can have it. -/
structure ClassName where
  chars : List Char
  ne_nil : chars ≠ []
  no_end : ';' ∉ chars
  no_bracket : '[' ∉ chars

/-- The type of a field. -/
inductive FieldType where
  | primitive (type : Primitive)
  | ofClass (name : ClassName)
  | array (element : FieldType)

namespace FieldType

/-- A type as it is written. -/
def text : FieldType → List Char
  | primitive type => [type.code]
  | ofClass name => 'L' :: (name.chars ++ [';'])
  | array element => '[' :: element.text

/-- The class of a type, or of the elements of an array at whatever depth. -/
def className? : FieldType → Option (List Char)
  | primitive _ => none
  | ofClass name => some name.chars
  | array element => element.className?

/-- The classes that a type is about. -/
def names (type : FieldType) : List (List Char) := type.className?.toList

end FieldType

/-- The type of a method. One without a result is void. -/
structure MethodType where
  parameters : List FieldType
  result : Option FieldType

namespace MethodType

/-- A type as it is written. -/
def text (type : MethodType) : List Char :=
  '(' :: (type.parameters.flatMap FieldType.text ++
    ')' :: (type.result.elim ['V'] FieldType.text))

/-- The classes that a type is about, from left to right. -/
def names (type : MethodType) : List (List Char) :=
  type.parameters.flatMap FieldType.names ++ type.result.elim [] FieldType.names

end MethodType

/-! ### Walks through type texts -/

theorem opensName_code (type : Primitive) : opensName type.code = true := by
  cases type <;> decide

theorem code_ne (type : Primitive) : type.code ≠ 'L' := by
  cases type <;> decide

theorem namesFrom_between_cons {opens : Bool} {found : List (List Char)} {char : Char}
    (h : char ≠ 'L') (rest : List Char) :
    namesFrom (.between opens) found (char :: rest) =
      namesFrom (.between (opensName char)) found rest := by
  rw [namesFrom, if_neg h]

/-- A name is read up to its end. -/
theorem namesFrom_inside {counts : Bool} {name : List Char} (h : ';' ∉ name)
    (front : List Char) (found : List (List Char)) (rest : List Char) :
    namesFrom (.inside counts front) found (name ++ ';' :: rest) =
      namesFrom (.between true) (if counts then (front.reverse ++ name) :: found else found)
        rest := by
  induction name generalizing front with
  | nil => rw [List.nil_append, namesFrom, if_pos rfl, List.append_nil]
  | cons char name ih =>
    rw [List.mem_cons, not_or] at h
    rw [List.cons_append, namesFrom, if_neg (Ne.symm h.1), ih h.2, List.reverse_cons,
      List.append_assoc, List.singleton_append]

/-- Behind a type text the walk is between names again. -/
theorem namesFrom_text (type : FieldType) (found : List (List Char)) (rest : List Char) :
    namesFrom (.between true) found (type.text ++ rest) =
      namesFrom (.between true) (type.names.reverse ++ found) rest := by
  induction type with
  | primitive type =>
    rw [FieldType.text, List.singleton_append, namesFrom_between_cons (code_ne type),
      opensName_code]
    rfl
  | ofClass name =>
    rw [FieldType.text, List.cons_append, List.append_assoc, List.singleton_append, namesFrom,
      if_pos rfl, namesFrom_inside name.no_end]
    rfl
  | array element ih =>
    rw [FieldType.text, List.cons_append, namesFrom_between_cons (by decide)]
    exact ih

/-- Behind a run of type texts the walk is between names again. -/
theorem namesFrom_flatMap_text (types : List FieldType) (found : List (List Char))
    (rest : List Char) :
    namesFrom (.between true) found (types.flatMap FieldType.text ++ rest) =
      namesFrom (.between true) ((types.flatMap FieldType.names).reverse ++ found) rest := by
  induction types generalizing found with
  | nil => rfl
  | cons type types ih =>
    rw [List.flatMap_cons, List.append_assoc, namesFrom_text, ih, List.flatMap_cons,
      List.reverse_append, List.append_assoc]

theorem descriptorNames_field (type : FieldType) : descriptorNames type.text = type.names := by
  have h := namesFrom_text type [] []
  rw [List.append_nil, List.append_nil] at h
  rw [descriptorNames, h, namesFrom, List.reverse_reverse]

theorem descriptorNames_method (type : MethodType) : descriptorNames type.text = type.names := by
  rw [descriptorNames, MethodType.text, namesFrom_between_cons (by decide)]
  change namesFrom (.between true) [] _ = _
  rw [namesFrom_flatMap_text, namesFrom_between_cons (by decide), List.append_nil, MethodType.names]
  change namesFrom (.between true) _ _ = _
  cases type.result with
  | none =>
    rw [Option.elim_none, Option.elim_none, namesFrom_between_cons (by decide), namesFrom,
      List.reverse_reverse, List.append_nil]
  | some result =>
    rw [Option.elim_some, Option.elim_some, ← List.append_nil result.text, namesFrom_text, namesFrom,
      List.reverse_append, List.reverse_reverse, List.reverse_reverse]

/-! ### Names of class constants -/

theorem afterLastBracket_eq_none {text : List Char} :
    afterLastBracket text = none ↔ '[' ∉ text := by
  rw [afterLastBracket]
  split <;> simp_all

theorem afterLastBracket_cons_of_not_mem {text : List Char} (h : '[' ∉ text) :
    afterLastBracket ('[' :: text) = some text := by
  have hall : ∀ char ∈ text.reverse, (char != '[') = true := by
    intro char hchar
    exact bne_iff_ne.mpr fun heq => h (heq ▸ List.mem_reverse.mp hchar)
  rw [afterLastBracket, if_pos List.mem_cons_self, List.reverse_cons,
    List.takeWhile_append_of_pos hall, List.takeWhile_cons_of_neg (by decide), List.append_nil,
    List.reverse_reverse]

theorem afterLastBracket_cons_of_mem {char : Char} {text : List Char} (h : '[' ∈ text) :
    afterLastBracket (char :: text) = afterLastBracket text := by
  have hshort : (text.reverse.takeWhile (· != '[')).length ≠ text.reverse.length := by
    intro hlength
    have hself := (List.takeWhile_prefix (· != '[')).eq_of_length hlength
    have hall := List.takeWhile_eq_self_iff.mp hself '[' (List.mem_reverse.mpr h)
    cases hall
  rw [afterLastBracket, afterLastBracket, if_pos h, if_pos (List.mem_cons_of_mem _ h),
    List.reverse_cons, List.takeWhile_append, if_neg hshort]

/-- What follows the last bracket is a part of the text without brackets. -/
theorem not_mem_of_afterLastBracket {text rest : List Char} (h : afterLastBracket text = some rest) :
    '[' ∉ rest := by
  rw [afterLastBracket] at h
  split at h
  case isFalse => cases h
  obtain rfl := Option.some.inj h
  intro hmem
  simpa using List.all_eq_true.mp List.all_takeWhile '[' (List.mem_reverse.mp hmem)

/-- The class of the elements of an array, from what follows the brackets of its name. -/
def elementName : List Char → Option (List Char)
  | 'L' :: element => do
    let (own, _) ← Text.splitAtFirst ';' element
    if own.isEmpty then none else some own
  | _ => none

theorem cleanName_of_afterLastBracket {text rest : List Char}
    (h : afterLastBracket text = some rest) : cleanName text = elementName rest := by
  cases text with
  | nil => cases h
  | cons char text =>
    unfold cleanName elementName
    rw [h]
    split <;> simp_all

theorem cleanName_of_not_mem {text : List Char} (hne : text ≠ []) (h : '[' ∉ text) :
    cleanName text = some text := by
  have hafter := afterLastBracket_eq_none.mpr h
  cases text with
  | nil => exact absurd rfl hne
  | cons char text => simp only [cleanName, hafter]

/-- In front of an array's name only its brackets count. -/
theorem cleanName_cons_of_mem {char : Char} {text : List Char} (h : '[' ∈ text) :
    cleanName (char :: text) = cleanName text := by
  cases hrest : afterLastBracket text with
  | none => exact absurd h (afterLastBracket_eq_none.mp hrest)
  | some rest =>
    rw [cleanName_of_afterLastBracket hrest, cleanName_of_afterLastBracket]
    rw [afterLastBracket_cons_of_mem h, hrest]

/-- The name of a class constant that stands for an array is about the class of its elements. -/
theorem cleanName_array (element : FieldType) :
    cleanName (FieldType.array element).text = element.className? := by
  rw [FieldType.text]
  induction element with
  | primitive type => cases type <;> decide
  | ofClass name =>
    have hplain : '[' ∉ (FieldType.ofClass name).text := by
      simp [FieldType.text, name.no_bracket]
    have hne : ¬ name.chars.isEmpty = true := by
      simpa using name.ne_nil
    rw [cleanName_of_afterLastBracket (afterLastBracket_cons_of_not_mem hplain), FieldType.text,
      elementName, Text.splitAtFirst_append name.no_end]
    exact if_neg hne
  | array element ih =>
    rw [cleanName_cons_of_mem (by simp [FieldType.text])]
    exact ih

/-- What the name of a class constant is about has characters and no bracket, whatever the name. -/
theorem plain_of_cleanName {text name : List Char} (h : cleanName text = some name) :
    name ≠ [] ∧ '[' ∉ name := by
  cases hafter : afterLastBracket text with
  | none =>
    have hplain := afterLastBracket_eq_none.mp hafter
    cases text with
    | nil => cases h
    | cons char text =>
      rw [cleanName_of_not_mem (List.cons_ne_nil _ _) hplain] at h
      obtain rfl := Option.some.inj h
      exact ⟨List.cons_ne_nil _ _, hplain⟩
  | some rest =>
    have hplain := not_mem_of_afterLastBracket hafter
    rw [cleanName_of_afterLastBracket hafter] at h
    unfold elementName at h
    split at h
    case h_2 => cases h
    obtain ⟨⟨own, behind⟩, hsplit, hown⟩ := Option.bind_eq_some_iff.mp h
    have hfront := Text.prefix_of_splitAtFirst hsplit
    dsimp only at hown
    split at hown
    case isTrue => cases hown
    case isFalse hne =>
      obtain rfl := Option.some.inj hown
      refine ⟨fun hnil => hne (List.isEmpty_iff.mpr hnil), fun hmem => ?_⟩
      exact hplain (List.mem_cons_of_mem _ (hfront.subset hmem))

/-! ### Names in any text -/

/-- A class name stands in a text. Its `L` is at this position, the first one or behind a sign or the
code of a primitive type, and the next `;` ends it. -/
def Occurs (text : List Char) (start : Nat) (name : List Char) : Prop :=
  ';' ∉ name ∧ ∃ before after, text = before ++ 'L' :: (name ++ ';' :: after) ∧
    before.length = start ∧ ∀ char ∈ before.getLast?, char ∈ "()[;BCDFIJSZ".toList

/-- These names stand in a text from a position on, in this order, and none overlaps another. -/
def Stand (text : List Char) (start : Nat) (names : List (List Char)) : Prop :=
  ∃ occurrences : List (Nat × List Char),
    (∀ found ∈ occurrences, start ≤ found.1 ∧ Occurs text found.1 found.2) ∧
    occurrences.Pairwise (fun one other => one.1 + one.2.length + 2 ≤ other.1) ∧
    occurrences.map Prod.snd = names

namespace Stand

variable {text : List Char} {start : Nat} {names : List (List Char)}

theorem nil (text : List Char) (start : Nat) : Stand text start [] := ⟨[], nofun, .nil, rfl⟩

theorem mono {earlier : Nat} (h : Stand text start names) (hle : earlier ≤ start) :
    Stand text earlier names := by
  obtain ⟨occurrences, hoccur, happart, hnames⟩ := h
  exact ⟨occurrences, fun found hfound => ⟨hle.trans (hoccur found hfound).1,
    (hoccur found hfound).2⟩, happart, hnames⟩

theorem cons {first : Nat} {name : List Char} (hname : Occurs text first name)
    (h : Stand text (first + name.length + 2) names) : Stand text first (name :: names) := by
  obtain ⟨occurrences, hoccur, happart, rfl⟩ := h
  refine ⟨(first, name) :: occurrences, fun found hfound => ?_,
    .cons (fun found hfound => (hoccur found hfound).1) happart, rfl⟩
  rcases List.mem_cons.mp hfound with rfl | hfound
  · exact ⟨Nat.le_refl _, hname⟩
  · have hstart := (hoccur found hfound).1
    exact ⟨by omega, (hoccur found hfound).2⟩

end Stand

/-- What was read of a text agrees with the place of the walk: between names, whether a name opens is
told by the last character; inside a name, by the one in front of its `L`. -/
def Place.Fits (before : List Char) : Place → Prop
  | .between opens => opens = before.getLast?.all opensName
  | .inside counts name => ∃ front, before = front ++ 'L' :: name.reverse ∧ ';' ∉ name ∧
      counts = front.getLast?.all opensName

/-- The position from which on names are still to be found. -/
def Place.start (before : List Char) : Place → Nat
  | .between _ => before.length
  | .inside _ name => before.length - (name.length + 1)

theorem namesFrom_eq_append (place : Place) (found : List (List Char)) (rest : List Char) :
    namesFrom place found rest = found.reverse ++ namesFrom place [] rest := by
  induction rest generalizing place found with
  | nil => simp only [namesFrom, List.reverse_nil, List.append_nil]
  | cons char rest ih =>
    cases place with
    | between opens =>
      rw [namesFrom, namesFrom]
      split <;> exact ih _ _
    | inside counts name =>
      rw [namesFrom, namesFrom]
      split
      · rw [ih, ih _ (if counts then [name.reverse] else [])]
        cases counts <;> simp
      · exact ih _ _

/-- From every place the walk finds names that stand in the text, one behind the other. -/
theorem stand_namesFrom (place : Place) (before rest : List Char) (h : place.Fits before) :
    Stand (before ++ rest) (place.start before) (namesFrom place [] rest) := by
  induction rest generalizing place before with
  | nil =>
    rw [namesFrom]
    exact .nil _ _
  | cons char rest ih =>
    have htext : before ++ char :: rest = (before ++ [char]) ++ rest := by
      rw [List.append_assoc, List.singleton_append]
    rw [htext]
    cases place with
    | between opens =>
      rw [namesFrom]
      split
      case isTrue hL =>
        subst hL
        have hrest := ih (.inside opens []) _ ⟨before, rfl, List.not_mem_nil, h⟩
        exact hrest.mono (by simp [Place.start])
      case isFalse hL =>
        have hrest := ih (.between (opensName char)) (before ++ [char])
          (by simp [Place.Fits])
        exact hrest.mono (by simp [Place.start])
    | inside counts name =>
      obtain ⟨front, rfl, hname, hcounts⟩ := h
      rw [namesFrom]
      split
      case isTrue hend =>
        subst hend
        have hrest := ih (.between true) (front ++ 'L' :: name.reverse ++ [';'])
          (by rw [Place.Fits, List.getLast?_concat]; decide)
        rw [namesFrom_eq_append]
        cases counts with
        | false => exact hrest.mono (by simp [Place.start])
        | true =>
          have hoccurs : Occurs (front ++ 'L' :: name.reverse ++ [';'] ++ rest) front.length
              name.reverse := by
            refine ⟨by simpa using hname, front, rest, by simp, rfl, fun char hchar => ?_⟩
            rw [hchar] at hcounts
            simpa [opensName] using hcounts.symm
          have hbehind : front.length + name.reverse.length + 2 =
              (front ++ 'L' :: name.reverse ++ [';']).length := by
            simp only [List.length_append, List.length_cons, List.length_nil]
            omega
          rw [Place.start, ← hbehind] at hrest
          exact (Stand.cons hoccurs hrest).mono (by simp [Place.start])
      case isFalse hend =>
        have hrest := ih (.inside counts (char :: name)) (front ++ 'L' :: name.reverse ++ [char])
          ⟨front, by simp, by simp [hname, Ne.symm hend], hcounts⟩
        exact hrest.mono (by simp [Place.start])

/-- The names that are found in any text stand in it. -/
theorem stand_descriptorNames (text : List Char) : Stand text 0 (descriptorNames text) :=
  stand_namesFrom (.between true) [] text rfl

/-- The names in type texts follow their grammar. In the type of a field or of a method the classes
that it is about are found, from left to right and as often as they stand there. For an array both
ways lead to the class of its elements, or to none if they are primitive. Of any text at all it holds
that the name of a class constant is about a class whose name has characters, has no bracket and is
about itself, and that the names found in a descriptor stand in it one behind the other. -/
theorem names_follow_grammar :
    (∀ type : FieldType, descriptorNames type.text = type.names) ∧
    (∀ type : MethodType, descriptorNames type.text = type.names) ∧
    (∀ element : FieldType,
      cleanName (FieldType.array element).text = element.className? ∧
      descriptorNames (FieldType.array element).text =
        (cleanName (FieldType.array element).text).toList) ∧
    (∀ text name, cleanName text = some name →
      name ≠ [] ∧ '[' ∉ name ∧ cleanName name = some name) ∧
    ∀ text, ∃ occurrences : List (Nat × List Char),
      (∀ found ∈ occurrences, Occurs text found.1 found.2) ∧
      occurrences.Pairwise (fun one other => one.1 + one.2.length + 2 ≤ other.1) ∧
      descriptorNames text = occurrences.map Prod.snd := by
  refine ⟨descriptorNames_field, descriptorNames_method, ?_, ?_, ?_⟩
  · intro element
    have hclean := cleanName_array element
    refine ⟨hclean, ?_⟩
    rw [hclean, descriptorNames_field]
    rfl
  · intro text name hname
    obtain ⟨hne, hplain⟩ := plain_of_cleanName hname
    exact ⟨hne, hplain, cleanName_of_not_mem hne hplain⟩
  · intro text
    obtain ⟨occurrences, hoccur, happart, hnames⟩ := stand_descriptorNames text
    exact ⟨occurrences, fun found hfound => (hoccur found hfound).2, happart, hnames.symm⟩

example : descriptorNames "(J[[Lx/LY;Lx/Z;)Lx/LY;".toList =
    ["x/LY".toList, "x/Z".toList, "x/LY".toList] := by decide

end JarAudit.Reference
