/-!
# Pieces of text

What stands before and behind a separator, and the lines of a text.
-/

namespace JarAudit.Text

/-- What stands before and behind the first occurrence of a character, if there is one. -/
def splitAtFirst (separator : Char) (text : List Char) : Option (List Char × List Char) :=
  if separator ∈ text then
    some (text.takeWhile (· != separator), (text.dropWhile (· != separator)).drop 1)
  else none

/-- A text is split behind what does not have the separator. -/
theorem splitAtFirst_append {separator : Char} {front : List Char} (h : separator ∉ front)
    (back : List Char) :
    splitAtFirst separator (front ++ separator :: back) = some (front, back) := by
  have hfront : ∀ char ∈ front, (char != separator) = true := by
    intro char hchar
    exact bne_iff_ne.mpr fun heq => h (heq ▸ hchar)
  have hmem : separator ∈ front ++ separator :: back :=
    List.mem_append_right _ List.mem_cons_self
  rw [splitAtFirst, if_pos hmem, List.takeWhile_append_of_pos hfront,
    List.dropWhile_append_of_pos hfront, List.takeWhile_cons_of_neg (by simp),
    List.dropWhile_cons_of_neg (by simp), List.append_nil]
  rfl

theorem prefix_of_splitAtFirst {separator : Char} {text front back : List Char}
    (h : splitAtFirst separator text = some (front, back)) : front <+: text := by
  rw [splitAtFirst] at h
  split at h
  case isFalse => cases h
  obtain ⟨rfl, -⟩ := Prod.mk.inj (Option.some.inj h)
  exact List.takeWhile_prefix _

/-- Cuts a list behind every item that ends a piece, so that nothing of it is lost. -/
def cutBehind (endsPiece : α → Bool) (items : List α) : List (List α) :=
  items.foldr (fun item pieces =>
    if endsPiece item then [item] :: pieces
    else match pieces with
      | [] => [[item]]
      | piece :: rest => (item :: piece) :: rest) []

/-- A list is cut behind the first item that ends a piece. -/
theorem cutBehind_append_cons {endsPiece : α → Bool} {front : List α}
    (h : ∀ item ∈ front, endsPiece item = false) {item : α} (hitem : endsPiece item = true)
    (rest : List α) :
    cutBehind endsPiece (front ++ item :: rest) =
      (front ++ [item]) :: cutBehind endsPiece rest := by
  induction front with
  | nil => simp [cutBehind, hitem]
  | cons first front ih =>
    obtain ⟨hfirst, hfront⟩ := List.forall_mem_cons.mp h
    have hrest := ih hfront
    simp only [cutBehind, List.cons_append, List.foldr_cons] at hrest ⊢
    simp [hrest, hfirst]

/-- A list without an item that ends a piece is one piece. -/
theorem cutBehind_eq_singleton {endsPiece : α → Bool} {front : List α}
    (h : ∀ item ∈ front, endsPiece item = false) (hne : front ≠ []) :
    cutBehind endsPiece front = [front] := by
  induction front with
  | nil => exact absurd rfl hne
  | cons first front ih =>
    obtain ⟨hfirst, hfront⟩ := List.forall_mem_cons.mp h
    cases front with
    | nil => simp [cutBehind, hfirst]
    | cons second front =>
      have hrest := ih hfront (List.cons_ne_nil _ _)
      simp only [cutBehind, List.foldr_cons] at hrest ⊢
      simp [hrest, hfirst]

/-- A text without a carriage return at its end. -/
def dropReturn (line : List Char) : List Char :=
  if line.getLast? = some '\r' then line.dropLast else line

theorem dropReturn_eq_self {line : List Char} (h : line.getLast? ≠ some '\r') :
    dropReturn line = line := by
  rw [dropReturn, if_neg h]

/-- A piece of text without its line ending, which is a line feed with or without a carriage return
before it, or nothing at the end of the text. -/
def dropLineEnding (piece : List Char) : List Char :=
  if piece.getLast? = some '\n' then dropReturn piece.dropLast else piece

/-- The lines of a text. -/
def lines (text : List Char) : List (List Char) := (cutBehind (· == '\n') text).map dropLineEnding

end JarAudit.Text
