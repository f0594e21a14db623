/-!
# Blank characters

The characters with the property White_Space, and the operations on text that treat them as blank.
-/

namespace JarAudit.Text

/-- The ranges of the property White_Space. -/
def blankRanges : List (Nat × Nat) :=
  [(0x0009, 0x000D), (0x0020, 0x0020), (0x0085, 0x0085), (0x00A0, 0x00A0), (0x1680, 0x1680),
    (0x2000, 0x200A), (0x2028, 0x2029), (0x202F, 0x202F), (0x205F, 0x205F), (0x3000, 0x3000)]

/-- The character has the property White_Space. -/
def isBlank (char : Char) : Bool :=
  blankRanges.any fun (first, last) => first ≤ char.toNat && char.toNat ≤ last

/-- A text without the blanks at its start. -/
def trimStart (text : List Char) : List Char := text.dropWhile isBlank

/-- A text without the blanks at its end. -/
def trimEnd (text : List Char) : List Char := (text.reverse.dropWhile isBlank).reverse

/-- A text without the blanks at its ends. -/
def trim (text : List Char) : List Char := trimEnd (trimStart text)

theorem trimStart_eq_self {text : List Char} (h : ∀ char ∈ text.head?, isBlank char = false) :
    trimStart text = text := by
  cases text with
  | nil => rfl
  | cons char text => rw [trimStart, List.dropWhile_cons, h char rfl, if_neg Bool.false_ne_true]

theorem trimEnd_eq_self {text : List Char} (h : ∀ char ∈ text.getLast?, isBlank char = false) :
    trimEnd text = text := by
  have hreverse : trimStart text.reverse = text.reverse :=
    trimStart_eq_self (by rwa [List.head?_reverse])
  rw [trimStart] at hreverse
  rw [trimEnd, hreverse, List.reverse_reverse]

/-- The longest runs of characters that are not blank. -/
def words (text : List Char) : List (List Char) :=
  (text.splitOnP isBlank).filter (! ·.isEmpty)

end JarAudit.Text
