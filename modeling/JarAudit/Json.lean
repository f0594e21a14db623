import JarAudit.Text.Numeral

/-!
# JSON

JSON values and their indented form: two spaces for each level, one item or member a line, empty
lists and objects on one line. Only what must be escaped is escaped.
-/

namespace JarAudit

/-- A JSON value. Numbers are kept as their text, and the members of an object keep their order. -/
inductive Json where
  | null
  | bool (value : Bool)
  | number (text : String)
  | string (text : String)
  | array (items : List Json)
  | object (members : List (String × Json))

namespace Json

instance : Inhabited Json := ⟨null⟩

/-- A natural number. -/
def nat (value : Nat) : Json := number (toString value)

/-- A whole number. -/
def int (value : Int) : Json := number (toString value)

/-- A value that may be absent, which is written as null. -/
def ofOption (f : α → Json) : Option α → Json
  | some value => f value
  | none => null

/-- A list of strings. -/
def strings (texts : List String) : Json := array (texts.map string)

/-- What stands in a string for a character. -/
def escape (char : Char) : List Char :=
  match char with
  | '"' => ['\\', '"']
  | '\\' => ['\\', '\\']
  | '\x08' => ['\\', 'b']
  | '\t' => ['\\', 't']
  | '\n' => ['\\', 'n']
  | '\x0c' => ['\\', 'f']
  | '\r' => ['\\', 'r']
  | char =>
    if char.toNat < 0x20 then '\\' :: 'u' :: (Text.Numeral.hex 4 char.toNat).toList else [char]

/-- A text in quotes. -/
def quote (text : String) : String :=
  String.ofList ('"' :: text.toList.flatMap escape ++ ['"'])

/-- A new line at a level of indentation. -/
def newLine (level : Nat) : String := String.ofList ('\n' :: List.replicate (2 * level) ' ')

mutual

/-- The indented form of a value at a level, behind what is written already. -/
def writeOnto (level : Nat) (text : String) : Json → String
  | null => text ++ "null"
  | bool true => text ++ "true"
  | bool false => text ++ "false"
  | number digits => text ++ digits
  | string value => text ++ quote value
  | array [] => text ++ "[]"
  | array (first :: rest) =>
    let text := writeOnto (level + 1) (text ++ "[" ++ newLine (level + 1)) first
    writeItemsOnto (level + 1) text rest ++ newLine level ++ "]"
  | object [] => text ++ "\x7b\x7d"
  | object ((key, value) :: rest) =>
    let text := text ++ "\x7b" ++ newLine (level + 1) ++ quote key ++ ": "
    let text := writeOnto (level + 1) text value
    writeMembersOnto (level + 1) text rest ++ newLine level ++ "\x7d"

/-- The further items of a list. -/
def writeItemsOnto (level : Nat) (text : String) : List Json → String
  | [] => text
  | item :: rest =>
    writeItemsOnto level (writeOnto level (text ++ "," ++ newLine level) item) rest

/-- The further members of an object. -/
def writeMembersOnto (level : Nat) (text : String) : List (String × Json) → String
  | [] => text
  | (key, value) :: rest =>
    let text := writeOnto level (text ++ "," ++ newLine level ++ quote key ++ ": ") value
    writeMembersOnto level text rest

end

/-- The indented form of a value. -/
def pretty (value : Json) : String := writeOnto 0 "" value

end Json

end JarAudit
