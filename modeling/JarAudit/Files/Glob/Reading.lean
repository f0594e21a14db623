import JarAudit.Files.Glob.Basic

/-!
# Reading globs

`?` stands for one byte and `*` for any number of bytes, neither for a separator; `**` between
separators stands for any number of directories; a class in brackets stands for one byte and `{…,…}`
for one of several patterns; a backslash takes the meaning from the next character. A bracket that
is never closed stands for itself, as do all brackets behind it.
-/

namespace JarAudit.Files.Glob

/-- A group of alternatives that is being read, both parts in reverse: the ones that are complete,
and the tokens of the one being read. -/
structure Group where
  complete : List (List Token) := []
  current : List Token := []

/-- The state of reading: the groups that are open, innermost first, the tokens outside of all of
them in reverse, and the character before. -/
structure State where
  groups : List Group := []
  outside : List Token := []
  previous : Option Char := none
  /-- A bracket has turned out to be never closed, so brackets open nothing any more. -/
  noClasses : Bool := false

/-- The bytes of a character. -/
def bytesOf (char : Char) : List UInt8 := (String.singleton char).toUTF8.data.toList

namespace State

/-- The tokens of the innermost sequence, in reverse. -/
def current (state : State) : List Token :=
  match state.groups with
  | [] => state.outside
  | group :: _ => group.current

/-- Replaces the tokens of the innermost sequence. -/
def setCurrent (state : State) (tokens : List Token) : State :=
  match state.groups with
  | [] => { state with outside := tokens }
  | group :: outer => { state with groups := { group with current := tokens } :: outer }

/-- Adds a token to the innermost sequence. -/
def push (state : State) (token : Token) : State := state.setCurrent (token :: state.current)

/-- Adds a character that stands for itself. -/
def pushChar (state : State) (char : Char) : State :=
  (bytesOf char).foldl (fun state byte => state.push (.byte byte)) state

/-- Takes note of the character before the next one. -/
def past (state : State) (char : Char) : State := { state with previous := some char }

end State

/-! ### Classes -/

/-- The ranges of a class read so far, in reverse, and whether a range waits for its end. -/
structure ClassState where
  ranges : List (Char × Char) := []
  isOpen : Bool := false

/-- Reads a class behind its bracket and negation: its ranges in order and what follows it. There is
none if the class is never closed, and an error if a range runs backwards. The first character
stands for itself, also if it closes classes elsewhere. -/
def readClass (state : ClassState) (first : Bool) :
    List Char → Except Unit (Option (List (Char × Char) × List Char))
  | [] => .ok none
  | char :: rest =>
    let plain : Except Unit ClassState :=
      match state.isOpen, state.ranges with
      | true, (low, _) :: others =>
        if char < low then .error () else .ok ⟨(low, char) :: others, false⟩
      | _, ranges => .ok ⟨(char, char) :: ranges, false⟩
    if char = ']' && !first then
      let ranges := if state.isOpen then ('-', '-') :: state.ranges else state.ranges
      .ok (some (ranges.reverse, rest))
    else if char = '-' && !first && !state.isOpen then
      readClass { state with isOpen := true } false rest
    else
      match plain with
      | .ok state => readClass state false rest
      | .error () => .error ()

/-- A range of characters as ranges of bytes: the range spans from the last byte of the one end to
the first byte of the other, and the further bytes of both stand for themselves. -/
def byteRanges (range : Char × Char) : List (UInt8 × UInt8) :=
  let single (byte : UInt8) : UInt8 × UInt8 := (byte, byte)
  let low := bytesOf range.1
  let high := bytesOf range.2
  if range.1 == range.2 then low.map single
  else
    low.dropLast.map single ++ (low.getLast?.getD 0, high.head?.getD 0) ::
      (high.drop 1).map single

/-! ### Sequences -/

/-- Reads a star and what it may swallow: the new state and what follows. Two stars are directories
only if separators or ends are on both sides; they swallow the separators. -/
def readStar (state : State) (rest : List Char) : State × List Char :=
  match rest with
  | '*' :: rest =>
    let plain := (((state.push .anyRun).push .anyRun).past '*', rest)
    let grouped := !state.groups.isEmpty
    match state.current, state.previous with
    | [], _ =>
      match rest with
      | [] => ((state.push .treePrefix).past '*', [])
      | '/' :: rest => ((state.push .treePrefix).past '/', rest)
      | _ => plain
    | last :: before, previous =>
      let separated := previous == some '/' ||
        (grouped && (previous == some ',' || previous == some '{'))
      let directories (token : Token) : State :=
        match last with
        | .treePrefix | .treeSuffix => state
        | _ => state.setCurrent (token :: before)
      if !separated then plain
      else match rest with
        | [] => ((directories .treeSuffix).past '*', [])
        | '/' :: rest => ((directories .treeMiddle).past '/', rest)
        | char :: _ =>
          if grouped && (char = ',' || char = '}') then ((directories .treeSuffix).past '*', rest)
          else plain
  | rest => ((state.push .anyRun).past '*', rest)

/-- Reads the rest of a pattern. Every step takes a character, so their number bounds the `fuel`
that is needed. Patterns fail whose alternatives do not pair up or that end in a backslash. -/
def readFrom : (fuel : Nat) → State → List Char → Option (List Token)
  | 0, _, _ => none
  | _ + 1, state, [] => if state.groups.isEmpty then some state.outside.reverse else none
  | fuel + 1, state, char :: rest =>
    let next (state : State) := readFrom fuel (state.past char) rest
    match char with
    | '?' => next (state.push .any)
    | '*' =>
      let (state, rest) := readStar state rest
      readFrom fuel state rest
    | '[' =>
      if state.noClasses then next (state.pushChar '[')
      else
        let (negated, body) := match rest with
          | '!' :: body | '^' :: body => (true, body)
          | body => (false, body)
        match readClass {} true body with
        | .error () => none
        | .ok none => next { state.pushChar '[' with noClasses := true }
        | .ok (some (ranges, rest)) =>
          readFrom fuel ((state.push (.oneOf negated (ranges.flatMap byteRanges))).past ']') rest
    | '{' => next { state with groups := {} :: state.groups }
    | '}' =>
      match state.groups with
      | [] => none
      | group :: outer =>
        let choices := (group.current.reverse :: group.complete).reverse
        next ({ state with groups := outer }.push (.alternatives choices))
    | ',' =>
      match state.groups with
      | [] => next (state.pushChar ',')
      | group :: outer =>
        next { state with groups := ⟨group.current.reverse :: group.complete, []⟩ :: outer }
    | '\\' =>
      match rest with
      | [] => none
      | char :: rest => readFrom fuel ((state.pushChar char).past char) rest
    | char => next (state.pushChar char)

/-! ### Void alternatives -/

mutual

/-- A token without the choices in it that stand for nothing; alternatives without any other choice
stand for nothing themselves. -/
def Token.prune : Token → List Token
  | .alternatives choices =>
    match pruneChoices choices with
    | [] => []
    | kept => [.alternatives kept]
  | token => [token]

/-- A sequence without what stands for nothing. -/
def pruneAll : List Token → List Token
  | [] => []
  | token :: rest => token.prune ++ pruneAll rest

/-- The choices that stand for something. -/
def pruneChoices : List (List Token) → List (List Token)
  | [] => []
  | choice :: rest =>
    match pruneAll choice with
    | [] => pruneChoices rest
    | kept => kept :: pruneChoices rest

end

/-- Reads a pattern. A pattern of two stars alone matches everything. -/
def ofString? (pattern : String) : Option Glob :=
  let chars := pattern.toList
  (readFrom (chars.length + 1) {} chars).map fun
    | [.treePrefix] => ⟨[.everything]⟩
    | tokens => ⟨pruneAll tokens⟩

end JarAudit.Files.Glob
