import JarAudit.Files.Glob.Basic

/-!
# Limits of globs

The globs of one file are used together or not at all. To be used, each of them may be nested only
so deep, and their automata may take up only so much memory. Both are measured on the regular
expressions that stand for the globs: `*` is a repetition of a class of bytes, any number of
directories is a choice between nothing and a run that ends in a separator, and so on. The states of
an automaton are those of the usual construction, one for each byte, with more where ways part and
meet.
-/

namespace JarAudit.Files.Glob

/-! ### Depth -/

/-- How many levels there may be, one inside the other. -/
def maxDepth : Nat := 250

mutual

/-- How many levels a token adds: a class, a repetition, a group, and what is inside of it. -/
def Token.depth : Token → Nat
  | .byte _ => 0
  | .any | .everything | .treeSuffix => 1
  | .anyRun => 2
  | .treePrefix | .treeMiddle => 4
  | .oneOf _ ranges => if ranges.length ≤ 1 then 1 else 2
  | .alternatives choices => 1 + (if choices.length ≤ 1 then 0 else 1) + deepestChoice choices

/-- The levels of the deepest token in a sequence. -/
def deepest : List Token → Nat
  | [] => 0
  | token :: rest => max token.depth (deepest rest)

/-- The levels of the deepest choice. A sequence is a level of its own, unless it is one token; a
separator with anything behind it counts as two. -/
def deepestChoice : List (List Token) → Nat
  | [] => 0
  | choice :: rest =>
    let level := match choice with
      | [.treeSuffix] => 1
      | [_] => 0
      | _ => 1
    max (level + deepest choice) (deepestChoice rest)

end

/-- The levels of a pattern, which is a sequence between a start and an end. -/
def depth (glob : Glob) : Nat := 1 + deepest glob.tokens

/-! ### Room -/

/-- How many bytes the states of an automaton may take up. -/
def maxRoom : Nat := 10 * 1024 * 1024

/-- The bytes of one state. -/
def stateRoom : Nat := 32

/-- The bytes of a state from which so many ways lead on. -/
def forkRoom (ways : Nat) : Nat := stateRoom + 4 * ways

/-- The bytes of the states for one byte of some kind. Bytes in a row are one range, and a kind of
only one byte needs no ranges. -/
def classRoom (takes : UInt8 → Bool) : Nat :=
  match (List.range 256).map Nat.toUInt8 |>.filter takes with
  | [_] => stateRoom
  | bytes => 2 * stateRoom + 8 * (bytes.filter fun byte => byte == 0 || !takes (byte - 1)).length

/-- The bytes that a token for one byte takes. -/
def Token.takes? : Token → Option (UInt8 → Bool)
  | .byte own => some (· == own)
  | .any => some (· != slash)
  | .oneOf negated ranges => some (isOneOf negated ranges)
  | _ => none

/-- The bytes that a sequence takes if it is for one byte. -/
def takesOfAll? : List Token → Option (UInt8 → Bool)
  | [token] => token.takes?
  | _ => none

/-- The bytes that choices take if each of them is for one byte. -/
def takesOfChoices? (choices : List (List Token)) : Option (UInt8 → Bool) :=
  (choices.mapM takesOfAll?).map fun kinds byte => kinds.any fun takes => takes byte

/-- The bytes of the states for any number of bytes. -/
def runRoom : Nat := forkRoom 2 + classRoom fun _ => true

mutual

/-- The bytes of the states for a token. -/
def Token.room : Token → Nat
  | .byte _ => stateRoom
  | .any => classRoom (· != slash)
  | .anyRun => forkRoom 2 + classRoom (· != slash)
  | .everything => runRoom
  | .treePrefix => 2 * forkRoom 2 + 4 * stateRoom + runRoom
  | .treeSuffix => stateRoom + runRoom
  | .treeMiddle => forkRoom 2 + 4 * stateRoom + runRoom
  | .oneOf negated ranges => classRoom (isOneOf negated ranges)
  | .alternatives choices =>
    match takesOfChoices? choices, choices with
    | some takes, _ => classRoom takes
    | none, [_] => roomOfChoices choices
    | none, _ => forkRoom choices.length + stateRoom + roomOfChoices choices

/-- The bytes of the states for a sequence. -/
def roomOfAll : List Token → Nat
  | [] => 0
  | token :: rest => token.room + roomOfAll rest

/-- The bytes of the states for several sequences. -/
def roomOfChoices : List (List Token) → Nat
  | [] => 0
  | choice :: rest => roomOfAll choice + roomOfChoices rest

end

/-- The bytes of the states for a pattern, with those at its start and end. -/
def room (glob : Glob) : Nat := 5 * stateRoom + roomOfAll glob.tokens

/-! ### Use -/

/-- The token stands for a certain byte. -/
def Token.isByte : Token → Bool
  | .byte _ => true
  | _ => false

/-- The token stands for a certain byte that is no dot and no separator. -/
def Token.isOrdinary : Token → Bool
  | .byte own => own != dot && own != slash
  | _ => false

/-- The pattern needs no automaton: it is a text, a text at any depth, or a name with an extension
at any depth. -/
def isPlain (glob : Glob) : Bool :=
  match glob.tokens with
  | .treePrefix :: .anyRun :: .byte 0x2E :: extension => extension.all Token.isOrdinary
  | .treePrefix :: text | text => text.all Token.isByte

/-- The pattern is only about paths with a certain extension. -/
def hasExtension (glob : Glob) : Bool :=
  match glob.tokens.reverse.dropWhile Token.isOrdinary with
  | .byte 0x2E :: _ => true
  | _ => false

/-- Patterns can be used together. Those about an extension have an automaton each, all others that
need one share it. -/
def areUsable (globs : List Glob) : Bool :=
  let (single, shared) := (globs.filter (!·.isPlain)).partition hasExtension
  globs.all (·.depth ≤ maxDepth) && single.all (·.room ≤ maxRoom) &&
    shared.foldl (fun room glob => room + glob.room) 0 ≤ maxRoom

end JarAudit.Files.Glob
