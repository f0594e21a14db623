import JarAudit.Files.Glob.Basic

/-!
# Matching globs

Which paths a pattern matches. The places of a path are those before each of its bytes and the one
at its end. From the places that may be reached before a token follow those that may be reached
behind it, and a pattern matches when it leads from the start to the end.
-/

namespace JarAudit.Files.Glob

/-- For every place of a path whether it may be reached. -/
abbrev Reach := List Bool

namespace Reach

/-- Only the start of a path is reached. -/
def start (path : List UInt8) : Reach := true :: path.map fun _ => false

/-- The places behind one byte of some kind. -/
def advance (takes : UInt8 → Bool) (path : List UInt8) (reach : Reach) : Reach :=
  false :: List.zipWith (fun reached byte => reached && takes byte) reach path

/-- The places behind any number of bytes of some kind. `carried` says that the first place is
reached from before. -/
def flood (takes : UInt8 → Bool) : (carried : Bool) → (path : List UInt8) → Reach → Reach
  | _, _, [] => []
  | carried, [], reached :: _ => [reached || carried]
  | carried, byte :: path, reached :: reach =>
    let reached := reached || carried
    reached :: flood takes (reached && takes byte) path reach

/-- The places of either kind. -/
def union (a b : Reach) : Reach := List.zipWith (· || ·) a b

/-- The places behind any number of bytes. -/
def spread (path : List UInt8) (reach : Reach) : Reach := flood (fun _ => true) false path reach

/-- The places behind any number of directories, each with its separator. -/
def descend (path : List UInt8) (reach : Reach) : Reach :=
  union reach (advance (· == slash) path (spread path reach))

/-- The end of the path is reached. -/
def reachesEnd (reach : Reach) : Bool := reach.getLast? == some true

end Reach

mutual

/-- The places behind a token. -/
def Token.pass (path : List UInt8) : Token → Reach → Reach
  | .byte wanted, reach => reach.advance (· == wanted) path
  | .any, reach => reach.advance (· != slash) path
  | .anyRun, reach => reach.flood (· != slash) false path
  | .everything, reach => reach.spread path
  | .treePrefix, reach => reach.descend path
  | .treeSuffix, reach => (reach.advance (· == slash) path).spread path
  | .treeMiddle, reach => (reach.advance (· == slash) path).descend path
  | .oneOf negated ranges, reach => reach.advance (isOneOf negated ranges) path
  | .alternatives choices, reach => passAny path choices reach

/-- The places behind a sequence of tokens. -/
def passAll (path : List UInt8) : List Token → Reach → Reach
  | [], reach => reach
  | token :: rest, reach => passAll path rest (token.pass path reach)

/-- The places behind one of several sequences. -/
def passAny (path : List UInt8) : List (List Token) → Reach → Reach
  | [], reach => reach.map fun _ => false
  | choice :: rest, reach => (passAll path choice reach).union (passAny path rest reach)

end

/-- A path matches a pattern. -/
def isMatch (glob : Glob) (path : String) : Bool :=
  let path := path.toUTF8.data.toList
  (passAll path glob.tokens (Reach.start path)).reachesEnd

end JarAudit.Files.Glob
