/-!
# Globs

Patterns for paths, as the rules of ignore files use them. A pattern is a sequence of tokens, each
of which takes a share of the bytes of a path; a token of alternatives holds sequences of its own.
-/

namespace JarAudit.Files

/-- A token of a pattern. -/
inductive Glob.Token where
  | byte (own : UInt8)
  /-- One byte other than a separator. -/
  | any
  /-- Any number of bytes other than separators. -/
  | anyRun
  /-- Any number of bytes. -/
  | everything
  /-- Any number of directories at the start. -/
  | treePrefix
  /-- Anything below a directory, at the end. -/
  | treeSuffix
  /-- A separator, or directories with separators around them. -/
  | treeMiddle
  /-- One byte in some ranges, or in none of them. -/
  | oneOf (negated : Bool) (ranges : List (UInt8 × UInt8))
  | alternatives (choices : List (List Token))

/-- A pattern. -/
structure Glob where
  tokens : List Glob.Token

namespace Glob

/-- The separator. -/
def slash : UInt8 := 0x2F

/-- The dot before an extension. -/
def dot : UInt8 := 0x2E

/-- The byte is in some ranges, or in none of them. -/
def isOneOf (negated : Bool) (ranges : List (UInt8 × UInt8)) (byte : UInt8) : Bool :=
  (ranges.any fun (low, high) => low ≤ byte && byte ≤ high) != negated

end Glob

end JarAudit.Files
