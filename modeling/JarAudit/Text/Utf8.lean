/-!
# UTF-8 with replacement

Bytes read as UTF-8, where what cannot be read becomes the replacement character: one for each
longest run of bytes that could have opened a character and was then broken off, and one for each
byte that cannot open any. The bytes are taken one at a time; `Partial` is what is known of a
character that is not complete yet.
-/

namespace JarAudit.Text.Utf8

/-- A character that still needs bytes. -/
structure Partial where
  /-- The bits so far. -/
  bits : Nat
  /-- How many bytes are still needed, the next one excluded. -/
  further : Nat
  /-- The next byte has to lie between `low` and `high`. -/
  low : UInt8 := 0x80
  high : UInt8 := 0xBF
  deriving DecidableEq, Repr

/-- The characters read so far, in reverse, and the one that is not complete yet. -/
structure State where
  read : List Char := []
  pending : Option Partial := none
  deriving DecidableEq, Repr

/-- What a first byte opens: an ASCII character, a longer one, or nothing. The narrower ranges for
the second byte leave out the forms that are too long, the surrogates and what lies above U+10FFFF.
-/
def start (read : List Char) (byte : UInt8) : State :=
  if byte < 0x80 then ⟨Char.ofNat byte.toNat :: read, none⟩
  else if 0xC2 ≤ byte && byte < 0xE0 then ⟨read, some { bits := byte.toNat % 0x20, further := 0 }⟩
  else if byte == 0xE0 then ⟨read, some { bits := 0, further := 1, low := 0xA0 }⟩
  else if byte == 0xED then ⟨read, some { bits := 0xD, further := 1, high := 0x9F }⟩
  else if 0xE1 ≤ byte && byte < 0xF0 then ⟨read, some { bits := byte.toNat % 0x10, further := 1 }⟩
  else if byte == 0xF0 then ⟨read, some { bits := 0, further := 2, low := 0x90 }⟩
  else if 0xF1 ≤ byte && byte < 0xF4 then ⟨read, some { bits := byte.toNat % 8, further := 2 }⟩
  else if byte == 0xF4 then ⟨read, some { bits := 4, further := 2, high := 0x8F }⟩
  else ⟨'\ufffd' :: read, none⟩

/-- Takes one more byte. A byte that breaks off a character may open another one. -/
def step (state : State) (byte : UInt8) : State :=
  match state.pending with
  | none => start state.read byte
  | some part =>
    if part.low ≤ byte && byte ≤ part.high then
      let bits := part.bits * 0x40 + byte.toNat % 0x40
      match part.further with
      | 0 => ⟨Char.ofNat bits :: state.read, none⟩
      | further + 1 => ⟨state.read, some { bits, further }⟩
    else start ('\ufffd' :: state.read) byte

/-- The characters of a finished state; a character that is not complete is broken off. -/
def State.finish (state : State) : List Char :=
  match state.pending with
  | none => state.read.reverse
  | some _ => ('\ufffd' :: state.read).reverse

/-- The text that bytes stand for, with replacements where they stand for none. -/
def decodeLossy (bytes : List UInt8) : String := String.ofList (bytes.foldl step {}).finish

end JarAudit.Text.Utf8
