import JarAudit.ClassFile.Fault

/-!
# Reading a class image from the front

A `Cursor` is a place in a class image: how many bytes lie before it and which follow. A `Reader`
moves a cursor and keeps a record of what it has found. When a step fails, the cursor stays at the
primitive that failed and the record keeps what came before it: a fault never takes back what was
read. All numbers are big-endian.
-/

namespace JarAudit.ClassFile

open JarAudit.Text

/-- A place in a class image. -/
structure Cursor where
  /-- How many bytes lie before the place. -/
  position : Nat
  /-- The bytes that follow it. -/
  rest : List UInt8
  deriving DecidableEq, Repr

/-- The front of an image. -/
def Cursor.front (image : List UInt8) : Cursor := ⟨0, image⟩

/-- How many bytes follow a place. -/
def Cursor.remaining (cursor : Cursor) : Nat := cursor.rest.length

/-- A step that moves a cursor and adds to a record of type `σ`. -/
abbrev Reader (σ α : Type) := EStateM Fault (Cursor × σ) α

/-- Whether a list has `count` items or more; looks at no more than `count` of them. -/
def hasAtLeast : Nat → List α → Bool
  | 0, _ => true
  | _ + 1, [] => false
  | count + 1, _ :: rest => hasAtLeast count rest

/-- Looking at the first items tells the same as counting them all. -/
theorem hasAtLeast_iff (count : Nat) (items : List α) :
    hasAtLeast count items = true ↔ count ≤ items.length := by
  induction items generalizing count with
  | nil => cases count <;> simp [hasAtLeast]
  | cons _ rest ih => cases count <;> simp [hasAtLeast, ih]

/-- The value of bytes as one number, the most significant byte first. -/
def bigEndian (bytes : List UInt8) : Nat :=
  bytes.foldl (fun value byte => value * 256 + byte.toNat) 0

namespace Reader

/-- The offset of the next byte. -/
def position : Reader σ Nat := fun s => .ok s.1.position s

/-- Fails, keeping the place and the record. -/
def fail (fault : Fault) : Reader σ α := fun s => .error fault s

/-- Adds to the record. -/
def note (f : σ → σ) : Reader σ Unit := fun (cursor, record) => .ok () (cursor, f record)

/-- The next `count` bytes, all of them or none. -/
def bytes (count : Nat) : Reader σ (List UInt8) := fun (cursor, record) =>
  if hasAtLeast count cursor.rest then
    .ok (cursor.rest.take count) (⟨cursor.position + count, cursor.rest.drop count⟩, record)
  else .error (.truncated cursor.position count cursor.remaining) (cursor, record)

/-- Passes over the next `count` bytes, all of them or none. -/
def skip (count : Nat) : Reader σ Unit := fun (cursor, record) =>
  if hasAtLeast count cursor.rest then
    .ok () (⟨cursor.position + count, cursor.rest.drop count⟩, record)
  else .error (.truncated cursor.position count cursor.remaining) (cursor, record)

/-- A number of one byte. -/
def u1 : Reader σ UInt8 := do return UInt8.ofNat (bigEndian (← bytes 1))

/-- A number of two bytes. -/
def u2 : Reader σ UInt16 := do return UInt16.ofNat (bigEndian (← bytes 2))

/-- A number of four bytes. -/
def u4 : Reader σ UInt32 := do return UInt32.ofNat (bigEndian (← bytes 4))

/-- A number of four bytes in two's complement. -/
def i4 : Reader σ Int32 := do return (← u4).toInt32

/-- A number of eight bytes, taken as two of four. -/
def u8 : Reader σ UInt64 := do
  let high ← u4
  let low ← u4
  return (high.toUInt64 <<< 32) ||| low.toUInt64

/-- A text: its length in two bytes, then so many bytes. A text that is there but cannot be decoded
is passed over and gives nothing. -/
def utf8 : Reader σ (Option String) := do
  let length ← u2
  return (ModifiedUtf8.decode (← bytes length.toNat)).toOption

/-- The same step so many times. -/
def times : Nat → Reader σ Unit → Reader σ Unit
  | 0, _ => pure ()
  | count + 1, step => do step; times count step

end Reader

end JarAudit.ClassFile
