import JarAudit.Zip.Fault

/-!
# Inflate

Decompression of the deflate format. The data is a stream of bits, the lowest bit of each byte
first, made of blocks. A block holds bytes as they are, or symbols of a prefix code that is fixed or
described in front of them; a symbol stands for a byte, for the end of the block or for a repetition
of earlier output. Data that ends too early and data that means nothing are told apart: whichever
shows first on the way through the stream counts. What follows the last block is not looked at.
-/

namespace JarAudit.Zip

/-! ### Bits -/

/-- A stream of bits: what is left of the current byte, and the bytes behind it. -/
structure Bits where
  current : Nat := 0
  left : Nat := 0
  rest : List UInt8

namespace Bits

/-- The next bit. -/
def next : Bits → Except DataFault (Nat × Bits)
  | ⟨current, left + 1, rest⟩ => .ok (current % 2, ⟨current / 2, left, rest⟩)
  | ⟨_, 0, byte :: rest⟩ => .ok (byte.toNat % 2, ⟨byte.toNat / 2, 7, rest⟩)
  | ⟨_, 0, []⟩ => .error .incomplete

/-- A number of so many bits, the lowest first. -/
def number : Nat → Bits → Except DataFault (Nat × Bits)
  | 0, bits => .ok (0, bits)
  | count + 1, bits => do
    let (bit, bits) ← bits.next
    let (high, bits) ← bits.number count
    return (bit + 2 * high, bits)

/-- So many numbers, each of `width` bits. -/
def numbers (width : Nat) : Nat → Bits → Except DataFault (List Nat × Bits)
  | 0, bits => .ok ([], bits)
  | count + 1, bits => do
    let (first, bits) ← bits.number width
    let (others, bits) ← bits.numbers width count
    return (first :: others, bits)

/-- The bytes behind the current one. -/
def dropToByte (bits : Bits) : List UInt8 := bits.rest

end Bits

/-! ### Prefix codes -/

/-- The code words of one length. -/
structure Level where
  /-- The symbols whose code words have this length, in the order of the words. -/
  symbols : Array Nat
  /-- How many words of this length open longer code words. -/
  inner : Nat

/-- A prefix code by the length of its code words, from one bit on. Among the words of one length
the code words come first, in the order of their symbols. -/
abbrev PrefixCode := List Level

namespace PrefixCode

/-- The longest code words have fifteen bits. -/
def maxLength : Nat := 15

/-- The code in which the symbol at each position has a word of the length given there; zero gives
it none. -/
def ofLengths (lengths : List Nat) : PrefixCode :=
  let indexed := lengths.zipIdx
  (List.range' 1 maxLength).foldr (fun length longer =>
    let symbols := (indexed.filter fun (own, _) => own == length).map (·.2)
    let inner := match longer with
      | [] => 0
      | level :: _ => (level.symbols.size + level.inner + 1) / 2
    ⟨symbols.toArray, inner⟩ :: longer) []

/-- The share of all words of fifteen bits that begin with a code word. -/
def share (lengths : List Nat) : Nat :=
  (lengths.filter (0 < ·)).foldl (fun share length => share + Nat.pow 2 (maxLength - length)) 0

/-- Every long enough word begins with exactly one code word. -/
def isComplete (lengths : List Nat) : Bool := share lengths == Nat.pow 2 maxLength

/-- The code may be used: it is complete, it has no word, or its only word is a single bit. -/
def isUsable (lengths : List Nat) : Bool :=
  match lengths.filter (0 < ·) with
  | [] | [1] => true
  | _ => isComplete lengths

/-- Reads one symbol. `word` is what was read so far as a number, and `first` the number of the
first code word of that length. A word that opens no code word is a fault at once. -/
def decodeFrom : PrefixCode → (word first : Nat) → Bits → Except DataFault (Nat × Bits)
  | [], _, _, _ => .error .corrupt
  | level :: longer, word, first, bits => do
    let (bit, bits) ← bits.next
    let word := 2 * word + bit
    let first := 2 * first
    match level.symbols[word - first]? with
    | some symbol => return (symbol, bits)
    | none =>
      let first := first + level.symbols.size
      if word - first < level.inner then decodeFrom longer word first bits
      else throw .corrupt

/-- Reads one symbol. -/
def decode (code : PrefixCode) (bits : Bits) : Except DataFault (Nat × Bits) :=
  code.decodeFrom 0 0 bits

end PrefixCode

/-! ### Blocks -/

namespace Inflate

/-- The shortest repetition of each length symbol, from 257 on, and how many bits are added to it.
-/
def lengthSymbols : List (Nat × Nat) :=
  [(3, 0), (4, 0), (5, 0), (6, 0), (7, 0), (8, 0), (9, 0), (10, 0), (11, 1), (13, 1), (15, 1),
    (17, 1), (19, 2), (23, 2), (27, 2), (31, 2), (35, 3), (43, 3), (51, 3), (59, 3), (67, 4),
    (83, 4), (99, 4), (115, 4), (131, 5), (163, 5), (195, 5), (227, 5), (258, 0)]

/-- The shortest distance of each distance symbol, and how many bits are added to it. -/
def distanceSymbols : List (Nat × Nat) :=
  [(1, 0), (2, 0), (3, 0), (4, 0), (5, 1), (7, 1), (9, 2), (13, 2), (17, 3), (25, 3), (33, 4),
    (49, 4), (65, 5), (97, 5), (129, 6), (193, 6), (257, 7), (385, 7), (513, 8), (769, 8),
    (1025, 9), (1537, 9), (2049, 10), (3073, 10), (4097, 11), (6145, 11), (8193, 12),
    (12289, 12), (16385, 13), (24577, 13)]

/-- The order in which the lengths of the code for lengths are given. -/
def lengthOrder : List Nat := [16, 17, 18, 0, 8, 7, 9, 6, 10, 5, 11, 4, 12, 3, 13, 2, 14, 1, 15]

/-- Repeats output from `distance` bytes back, so many bytes. Before the start of the output lie
zeros. -/
def repeatBack (distance : Nat) : Nat → ByteArray → ByteArray
  | 0, output => output
  | count + 1, output =>
    let byte := if distance ≤ output.size then output[output.size - distance]?.getD 0 else 0
    repeatBack distance count (output.push byte)

/-- Reads a symbol's base value with the bits that are added to it. -/
def readExtended (table : List (Nat × Nat)) (symbol : Nat) (bits : Bits) :
    Except DataFault (Nat × Bits) :=
  match table[symbol]? with
  | none => .error .corrupt
  | some (base, extra) => do
    let (added, bits) ← bits.number extra
    return (base + added, bits)

/-- Reads symbols up to the end of a block. Every symbol takes a bit or more, so the number of bits
left bounds the `fuel` that is needed. -/
def readSymbols (literals distances : PrefixCode) :
    (fuel : Nat) → Bits → ByteArray → Except DataFault (Bits × ByteArray)
  | 0, _, _ => .error .incomplete
  | fuel + 1, bits, output => do
    let (symbol, bits) ← literals.decode bits
    if symbol < 256 then readSymbols literals distances fuel bits (output.push symbol.toUInt8)
    else if symbol = 256 then return (bits, output)
    else
      let (length, bits) ← readExtended lengthSymbols (symbol - 257) bits
      let (symbol, bits) ← distances.decode bits
      let (distance, bits) ← readExtended distanceSymbols symbol bits
      readSymbols literals distances fuel bits (repeatBack distance length output)

/-- The lengths of the fixed code for bytes and repetitions. -/
def fixedLiterals : List Nat :=
  List.replicate 144 8 ++ List.replicate 112 9 ++ List.replicate 24 7 ++ List.replicate 8 8

/-- The lengths of the fixed code for distances. -/
def fixedDistances : List Nat := List.replicate 32 5

/-- Reads the lengths of the code words of two codes, `total` of them, behind those already `read`,
which are held in reverse. Three symbols stand for repetitions. Every symbol adds a length, so
`total` bounds the `fuel` that is needed. -/
def readLengths (code : PrefixCode) (total : Nat) :
    (fuel : Nat) → Bits → (read : List Nat) → Except DataFault (List Nat × Bits)
  | 0, _, _ => .error .corrupt
  | fuel + 1, bits, read => do
    if total ≤ read.length then
      if read.length = total then return (read.reverse, bits) else throw .corrupt
    else
      let (symbol, bits) ← code.decode bits
      if symbol < 16 then readLengths code total fuel bits (symbol :: read)
      else
        let (value, shortest, extra) ← match symbol, read with
          | 16, [] => throw .corrupt
          | 16, last :: _ => pure (last, 3, 2)
          | 17, _ => pure (0, 3, 3)
          | _, _ => pure (0, 11, 7)
        let (added, bits) ← bits.number extra
        readLengths code total fuel bits (List.replicate (shortest + added) value ++ read)

/-- Reads the description of two codes: the lengths of the words for bytes and repetitions, and of
those for distances. -/
def readCodes (bits : Bits) : Except DataFault ((List Nat × List Nat) × Bits) := do
  let (literalCount, bits) ← bits.number 5
  let (distanceCount, bits) ← bits.number 5
  let (lengthCount, bits) ← bits.number 4
  let literalCount := literalCount + 257
  let distanceCount := distanceCount + 1
  if literalCount > 286 || distanceCount > 30 then throw .corrupt
  let (given, bits) ← bits.numbers 3 (lengthCount + 4)
  let lengthOf (symbol : Nat) : Nat := given.getD (lengthOrder.idxOf symbol) 0
  let codeLengths := (List.range 19).map lengthOf
  if !PrefixCode.isComplete codeLengths then throw .corrupt
  let total := literalCount + distanceCount
  let (lengths, bits) ← readLengths (.ofLengths codeLengths) total (total + 1) bits []
  return ((lengths.take literalCount, lengths.drop literalCount), bits)

/-- Reads a block of bytes as they are: a count, the count inverted, and the bytes. -/
def readStored (bits : Bits) (output : ByteArray) : Except DataFault (Bits × ByteArray) :=
  match bits.dropToByte with
  | a :: b :: c :: d :: rest =>
    let count := a.toNat + 256 * b.toNat
    if count + (c.toNat + 256 * d.toNat) != 0xFFFF then .error .corrupt
    else if rest.length < count then .error .incomplete
    else
      .ok (⟨0, 0, rest.drop count⟩, (rest.take count).foldl ByteArray.push output)
  | _ => .error .incomplete

/-- Reads the rest of one block, of a kind that is given by two bits. -/
def readBlock (fuel kind : Nat) (bits : Bits) (output : ByteArray) :
    Except DataFault (Bits × ByteArray) :=
  match kind with
  | 0 => readStored bits output
  | 1 => readSymbols (.ofLengths fixedLiterals) (.ofLengths fixedDistances) fuel bits output
  | 2 => do
    let ((literals, distances), bits) ← readCodes bits
    if PrefixCode.isUsable literals && PrefixCode.isUsable distances then
      readSymbols (.ofLengths literals) (.ofLengths distances) fuel bits output
    else throw .corrupt
  | _ => .error .corrupt

/-- Reads blocks up to the one that says it is the last. -/
def readBlocks (symbols : Nat) :
    (fuel : Nat) → Bits → ByteArray → Except DataFault ByteArray
  | 0, _, _ => .error .incomplete
  | fuel + 1, bits, output => do
    let (last, bits) ← bits.next
    let (kind, bits) ← bits.number 2
    let (bits, output) ← readBlock symbols kind bits output
    if last = 1 then return output else readBlocks symbols fuel bits output

end Inflate

/-- Decompresses data. -/
def inflate (data : List UInt8) : Except DataFault (List UInt8) := do
  let bits := 8 * data.length + 1
  return (← Inflate.readBlocks bits bits ⟨0, 0, data⟩ ByteArray.empty).data.toList

end JarAudit.Zip
