/-!
# CRC-32

The checksum of archive records: the remainder of the data, bits in reverse, divided by a polynomial
of degree 32 over the field of two elements, with all bits inverted at the start and at the end.
-/

namespace JarAudit.Zip

namespace Crc32

/-- The polynomial without its leading term, bits in reverse. -/
def polynomial : UInt32 := 0xEDB88320

/-- Divides one bit off. -/
def shift (remainder : UInt32) : UInt32 :=
  if remainder &&& 1 == 1 then (remainder >>> 1) ^^^ polynomial else remainder >>> 1

/-- Takes one more byte. -/
def update (remainder : UInt32) (byte : UInt8) : UInt32 :=
  shift (shift (shift (shift (shift (shift (shift (shift (remainder ^^^ byte.toUInt32))))))))

end Crc32

/-- The checksum of data. -/
def crc32 (data : List UInt8) : UInt32 :=
  data.foldl Crc32.update 0xFFFFFFFF ^^^ 0xFFFFFFFF

end JarAudit.Zip
