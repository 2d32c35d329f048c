namespace BotScript

/-!
# The CRC-32 checksum

The reflected checksum with the polynomial `0xEDB88320`, with all bits set at
the start and all bits flipped at the end.  `Crc32.advance` reads one byte with
a table of 256 remainders; `Crc32.advanceBitwise` is the same step one bit at a time.
-/

namespace Crc32

/-- The reflected generator polynomial. -/
def polynomial : UInt32 :=
  0xEDB88320

/-- Shift one bit out of the register. -/
def shiftBit (register : UInt32) : UInt32 :=
  if register &&& 1 == 1 then (register >>> 1) ^^^ polynomial else register >>> 1

/-- Shift a number of bits out of the register. -/
def shiftBits : Nat → UInt32 → UInt32
  | 0, register => register
  | count + 1, register => shiftBits count (shiftBit register)

/-- The remainders of all bytes. -/
def table : Vector UInt32 256 :=
  Vector.ofFn fun byte => shiftBits 8 (UInt32.ofNat byte.val)

/-- Read one byte into the register, one bit at a time. -/
def advanceBitwise (register : UInt32) (byte : UInt8) : UInt32 :=
  shiftBits 8 (register ^^^ byte.toUInt32)

/-- Read one byte into the register through the table. -/
def advance (register : UInt32) (byte : UInt8) : UInt32 :=
  let index := (register ^^^ byte.toUInt32).toUInt8
  table.get ⟨index.toNat, index.toNat_lt⟩ ^^^ (register >>> 8)

/-- Read the encoding of a text into the register. -/
def readText (register : UInt32) (text : String) : UInt32 :=
  text.toUTF8.toList.foldl advance register

/-- The checksum of a byte string. -/
def checksum (bytes : List UInt8) : UInt32 :=
  (bytes.foldl advance 0xFFFFFFFF) ^^^ 0xFFFFFFFF

/-- The checksum of the encoding of a text. -/
def ofText (text : String) : UInt32 :=
  checksum text.toUTF8.toList

end Crc32

end BotScript
