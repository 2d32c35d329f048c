namespace BotScript

/-!
# Byte codecs

A codec pairs a writer with a reader of the same form; the reader takes what
it needs from the front and returns the rest.  Numbers have a fixed width and
start with their lowest byte, lists and texts start with their length in eight
bytes, and an optional part starts with a byte that is zero or one.
-/

/-- A form of values as bytes. -/
structure Codec (α : Type) where
  write : α → List UInt8
  read? : List UInt8 → Option (α × List UInt8)

namespace Bytes

/-- The lowest bytes of a number, the lowest one first. -/
def ofNat : Nat → Nat → List UInt8
  | 0, _ => []
  | width + 1, value => UInt8.ofNat (value % 256) :: ofNat width (value / 256)

/-- The number that bytes stand for, the lowest one first. -/
def toNat : List UInt8 → Nat
  | [] => 0
  | byte :: rest => byte.toNat + 256 * toNat rest

end Bytes

namespace Codec

/-- Read a value and wrap it. -/
def readAs {α β : Type} (codec : Codec α) (make : α → β) (bytes : List UInt8) :
    Option (β × List UInt8) :=
  (codec.read? bytes).map fun (value, rest) => (make value, rest)

/-- The codec of a type whose values stand for the values of another one. -/
def iso {α β : Type} (codec : Codec α) (pack : α → β) (unpack : β → α) : Codec β where
  write value := codec.write (unpack value)
  read? := codec.readAs pack

/-- Two values, one after the other. -/
def pair {α β : Type} (left : Codec α) (right : Codec β) : Codec (α × β) where
  write value := left.write value.1 ++ right.write value.2
  read? bytes := do
    let (first, rest) ← left.read? bytes
    let (second, rest) ← right.read? rest
    pure ((first, second), rest)

/-- A number in a fixed number of bytes. -/
def natural (width : Nat) : Codec Nat where
  write value := Bytes.ofNat width value
  read? bytes :=
    let front := bytes.take width
    if front.length = width then some (Bytes.toNat front, bytes.drop width) else none

/-- A 32-bit word. -/
def word32 : Codec UInt32 :=
  (natural 4).iso UInt32.ofNat UInt32.toNat

/-- A 64-bit word. -/
def word64 : Codec UInt64 :=
  (natural 8).iso UInt64.ofNat UInt64.toNat

/-- A truth value: one byte that is zero or one. -/
def flag : Codec Bool where
  write value := [if value then 1 else 0]
  read?
    | 0 :: rest => some (false, rest)
    | 1 :: rest => some (true, rest)
    | _ => none

/-- A value that may be missing. -/
def optional {α : Type} (codec : Codec α) : Codec (Option α) where
  write
    | some value => flag.write true ++ codec.write value
    | none => flag.write false
  read? bytes := do
    match ← flag.read? bytes with
    | (true, rest) => codec.readAs some rest
    | (false, rest) => pure (none, rest)

/-- Read a number of values behind those read so far, which are in reverse order. -/
def readMany {α : Type} (codec : Codec α) :
    Nat → List α → List UInt8 → Option (List α × List UInt8)
  | 0, reversed, bytes => some (reversed.reverse, bytes)
  | count + 1, reversed, bytes =>
      match codec.read? bytes with
      | some (value, rest) => codec.readMany count (value :: reversed) rest
      | none => none

/-- A list with its length in front. -/
def list {α : Type} (codec : Codec α) : Codec (List α) where
  write values := (natural 8).write values.length ++ values.flatMap codec.write
  read? bytes := do
    let (count, rest) ← (natural 8).read? bytes
    codec.readMany count [] rest

/-- A text as the length of its bytes and the bytes, which must be valid. -/
def text : Codec String where
  write value := (natural 8).write value.utf8ByteSize ++ value.toUTF8.toList
  read? bytes := do
    let (count, rest) ← (natural 8).read? bytes
    let front := rest.take count
    if front.length = count then
      let value ← String.fromUTF8? ⟨front.toArray⟩
      pure (value, rest.drop count)
    else none

/-- A variant of a type: its number and its parts. -/
def variant (number : UInt32) (parts : List UInt8) : List UInt8 :=
  word32.write number ++ parts

end Codec

end BotScript
