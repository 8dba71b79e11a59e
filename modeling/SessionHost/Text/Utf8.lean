/-!
# Texts and bytes

UTF-8 in both directions.  Strict reading refuses bytes that are no UTF-8; lenient
reading writes a replacement character for each longest beginning of a character
that the next byte does not continue.

Main definitions:

- `utf8Bytes`: the bytes of a text.
- `ofUtf8?`: the text of bytes that are UTF-8.
- `ofUtf8Lenient`: a text for any bytes.
-/

namespace SessionHost.Text

/-- The UTF-8 bytes of a text. -/
def utf8Bytes (s : String) : List UInt8 :=
  s.toUTF8.toList

/-- The text that bytes spell in UTF-8, if they do. -/
def ofUtf8? (bytes : List UInt8) : Option String :=
  String.fromUTF8? bytes.toByteArray

/-- A character that has begun: the value of the bits so far, the number of bytes still
to come, and the bounds of the next one. -/
structure OpenChar where
  value : Nat
  missing : Nat
  low : Nat
  high : Nat

/-- What a byte begins: a whole character, a longer one, or nothing. -/
inductive FirstByte where
  | whole (c : Char)
  | opens (o : OpenChar)
  | invalid

/-- Classifies the first byte of a character. -/
def FirstByte.ofByte (b : UInt8) : FirstByte :=
  let n := b.toNat
  if n < 0x80 then .whole (Char.ofNat n)
  else if n < 0xC2 then .invalid
  else if n < 0xE0 then .opens ⟨n - 0xC0, 1, 0x80, 0xBF⟩
  else if n = 0xE0 then .opens ⟨0, 2, 0xA0, 0xBF⟩
  else if n = 0xED then .opens ⟨0xD, 2, 0x80, 0x9F⟩
  else if n < 0xF0 then .opens ⟨n - 0xE0, 2, 0x80, 0xBF⟩
  else if n = 0xF0 then .opens ⟨0, 3, 0x90, 0xBF⟩
  else if n < 0xF4 then .opens ⟨n - 0xF0, 3, 0x80, 0xBF⟩
  else if n = 0xF4 then .opens ⟨4, 3, 0x80, 0x8F⟩
  else .invalid

/-- The character that stands for bytes that spell none. -/
def replacementChar : Char := '\uFFFD'

/-- Lenient reading with an unfinished character `open?`; `out` holds the characters read so
far, last first. -/
def decodeLenient (out : List Char) (open? : Option OpenChar) : List UInt8 → List Char
  | [] =>
    match open? with
    | none => out.reverse
    | some _ => (replacementChar :: out).reverse
  | b :: rest =>
    let fresh (out : List Char) : List Char × Option OpenChar :=
      match FirstByte.ofByte b with
      | .whole c => (c :: out, none)
      | .opens o => (out, some o)
      | .invalid => (replacementChar :: out, none)
    let next : List Char × Option OpenChar :=
      match open? with
      | none => fresh out
      | some o =>
        if o.low ≤ b.toNat ∧ b.toNat ≤ o.high then
          let value := o.value * 64 + (b.toNat - 0x80)
          if o.missing ≤ 1 then (Char.ofNat value :: out, none)
          else (out, some ⟨value, o.missing - 1, 0x80, 0xBF⟩)
        else
          fresh (replacementChar :: out)
    decodeLenient next.1 next.2 rest

/-- A text for any bytes; what is no UTF-8 becomes replacement characters. -/
def ofUtf8Lenient (bytes : List UInt8) : String :=
  String.ofList (decodeLenient [] none bytes)

/-- The little-endian UTF-16 bytes of one unit. -/
def unitBytes (unit : Nat) : List UInt8 :=
  [UInt8.ofNat (unit % 256), UInt8.ofNat (unit / 256)]

/-- The UTF-16 units of a character: itself, or a surrogate pair. -/
def utf16Units (c : Char) : List Nat :=
  let n := c.toNat
  if n < 0x10000 then [n]
  else [0xD800 + (n - 0x10000) / 0x400, 0xDC00 + (n - 0x10000) % 0x400]

/-- The UTF-16 little-endian bytes of a text. -/
def utf16Bytes (s : String) : List UInt8 :=
  (s.toList.flatMap utf16Units).flatMap unitBytes

end SessionHost.Text
