import TemplateAtlas.Text.Pieces

/-!
# Raw texts

To an operating system a file name is a sequence of bytes. Most are texts in UTF-8, but none has to
be: a name that is no text is compared, joined and followed like any other. Where it is shown, a
replacement character stands for every piece of it that is no character, so two names may be shown
alike.
-/

namespace TemplateAtlas

/-- Bytes that are meant as a text. -/
@[ext] structure RawText where
  /-- The bytes. -/
  bytes : List UInt8
  deriving DecidableEq, Repr, Inhabited

namespace RawText

/-- The slash as a byte. -/
def slash : UInt8 := 0x2f

/-- The dot as a byte. -/
def dot : UInt8 := 0x2e

/-- The bytes of characters in UTF-8. -/
def encode (cs : List Char) : List UInt8 :=
  cs.flatMap String.utf8EncodeChar

/-- A text in UTF-8. -/
def ofString (text : String) : RawText :=
  ⟨encode text.toList⟩

instance : Coe String RawText :=
  ⟨ofString⟩

instance : Append RawText :=
  ⟨fun a b => ⟨a.bytes ++ b.bytes⟩⟩

/-- Raw texts compare byte by byte. -/
instance : Ord RawText :=
  ⟨fun a b => compare a.bytes b.bytes⟩

instance : Std.TransOrd RawText where
  eq_swap := fun {a b} => by
    show compare a.bytes b.bytes = (compare b.bytes a.bytes).swap
    exact Std.OrientedCmp.eq_swap
  isLE_trans := fun {a b c} hab hbc => by
    have hab : (compare a.bytes b.bytes).isLE := hab
    have hbc : (compare b.bytes c.bytes).isLE := hbc
    show (compare a.bytes c.bytes).isLE
    exact Std.TransCmp.isLE_trans hab hbc

/-- Has the text no bytes? -/
def isEmpty (raw : RawText) : Bool :=
  raw.bytes.isEmpty

/-! ### Showing -/

/-- The ranges of the bytes that have to follow the first byte of a character. -/
def following (first : UInt8) : List (UInt8 × UInt8) :=
  if first < 0xc2 then []
  else if first < 0xe0 then [(0x80, 0xbf)]
  else if first = 0xe0 then [(0xa0, 0xbf), (0x80, 0xbf)]
  else if first = 0xed then [(0x80, 0x9f), (0x80, 0xbf)]
  else if first < 0xf0 then [(0x80, 0xbf), (0x80, 0xbf)]
  else if first = 0xf0 then [(0x90, 0xbf), (0x80, 0xbf), (0x80, 0xbf)]
  else if first < 0xf4 then [(0x80, 0xbf), (0x80, 0xbf), (0x80, 0xbf)]
  else if first = 0xf4 then [(0x80, 0x8f), (0x80, 0xbf), (0x80, 0xbf)]
  else []

/-- The number of bytes at the start that lie in the ranges, each in its own. -/
def countWithin : List (UInt8 × UInt8) → List UInt8 → Nat
  | (low, high) :: ranges, byte :: bytes =>
    if low ≤ byte && byte ≤ high then countWithin ranges bytes + 1 else 0
  | _, _ => 0

/-- The character that the bytes open with, if they open with one. -/
def firstChar? (bytes : List UInt8) : Option Char :=
  bytes.toByteArray.utf8DecodeChar? 0

/-- The characters of the bytes. Bytes that begin a character and break off before its end are
replaced together, and any other byte that is no character is replaced by itself. -/
def decode : List UInt8 → List Char :=
  go 0
where
  /-- The first bytes, `skip` of them, belong to a character that is already there. -/
  go : Nat → List UInt8 → List Char
    | _, [] => []
    | skip + 1, _ :: bytes => go skip bytes
    | 0, byte :: bytes =>
      match firstChar? (byte :: bytes) with
      | some c => c :: go (c.utf8Size - 1) bytes
      | none => '\ufffd' :: go (countWithin (following byte) bytes) bytes

/-- The text as it is shown. -/
def shown (raw : RawText) : String :=
  String.ofList (decode raw.bytes)

/-- The text, if the bytes are UTF-8. -/
def text? (raw : RawText) : Option String :=
  if ofString raw.shown = raw then some raw.shown else none

/-- Are the bytes UTF-8? -/
def isText (raw : RawText) : Bool :=
  raw.text?.isSome

end RawText

end TemplateAtlas
