/-! Texts as bytes, and the texts that are shown for bytes. -/

namespace JackCompiler

/-- Bytes one after the other, whether or not they encode a text. -/
abbrev ByteString := List UInt8

/-- The bytes that encode a text. -/
def utf8 (text : String) : ByteString := text.toUTF8.data.toList

/-- Whether bytes encode a text. -/
def isText (bytes : ByteString) : Bool := bytes.toByteArray.validateUTF8

/-- The character whose encoding stands at the front of bytes. -/
def firstChar? (bytes : ByteString) : Option Char :=
  -- No character takes more than four bytes.
  (bytes.take 4).toByteArray.utf8DecodeChar? 0

/-- Whether a byte goes on with a character that other bytes have begun. -/
def continues (byte : UInt8) : Bool := 0x80 ≤ byte && byte ≤ 0xBF

/-- Whether a character of three bytes or more can begin with two bytes. -/
def begins (first second : UInt8) : Bool :=
  continues second &&
    -- No character has a longer encoding than it needs, and none stands for half of a pair.
    if first = 0xE0 then 0xA0 ≤ second
    else if first = 0xED then second ≤ 0x9F
    else if first = 0xF0 then 0x90 ≤ second
    else if first = 0xF4 then second ≤ 0x8F
    else 0xE1 ≤ first && first ≤ 0xF3

/-- How many bytes at the front begin a character, at least one, where none is encoded in full. -/
def brokenSize : ByteString → Nat
  | first :: second :: third :: _ =>
    if !begins first second then 1
    else if 0xF0 ≤ first && continues third then 3
    else 2
  | [first, second] => if begins first second then 2 else 1
  | _ => 1

/-- The characters shown for bytes, when some of the bytes belong to a character already shown. -/
def displayChars : (shown : Nat) → ByteString → List Char
  | _, [] => []
  | shown + 1, _ :: bytes => displayChars shown bytes
  | 0, byte :: bytes =>
    match firstChar? (byte :: bytes) with
    | some c => c :: displayChars (c.utf8Size - 1) bytes
    -- One mark stands for all bytes of a character that breaks off.
    | none => '\uFFFD' :: displayChars (brokenSize (byte :: bytes) - 1) bytes

/-- The text that is shown for bytes, with marks in the stead of what encodes no text. -/
def displayText (bytes : ByteString) : String := String.ofList (displayChars 0 bytes)

end JackCompiler
