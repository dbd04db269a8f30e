import MarkdownOutlets.Text.Basic

/-! # UTF-8

  Files hold bytes, and documents are their texts in UTF-8. A fault names the
  bytes that cannot be read: those from a lead byte up to the first byte that
  cannot belong to it.
-/

namespace MarkdownOutlets

/-- The content of a file. -/
abbrev Bytes := List UInt8

namespace Utf8

/-! ### Faults -/

/-- What is wrong with some bytes. -/
inductive Reason
  /-- No character starts with this byte. -/
  | invalidStart
  /-- The character that the bytes start goes on with another byte. -/
  | invalidContinuation
  /-- The bytes end within a character. -/
  | unexpectedEnd
  deriving DecidableEq, Repr

/-- Bytes that are no text. -/
structure Fault where
  /-- What is wrong. -/
  reason : Reason
  /-- The first of the bytes. -/
  byte : UInt8
  /-- Its offset. -/
  start : Nat
  /-- How many bytes there are. -/
  length : Nat
  deriving DecidableEq, Repr

/-- The wording of a reason. -/
def Reason.message : Reason → Text
  | .invalidStart => "invalid start byte".toList
  | .invalidContinuation => "invalid continuation byte".toList
  | .unexpectedEnd => "unexpected end of data".toList

/-- The wording of a fault. -/
def Fault.message (f : Fault) : Text :=
  let bytes :=
    if f.length = 1 then
      "byte 0x".toList ++ Text.hex 2 f.byte.toNat ++ " in position ".toList ++ Text.ofNat f.start
    else
      "bytes in position ".toList ++ Text.ofNat f.start ++ '-'
        :: Text.ofNat (f.start + f.length - 1)
  "'utf-8' codec can't decode ".toList ++ bytes ++ ": ".toList ++ f.reason.message

/-! ### Reading and writing -/

/-- The bytes of a text. -/
def encode (t : Text) : Bytes := t.flatMap String.utf8EncodeChar

/-- The low six bits of a continuation byte. -/
def payload (b : UInt8) : Nat := b.toNat % 0x40

/-- A byte that continues a character. -/
def isTail (b : UInt8) : Bool := 0x80 ≤ b && b < 0xc0

/-- A byte that may follow the lead byte `a` of a character: one that does
    not make the character longer than needed, a surrogate, or too large. -/
def isSecond (a b : UInt8) : Bool :=
  if a = 0xe0 then 0xa0 ≤ b && b < 0xc0
  else if a = 0xed then 0x80 ≤ b && b < 0xa0
  else if a = 0xf0 then 0x90 ≤ b && b < 0xc0
  else if a = 0xf4 then 0x80 ≤ b && b < 0x90
  else isTail b

/-- The text of some bytes, the first of which has the given offset. -/
def decodeFrom (pos : Nat) : Bytes → Except Fault Text
  | [] => .ok []
  | a :: rest =>
    let fault (reason : Reason) (length : Nat) : Except Fault Text :=
      .error { reason, byte := a, start := pos, length }
    let found (n : Nat) (rest : Except Fault Text) : Except Fault Text :=
      rest.map (Char.ofNat n :: ·)
    if a < 0x80 then found a.toNat (decodeFrom (pos + 1) rest)
    else if a < 0xc2 then fault .invalidStart 1
    else if 0xf5 ≤ a then fault .invalidStart 1
    else
      match rest with
      | [] => fault .unexpectedEnd 1
      | b :: rest =>
        if !isSecond a b then fault .invalidContinuation 1
        else if a < 0xe0 then
          found (a.toNat % 0x20 * 0x40 + payload b) (decodeFrom (pos + 2) rest)
        else
          match rest with
          | [] => fault .unexpectedEnd 2
          | c :: rest =>
            if !isTail c then fault .invalidContinuation 2
            else if a < 0xf0 then
              found ((a.toNat % 0x10 * 0x40 + payload b) * 0x40 + payload c)
                (decodeFrom (pos + 3) rest)
            else
              match rest with
              | [] => fault .unexpectedEnd 3
              | d :: rest =>
                if !isTail d then fault .invalidContinuation 3
                else
                  found (((a.toNat % 0x08 * 0x40 + payload b) * 0x40 + payload c) * 0x40
                    + payload d) (decodeFrom (pos + 4) rest)

/-- The text of some bytes. -/
def decode (bytes : Bytes) : Except Fault Text := decodeFrom 0 bytes

end Utf8

namespace Text

/-- A text whose lines all end in a line feed: a carriage return, with or
    without a line feed behind it, ends a line as well. -/
def unifyNewlines : Text → Text
  | [] => []
  | '\r' :: '\n' :: rest => '\n' :: unifyNewlines rest
  | '\r' :: rest => '\n' :: unifyNewlines rest
  | c :: rest => c :: unifyNewlines rest

end Text

end MarkdownOutlets
