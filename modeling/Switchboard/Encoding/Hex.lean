import Switchboard.Text.Utf8

/-! Hexadecimal digits, written in lower case. -/

namespace Switchboard.Hex

def digit (n : Nat) : Char :=
  if n < 10 then Char.ofNat ('0'.toNat + n) else Char.ofNat ('a'.toNat + (n - 10))

def ofByte (b : UInt8) : List Char :=
  [digit (b.toNat / 16), digit (b.toNat % 16)]

def encode (bytes : Bytes) : String :=
  String.ofList (bytes.flatMap ofByte)

/-- The digits of a number without zeros in front. -/
def ofNat (n : Nat) : String :=
  String.ofList (Nat.toDigits 16 n)

def digitValue? (c : Char) : Option Nat :=
  if '0' ≤ c && c ≤ '9' then some (c.toNat - '0'.toNat)
  else if 'a' ≤ c && c ≤ 'f' then some (c.toNat - 'a'.toNat + 10)
  else if 'A' ≤ c && c ≤ 'F' then some (c.toNat - 'A'.toNat + 10)
  else none

def decodeChars? : List Char → Option Bytes
  | [] => some []
  | [_] => none
  | hi :: lo :: rest => do
    let high ← digitValue? hi
    let low ← digitValue? lo
    let bytes ← decodeChars? rest
    pure (UInt8.ofNat (high * 16 + low) :: bytes)

def decode? (text : String) : Option Bytes :=
  decodeChars? text.toList

end Switchboard.Hex
