import Switchboard.Text.ScalarTable
import Switchboard.Text.Utf8
import Switchboard.Encoding.Hex

/-! Texts and bytes between quotes, with every character that cannot be seen written as an
escape. -/

namespace Switchboard.Text

def inRanges (n : Nat) (ranges : List (Nat × Nat)) : Bool :=
  ranges.any fun (first, last) => first ≤ n && n ≤ last

def isPrintable (c : Char) : Bool :=
  !inRanges c.toNat unprintableRanges

def isExtending (c : Char) : Bool :=
  inRanges c.toNat extendingRanges

def quotedChar (c : Char) : String :=
  if c == '"' then "\\\""
  else if c == '\\' then "\\\\"
  else if c == '\n' then "\\n"
  else if c == '\r' then "\\r"
  else if c == '\t' then "\\t"
  else if c == '\x00' then "\\0"
  else if isExtending c || !isPrintable c then "\\u\x7b" ++ Hex.ofNat c.toNat ++ "\x7d"
  else String.singleton c

def quoted (s : String) : String :=
  "\"" ++ String.join (s.toList.map quotedChar) ++ "\""

def isVisible (b : UInt8) : Bool :=
  0x20 ≤ b && b ≤ 0x7E

def charOfByte (b : UInt8) : String :=
  String.singleton (Char.ofNat b.toNat)

def quotedByte (b : UInt8) : String :=
  if b == 0x0A then "\\n"
  else if b == 0x0D then "\\r"
  else if b == 0x09 then "\\t"
  else if b == 0x5C then "\\\\"
  else if b == 0x22 then "\\\""
  else if b == 0 then "\\0"
  else if isVisible b then charOfByte b
  else "\\x" ++ String.ofList (Hex.ofByte b)

/-- Bytes between quotes after the letter `b`. -/
def quotedBytes (bytes : Bytes) : String :=
  "b\"" ++ String.join (bytes.map quotedByte) ++ "\""

end Switchboard.Text
