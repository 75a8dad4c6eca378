import Switchboard.Encoding.Hex

/-! Percent-encoding of paths. An escape that two hexadecimal digits do not follow stands for
itself. -/

namespace Switchboard.Percent

def unescape : Bytes → Bytes
  | 0x25 :: hi :: lo :: rest =>
    match Hex.digitValue? (Char.ofNat hi.toNat), Hex.digitValue? (Char.ofNat lo.toNat) with
    | some high, some low => UInt8.ofNat (high * 16 + low) :: unescape rest
    | _, _ => 0x25 :: unescape (hi :: lo :: rest)
  | b :: rest => b :: unescape rest
  | [] => []

/-- The path that an escaped one stands for. What does not come out as text is left as it is. -/
def decodePath (raw : String) : String :=
  (Utf8.decode? (unescape (Utf8.encode raw))).getD raw

end Switchboard.Percent
