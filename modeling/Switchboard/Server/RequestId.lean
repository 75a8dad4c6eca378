import Switchboard.Encoding.Hex

/-! Ids for requests that bring none: 122 random bits in the form of a UUID of version 4. -/

namespace Switchboard.Server.RequestId

/-- The lowest hexadecimal digits of a number. -/
def digits (count n : Nat) : List Char :=
  (List.range count).reverse.map fun i => Hex.digit (n / Nat.pow 16 i % 16)

/-- Groups of 8, 4, 4, 4 and 12 digits. The third tells the version, the fourth the variant. -/
def ofBits (n : Nat) : String :=
  "-".intercalate
    [String.ofList (digits 8 (n / Nat.pow 2 90)), String.ofList (digits 4 (n / Nat.pow 2 74)),
      String.ofList ('4' :: digits 3 (n / Nat.pow 2 62)),
      String.ofList (digits 4 (0x8000 + n / Nat.pow 2 48 % 0x4000)), String.ofList (digits 12 n)]

end Switchboard.Server.RequestId
