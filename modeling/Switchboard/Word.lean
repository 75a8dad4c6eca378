/-! How many numbers the words of a machine can hold. -/

namespace Switchboard.Word

/-- The numbers below this have 32 bits. -/
def size32 : Nat := 4294967296

/-- The numbers below this have 64 bits. -/
def size64 : Nat := 18446744073709551616

/-- The signed numbers of 64 bits reach from below zero by so much up to this, exclusive. -/
def half64 : Nat := 9223372036854775808

/-- The product of two numbers in a word of 64 bits, without what goes beyond it. -/
def mul64 (a b : Nat) : Nat :=
  a * b % size64

end Switchboard.Word
