/-! Doubles as quotients of natural numbers, and the ways to round a quotient. -/

namespace Switchboard

/-- The quotient rounded to the nearest natural number, a half to the even neighbour. -/
def roundHalfEven (num den : Nat) : Nat :=
  let whole := num / den
  let twice := 2 * (num % den)
  if twice < den || (twice == den && whole % 2 == 0) then whole else whole + 1

/-- The quotient rounded to the nearest natural number, a half upwards. -/
def roundHalfUp (num den : Nat) : Nat :=
  (2 * num + den) / (2 * den)

/-- The quotient rounded up. -/
def ceilDiv (num den : Nat) : Nat :=
  (num + (den - 1)) / den

namespace Double

/-- The double next to a number below `2^64`. -/
def ofNat (n : Nat) : Float :=
  n.toUInt64.toFloat

/-- The value of a finite double that is not negative: `m · 2^(e - 1075)` for the fields `m` and
`e` of its bits. -/
def fraction? (x : Float) : Option (Nat × Nat) :=
  let bits := x.toBits.toNat
  let exponent := bits / Nat.pow 2 52 % 2048
  let fraction := bits % Nat.pow 2 52
  if exponent == 2047 then none
  else if bits / Nat.pow 2 63 == 1 && (exponent != 0 || fraction != 0) then none
  else
    let mantissa := if exponent == 0 then fraction else fraction + Nat.pow 2 52
    let scale := Nat.max exponent 1
    if 1075 ≤ scale then some (mantissa * Nat.pow 2 (scale - 1075), 1)
    else some (mantissa, Nat.pow 2 (1075 - scale))

end Double

end Switchboard
