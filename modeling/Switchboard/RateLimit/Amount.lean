import Switchboard.Double
import Switchboard.Duration
import Switchboard.Word

/-! The numbers that tokens are counted in. Servers count in binary floating point; the same
definitions over the rational numbers say what is counted when nothing is rounded. -/

namespace Switchboard

namespace RateLimit

class Amount (R : Type) extends Add R, Sub R, Mul R, Div R where
  ofNat : Nat → R
  atMost : R → R → Bool
  /-- The length of a span in seconds. -/
  ofDuration : Duration → R
  /-- A finite number that is not negative, as a quotient of natural numbers. -/
  fraction? : R → Option (Nat × Nat)

namespace Amount

variable {R : Type} [Amount R]

def min (a b : R) : R :=
  if atMost a b then a else b

/-- The largest natural number that is not above the amount. -/
def floor (x : R) : Nat :=
  match fraction? x with
  | some (num, den) => num / den
  | none => 0

/-- So many seconds as a span of whole nanoseconds, if they are fewer than `2^64`. -/
def toDuration? (x : R) : Option Duration :=
  match fraction? x with
  | some (num, den) =>
    if num < Word.size64 * den then some ⟨roundHalfEven (num * 1000000000) den⟩ else none
  | none => none

variable (R) in
/-- The length of a span in whole seconds, rounded up and at least one, within 63 bits. -/
def wholeSeconds (d : Duration) : Nat :=
  match fraction? (ofDuration d : R) with
  | some (num, den) => Nat.min (Nat.max (ceilDiv num den) 1) (Word.half64 - 1)
  | none => 1

end Amount

instance : Amount Rat where
  ofNat n := n
  atMost a b := decide (a ≤ b)
  ofDuration d := (d.nanos : Rat) / 1000000000
  fraction? x := if 0 ≤ x then some (x.num.toNat, x.den) else none

instance : Amount Float where
  ofNat := Double.ofNat
  atMost a b := decide (a ≤ b)
  ofDuration d := Double.ofNat d.seconds + Double.ofNat d.subsecond / 1000000000.0
  fraction? := Double.fraction?

end RateLimit

end Switchboard
