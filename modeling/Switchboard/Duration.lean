import Switchboard.Text.Blank
import Switchboard.Word

/-! Spans of time in whole nanoseconds, their written form in configurations (`250ms`, `5m`) and
their text in events (`1.5s`). -/

namespace Switchboard

structure Duration where
  nanos : Nat
deriving DecidableEq, Repr, Inhabited

/-- A point in time, as nanoseconds since the clock started. -/
abbrev Instant := Nat

namespace Duration

def zero : Duration := ⟨0⟩

def isZero (d : Duration) : Bool :=
  d.nanos == 0

def ofMillis (n : Nat) : Duration := ⟨n * 1000000⟩

def ofSeconds (n : Nat) : Duration := ⟨n * 1000000000⟩

def seconds (d : Duration) : Nat :=
  d.nanos / 1000000000

/-- The nanoseconds beyond the last whole second. -/
def subsecond (d : Duration) : Nat :=
  d.nanos % 1000000000

inductive ParseError where
  | empty
  | missingUnit
  | invalidNumber
  | invalidUnit
deriving DecidableEq, Repr

def ParseError.message : ParseError → String
  | empty => "Empty duration"
  | missingUnit => "Missing duration unit"
  | invalidNumber => "Invalid number in duration"
  | invalidUnit => "Invalid duration unit"

/-- The value of a run of decimal digits. -/
def digitsValue (digits : List Char) : Nat :=
  digits.foldl (fun n c => n * 10 + (c.toNat - '0'.toNat)) 0

/-- The number below `2^64` that a text begins with and the unit behind it, with white space around
both. -/
def numberAndUnit (s : String) : Except ParseError (Nat × List Char) :=
  let text := Text.trim s.toList
  let digits := text.takeWhile Char.isDigit
  let unit := text.dropWhile Char.isDigit
  if text.isEmpty then .error .empty
  else if unit.isEmpty then .error .missingUnit
  else if digits.isEmpty || Word.size64 ≤ digitsValue digits then .error .invalidNumber
  else .ok (digitsValue digits, unit)

/-- The seconds of minutes and hours are counted in a word of 64 bits. -/
def ofUnit? (n : Nat) : List Char → Option Duration
  | ['m', 's'] => some (ofMillis n)
  | ['s'] => some (ofSeconds n)
  | ['m'] => some (ofSeconds (Word.mul64 n 60))
  | ['h'] => some (ofSeconds (Word.mul64 n 3600))
  | _ => none

def parse (s : String) : Except ParseError Duration := do
  let (n, unit) ← numberAndUnit s
  match ofUnit? n unit with
  | some d => .ok d
  | none => .error .invalidUnit

/-- Whether there are more minutes or hours than the word has room for. A release wraps their seconds
around. A build that checks its arithmetic panics on them. -/
def overflows (s : String) : Bool :=
  match numberAndUnit s with
  | .ok (n, ['m']) => Word.size64 ≤ n * 60
  | .ok (n, ['h']) => Word.size64 ≤ n * 3600
  | _ => false

/-- The digits of `frac` as decimals of the given number of places, without zeros at the end. -/
def decimals (frac places : Nat) : List Char :=
  let digits := (toString frac).toList
  ((List.replicate (places - digits.length) '0' ++ digits).reverse.dropWhile (· == '0')).reverse

def decimalText (whole frac places : Nat) (unit : String) : String :=
  let decimals := decimals frac places
  if decimals.isEmpty then toString whole ++ unit
  else toString whole ++ "." ++ String.ofList decimals ++ unit

/-- The largest of the units s, ms, µs and ns that is not larger than the span, with as many
decimals as are needed. -/
def text (d : Duration) : String :=
  if 1000000000 ≤ d.nanos then decimalText d.seconds d.subsecond 9 "s"
  else if 1000000 ≤ d.nanos then decimalText (d.nanos / 1000000) (d.nanos % 1000000) 6 "ms"
  else if 1000 ≤ d.nanos then decimalText (d.nanos / 1000) (d.nanos % 1000) 3 "µs"
  else toString d.nanos ++ "ns"

end Duration

end Switchboard
