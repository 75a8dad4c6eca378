import Switchboard.Json
import Switchboard.Word

/-! Numbers in JSON texts. Without a point or an exponent, what fits 64 bits is an integer. All else
is a double: the leading digits that fit 64 bits, scaled by powers of ten up to `10^308`. -/

namespace Switchboard.Json

/-- Digits read so far, as `significand · 10^exponent`. -/
structure Decimal where
  significand : Nat
  exponent : Int

def powerOfTen (n : Nat) : Float :=
  Float.ofScientific 1 false n

/-- The double of a decimal. A large negative exponent is applied in steps, and a number beyond the
doubles is refused. -/
def scale : Nat → Float → Int → Option Float
  | 0, _, _ => none
  | fuel + 1, x, exponent =>
    if exponent.natAbs ≤ 308 then
      if 0 ≤ exponent then
        let y := x * powerOfTen exponent.natAbs
        if y.isInf then none else some y
      else some (x / powerOfTen exponent.natAbs)
    else if x == 0.0 then some x
    else if 0 ≤ exponent then none
    else scale fuel (x / powerOfTen 308) (exponent + 308)

def Decimal.toFloat? (d : Decimal) : Option Float :=
  scale (d.exponent.natAbs / 308 + 2) d.significand.toUInt64.toFloat d.exponent

def signed (negative : Bool) (x : Float) : Float :=
  if negative then -x else x

def digitOf (c : Char) : Nat :=
  c.toNat - '0'.toNat

/-- Reads the exponent after its `e`. One beyond 32 bits leaves zero or nothing. -/
def exponentOf (negative : Bool) (d : Decimal) (cs : List Char) : Option (Json × List Char) :=
  let (down, cs) :=
    match cs with
    | '+' :: rest => (false, rest)
    | '-' :: rest => (true, rest)
    | _ => (false, cs)
  let digits := cs.takeWhile Char.isDigit
  let rest := cs.dropWhile Char.isDigit
  if digits.isEmpty then none
  else
    let size := digits.foldl (fun n c => n * 10 + digitOf c) 0
    if 2147483648 ≤ size then
      if d.significand != 0 && !down then none else some (float (signed negative 0.0), rest)
    else
      let exponent := if down then d.exponent - size else d.exponent + size
      ({ d with exponent := exponent } : Decimal).toFloat?.map fun x =>
        (float (signed negative x), rest)

def finish (negative : Bool) (d : Decimal) : List Char → Option (Json × List Char)
  | 'e' :: rest => exponentOf negative d rest
  | 'E' :: rest => exponentOf negative d rest
  | rest => d.toFloat?.map fun x => (float (signed negative x), rest)

/-- Takes decimals while the significand stays within 64 bits, and passes over the others. -/
def takeDecimals (d : Decimal) : List Char → Decimal
  | [] => d
  | c :: rest =>
    let next := d.significand * 10 + digitOf c
    if Word.size64 ≤ next then d else takeDecimals ⟨next, d.exponent - 1⟩ rest

def fractionOf (negative : Bool) (d : Decimal) (cs : List Char) : Option (Json × List Char) :=
  let digits := cs.takeWhile Char.isDigit
  if digits.isEmpty then none
  else finish negative (takeDecimals d digits) (cs.dropWhile Char.isDigit)

/-- The leading digits that fit 64 bits. The others only count as powers of ten. -/
def takeDigits (d : Decimal) : List Char → Decimal
  | [] => d
  | c :: rest =>
    let next := d.significand * 10 + digitOf c
    if Word.size64 ≤ next then ⟨d.significand, (rest.length + 1 : Nat)⟩
    else takeDigits ⟨next, 0⟩ rest

def whole (negative : Bool) (n : Nat) : Json :=
  if !negative then int n
  else if n == 0 || Word.half64 < n then float (-n.toUInt64.toFloat)
  else int (-n)

def afterDigits (negative : Bool) (digits : List Char) (cs : List Char) :
    Option (Json × List Char) :=
  let d := takeDigits ⟨0, 0⟩ digits
  match cs with
  | '.' :: rest => fractionOf negative d rest
  | 'e' :: rest => exponentOf negative d rest
  | 'E' :: rest => exponentOf negative d rest
  | _ =>
    if d.exponent == 0 then some (whole negative d.significand, cs)
    else d.toFloat?.map fun x => (float (signed negative x), cs)

/-- Reads a number after its sign. A zero in front stands alone. -/
def unsignedNumber (negative : Bool) (cs : List Char) : Option (Json × List Char) :=
  let digits := cs.takeWhile Char.isDigit
  match digits with
  | [] => none
  | '0' :: _ :: _ => none
  | _ => afterDigits negative digits (cs.dropWhile Char.isDigit)

def number : List Char → Option (Json × List Char)
  | '-' :: rest => unsignedNumber true rest
  | cs => unsignedNumber false cs

end Switchboard.Json
