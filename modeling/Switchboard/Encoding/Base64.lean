import Switchboard.Text.Utf8

/-! Base 64 in its two alphabets. Readings are canonical: the bits left over in the last digit have
to be zero. -/

namespace Switchboard.Base64

inductive Alphabet where
  /-- With `+` and `/`, and with padding at the end. -/
  | standard
  /-- With `-` and `_`, and without padding. -/
  | url
deriving DecidableEq

def Alphabet.digit (a : Alphabet) (n : Nat) : Char :=
  if n < 26 then Char.ofNat ('A'.toNat + n)
  else if n < 52 then Char.ofNat ('a'.toNat + (n - 26))
  else if n < 62 then Char.ofNat ('0'.toNat + (n - 52))
  else if n == 62 then (if a = .standard then '+' else '-')
  else if a = .standard then '/' else '_'

def Alphabet.value? (a : Alphabet) (c : Char) : Option Nat :=
  if 'A' ≤ c && c ≤ 'Z' then some (c.toNat - 'A'.toNat)
  else if 'a' ≤ c && c ≤ 'z' then some (c.toNat - 'a'.toNat + 26)
  else if '0' ≤ c && c ≤ '9' then some (c.toNat - '0'.toNat + 52)
  else if c == a.digit 62 then some 62
  else if c == a.digit 63 then some 63
  else none

/-- The digits without padding. -/
def encodeChars (a : Alphabet) : Bytes → List Char
  | x :: y :: z :: rest =>
    let n := (x.toNat * 256 + y.toNat) * 256 + z.toNat
    a.digit (n / 262144) :: a.digit (n / 4096 % 64) :: a.digit (n / 64 % 64) :: a.digit (n % 64) ::
      encodeChars a rest
  | [x, y] =>
    let n := x.toNat * 256 + y.toNat
    [a.digit (n / 1024), a.digit (n / 16 % 64), a.digit (n % 16 * 4)]
  | [x] => [a.digit (x.toNat / 4), a.digit (x.toNat % 4 * 16)]
  | [] => []

def decodeDigits? : List Nat → Option Bytes
  | a :: b :: c :: d :: rest =>
    let n := ((a * 64 + b) * 64 + c) * 64 + d
    (decodeDigits? rest).map fun bytes =>
      UInt8.ofNat (n / 65536) :: UInt8.ofNat (n / 256) :: UInt8.ofNat n :: bytes
  | [a, b, c] =>
    if c % 4 == 0 then
      let n := (a * 64 + b) * 16 + c / 4
      some [UInt8.ofNat (n / 256), UInt8.ofNat n]
    else none
  | [a, b] => if b % 16 == 0 then some [UInt8.ofNat (a * 4 + b / 16)] else none
  | [_] => none
  | [] => some []

def decodeChars? (a : Alphabet) (cs : List Char) : Option Bytes :=
  (cs.mapM a.value?).bind decodeDigits?

/-- Takes off the padding that completes the last group of four. -/
def unpad? (cs : List Char) : Option (List Char) :=
  let digits := (cs.reverse.dropWhile (· == '=')).reverse
  let padding := cs.length - digits.length
  if padding == (4 - digits.length % 4) % 4 then some digits else none

def decode? (a : Alphabet) (s : String) : Option Bytes :=
  match a with
  | .url => decodeChars? .url s.toList
  | .standard => (unpad? s.toList).bind (decodeChars? .standard)

/-- The text of bytes in the alphabet for addresses. -/
def encodeUrl (bytes : Bytes) : String :=
  String.ofList (encodeChars .url bytes)

end Switchboard.Base64
