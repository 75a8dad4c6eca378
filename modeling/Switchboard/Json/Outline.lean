import Switchboard.Json.Parser
import Switchboard.Text.Utf8

/-! Reading of JSON texts for some of their members. What nobody asks for is passed over: its
numbers may be of any size, its strings need not be UTF-8 or stand for characters, and its lists
and objects may be nested as deep as they like. -/

namespace Switchboard.Json

/-- Passes over the rest of a string and its closing quote. -/
def skipString : Reader Unit
  | [] => none
  | '"' :: rest => some ((), rest)
  | '\\' :: 'u' :: a :: b :: c :: d :: rest =>
    if (hexQuad? a b c d).isSome then skipString rest else none
  | '\\' :: e :: rest => if (simpleEscape? e).isSome then skipString rest else none
  | c :: rest => if c.toNat < 0x20 then none else skipString rest

def skipDigits : Reader Unit := fun cs =>
  if (cs.takeWhile Char.isDigit).isEmpty then none else some ((), cs.dropWhile Char.isDigit)

def skipExponent : Reader Unit
  | '+' :: rest => skipDigits rest
  | '-' :: rest => skipDigits rest
  | cs => skipDigits cs

def skipPower : Reader Unit
  | 'e' :: rest => skipExponent rest
  | 'E' :: rest => skipExponent rest
  | cs => some ((), cs)

def skipFraction : Reader Unit
  | '.' :: rest => (skipDigits rest).bind fun (_, rest) => skipPower rest
  | cs => skipPower cs

/-- A zero in front stands alone. -/
def skipUnsigned : Reader Unit := fun cs =>
  match cs.takeWhile Char.isDigit with
  | [] => none
  | '0' :: _ :: _ => none
  | _ => skipFraction (cs.dropWhile Char.isDigit)

def skipNumber : Reader Unit
  | '-' :: rest => skipUnsigned rest
  | cs => skipUnsigned cs

def skipValue : Nat → Reader Unit
  | 0, _ => none
  | depth + 1, cs =>
    match skipBlanks cs with
    | [] => none
    | '"' :: rest => skipString rest
    | '[' :: rest => (listOf (skipValue depth) rest).map fun (_, rest) => ((), rest)
    | '\x7b' :: rest =>
      (objectOf skipString (skipValue depth) rest).map fun (_, rest) => ((), rest)
    | 't' :: rest => expect "rue".toList () rest
    | 'f' :: rest => expect "alse".toList () rest
    | 'n' :: rest => expect "ull".toList () rest
    | cs => skipNumber cs

/-- Passes over one value. A text cannot open more lists and objects than it has characters. -/
def skip : Reader Unit := fun cs =>
  skipValue (cs.length + 1) cs

/-- A text before it is decoded, with one character for each byte. -/
abbrev Raw := List Char

namespace Raw

def ofBytes (bytes : Bytes) : Raw :=
  bytes.map fun b => Char.ofNat b.toNat

def text? (raw : Raw) : Option String :=
  Utf8.decode? (raw.map fun c => c.toNat.toUInt8)

/-- What is passed over, as it is written. -/
def spanOf (skip : Reader Unit) : Reader Raw := fun cs =>
  (skip cs).map fun (_, rest) => (cs.take (cs.length - rest.length), rest)

/-- A key after its opening quote. Keys are always decoded. -/
def keyOf : Reader String := fun cs => do
  let (written, rest) ← spanOf skipString cs
  let text ← text? written
  let (key, _) ← textBody text.toList
  some (key, rest)

/-- The members of an object, repeated keys included, with their values as they are written. -/
def members? (raw : Raw) : Option (List (String × Raw)) :=
  match skipBlanks raw with
  | '\x7b' :: rest => whole? (objectOf keyOf (spanOf skip)) rest
  | _ => none

def items? (raw : Raw) : Option (List Raw) :=
  match skipBlanks raw with
  | '[' :: rest => whole? (listOf (spanOf skip)) rest
  | _ => none

/-- The members of an object, or the items of a list that has one for each of the names. -/
def fields? (names : List String) (raw : Raw) : Option (List (String × Raw)) :=
  match raw.items? with
  | some items => if items.length = names.length then some (names.zip items) else none
  | none => raw.members?

/-- The value of a member or an item, which stands one level deep already. -/
def json? (raw : Raw) : Option Json :=
  raw.text?.bind fun text => whole? (value (maxDepth - 1)) text.toList

/-- A name, alone or as the one key of an object whose value adds nothing to it. -/
def name? (isBlank : Json → Bool) (raw : Raw) : Option String :=
  match raw.members? with
  | some [(name, value)] => if value.json?.any isBlank then some name else none
  | some _ => none
  | none =>
    match raw.json? with
    | some (.str name) => some name
    | _ => none

end Raw

end Switchboard.Json
