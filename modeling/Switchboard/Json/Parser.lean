import Switchboard.Json.Number

/-! Reading of JSON texts. Lists and objects may be nested 127 deep. -/

namespace Switchboard.Json

/-- Takes something from the front of a text and leaves the rest. -/
abbrev Reader (α : Type) := List Char → Option (α × List Char)

def isBlank (c : Char) : Bool :=
  c == ' ' || c == '\n' || c == '\t' || c == '\r'

def skipBlanks (cs : List Char) : List Char :=
  cs.dropWhile isBlank

def hexQuad? (a b c d : Char) : Option Nat := do
  let a ← Hex.digitValue? a
  let b ← Hex.digitValue? b
  let c ← Hex.digitValue? c
  let d ← Hex.digitValue? d
  pure (((a * 16 + b) * 16 + c) * 16 + d)

def simpleEscape? : Char → Option Char
  | '"' => some '"'
  | '\\' => some '\\'
  | '/' => some '/'
  | 'b' => some '\x08'
  | 'f' => some '\x0C'
  | 'n' => some '\n'
  | 'r' => some '\r'
  | 't' => some '\t'
  | _ => none

/-- Reads up to the closing quote. Surrogates count in pairs alone. -/
def stringBody : Reader (List Char)
  | [] => none
  | '"' :: rest => some ([], rest)
  | '\\' :: 'u' :: a :: b :: c :: d :: '\\' :: 'u' :: e :: f :: g :: h :: rest =>
    match hexQuad? a b c d with
    | none => none
    | some high =>
      if 0xD800 ≤ high && high < 0xDC00 then
        match hexQuad? e f g h with
        | none => none
        | some low =>
          if 0xDC00 ≤ low && low < 0xE000 then
            (stringBody rest).map fun (s, r) =>
              (Char.ofNat (0x10000 + (high - 0xD800) * 0x400 + (low - 0xDC00)) :: s, r)
          else none
      else if 0xDC00 ≤ high && high < 0xE000 then none
      else
        (stringBody ('\\' :: 'u' :: e :: f :: g :: h :: rest)).map fun (s, r) =>
          (Char.ofNat high :: s, r)
  | '\\' :: 'u' :: a :: b :: c :: d :: rest =>
    match hexQuad? a b c d with
    | none => none
    | some code =>
      if 0xD800 ≤ code && code < 0xE000 then none
      else (stringBody rest).map fun (s, r) => (Char.ofNat code :: s, r)
  | '\\' :: e :: rest =>
    match simpleEscape? e with
    | none => none
    | some c => (stringBody rest).map fun (s, r) => (c :: s, r)
  | c :: rest =>
    if c.toNat < 0x20 then none else (stringBody rest).map fun (s, r) => (c :: s, r)

/-- A string after its opening quote. -/
def textBody : Reader String := fun cs =>
  (stringBody cs).map fun (s, rest) => (String.ofList s, rest)

section Parts

variable {α κ : Type}

def expect (word : List Char) (value : α) : Reader α := fun cs =>
  if word.isPrefixOf cs then some (value, cs.drop word.length) else none

/-- Items with commas between them, up to the closing bracket. -/
def itemsOf (item : Reader α) : Nat → Reader (List α)
  | 0, _ => none
  | fuel + 1, cs =>
    match item cs with
    | none => none
    | some (value, rest) =>
      match skipBlanks rest with
      | ']' :: rest => some ([value], rest)
      | ',' :: rest => (itemsOf item fuel rest).map fun (items, rest) => (value :: items, rest)
      | _ => none

/-- One member: a key, a colon and a value. The key is read after its opening quote. -/
def memberOf (key : Reader κ) (item : Reader α) : Reader (κ × α) := fun cs =>
  match skipBlanks cs with
  | '"' :: rest =>
    match key rest with
    | none => none
    | some (name, rest) =>
      match skipBlanks rest with
      | ':' :: rest => (item rest).map fun (value, rest) => ((name, value), rest)
      | _ => none
  | _ => none

def membersOf (key : Reader κ) (item : Reader α) : Nat → Reader (List (κ × α))
  | 0, _ => none
  | fuel + 1, cs =>
    match memberOf key item cs with
    | none => none
    | some (m, rest) =>
      match skipBlanks rest with
      | '\x7d' :: rest => some ([m], rest)
      | ',' :: rest => (membersOf key item fuel rest).map fun (ms, rest) => (m :: ms, rest)
      | _ => none

/-- A list after its opening bracket. -/
def listOf (item : Reader α) : Reader (List α) := fun cs =>
  match skipBlanks cs with
  | ']' :: rest => some ([], rest)
  | _ => itemsOf item (cs.length + 1) cs

/-- An object after its opening brace, with its members as they stand. -/
def objectOf (key : Reader κ) (item : Reader α) : Reader (List (κ × α)) := fun cs =>
  match skipBlanks cs with
  | '\x7d' :: rest => some ([], rest)
  | _ => membersOf key item (cs.length + 1) cs

/-- What a text holds that has nothing but blanks behind it. -/
def whole? (reader : Reader α) (cs : List Char) : Option α :=
  match reader cs with
  | some (a, rest) => if (skipBlanks rest).isEmpty then some a else none
  | none => none

end Parts

/-- One value, where lists and objects may be nested so deep. -/
def value (depth : Nat) : Reader Json := fun cs =>
  match skipBlanks cs with
  | [] => none
  | '"' :: rest => (textBody rest).map fun (s, rest) => (str s, rest)
  | '[' :: rest =>
    match depth with
    | 0 => none
    | depth + 1 => (listOf (value depth) rest).map fun (items, rest) => (arr items, rest)
  | '\x7b' :: rest =>
    match depth with
    | 0 => none
    | depth + 1 =>
      (objectOf textBody (value depth) rest).map fun (ms, rest) => (ofMembers ms, rest)
  | 't' :: rest => expect "rue".toList (bool true) rest
  | 'f' :: rest => expect "alse".toList (bool false) rest
  | 'n' :: rest => expect "ull".toList null rest
  | cs => number cs

def maxDepth : Nat := 127

/-- The value of a text that holds one and nothing else. -/
def parse? (s : String) : Option Json :=
  whole? (value maxDepth) s.toList

/-- The members of an object as its text gives them, repeated keys included. -/
def parseMembers? (s : String) : Option (List (String × Json)) :=
  match skipBlanks s.toList with
  | '\x7b' :: rest => whole? (objectOf textBody (value (maxDepth - 1))) rest
  | _ => none

end Switchboard.Json
