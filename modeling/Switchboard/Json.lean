import Switchboard.Encoding.Hex

/-! JSON values. The members of an object stand in the code point order of their keys, and each key
stands once. -/

namespace Switchboard

inductive Json where
  | null
  | bool (b : Bool)
  | int (n : Int)
  | float (x : Float)
  | str (s : String)
  | arr (items : List Json)
  | obj (members : List (String × Json))

namespace Json

instance : Inhabited Json := ⟨null⟩

/-- Puts a member in its place. A later value takes the place of an earlier one. -/
def insertMember (key : String) (value : Json) : List (String × Json) → List (String × Json)
  | [] => [(key, value)]
  | (k, v) :: rest =>
    if key < k then (key, value) :: (k, v) :: rest
    else if key == k then (key, value) :: rest
    else (k, v) :: insertMember key value rest

def ofMembers (members : List (String × Json)) : Json :=
  obj (members.foldl (fun acc m => insertMember m.1 m.2 acc) [])

def member? (key : String) : Json → Option Json
  | obj members => members.lookup key
  | _ => none

def ofNat (n : Nat) : Json :=
  int n

def ofOption {α : Type} (f : α → Json) : Option α → Json
  | some a => f a
  | none => null

def escapeChar (c : Char) : List Char :=
  if c == '"' then ['\\', '"']
  else if c == '\\' then ['\\', '\\']
  else if c == '\n' then ['\\', 'n']
  else if c == '\r' then ['\\', 'r']
  else if c == '\t' then ['\\', 't']
  else if c == '\x08' then ['\\', 'b']
  else if c == '\x0C' then ['\\', 'f']
  else if c.toNat < 0x20 then '\\' :: 'u' :: '0' :: '0' :: Hex.ofByte c.toNat.toUInt8
  else [c]

def renderString (s : String) : List Char :=
  '"' :: (s.toList.flatMap escapeChar ++ ['"'])

/-- The sixteen digits of the bits of a double. -/
def doubleBits (x : Float) : String :=
  let digits := Nat.toDigits 16 x.toBits.toNat
  String.ofList (List.replicate (16 - digits.length) '0' ++ digits)

mutual

/-- The text without blanks. A double is written exactly, as an object that holds its bits. -/
def render : Json → List Char
  | null => "null".toList
  | bool true => "true".toList
  | bool false => "false".toList
  | int n => (toString n).toList
  | float x => '\x7b' :: (renderString "f64" ++ ':' :: (renderString (doubleBits x) ++ ['\x7d']))
  | str s => renderString s
  | arr items => '[' :: renderItems items
  | obj members => '\x7b' :: renderMembers members

def renderItems : List Json → List Char
  | [] => [']']
  | [item] => render item ++ [']']
  | item :: rest => render item ++ ',' :: renderItems rest

def renderMembers : List (String × Json) → List Char
  | [] => ['\x7d']
  | [(key, value)] => renderString key ++ ':' :: (render value ++ ['\x7d'])
  | (key, value) :: rest => renderString key ++ ':' :: (render value ++ ',' :: renderMembers rest)

end

def text (j : Json) : String :=
  String.ofList j.render

end Json

end Switchboard
