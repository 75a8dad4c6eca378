import Switchboard.Table
import Switchboard.Json
import Switchboard.Text.Quoted
import Switchboard.Text.Capital

/-! Header fields: names in lower case, each with its values in order. -/

namespace Switchboard

structure Headers where
  fields : Table (List Bytes)

namespace Headers

instance : Inhabited Headers := ⟨⟨[]⟩⟩

def empty : Headers := ⟨[]⟩

/-- Letters, digits and the marks that a field name may hold. -/
def isTokenChar (c : Char) : Bool :=
  c.isAlphanum || "!#$%&'*+-.^_\x60|~".toList.contains c

/-- The stored form of a name, if it is one. -/
def name? (s : String) : Option String :=
  let n := s.toList.length
  if 0 < n && n ≤ 65535 && s.toList.all isTokenChar then some (Text.lowerAscii s) else none

/-- A value holds no control byte but the tab. -/
def isValueByte (b : UInt8) : Bool :=
  (0x20 ≤ b && b != 0x7F) || b == 0x09

def isValue (value : Bytes) : Bool :=
  value.all isValueByte

def isTextByte (b : UInt8) : Bool :=
  Text.isVisible b || b == 0x09

/-- A value as text, if it has nothing but visible characters, blanks and tabs. -/
def textOf? (value : Bytes) : Option String :=
  if value.all isTextByte then
    some (String.ofList (value.map fun b => Char.ofNat b.toNat))
  else none

def getAll (h : Headers) (name : String) : List Bytes :=
  (h.fields.get? (Text.lowerAscii name)).getD []

/-- The first value of a name. -/
def get? (h : Headers) (name : String) : Option Bytes :=
  (h.getAll name).head?

def text? (h : Headers) (name : String) : Option String :=
  (h.get? name).bind textOf?

def contains (h : Headers) (name : String) : Bool :=
  (h.get? name).isSome

/-- Sets the only value of a name in stored form. -/
def insert (h : Headers) (name : String) (value : Bytes) : Headers :=
  ⟨h.fields.insert name [value]⟩

/-- Adds a value behind those that a name in stored form has. -/
def append (h : Headers) (name : String) (value : Bytes) : Headers :=
  ⟨h.fields.insert name ((h.fields.get? name).getD [] ++ [value])⟩

/-- Sets a name to a value if both may stand in a header. -/
def set? (h : Headers) (name value : String) : Option Headers :=
  match name? name with
  | some key =>
    if isValue (Utf8.encode value) then some (h.insert key (Utf8.encode value)) else none
  | none => none

/-- The last field takes the place of the one that goes. -/
def removeField (key : String) (fields : Table (List Bytes)) : Table (List Bytes) :=
  match fields.span (·.1 != key) with
  | (before, _ :: after) =>
    match after.getLast? with
    | some last => before ++ last :: after.dropLast
    | none => before
  | (before, []) => before

def remove (h : Headers) (name : String) : Headers :=
  ⟨removeField (Text.lowerAscii name) h.fields⟩

/-- Every name with every value, in order. -/
def pairs (h : Headers) : List (String × Bytes) :=
  h.fields.flatMap fun (name, values) => values.map (name, ·)

/-- A value as JSON: its text, or else its bytes in hexadecimal. -/
def valueJson (value : Bytes) : Json :=
  match textOf? value with
  | some s => .str s
  | none => .obj [("hex", .str (Hex.encode value))]

/-- The pairs in order of their names, those of one name in order of the values as JSON texts. -/
def toJson (h : Headers) : Json :=
  let rows := h.pairs.map fun (name, value) => (name, (valueJson value).text, valueJson value)
  let sorted := rows.mergeSort fun a b =>
    decide (a.1 < b.1) || (a.1 == b.1 && decide (a.2.1 ≤ b.2.1))
  .arr (sorted.map fun (name, _, value) => .arr [.str name, value])

def quotedValueByte (b : UInt8) : String :=
  if b == 0x22 then "\\\""
  else if isTextByte b then Text.charOfByte b
  else "\\x" ++ Hex.ofNat b.toNat

def quotedValue (value : Bytes) : String :=
  "\"" ++ String.join (value.map quotedValueByte) ++ "\""

def debugText (h : Headers) : String :=
  "\x7b" ++ ", ".intercalate (h.pairs.map fun (name, value) =>
    Text.quoted name ++ ": " ++ quotedValue value) ++ "\x7d"

end Headers

end Switchboard
