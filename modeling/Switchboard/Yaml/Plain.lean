import Switchboard.Word
import Switchboard.Yaml.Node

/-! What plain scalars stand for: nothing, a truth value, a number or a text. -/

namespace Switchboard.Yaml

/-- A value without layout. Numbers are kept only as far as a configuration can use them. -/
inductive Datum where
  | null
  | bool (b : Bool)
  | int (n : Int)
  | float
  | text (s : String)
  | list (items : List Datum)
  | map (pairs : List (Datum × Datum))

instance : Inhabited Datum := ⟨.null⟩

def isNullText (s : String) : Bool :=
  ["null", "Null", "NULL", "~"].contains s

def boolOf? (s : String) : Option Bool :=
  if ["true", "True", "TRUE"].contains s then some true
  else if ["false", "False", "FALSE"].contains s then some false
  else none

def digitIn? (base : Nat) (c : Char) : Option Nat :=
  (Hex.digitValue? c).filter (· < base)

/-- The value of digits in a base. There has to be one. -/
def natIn? (base : Nat) (cs : List Char) : Option Nat :=
  if cs.isEmpty then none
  else (cs.mapM (digitIn? base)).map fun ds => ds.foldl (fun n d => n * base + d) 0

/-- A base other than ten is told by the letter behind a zero. -/
def magnitude? (cs : List Char) : Option Nat :=
  match cs with
  | '0' :: 'x' :: rest => natIn? 16 rest
  | '0' :: 'o' :: rest => natIn? 8 rest
  | '0' :: 'b' :: rest => natIn? 2 rest
  | '0' :: _ :: _ => none
  | _ => natIn? 10 cs

def natOf? (s : String) : Option Nat :=
  match s.toList with
  | '+' :: rest => magnitude? rest
  | cs => magnitude? cs

def negative? (s : String) : Option Int :=
  match s.toList with
  | '-' :: rest => (magnitude? rest).map fun n => -(n : Int)
  | _ => none

/-- Integers that 64 bits do not hold are refused, up to the reach of 128 bits. -/
inductive IntReading where
  | none
  | tooLarge
  | value (n : Int)

def intOf (s : String) : IntReading :=
  match natOf? s with
  | some n =>
    if n < Word.size64 then .value n
    else if n < Word.size64 * Word.size64 then .tooLarge
    else .none
  | none =>
    match negative? s with
    | some n =>
      if -(Word.half64 : Int) ≤ n then .value n
      else if -(Word.half64 * Word.size64 : Int) ≤ n then .tooLarge
      else .none
    | none => .none

/-- The exponent behind an `e`, zero where there is none. -/
def exponentOf? : List Char → Option Int
  | [] => some 0
  | e :: rest =>
    let (down, digits) :=
      match rest with
      | '+' :: more => (false, more)
      | '-' :: more => (true, more)
      | _ => (false, rest)
    if e == 'e' || e == 'E' then
      (natIn? 10 digits).map fun n => if down then -(n : Int) else n
    else none

/-- Digits with at most one point among them, and an exponent perhaps, as `m · 10^e`. -/
def decimal? (cs : List Char) : Option (Nat × Int) :=
  let whole := cs.takeWhile Char.isDigit
  match cs.drop whole.length with
  | '.' :: more =>
    let places := more.takeWhile Char.isDigit
    (natIn? 10 (whole ++ places)).bind fun m =>
      (exponentOf? (more.drop places.length)).map fun e => (m, e - places.length)
  | rest => (natIn? 10 whole).bind fun m => (exponentOf? rest).map fun e => (m, e)

/-- Whether the double next to `m · 10^e` is finite. -/
def isFiniteDecimal (m : Nat) (e : Int) : Bool :=
  let limit := Nat.pow 2 1024 - Nat.pow 2 970
  m == 0 ||
    e < 0 && m < limit * Nat.pow 10 (Nat.min e.natAbs 400) ||
    0 ≤ e && e < 400 && m * Nat.pow 10 e.natAbs < limit

def unsign (cs : List Char) : List Char :=
  match cs with
  | '+' :: rest => rest
  | '-' :: rest => rest
  | _ => cs

/-- A number with zeros in front is a text. -/
def hasLeadingZeros (cs : List Char) : Bool :=
  match cs with
  | '0' :: c :: rest => c.isDigit && (c :: rest).all Char.isDigit
  | _ => false

def specialFloats : List String :=
  [".inf", ".Inf", ".INF", "+.inf", "+.Inf", "+.INF", "-.inf", "-.Inf", "-.INF", ".nan", ".NaN",
    ".NAN"]

def isFloatText (s : String) : Bool :=
  specialFloats.contains s ||
    (decimal? (unsign s.toList)).any fun (m, e) => isFiniteDecimal m e

/-- The value of a plain scalar. Nothing comes of an integer that is too large. -/
def plainDatum (s : String) : Option Datum :=
  if s.isEmpty || isNullText s then some .null
  else
    match boolOf? s with
    | some b => some (.bool b)
    | none =>
      match intOf s with
      | .value n => some (.int n)
      | .tooLarge => none
      | .none =>
        if !hasLeadingZeros (unsign s.toList) && isFloatText s then some .float
        else some (.text s)

def coreTag (name : String) : String :=
  "tag:yaml.org,2002:" ++ name

/-- Whether a tag is one of the document's own. -/
def isLocal (tag : String) : Bool :=
  tag.startsWith "!" && tag != "!"

/-- A scalar with a tag of the core has to be what the tag says. -/
def taggedDatum (tag s : String) : Option Datum :=
  if tag == coreTag "bool" then (boolOf? s).map .bool
  else if tag == coreTag "int" then
    match intOf s with
    | .value n => some (.int n)
    | _ => none
  else if tag == coreTag "float" then
    if isFloatText s then some .float else none
  else if tag == coreTag "null" then
    if isNullText s then some .null else none
  else if isLocal tag then none
  else some (.text s)

mutual

/-- The value of a node with all its scalars typed. -/
def Node.datum? : Node → Option Datum
  | .scalar s plain none => if plain then plainDatum s else some (.text s)
  | .scalar s _ (some tag) => taggedDatum tag s
  | .sequence items tag => if tag.any isLocal then none else (dataOf items).map .list
  | .mapping pairs tag => if tag.any isLocal then none else (pairsOf pairs).map .map
  | .void => some .null
  | .cycle => none

def dataOf : List Node → Option (List Datum)
  | [] => some []
  | n :: rest => do
    let d ← n.datum?
    let ds ← dataOf rest
    some (d :: ds)

def pairsOf : List (Node × Node) → Option (List (Datum × Datum))
  | [] => some []
  | (k, v) :: rest => do
    let k ← k.datum?
    let v ← v.datum?
    let ds ← pairsOf rest
    some ((k, v) :: ds)

end

end Switchboard.Yaml
