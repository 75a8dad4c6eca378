import Switchboard.Files
import Switchboard.Text.Blank

/-! Variables from a file of assignments, `NAME=value` line by line. Values may be quoted, span
lines inside quotes, and refer to other variables after a dollar. -/

namespace Switchboard.DotEnv

/-- Where a line stands at one of its characters. -/
inductive LineState where
  | complete
  | blank
  | escaped
  | weak
  | weakEscaped
  | strong
  | strongEscaped
  | comment
deriving DecidableEq

def LineState.next (s : LineState) (c : Char) : LineState :=
  match s with
  | complete =>
    if Text.isBlank c && c != '\n' && c != '\r' then blank
    else if c == '\\' then escaped
    else if c == '"' then weak
    else if c == '\x27' then strong
    else complete
  | blank =>
    if c == '#' then comment
    else if c == '\\' then escaped
    else if c == '"' then weak
    else if c == '\x27' then strong
    else complete
  | escaped => complete
  | weak => if c == '\\' then weakEscaped else if c == '"' then complete else weak
  | weakEscaped => weak
  | strong => if c == '\\' then strongEscaped else if c == '\x27' then complete else strong
  | strongEscaped => strong
  | comment => comment

/-- Reads a physical line. Yields where it leaves off and what stands before a comment. -/
def scanLine (s : LineState) : List Char → LineState × List Char
  | [] => (s, [])
  | c :: rest =>
    match s.next c with
    | .comment => (.comment, [])
    | t =>
      let (last, kept) := scanLine t rest
      (last, c :: kept)

/-- The lines of a text with their line feeds. -/
def physicalLines : List Char → List (List Char)
  | [] => []
  | c :: rest =>
    if c = '\n' then ['\n'] :: physicalLines rest
    else
      match physicalLines rest with
      | [] => [[c]]
      | line :: more => (c :: line) :: more

def dropLineEnd (line : List Char) : List Char :=
  if line.getLast? = some '\n' then
    let line := line.dropLast
    if line.getLast? = some '\r' then line.dropLast else line
  else line

/-- Joins the lines that quotes or a last backslash hold together. A line without its end is an
empty place. -/
def logicalLines (s : LineState) (pending : List Char) :
    List (List Char) → List (Option (List Char))
  | [] => if pending.isEmpty then [] else [none]
  | line :: rest =>
    if ((pending ++ line).dropWhile Text.isBlank).head? = some '#' then
      some [] :: logicalLines .complete [] rest
    else
      match scanLine s line with
      | (.comment, kept) => some (pending ++ kept) :: logicalLines .complete [] rest
      | (.complete, _) => some (dropLineEnd (pending ++ line)) :: logicalLines .complete [] rest
      | (last, _) => logicalLines last (pending ++ line) rest

inductive Reference where
  | none
  | bare (name : List Char)
  | braced (name : List Char)

/-- Where the reading of a value stands, with the text so far in reverse. -/
structure ValueState where
  text : List Char
  strong : Bool
  weak : Bool
  escaped : Bool
  closing : Bool
  reference : Reference

/-- Adds what a name stands for. -/
def ValueState.resolve (look : String → String) (name : List Char) (v : ValueState) :
    ValueState :=
  { v with
    text := (look (String.ofList name.reverse)).toList.reverse ++ v.text
    reference := .none }

def ValueState.push (v : ValueState) (c : Char) : ValueState :=
  { v with text := c :: v.text }

def escapedChar? (c : Char) : Option Char :=
  if c == 'n' then some '\n' else if "\\'\"$ ".toList.contains c then some c else none

/-- Letters and digits of any script continue a name. Those beyond ASCII are not told apart. -/
def isNameChar (c : Char) : Bool :=
  c.isAlphanum || 0x80 ≤ c.toNat

def ValueState.step (look : String → String) (v : ValueState) (c : Char) : Option ValueState :=
  if v.escaped then (escapedChar? c).map fun c => { v.push c with escaped := false }
  else if v.strong then some (if c == '\x27' then { v with strong := false } else v.push c)
  else
    match v.reference with
    | .bare name =>
      if isNameChar c then some { v with reference := .bare (c :: name) }
      else if c == '\x7b' && name.isEmpty then some { v with reference := .braced [] }
      else
        let v := v.resolve look name
        some (if c == '$' then { v with reference := .bare [] } else v.push c)
    | .braced name =>
      if c == '\x7d' then some (v.resolve look name)
      else some { v with reference := .braced (c :: name) }
    | .none =>
      some
        (if c == '$' then { v with reference := .bare [] }
        else if v.weak then
          if c == '"' then { v with weak := false }
          else if c == '\\' then { v with escaped := true }
          else v.push c
        else if c == '\x27' then { v with strong := true }
        else if c == '"' then { v with weak := true }
        else if c == '\\' then { v with escaped := true }
        else if c == ' ' || c == '\t' then { v with closing := true }
        else v.push c)

/-- Behind the blank that ends a value only a comment may follow. -/
def valueFrom (look : String → String) (v : ValueState) : List Char → Option String
  | [] =>
    if v.strong || v.weak then none
    else
      match v.reference with
      | .braced _ => none
      | .bare name => some (String.ofList (v.resolve look name).text.reverse)
      | .none => some (String.ofList v.text.reverse)
  | c :: rest =>
    if v.closing then
      if c == ' ' || c == '\t' then valueFrom look v rest
      else if c == '#' then valueFrom look v []
      else none
    else (v.step look c).bind fun v => valueFrom look v rest

def isKeyStart (c : Char) : Bool := c.isAlpha || c == '_'

def isKeyChar (c : Char) : Bool := c.isAlphanum || c == '_' || c == '.'

/-- A name and what follows it and its blanks. -/
def key? (cs : List Char) : Option (List Char × List Char) :=
  if cs.head?.any isKeyStart then
    some (cs.takeWhile isKeyChar, (cs.dropWhile isKeyChar).dropWhile Text.isBlank)
  else none

def afterEqual? : List Char → Option (List Char)
  | '=' :: rest => some (rest.dropWhile Text.isBlank)
  | _ => none

/-- The name and the written value of an assignment, which `export` may precede. -/
def assignment? (cs : List Char) : Option (List Char × List Char) := do
  let (key, rest) ← key? cs
  match afterEqual? rest with
  | some value => some (key, value)
  | none =>
    if key == "export".toList then
      let (key, rest) ← key? rest
      (afterEqual? rest).map fun value => (key, value)
    else none

/-- Adds the variables of lines to those that are known. A variable that is set keeps its value,
and the first bad line ends the reading. -/
def load (known file : Table String) : List (Option (List Char)) → Table String
  | [] => known
  | none :: _ => known
  | some line :: rest =>
    let line := line.dropWhile Text.isBlank
    if line.isEmpty || line.head? = some '#' then load known file rest
    else
      match assignment? line with
      | none => known
      | some (key, written) =>
        let look (name : String) : String := ((known.get? name).or (file.get? name)).getD ""
        let value :=
          if written.isEmpty || written.head? = some '#' then some ""
          else valueFrom look ⟨[], false, false, false, false, .none⟩ written
        match value with
        | none => known
        | some value =>
          let name := String.ofList key
          let known := if known.contains name then known else known.insert name value
          load known (file.insert name value) rest

def apply (known : Table String) (text : String) : Table String :=
  let cs := text.toList
  let cs := if cs.head? = some '\uFEFF' then cs.drop 1 else cs
  load known [] (logicalLines .complete [] (physicalLines cs))

end Switchboard.DotEnv

namespace Switchboard

/-- Adds the variables of the file `.env`, if there is one. -/
def Surroundings.withDotEnv (s : Surroundings) : Surroundings :=
  match s.readText ".env" with
  | .ok text => { s with environment := DotEnv.apply s.environment text }
  | .error _ => s

end Switchboard
