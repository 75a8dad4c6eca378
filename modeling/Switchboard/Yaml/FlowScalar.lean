import Switchboard.Encoding.Hex
import Switchboard.Yaml.Cursor

/-! Scalars in a row of text: between quotes, and plain ones. -/

namespace Switchboard.Yaml

inductive Quote where
  | single
  | double
deriving DecidableEq

def Quote.mark : Quote → Char
  | single => '\x27'
  | double => '"'

/-- Passes over blanks and breaks. Plain scalars do not indent their lines with tabs. -/
def foldFrom (minColumn : Option Nat) : Nat → Cursor → Fold → Option (Fold × Cursor)
  | 0, _, _ => none
  | fuel + 1, c, f =>
    match c.head? with
    | none => some (f, c)
    | some x =>
      if isBlank x then
        if f.broken && x == '\t' && minColumn.any (c.column < ·) then none
        else foldFrom minColumn fuel (c.skip 1) (f.addBlank x)
      else if isBreak x then
        let (b, c) := c.skipLine
        foldFrom minColumn fuel c (f.addBreak b)
      else some (f, c)

def shortEscape? : Char → Option Char
  | '0' => some '\x00'
  | 'a' => some '\x07'
  | 'b' => some '\x08'
  | 't' => some '\t'
  | '\t' => some '\t'
  | 'n' => some '\n'
  | 'v' => some '\x0B'
  | 'f' => some '\x0C'
  | 'r' => some '\r'
  | 'e' => some '\x1B'
  | ' ' => some ' '
  | '"' => some '"'
  | '/' => some '/'
  | '\\' => some '\\'
  | 'N' => some '\u0085'
  | '_' => some '\u00A0'
  | 'L' => some '\u2028'
  | 'P' => some '\u2029'
  | _ => none

/-- How many hexadecimal digits follow. -/
def escapeLength? : Char → Option Nat
  | 'x' => some 2
  | 'u' => some 4
  | 'U' => some 8
  | _ => none

def codePoint? (digits : List Char) (n : Nat) : Option Char :=
  if digits.length != n then none
  else
    (digits.mapM Hex.digitValue?).bind fun values =>
      let code := values.foldl (fun a d => a * 16 + d) 0
      if (0xD800 ≤ code && code ≤ 0xDFFF) || 0x10FFFF < code then none
      else some (Char.ofNat code)

/-- The character of an escape, and what follows it. -/
def escape? (c : Cursor) : Option (Char × Cursor) :=
  match c.at? 1 with
  | none => none
  | some x =>
    match shortEscape? x with
    | some y => some (y, c.skip 2)
    | none =>
      (escapeLength? x).bind fun n =>
        (codePoint? ((c.rest.drop 2).take n) n).map fun y => (y, c.skip (2 + n))

/-- Reads on behind the opening quote. -/
def quotedFrom (q : Quote) : Nat → Cursor → List Char → Option (List Char × Cursor)
  | 0, _, _ => none
  | fuel + 1, c, acc =>
    if c.atDocumentMark then none
    else
      match c.head? with
      | none => none
      | some x =>
        if isBlank x || isBreak x then
          (foldFrom none (c.rest.length + 1) c .none).bind fun (f, c) =>
            quotedFrom q fuel c (f.text.reverse ++ acc)
        else if q = .single && x == '\x27' && c.at? 1 == some '\x27' then
          quotedFrom q fuel (c.skip 2) ('\x27' :: acc)
        else if x == q.mark then some (acc.reverse, c.skip 1)
        else if q = .double && x == '\\' then
          if (c.at? 1).any isBreak then
            let (_, c) := (c.skip 1).skipLine
            (foldFrom none (c.rest.length + 1) c ⟨[], true, [], []⟩).bind fun (f, c) =>
              quotedFrom q fuel c (f.text.reverse ++ acc)
          else (escape? c).bind fun (y, c) => quotedFrom q fuel c (y :: acc)
        else quotedFrom q fuel (c.skip 1) (x :: acc)

def quotedScalar (q : Quote) (c : Cursor) : Option (List Char × Cursor) :=
  quotedFrom q (c.rest.length + 1) (c.skip 1) []

def isFlowMark (x : Char) : Bool :=
  x == ',' || x == '[' || x == ']' || x == '\x7b' || x == '\x7d'

/-- A colon ends a plain scalar before a gap, and in a flow so do the marks of the flow. -/
def endsPlain (inFlow : Bool) (c : Cursor) (x : Char) : Bool :=
  (x == ':' && c.isGap 1) || (inFlow && isFlowMark x)

def isStrayColon (inFlow : Bool) (c : Cursor) (x : Char) : Bool :=
  inFlow && x == ':' && (c.at? 1).any fun y => isFlowMark y || y == '?'

/-- Reads on a plain scalar. Yields whether it ended behind a line break. -/
def plainFrom (inFlow : Bool) (indent : Nat) :
    Nat → Cursor → Fold → List Char → Option (List Char × Bool × Cursor)
  | 0, _, _, _ => none
  | fuel + 1, c, f, acc =>
    let ended := some (acc.reverse, f.broken, c)
    match c.head? with
    | none => ended
    | some x =>
      if isBlank x || isBreak x then
        (foldFrom (some indent) (c.rest.length + 1) c .none).bind fun (f, c) =>
          if (!inFlow && c.column < indent) || c.atDocumentMark || c.isAt '#' then
            some (acc.reverse, f.broken, c)
          else plainFrom inFlow indent fuel c f acc
      else if isStrayColon inFlow c x then none
      else if endsPlain inFlow c x then ended
      else plainFrom inFlow indent fuel (c.skip 1) .none (x :: (f.text.reverse ++ acc))

def plainScalar (inFlow : Bool) (indent : Nat) (c : Cursor) :
    Option (List Char × Bool × Cursor) :=
  plainFrom inFlow indent (c.rest.length + 1) c .none []

end Switchboard.Yaml
