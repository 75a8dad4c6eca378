import Switchboard.Yaml.Cursor

/-! Scalars in lines of their own, behind `|` or `>`. -/

namespace Switchboard.Yaml

inductive Chomp where
  | strip
  | clip
  | keep
deriving DecidableEq

structure BlockHeader where
  chomp : Chomp
  /-- How far the lines are indented, if the header says so. -/
  increment : Option Nat

def chompOf? : Char → Option Chomp
  | '+' => some .keep
  | '-' => some .strip
  | _ => none

def incrementOf? (x : Char) : Option Nat :=
  if '1' ≤ x && x ≤ '9' then some (x.toNat - '0'.toNat) else none

/-- The marks behind `|` or `>`, in any order. -/
def blockHeader (c : Cursor) : BlockHeader × Cursor :=
  match c.head?.bind chompOf? with
  | some chomp =>
    match (c.at? 1).bind incrementOf? with
    | some n => (⟨chomp, some n⟩, c.skip 2)
    | none => (⟨chomp, none⟩, c.skip 1)
  | none =>
    match c.head?.bind incrementOf? with
    | some n =>
      match (c.at? 1).bind chompOf? with
      | some chomp => (⟨chomp, some n⟩, c.skip 2)
      | none => (⟨.clip, some n⟩, c.skip 1)
    | none => (⟨.clip, none⟩, c)

def isWithin (indent : Option Nat) (c : Cursor) : Bool :=
  indent.all (c.column < ·)

/-- Passes over indentation. -/
def skipIndent (indent : Option Nat) : Nat → Cursor → Cursor
  | 0, c => c
  | fuel + 1, c =>
    if isWithin indent c && c.isAt ' ' then skipIndent indent fuel (c.skip 1) else c

/-- Passes over empty lines. Yields their breaks and the deepest indentation among them. -/
def emptyLines (indent : Option Nat) : Nat → Nat → Cursor → Option (List Char × Nat × Cursor)
  | 0, _, _ => none
  | fuel + 1, deepest, c =>
    let c := skipIndent indent (c.rest.length + 1) c
    let deepest := Nat.max deepest c.column
    if isWithin indent c && c.isAt '\t' then none
    else if c.atBreak then
      let (b, c) := c.skipLine
      (emptyLines indent fuel deepest c).map fun (more, deepest, c) => (b ++ more, deepest, c)
    else some ([], deepest, c)

structure BlockText where
  text : List Char
  leading : List Char
  trailing : List Char
  afterBlank : Bool

/-- Reads line by line while they are indented as the first one. -/
def blockLines (folds : Bool) (indent : Nat) :
    Nat → BlockText → Cursor → Option (BlockText × Cursor)
  | 0, _, _ => none
  | fuel + 1, t, c =>
    if c.column != indent || c.atEnd then some (t, c)
    else
      let blank := c.isBlankAt 0
      let joint :=
        if folds && t.leading == ['\n'] && !t.afterBlank && !blank then
          (if t.trailing.isEmpty then [' '] else [])
        else t.leading
      let (line, c) := c.takeWhile (!isBreak ·)
      let (leading, c) := c.skipLine
      (emptyLines (some indent) (c.rest.length + 1) 0 c).bind fun (trailing, _, c) =>
        blockLines folds indent fuel
          ⟨t.text ++ joint ++ t.trailing ++ line, leading, trailing, blank⟩ c

/-- Reads a scalar from its mark on, inside the given indentation. -/
def blockScalar (folds : Bool) (outer : Int) (c : Cursor) : Option (List Char × Cursor) :=
  let (header, c) := blockHeader (c.skip 1)
  let c := c.skipWhile isBlank
  let c := if c.isAt '#' then c.skipWhile (!isBreak ·) else c
  if !c.atEnd && !c.atBreak then none
  else
    let (_, c) := c.skipLine
    let fixed := header.increment.map fun n => (if 0 ≤ outer then outer + n else n).toNat
    (emptyLines fixed (c.rest.length + 1) 0 c).bind fun (trailing, deepest, c) =>
      let indent := fixed.getD (Nat.max (Nat.max deepest (outer + 1).toNat) 1)
      (blockLines folds indent (c.rest.length + 1) ⟨[], [], trailing, false⟩ c).map fun (t, c) =>
        let text := if header.chomp = .strip then t.text else t.text ++ t.leading
        (if header.chomp = .keep then text ++ t.trailing else text, c)

end Switchboard.Yaml
