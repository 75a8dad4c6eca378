/-! A place in a YAML text, with the classes of characters that its layout hangs on. -/

namespace Switchboard.Yaml

def isBreak (c : Char) : Bool :=
  c == '\n' || c == '\r' || c == '\u0085' || c == '\u2028' || c == '\u2029'

def isBlank (c : Char) : Bool :=
  c == ' ' || c == '\t'

/-- The characters that a text may hold. -/
def isAllowed (c : Char) : Bool :=
  let n := c.toNat
  n == 0x09 || n == 0x0A || n == 0x0D || (0x20 ≤ n && n ≤ 0x7E) || n == 0x85 ||
    (0xA0 ≤ n && n ≤ 0xFFFD) || 0x10000 ≤ n

/-- Letters, digits, the hyphen and the underscore. -/
def isWord (c : Char) : Bool :=
  c.isAlphanum || c == '_' || c == '-'

structure Cursor where
  rest : List Char
  index : Nat
  line : Nat
  column : Nat

namespace Cursor

def ofChars (cs : List Char) : Cursor := ⟨cs, 0, 0, 0⟩

def head? (c : Cursor) : Option Char := c.rest.head?

def at? (c : Cursor) (i : Nat) : Option Char := c.rest[i]?

def isAt (c : Cursor) (x : Char) : Bool := c.head? == some x

/-- Whether a blank, a line break or the end stands so many places ahead. -/
def isGap (c : Cursor) (i : Nat) : Bool :=
  (c.at? i).all fun x => isBlank x || isBreak x

def isBlankAt (c : Cursor) (i : Nat) : Bool := (c.at? i).any isBlank

def atBreak (c : Cursor) : Bool := c.head?.any isBreak

def atEnd (c : Cursor) : Bool := c.rest.isEmpty

/-- Goes on by so many characters of one line. -/
def skip (c : Cursor) (n : Nat) : Cursor :=
  ⟨c.rest.drop n, c.index + n, c.line, c.column + n⟩

/-- Goes on behind a line break, and yields the break as it counts in a text. -/
def skipLine (c : Cursor) : List Char × Cursor :=
  match c.rest with
  | '\r' :: '\n' :: rest => (['\n'], ⟨rest, c.index + 2, c.line + 1, 0⟩)
  | x :: rest =>
    (if x == '\u2028' || x == '\u2029' then [x] else ['\n'], ⟨rest, c.index + 1, c.line + 1, 0⟩)
  | [] => ([], c)

def takeWhile (c : Cursor) (p : Char → Bool) : List Char × Cursor :=
  let taken := c.rest.takeWhile p
  (taken, c.skip taken.length)

def skipWhile (c : Cursor) (p : Char → Bool) : Cursor :=
  (c.takeWhile p).2

/-- Three hyphens or three points alone at the beginning of a line. -/
def atDocumentMark (c : Cursor) : Bool :=
  c.column == 0 && (c.rest.take 3 == ['-', '-', '-'] || c.rest.take 3 == ['.', '.', '.']) &&
    c.isGap 3

end Cursor

/-- What line breaks and blanks inside a scalar leave: the blanks of one line, or the first break
and those after it. -/
structure Fold where
  blanks : List Char
  broken : Bool
  first : List Char
  more : List Char

namespace Fold

def none : Fold := ⟨[], false, [], []⟩

/-- One break counts as a space, and of several all but the first count. -/
def text (f : Fold) : List Char :=
  if f.broken then
    if f.first == ['\n'] then (if f.more.isEmpty then [' '] else f.more) else f.first ++ f.more
  else f.blanks

def addBreak (f : Fold) (b : List Char) : Fold :=
  if f.broken then { f with more := f.more ++ b } else ⟨[], true, b, f.more⟩

def addBlank (f : Fold) (c : Char) : Fold :=
  if f.broken then f else { f with blanks := f.blanks ++ [c] }

end Fold

end Switchboard.Yaml
