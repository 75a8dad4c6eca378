import Switchboard.Yaml.BlockScalar
import Switchboard.Yaml.FlowScalar

/-! The tokens of a YAML text. Indentation becomes tokens of its own, and a key is marked as one
when the colon behind it is found. -/

namespace Switchboard.Yaml

inductive Token where
  | blockSequence
  | blockMapping
  | blockEnd
  | flowSequence
  | flowSequenceEnd
  | flowMapping
  | flowMappingEnd
  | entry
  | comma
  | key
  | value
  | alias (name : String)
  | anchor (name : String)
  | tag (handle suffix : String)
  | scalar (text : String) (plain : Bool)
  | documentStart
  | documentEnd
  | version
  | tagHandle (handle expansion : String)
deriving DecidableEq, Repr

/-- A token that turns out to be a key if a colon follows it. -/
structure Candidate where
  /-- Where its token stands. -/
  place : Nat
  /-- Nothing else can stand at its column. -/
  required : Bool
  index : Nat
  line : Nat
  column : Nat

/-- The state of reading: what was found, the nesting of flows, the indentations, and for each
flow the token that may become a key. -/
structure Lexer where
  cursor : Cursor
  tokens : Array Token
  flow : Nat
  indent : Int
  outer : List Int
  keyAllowed : Bool
  candidates : List (Option Candidate)

namespace Lexer

def ofCursor (c : Cursor) : Lexer :=
  ⟨c, #[], 0, -1, [], true, [none]⟩

def push (s : Lexer) (t : Token) : Lexer :=
  { s with tokens := s.tokens.push t }

def insertAt (s : Lexer) (place : Nat) (t : Token) : Lexer :=
  { s with tokens := (s.tokens.take place).push t ++ s.tokens.drop place }

def skip (s : Lexer) (n : Nat) : Lexer :=
  { s with cursor := s.cursor.skip n }

def allowKey (s : Lexer) (allowed : Bool) : Lexer :=
  { s with keyAllowed := allowed }

def isStale (s : Lexer) (k : Candidate) : Bool :=
  k.line < s.cursor.line || k.index + 1024 < s.cursor.index

/-- Gives up candidates that are too far behind. One that is required must not be. -/
def dropStale (s : Lexer) : Option Lexer :=
  if s.candidates.any fun k => k.any fun k => s.isStale k && k.required then none
  else some { s with candidates := s.candidates.map fun k => k.filter fun k => !s.isStale k }

def dropCandidate (s : Lexer) : Option Lexer :=
  match s.candidates with
  | some k :: rest => if k.required then none else some { s with candidates := none :: rest }
  | _ => some s

/-- Notes that the next token may become a key. -/
def noteCandidate (s : Lexer) : Option Lexer :=
  if s.keyAllowed then
    s.dropCandidate.map fun s =>
      let c := s.cursor
      let required := s.flow == 0 && s.indent == c.column
      { s with
        candidates := some ⟨s.tokens.size, required, c.index, c.line, c.column⟩ ::
          s.candidates.drop 1 }
  else some s

/-- Opens a block collection where the column is deeper than the indentation. -/
def indentTo (s : Lexer) (column place : Nat) (opening : Token) : Lexer :=
  if s.flow == 0 && s.indent < column then
    { s with indent := column, outer := s.indent :: s.outer }.insertAt place opening
  else s

/-- Closes the block collections that are deeper than the column. -/
def closeTo (column : Int) : List Int → Lexer → Lexer
  | [], s => s
  | above :: more, s =>
    if column < s.indent then
      closeTo column more ({ s with indent := above, outer := more }.push .blockEnd)
    else s

def outdentTo (s : Lexer) (column : Int) : Lexer :=
  if s.flow == 0 then closeTo column s.outer s else s

/-- Passes over blanks, comments and line breaks to the next token. -/
def toToken : Nat → Lexer → Lexer
  | 0, s => s
  | fuel + 1, s =>
    let c := s.cursor
    let c := if c.column == 0 && c.isAt '\uFEFF' then c.skip 1 else c
    let tabs := s.flow != 0 || !s.keyAllowed
    let c := c.skipWhile fun x => x == ' ' || (tabs && x == '\t')
    let c := if c.isAt '#' then c.skipWhile (!isBreak ·) else c
    if c.atBreak then
      toToken fuel { s with cursor := c.skipLine.2, keyAllowed := s.keyAllowed || s.flow == 0 }
    else { s with cursor := c }

def isAnchorEnd (c : Cursor) : Bool :=
  c.isGap 0 || c.head?.any fun x => "?:,]\x7d%@\x60".toList.contains x

/-- The name of an anchor or of an alias. -/
def name? (c : Cursor) : Option (String × Cursor) :=
  let (name, c) := (c.skip 1).takeWhile isWord
  if name.isEmpty || !isAnchorEnd c then none else some (String.ofList name, c)

def isTagChar (verbatim : Bool) (x : Char) : Bool :=
  isWord x || ";/?:@&=+$.!~*'()%".toList.contains x || (verbatim && ",[]".toList.contains x)

/-- Escaped bytes in a tag stand for text in UTF-8. -/
def unescapeTag : List Char → Option (List UInt8)
  | [] => some []
  | '%' :: a :: b :: rest =>
    match Hex.digitValue? a, Hex.digitValue? b with
    | some hi, some lo => (unescapeTag rest).map (UInt8.ofNat (hi * 16 + lo) :: ·)
    | _, _ => none
  | '%' :: _ => none
  | x :: rest => (unescapeTag rest).map (String.utf8EncodeChar x ++ ·)

def tagText? (cs : List Char) : Option String :=
  (unescapeTag cs).bind Utf8.decode?

/-- A tag: written out between angles, or a handle with a suffix. -/
def tag? (c : Cursor) : Option (Token × Cursor) :=
  if c.at? 1 == some '<' then
    let (uri, c) := (c.skip 2).takeWhile (isTagChar true)
    if uri.isEmpty || !c.isAt '>' then none
    else (tagText? uri).map fun text => (.tag "" text, c.skip 1)
  else
    let (word, afterWord) := (c.skip 1).takeWhile isWord
    if afterWord.isAt '!' then
      let (suffix, c) := (afterWord.skip 1).takeWhile (isTagChar false)
      if suffix.isEmpty then none
      else (tagText? suffix).map fun text => (.tag (String.ofList ('!' :: word ++ ['!'])) text, c)
    else
      let (suffix, c) := (c.skip 1).takeWhile (isTagChar false)
      (tagText? suffix).map fun text =>
        (if suffix.isEmpty then .tag "" "!" else .tag "!" text, c)

def digits? (cs : List Char) : Option Nat :=
  if cs.isEmpty || 9 < cs.length then none
  else some (cs.foldl (fun n d => n * 10 + (d.toNat - '0'.toNat)) 0)

/-- The rest of a version directive. Versions 1.1 and 1.2 are known. -/
def version? (c : Cursor) : Option (Token × Cursor) :=
  let (major, c) := (c.skipWhile isBlank).takeWhile Char.isDigit
  if c.isAt '.' then
    let (minor, c) := (c.skip 1).takeWhile Char.isDigit
    match digits? major, digits? minor with
    | some 1, some 1 => some (.version, c)
    | some 1, some 2 => some (.version, c)
    | _, _ => none
  else none

/-- The rest of a directive that gives a handle its expansion. -/
def handle? (c : Cursor) : Option (Token × Cursor) :=
  let c := c.skipWhile isBlank
  if !c.isAt '!' then none
  else
    let (word, c) := (c.skip 1).takeWhile isWord
    let (handle, c) :=
      if c.isAt '!' then ('!' :: word ++ ['!'], c.skip 1) else ('!' :: word, c)
    if !c.isBlankAt 0 || (handle.length > 1 && handle.getLast? != some '!') then none
    else
      let (uri, c) := (c.skipWhile isBlank).takeWhile (isTagChar true)
      if uri.isEmpty || !c.isGap 0 then none
      else (tagText? uri).map fun text => (.tagHandle (String.ofList handle) text, c)

def directive? (c : Cursor) : Option (Token × Cursor) :=
  let (name, c) := (c.skip 1).takeWhile isWord
  let found :=
    if !c.isGap 0 then none
    else if name == "YAML".toList then version? c
    else if name == "TAG".toList then handle? c
    else none
  found.bind fun (t, c) =>
    let c := c.skipWhile isBlank
    let c := if c.isAt '#' then c.skipWhile (!isBreak ·) else c
    if c.atEnd then some (t, c) else if c.atBreak then some (t, c.skipLine.2) else none

/-- Adds a token that was read from the cursor on. -/
def take (s : Lexer) (t : Token) (c : Cursor) : Lexer :=
  { s with cursor := c }.push t

def fetchDirective (s : Lexer) : Option Lexer :=
  (s.outdentTo (-1)).dropCandidate.bind fun s =>
    (directive? s.cursor).map fun (t, c) => (s.allowKey false).take t c

def fetchDocumentMark (s : Lexer) : Option Lexer :=
  let t := if s.cursor.isAt '-' then Token.documentStart else .documentEnd
  (s.outdentTo (-1)).dropCandidate.map fun s => (s.allowKey false).take t (s.cursor.skip 3)

def fetchFlowStart (s : Lexer) (t : Token) : Option Lexer :=
  s.noteCandidate.map fun s =>
    { s with flow := s.flow + 1, candidates := none :: s.candidates, keyAllowed := true }.take t
      (s.cursor.skip 1)

def fetchFlowEnd (s : Lexer) (t : Token) : Option Lexer :=
  s.dropCandidate.map fun s =>
    let s :=
      if s.flow == 0 then s
      else { s with flow := s.flow - 1, candidates := s.candidates.drop 1 }
    (s.allowKey false).take t (s.cursor.skip 1)

def fetchComma (s : Lexer) : Option Lexer :=
  s.dropCandidate.map fun s => (s.allowKey true).take .comma (s.cursor.skip 1)

def fetchEntry (s : Lexer) : Option Lexer :=
  if s.flow == 0 && !s.keyAllowed then none
  else
    (s.indentTo s.cursor.column s.tokens.size .blockSequence).dropCandidate.map fun s =>
      (s.allowKey true).take .entry (s.cursor.skip 1)

def fetchKey (s : Lexer) : Option Lexer :=
  if s.flow == 0 && !s.keyAllowed then none
  else
    (s.indentTo s.cursor.column s.tokens.size .blockMapping).dropCandidate.map fun s =>
      (s.allowKey (s.flow == 0)).take .key (s.cursor.skip 1)

/-- A colon makes a key of the candidate, or stands behind a key that is marked as one. -/
def fetchValue (s : Lexer) : Option Lexer :=
  match s.candidates with
  | some k :: rest =>
    let s := { s with candidates := none :: rest }.insertAt k.place .key
    let s := s.indentTo k.column k.place .blockMapping
    some ((s.allowKey false).take .value (s.cursor.skip 1))
  | _ =>
    if s.flow == 0 && !s.keyAllowed then none
    else
      let s := s.indentTo s.cursor.column s.tokens.size .blockMapping
      some ((s.allowKey (s.flow == 0)).take .value (s.cursor.skip 1))

def fetchName (s : Lexer) (token : String → Token) : Option Lexer :=
  s.noteCandidate.bind fun s =>
    (name? s.cursor).map fun (name, c) => (s.allowKey false).take (token name) c

def fetchTag (s : Lexer) : Option Lexer :=
  s.noteCandidate.bind fun s =>
    (tag? s.cursor).bind fun (t, c) =>
      if c.isGap 0 || (s.flow != 0 && c.isAt ',') then some ((s.allowKey false).take t c) else none

def fetchBlockScalar (s : Lexer) (folds : Bool) : Option Lexer :=
  s.dropCandidate.bind fun s =>
    (blockScalar folds s.indent s.cursor).map fun (text, c) =>
      (s.allowKey true).take (.scalar (String.ofList text) false) c

def fetchQuoted (s : Lexer) (q : Quote) : Option Lexer :=
  s.noteCandidate.bind fun s =>
    (quotedScalar q s.cursor).map fun (text, c) =>
      (s.allowKey false).take (.scalar (String.ofList text) false) c

def fetchPlain (s : Lexer) : Option Lexer :=
  s.noteCandidate.bind fun s =>
    (plainScalar (s.flow != 0) (s.indent + 1).toNat s.cursor).map fun (text, broken, c) =>
      (s.allowKey broken).take (.scalar (String.ofList text) true) c

def isIndicator (x : Char) : Bool :=
  "-?:,[]\x7b\x7d#&*!|>'\"%@\x60".toList.contains x

def startsPlain (s : Lexer) (x : Char) : Bool :=
  !(isIndicator x || isBlank x || isBreak x) || (x == '-' && !s.cursor.isBlankAt 1) ||
    (s.flow == 0 && (x == '?' || x == ':') && !s.cursor.isGap 1)

/-- Reads the token that begins with the given character. -/
def fetch (s : Lexer) (x : Char) : Option Lexer :=
  let inFlow := s.flow != 0
  if s.cursor.column == 0 && x == '%' then s.fetchDirective
  else if s.cursor.atDocumentMark then s.fetchDocumentMark
  else if x == '[' then s.fetchFlowStart .flowSequence
  else if x == '\x7b' then s.fetchFlowStart .flowMapping
  else if x == ']' then s.fetchFlowEnd .flowSequenceEnd
  else if x == '\x7d' then s.fetchFlowEnd .flowMappingEnd
  else if x == ',' then s.fetchComma
  else if x == '-' && s.cursor.isGap 1 then s.fetchEntry
  else if x == '?' && (inFlow || s.cursor.isGap 1) then s.fetchKey
  else if x == ':' && (inFlow || s.cursor.isGap 1) then s.fetchValue
  else if x == '*' then s.fetchName .alias
  else if x == '&' then s.fetchName .anchor
  else if x == '!' then s.fetchTag
  else if x == '|' && !inFlow then s.fetchBlockScalar false
  else if x == '>' && !inFlow then s.fetchBlockScalar true
  else if x == '\x27' then s.fetchQuoted .single
  else if x == '"' then s.fetchQuoted .double
  else if s.startsPlain x then s.fetchPlain
  else none

/-- Reads tokens up to the end of the text, where every block collection is closed. -/
def run : Nat → Lexer → Option (List Token)
  | 0, _ => none
  | fuel + 1, s =>
    let s := toToken (s.cursor.rest.length + 1) s
    s.dropStale.bind fun s =>
      let s := s.outdentTo s.cursor.column
      match s.cursor.head? with
      | none => (s.outdentTo (-1)).dropCandidate.map (·.tokens.toList)
      | some x => (s.fetch x).bind (run fuel)

end Lexer

/-- The tokens of a text. -/
def Token.scan? (text : String) : Option (List Token) :=
  let cs := text.toList
  let cs := if cs.head? == some '\uFEFF' then cs.drop 1 else cs
  if cs.all fun c => isAllowed c || c == '\uFEFF' then
    (Lexer.ofCursor (.ofChars cs)).run (cs.length + 1)
  else none

end Switchboard.Yaml
