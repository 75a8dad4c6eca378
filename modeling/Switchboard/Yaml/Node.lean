import Switchboard.Table
import Switchboard.Yaml.Token

/-! The node that a YAML text describes. An alias stands for the node that its anchor names. -/

namespace Switchboard.Yaml

inductive Node where
  | scalar (text : String) (plain : Bool) (tag : Option String)
  | sequence (items : List Node) (tag : Option String)
  | mapping (pairs : List (Node × Node)) (tag : Option String)
  /-- A text without a document. -/
  | void
  /-- An alias inside the node that it stands for. -/
  | cycle

instance : Inhabited Node := ⟨.void⟩

namespace Node

def blank : Node := scalar "" true none

/-- The anchors seen so far. Of two with one name the later counts. -/
abbrev Anchors := Table Node

/-- What a reading has found, with the tokens behind it and the anchors known then. -/
abbrev Parsed (α : Type) := α × List Token × Anchors

/-- The names for tags that a document has, the two that every document has behind them. -/
def standardHandles : Table String :=
  [("!", "!"), ("!!", "tag:yaml.org,2002:")]

def expand? (handles : Table String) : Token → Option String
  | .tag "" suffix => some suffix
  | .tag handle suffix => (handles.get? handle).map (· ++ suffix)
  | _ => none

structure Properties where
  anchor : Option String
  tag : Option String

/-- An anchor and a tag in front of a node, in any order. -/
def properties (handles : Table String) : List Token → Option (Properties × List Token)
  | .anchor name :: rest =>
    match rest with
    | .tag h x :: rest => (expand? handles (.tag h x)).map fun t => (⟨some name, some t⟩, rest)
    | _ => some (⟨some name, none⟩, rest)
  | .tag h x :: rest =>
    (expand? handles (.tag h x)).map fun t =>
      match rest with
      | .anchor name :: rest => (⟨some name, some t⟩, rest)
      | _ => (⟨none, some t⟩, rest)
  | tokens => some (⟨none, none⟩, tokens)

def bindAnchor (name : Option String) (n : Node) (a : Anchors) : Anchors :=
  match name with
  | some name => a.insert name n
  | none => a

/-- Tells where a block item or value is empty. -/
def endsBlockItem : Token → Bool
  | .entry | .blockEnd => true
  | _ => false

def endsIndentlessItem : Token → Bool
  | .entry | .key | .value | .blockEnd => true
  | _ => false

def endsBlockPart : Token → Bool
  | .key | .value | .blockEnd => true
  | _ => false

def endsFlowKey : Token → Bool
  | .value | .comma | .flowMappingEnd => true
  | _ => false

def endsFlowValue : Token → Bool
  | .comma | .flowMappingEnd => true
  | _ => false

def endsPairKey : Token → Bool
  | .value | .comma | .flowSequenceEnd => true
  | _ => false

def endsPairValue : Token → Bool
  | .comma | .flowSequenceEnd => true
  | _ => false

/-- A reader of nodes: whether block collections may begin here, and whether a sequence may begin
without indentation. -/
abbrev Reader := Bool → Bool → List Token → Anchors → Option (Parsed Node)

/-- A node, or an empty one where the next token ends the place for it. -/
def nodeUnless (node : Reader) (block indentless : Bool) (ends : Token → Bool)
    (tokens : List Token) (a : Anchors) : Option (Parsed Node) :=
  match tokens with
  | [] => some (blank, [], a)
  | t :: _ => if ends t then some (blank, tokens, a) else node block indentless tokens a

def blockItems (node : Reader) : Nat → List Token → Anchors → Option (Parsed (List Node))
  | fuel + 1, .entry :: rest, a => do
    let (item, rest, a) ← nodeUnless node true false endsBlockItem rest a
    let (items, rest, a) ← blockItems node fuel rest a
    some (item :: items, rest, a)
  | _, .blockEnd :: rest, a => some ([], rest, a)
  | _, _, _ => none

def indentlessItems (node : Reader) : Nat → List Token → Anchors → Option (Parsed (List Node))
  | fuel + 1, .entry :: rest, a => do
    let (item, rest, a) ← nodeUnless node true false endsIndentlessItem rest a
    let (items, rest, a) ← indentlessItems node fuel rest a
    some (item :: items, rest, a)
  | _, rest, a => some ([], rest, a)

/-- The value behind a key. Without a colon it is empty. -/
def valueAfter (node : Reader) (block : Bool) (ends : Token → Bool) (tokens : List Token)
    (a : Anchors) : Option (Parsed Node) :=
  match tokens with
  | .value :: rest => nodeUnless node block block ends rest a
  | _ => some (blank, tokens, a)

def blockPairs (node : Reader) : Nat → List Token → Anchors → Option (Parsed (List (Node × Node)))
  | fuel + 1, .key :: rest, a => do
    let (key, rest, a) ← nodeUnless node true true endsBlockPart rest a
    let (value, rest, a) ← valueAfter node true endsBlockPart rest a
    let (pairs, rest, a) ← blockPairs node fuel rest a
    some ((key, value) :: pairs, rest, a)
  | _, .blockEnd :: rest, a => some ([], rest, a)
  | _, _, _ => none

/-- Passes over the comma between two items of a flow. -/
def separator (first : Bool) (tokens : List Token) : Option (List Token) :=
  if first then some tokens
  else
    match tokens with
    | .comma :: rest => some rest
    | _ => none

/-- The items of a flow sequence. A pair in it is a mapping of its own. -/
def flowItems (node : Reader) : Nat → Bool → List Token → Anchors → Option (Parsed (List Node))
  | 0, _, _, _ => none
  | _, _, .flowSequenceEnd :: rest, a => some ([], rest, a)
  | fuel + 1, first, tokens, a => do
    let tokens ← separator first tokens
    match tokens with
    | .key :: rest =>
      let (key, rest, a) ← nodeUnless node false false endsPairKey rest a
      let (value, rest, a) ← valueAfter node false endsPairValue rest a
      let (items, rest, a) ← flowItems node fuel false rest a
      some (mapping [(key, value)] none :: items, rest, a)
    | .flowSequenceEnd :: rest => some ([], rest, a)
    | _ =>
      let (item, rest, a) ← node false false tokens a
      let (items, rest, a) ← flowItems node fuel false rest a
      some (item :: items, rest, a)

def flowPairs (node : Reader) :
    Nat → Bool → List Token → Anchors → Option (Parsed (List (Node × Node)))
  | 0, _, _, _ => none
  | _, _, .flowMappingEnd :: rest, a => some ([], rest, a)
  | fuel + 1, first, tokens, a => do
    let tokens ← separator first tokens
    match tokens with
    | .key :: rest =>
      let (key, rest, a) ← nodeUnless node false false endsFlowKey rest a
      let (value, rest, a) ← valueAfter node false endsFlowValue rest a
      let (pairs, rest, a) ← flowPairs node fuel false rest a
      some ((key, value) :: pairs, rest, a)
    | .flowMappingEnd :: rest => some ([], rest, a)
    | _ =>
      let (key, rest, a) ← node false false tokens a
      let (pairs, rest, a) ← flowPairs node fuel false rest a
      some ((key, blank) :: pairs, rest, a)

/-- The content behind the properties of a node. -/
def content (node : Reader) (block indentless : Bool) (p : Properties) (fuel : Nat)
    (tokens : List Token) (a : Anchors) : Option (Parsed Node) :=
  match tokens with
  | .scalar text plain :: rest => some (.scalar text plain p.tag, rest, a)
  | .flowSequence :: rest =>
    (flowItems node fuel true rest a).map fun (items, r) => (.sequence items p.tag, r)
  | .flowMapping :: rest =>
    (flowPairs node fuel true rest a).map fun (pairs, r) => (.mapping pairs p.tag, r)
  | .entry :: _ =>
    if indentless then
      (indentlessItems node fuel tokens a).map fun (items, r) => (.sequence items p.tag, r)
    else if p.anchor.isSome || p.tag.isSome then some (.scalar "" true p.tag, tokens, a)
    else none
  | .blockSequence :: rest =>
    if block then
      (blockItems node fuel rest a).map fun (items, r) => (.sequence items p.tag, r)
    else if p.anchor.isSome || p.tag.isSome then some (.scalar "" true p.tag, tokens, a)
    else none
  | .blockMapping :: rest =>
    if block then
      (blockPairs node fuel rest a).map fun (pairs, r) => (.mapping pairs p.tag, r)
    else if p.anchor.isSome || p.tag.isSome then some (.scalar "" true p.tag, tokens, a)
    else none
  | _ =>
    if p.anchor.isSome || p.tag.isSome then some (.scalar "" true p.tag, tokens, a) else none

/-- Reads one node, where nodes may be nested so deep. -/
def read (handles : Table String) : Nat → Reader
  | 0, _, _, _, _ => none
  | depth + 1, block, indentless, tokens, a =>
    match tokens with
    | .alias name :: rest => (a.get? name).map fun n => (n, rest, a)
    | _ => do
      let (p, rest) ← properties handles tokens
      let (n, rest, a) ← content (read handles depth) block indentless p (tokens.length + 1) rest
        (bindAnchor p.anchor .cycle a)
      some (n, rest, bindAnchor p.anchor n a)

/-- The directives in front of a document. A handle may be given once, a version too. -/
def directives : List Token → Table String → Bool → Option (Table String × Bool × List Token)
  | .version :: rest, handles, versioned =>
    if versioned then none else directives rest handles true
  | .tagHandle h x :: rest, handles, versioned =>
    if handles.contains h then none else directives rest (handles.insert h x) versioned
  | rest, handles, versioned => some (handles, versioned || !handles.isEmpty, rest)

def endsDocument : Token → Bool
  | .version | .tagHandle _ _ | .documentStart | .documentEnd => true
  | _ => false

/-- Nothing but the end of the document may follow. -/
def isOver : List Token → Bool
  | [] => true
  | .documentEnd :: rest => isOver rest
  | _ => false

/-- The node of a text with one document. -/
def ofTokens? (tokens : List Token) : Option Node := do
  let (declared, present, rest) ← directives tokens [] false
  let handles := declared ++ standardHandles
  let reader := read handles (tokens.length + 1)
  match rest with
  | [] => if present then none else some void
  | .documentStart :: rest =>
    let (n, rest, _) ← nodeUnless reader true false endsDocument rest []
    if isOver rest then some n else none
  | _ =>
    if present then none
    else
      let (n, rest, _) ← reader true false rest []
      if isOver rest then some n else none

def ofText? (text : String) : Option Node :=
  (Token.scan? text).bind ofTokens?

end Node

end Switchboard.Yaml
