import Switchboard.Text.Utf8

/-! Blocks of the distinguished encoding of ASN.1, as far as keys and certificates use it. -/

namespace Switchboard.Der

inductive Block where
  | sequence (items : List Block)
  | bits (bytes : Bytes)
  | octets (bytes : Bytes)
  | identifier (bytes : Bytes)
  | other

def natOf (bytes : Bytes) : Nat :=
  bytes.foldl (fun n b => n * 256 + b.toNat) 0

/-- The rest of a tag number that has bytes of its own. -/
def skipLongTag : Bytes → Option Bytes
  | [] => none
  | b :: rest => if 0x80 ≤ b then skipLongTag rest else some rest

/-- A length and what follows it. -/
def length? : Bytes → Option (Nat × Bytes)
  | [] => none
  | b :: rest =>
    if b < 0x80 then some (b.toNat, rest)
    else
      let n := b.toNat - 0x80
      if 8 < n || rest.length < n then none else some (natOf (rest.take n), rest.drop n)

/-- The first byte of a block, its content and what follows it. -/
def frame? : Bytes → Option (UInt8 × Bytes × Bytes)
  | [] => none
  | tag :: rest =>
    match (if tag &&& 0x1F == 0x1F then skipLongTag rest else some rest).bind length? with
    | some (n, rest) => if rest.length < n then none else some (tag, rest.take n, rest.drop n)
    | none => none

def bitsOf : Bytes → Option Block
  | [] => some (.bits [])
  | unused :: bytes => if bytes.length * 8 < unused.toNat then none else some (.bits bytes)

def isPrintableByte (b : UInt8) : Bool :=
  let c := Char.ofNat b.toNat
  c.isAlphanum || " '()+,-./:=?".toList.contains c

/-- The first byte stands for two numbers, and each further number ends with a byte below 128. -/
def isIdentifier : Bytes → Bool
  | [] => false
  | [_] => true
  | _ :: rest => rest.getLast?.any (· < 0x80)

/-- Reads blocks one after the other to the end, nested ones included. -/
def blocks? : Nat → Bytes → Option (List Block)
  | _, [] => some []
  | 0, _ => none
  | fuel + 1, bytes => do
    let (tag, content, rest) ← frame? bytes
    let block ←
      if 0x40 ≤ tag then some .other
      else
        match (tag &&& 0x1F).toNat with
        | 0x01 => if content.length == 1 then some .other else none
        | 0x03 => bitsOf content
        | 0x04 => some (.octets content)
        | 0x06 => if isIdentifier content then some (.identifier content) else none
        | 0x0C => (Utf8.decode? content).map fun _ => .other
        | 0x10 => (blocks? fuel content).map .sequence
        | 0x11 => (blocks? fuel content).map fun _ => .other
        | 0x13 => if content.all isPrintableByte then some .other else none
        | _ => some .other
    let more ← blocks? fuel rest
    pure (block :: more)

def parse? (bytes : Bytes) : Option (List Block) :=
  blocks? (bytes.length + 1) bytes

mutual

/-- The first identifier among those that `pick` knows, in sequences at any depth. -/
def Block.firstIdentifier? {α : Type} (pick : Bytes → Option α) : Block → Option α
  | .sequence items => firstIdentifierIn? pick items
  | .identifier bytes => pick bytes
  | _ => none

def firstIdentifierIn? {α : Type} (pick : Bytes → Option α) : List Block → Option α
  | [] => none
  | b :: rest => (b.firstIdentifier? pick).or (firstIdentifierIn? pick rest)

end

mutual

/-- The first string of bits or octets, in sequences at any depth. -/
def Block.firstData? : Block → Option Bytes
  | .sequence items => firstDataIn? items
  | .bits bytes => some bytes
  | .octets bytes => some bytes
  | _ => none

def firstDataIn? : List Block → Option Bytes
  | [] => none
  | b :: rest => b.firstData?.or (firstDataIn? rest)

end

/-- A positive integer in as few bytes as it needs, and what follows it. -/
def positive? (bytes : Bytes) : Option (Nat × Bytes) :=
  match frame? bytes with
  | some (0x02, content, rest) =>
    match content with
    | 0 :: high :: _ => if 0x80 ≤ high then some (natOf content, rest) else none
    | first :: _ => if 0x80 ≤ first || first == 0 then none else some (natOf content, rest)
    | [] => none
  | _ => none

end Switchboard.Der
