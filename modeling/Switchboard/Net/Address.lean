import Switchboard.Encoding.Hex
import Switchboard.SetupError

/-! Internet addresses with ports, in the usual written forms. -/

namespace Switchboard.Net

inductive Ip where
  | v4 (a b c d : Nat)
  /-- Eight groups of sixteen bits. -/
  | v6 (groups : List Nat)
deriving DecidableEq, Repr

/-- A decimal number below 256 without zeros in front. -/
def octet (cs : List Char) : Option (Nat × List Char) :=
  let digits := cs.takeWhile Char.isDigit
  let n := digits.foldl (fun n c => n * 10 + (c.toNat - '0'.toNat)) 0
  let padded := 1 < digits.length && digits.head? = some '0'
  if digits.isEmpty || 3 < digits.length || 255 < n || padded then none
  else some (n, cs.drop digits.length)

def after (c : Char) : List Char → Option (List Char)
  | [] => none
  | d :: rest => if d = c then some rest else none

def ipv4 (cs : List Char) : Option ((Nat × Nat × Nat × Nat) × List Char) := do
  let (a, cs) ← octet cs
  let (b, cs) ← octet (← after '.' cs)
  let (c, cs) ← octet (← after '.' cs)
  let (d, cs) ← octet (← after '.' cs)
  some ((a, b, c, d), cs)

def isHexDigit (c : Char) : Bool :=
  (Hex.digitValue? c).isSome

/-- One to four hexadecimal digits. -/
def group (cs : List Char) : Option (Nat × List Char) :=
  let digits := cs.takeWhile isHexDigit
  if digits.isEmpty || 4 < digits.length then none
  else
    some (digits.foldl (fun n c => n * 16 + (Hex.digitValue? c).getD 0) 0, cs.drop digits.length)

/-- Reads at most so many groups. The flag tells that the last two were written as IPv4. -/
def groups : Nat → Bool → List Char → List Nat × Bool × List Char
  | 0, _, cs => ([], false, cs)
  | n + 1, first, cs =>
    match if first then some cs else after ':' cs with
    | none => ([], false, cs)
    | some body =>
      match if 0 < n then ipv4 body else none with
      | some ((a, b, c, d), rest) => ([a * 256 + b, c * 256 + d], true, rest)
      | none =>
        match group body with
        | some (g, rest) =>
          let (more, embedded, rest) := groups n false rest
          (g :: more, embedded, rest)
        | none => ([], false, cs)

/-- Eight groups, or fewer around a double colon that stands for zeros. -/
def ipv6 (cs : List Char) : Option (List Nat × List Char) :=
  let (head, embedded, rest) := groups 8 true cs
  if head.length == 8 then some (head, rest)
  else if embedded then none
  else do
    let rest ← after ':' (← after ':' rest)
    let (tail, _, rest) := groups (7 - head.length) true rest
    some (head ++ List.replicate (8 - head.length - tail.length) 0 ++ tail, rest)

def port? (cs : List Char) : Option Nat :=
  if cs.isEmpty || !cs.all Char.isDigit then none
  else
    let n := cs.foldl (fun n c => n * 10 + (c.toNat - '0'.toNat)) 0
    if n < 65536 then some n else none

/-- Passes over the number of a network interface. -/
def skipScope (cs : List Char) : List Char :=
  match cs with
  | '%' :: rest => rest.dropWhile Char.isDigit
  | _ => cs

/-- An address with a port: `a.b.c.d:port`, or an IPv6 address in brackets before the port. -/
def parse? (s : String) : Option (Ip × Nat) :=
  match s.toList with
  | '[' :: rest => do
    let (groups, rest) ← ipv6 rest
    let rest ← after ':' (← after ']' (skipScope rest))
    let port ← port? rest
    some (.v6 groups, port)
  | cs => do
    let ((a, b, c, d), rest) ← ipv4 cs
    let port ← port? (← after ':' rest)
    some (.v4 a b c d, port)

/-- The place and the length of the first longest run of zeros. -/
def longestZeros (groups : List Nat) : Nat × Nat :=
  let runs := (List.range 8).map fun i => (i, ((groups.drop i).takeWhile (· == 0)).length)
  runs.foldl (fun best run => if best.2 < run.2 then run else best) (0, 0)

def groupsText (groups : List Nat) : String :=
  ":".intercalate (groups.map Hex.ofNat)

def Ip.text : Ip → String
  | v4 a b c d => ".".intercalate ([a, b, c, d].map toString)
  | v6 [0, 0, 0, 0, 0, 0xFFFF, g, h] =>
    "::ffff:" ++ ".".intercalate ([g / 256, g % 256, h / 256, h % 256].map toString)
  | v6 groups =>
    let (start, length) := longestZeros groups
    if length < 2 then groupsText groups
    else groupsText (groups.take start) ++ "::" ++ groupsText (groups.drop (start + length))

/-- Whether a listener can be bound to the address on any machine. -/
def Ip.isLocal : Ip → Bool
  | v4 a b c d => a == 127 || (a == 0 && b == 0 && c == 0 && d == 0)
  | v6 groups => groups.take 7 == List.replicate 7 0 && (groups.getLast?.getD 2) < 2

/-- The host and the port around the last colon. -/
def splitHost? (s : String) : Option (String × String) :=
  let cs := s.toList
  if cs.contains ':' then
    let tail := (cs.reverse.takeWhile (· != ':')).reverse
    some (String.ofList (cs.take (cs.length - tail.length - 1)), String.ofList tail)
  else none

def unsigned (cs : List Char) : List Char :=
  match cs with
  | '+' :: rest => rest
  | _ => cs

def hostIp? (host : String) : Option Ip :=
  if host == "localhost" then some (.v4 127 0 0 1)
  else
    match ipv4 host.toList with
    | some ((a, b, c, d), []) => some (.v4 a b c d)
    | _ =>
      match ipv6 host.toList with
      | some (groups, []) => some (.v6 groups)
      | _ => none

/-- The address that a listener is to be bound to. -/
def resolve (s : String) : Except IoError (Ip × Nat) :=
  match parse? s with
  | some found => .ok found
  | none =>
    match splitHost? s with
    | none => .error .invalidAddress
    | some (host, port) =>
      match port? (unsigned port.toList), hostIp? host with
      | none, _ => .error .invalidPort
      | some port, some ip => .ok (ip, port)
      | some _, none => .error .unknownHost

def bind (s : String) : Except IoError (Ip × Nat) :=
  match resolve s with
  | .ok (ip, port) => if ip.isLocal then .ok (ip, port) else .error .addressNotAvailable
  | .error e => .error e

end Switchboard.Net
