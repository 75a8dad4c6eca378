import Switchboard.Double
import Switchboard.Encoding.Base64
import Switchboard.Json.Outline
import Switchboard.Token.Bearer
import Switchboard.Token.Verifier
import Switchboard.Word

/-! Signed sets of claims: three parts in base 64 with points between them, a header, the claims
and a signature over both. A header and claims are written as objects, or as lists with an item for
each name that is looked at. -/

namespace Switchboard.Token

open Json (Raw)

/-- The text before the last point and the text behind it. -/
def splitLast? (cs : List Char) : Option (List Char × List Char) :=
  if cs.contains '.' then
    let tail := (cs.reverse.takeWhile (· != '.')).reverse
    some (cs.take (cs.length - tail.length - 1), tail)
  else none

structure Parts where
  header : String
  payload : String
  signature : String

def Parts.ofToken? (token : String) : Option Parts := do
  let (message, signature) ← splitLast? token.toList
  let (header, payload) ← splitLast? message
  some ⟨String.ofList header, String.ofList payload, String.ofList signature⟩

def Parts.message (p : Parts) : String :=
  p.header ++ "." ++ p.payload

def isString : Json → Bool
  | .str _ => true
  | _ => false

def isNullOr (p : Json → Bool) : Json → Bool
  | .null => true
  | j => p j

def isTextOrNull : Json → Bool :=
  isNullOr isString

def isTextList : Json → Bool
  | .arr items => items.all isString
  | _ => false

def isTextListOrNull : Json → Bool :=
  isNullOr isTextList

section Members

variable {α : Type}

def values (key : String) (members : List (String × α)) : List α :=
  (members.filter (·.1 == key)).map (·.2)

/-- A member that is there once and satisfies `p`. -/
def has (p : α → Bool) (key : String) (members : List (String × α)) : Bool :=
  match values key members with
  | [value] => p value
  | _ => false

/-- A member that, if it is there, stands once and satisfies `p`. -/
def mayHave (p : α → Bool) (key : String) (members : List (String × α)) : Bool :=
  match values key members with
  | [] => true
  | [value] => p value
  | _ => false

end Members

def keyAlgorithms : List String :=
  ["HS256", "HS384", "HS512", "ES256", "ES384", "RS256", "RS384", "RS512", "PS256", "PS384",
    "PS512", "EdDSA", "RSA1_5", "RSA-OAEP", "RSA-OAEP-256"]

def curves : List String :=
  ["P-256", "P-384", "P-521", "Ed25519"]

def isNull : Json → Bool
  | .null => true
  | _ => false

def isNullOrEmpty : Json → Bool
  | .obj members => members.isEmpty
  | j => isNull j

def reads (p : Json → Bool) (raw : Raw) : Bool :=
  raw.json?.any p

def isOneOf (isBlank : Json → Bool) (names : List String) (raw : Raw) : Bool :=
  (raw.name? isBlank).any names.contains

/-- A key inside a header can be read throughout. It names its type and holds the numbers that the
type needs. -/
def isKey (raw : Raw) : Bool :=
  match raw.json?, raw.members? with
  | some .null, _ => true
  | some _, some members =>
    ["use", "kid", "x5u", "x5t", "x5t#S256"].all (mayHave (reads isTextOrNull) · members) &&
      ["key_ops", "x5c"].all (mayHave (reads isTextListOrNull) · members) &&
      mayHave (fun alg => reads isNull alg || isOneOf isNullOrEmpty keyAlgorithms alg) "alg"
        members &&
      (has (isOneOf isNull ["EC"]) "kty" members && has (isOneOf isNull curves) "crv" members &&
          ["x", "y"].all (has (reads isString) · members) ||
        has (isOneOf isNull ["RSA"]) "kty" members &&
          ["n", "e"].all (has (reads isString) · members) ||
        has (isOneOf isNull ["OKP"]) "kty" members && has (isOneOf isNull curves) "crv" members &&
          has (reads isString) "x" members ||
        has (isOneOf isNull ["oct"]) "kty" members && has (reads isString) "k" members)
  | _, _ => false

/-- The fields of a header, in the order of their places in a list. -/
def headerNames : List String :=
  ["typ", "alg", "cty", "jku", "jwk", "kid", "x5u", "x5c", "x5t", "x5t#S256"]

def headerOf? (part : String) : Option (List (String × Raw)) :=
  (Base64.decode? .url part).bind fun bytes => (Raw.ofBytes bytes).fields? headerNames

/-- A header names the algorithm of the verifier, and its other standard fields are in order. -/
def isHeaderFor (a : Algorithm) (fields : List (String × Raw)) : Bool :=
  has (fun alg => alg.name? isNull == some a.name) "alg" fields &&
    ["typ", "cty", "jku", "kid", "x5u", "x5t", "x5t#S256"].all
      (mayHave (reads isTextOrNull) · fields) &&
    mayHave (reads isTextListOrNull) "x5c" fields && mayHave isKey "jwk" fields

/-- The time that a numeric claim stands for. Other values stand for none. -/
def seconds? : Json → Option Nat
  | .int n => if 0 ≤ n then some n.toNat else none
  | .float x =>
    match Double.fraction? x with
    | some (num, den) => if num < Word.size64 * den then some (roundHalfUp num den) else none
    | none => none
  | _ => none

def isFilled : Json → Bool
  | .arr items => !items.isEmpty
  | .obj members => !members.isEmpty
  | _ => false

def isNested : Json → Bool
  | .arr _ => true
  | .obj _ => true
  | _ => false

def isAudience (j : Json) : Bool :=
  isString j || isTextList j

/-- How long a token counts after its time, in seconds. -/
def leeway : Nat := 60

/-- The claims that count, in the order of their places in a list. -/
def claimNames : List String :=
  ["exp", "nbf", "sub", "iss", "aud"]

/-- The value of a payload, and what it claims under the names. -/
def claimsOf? (part : String) : Option (Json × List (String × Json)) := do
  let bytes ← Base64.decode? .url part
  let text ← Utf8.decode? bytes
  match ← Json.parse? text with
  | .arr items =>
    if items.length = claimNames.length then some (.arr items, claimNames.zip items) else none
  | claims => (Json.parseMembers? text).map fun members => (claims, members)

/-- A token whose time is past is refused, and so is one for a named audience. -/
def areCurrent (now : Nat) (members : List (String × Json)) : Bool :=
  mayHave (fun exp => !isFilled exp && (seconds? exp).all (now ≤ · + leeway)) "exp" members &&
    mayHave (fun nbf => !isFilled nbf) "nbf" members &&
    mayHave (fun sub => !isNested sub) "sub" members &&
    mayHave (fun _ => true) "iss" members && mayHave (fun aud => !isAudience aud) "aud" members

/-- The claims of a token that the key has signed and whose time is not past. -/
def verify (v : Verifier) (now : Nat) (token : String) : Except AuthError Json :=
  let claims := do
    let parts ← Parts.ofToken? token
    let header ← headerOf? parts.header
    let (claims, members) ← claimsOf? parts.payload
    if isHeaderFor v.algorithm header && v.accepts (Utf8.encode parts.message) parts.signature &&
        areCurrent now members then
      some claims
    else none
  match claims with
  | some claims => .ok claims
  | none => .error .invalidToken

def encodePart (j : Json) : String :=
  Base64.encodeUrl (Utf8.encode j.text)

/-- Signs claims under a secret. -/
def sign (key : Bytes) (claims : Json) : String :=
  let header := Json.obj [("alg", .str "HS256"), ("typ", .str "JWT")]
  let message := encodePart header ++ "." ++ encodePart claims
  message ++ "." ++ Base64.encodeUrl (Hmac.sign key (Utf8.encode message))

end Switchboard.Token
