import Switchboard.Crypto.Hmac
import Switchboard.Crypto.Rsa
import Switchboard.Encoding.Base64
import Switchboard.Encoding.Pem

/-! Keys that tokens are checked under: a secret shared by both sides, or a public RSA key in one
of its written forms. -/

namespace Switchboard.Token

inductive Algorithm where
  | hs256
  | rs256
deriving DecidableEq, Repr

def Algorithm.name : Algorithm → String
  | hs256 => "HS256"
  | rs256 => "RS256"

inductive Verifier where
  | secret (key : Bytes)
  /-- The encoding of a public RSA key. It is read when a signature is checked. -/
  | rsa (der : Bytes)

inductive KeyError where
  | invalidFormat
  | noData
deriving DecidableEq, Repr

def KeyError.message : KeyError → String
  | invalidFormat => "InvalidKeyFormat"
  | noData => "InvalidEcdsaKey"

inductive KeyKind where
  | rsa
  | other
deriving DecidableEq

/-- The kinds of keys that have an identifier here: RSA, and those on elliptic curves. -/
def keyKind? (identifier : Bytes) : Option KeyKind :=
  if identifier == [0x2A, 0x86, 0x48, 0x86, 0xF7, 0x0D, 0x01, 0x01, 0x01] then some .rsa
  else if identifier == [0x2A, 0x86, 0x48, 0xCE, 0x3D, 0x02, 0x01] then some .other
  else if identifier == [0x2B, 0x65, 0x70] then some .other
  else none

namespace Verifier

def algorithm : Verifier → Algorithm
  | secret _ => .hs256
  | rsa _ => .rs256

def ofSecret (key : Bytes) : Verifier :=
  secret key

/-- A key under an RSA label is the content itself. Under a general label it is the first data in
a structure that names RSA. -/
def ofPem (pem : Bytes) : Except KeyError Verifier :=
  match Pem.parse? pem with
  | none => .error .invalidFormat
  | some document =>
    match Der.parse? document.content with
    | none => .error .invalidFormat
    | some blocks =>
      if ["RSA PUBLIC KEY", "RSA PRIVATE KEY"].contains document.label then
        .ok (rsa document.content)
      else if ["PUBLIC KEY", "PRIVATE KEY", "CERTIFICATE"].contains document.label then
        match Der.firstIdentifierIn? keyKind? blocks with
        | some .rsa =>
          match Der.firstDataIn? blocks with
          | some der => .ok (rsa der)
          | none => .error .noData
        | _ => .error .invalidFormat
      else .error .invalidFormat

/-- Codes are compared in their written form, RSA signatures in their bytes. -/
def accepts (v : Verifier) (message : Bytes) (signature : String) : Bool :=
  match v with
  | secret key => Base64.encodeUrl (Hmac.sign key message) == signature
  | rsa der =>
    match Base64.decode? .url signature, Rsa.PublicKey.ofDer? der with
    | some bytes, some key => key.verify message bytes
    | _, _ => false

end Verifier

end Switchboard.Token
