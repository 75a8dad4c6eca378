import Switchboard.Crypto.Sha256
import Switchboard.Encoding.Der

/-! RSA signatures with SHA-256, in the scheme of PKCS#1 version 1.5. -/

namespace Switchboard.Rsa

structure PublicKey where
  modulus : Nat
  exponent : Nat

def powMod (base exponent modulus : Nat) : Nat :=
  if h : exponent = 0 then 1 % modulus
  else
    let half := powMod (base * base % modulus) (exponent / 2) modulus
    if exponent % 2 == 1 then half * base % modulus else half
termination_by exponent
decreasing_by omega

def byteLength (n : Nat) : Nat :=
  (n.log2 + 8) / 8

/-- A key of 2048 to 8192 bits with an odd exponent of at most 33 bits. -/
def PublicKey.isAcceptable (k : PublicKey) : Bool :=
  2048 ≤ byteLength k.modulus * 8 && k.modulus < Nat.pow 2 8192 && k.modulus % 2 == 1 &&
    3 ≤ k.exponent && k.exponent < Nat.pow 2 33 && k.exponent % 2 == 1

/-- Reads a sequence of the modulus and the exponent and nothing else. -/
def PublicKey.ofDer? (bytes : Bytes) : Option PublicKey := do
  let (tag, content, rest) ← Der.frame? bytes
  let (modulus, more) ← Der.positive? content
  let (exponent, last) ← Der.positive? more
  if tag == 0x30 && rest.isEmpty && last.isEmpty then some ⟨modulus, exponent⟩ else none

/-- What stands before a hash of SHA-256 to name its algorithm. -/
def hashLabel : Bytes :=
  [0x30, 0x31, 0x30, 0x0D, 0x06, 0x09, 0x60, 0x86, 0x48, 0x01, 0x65, 0x03, 0x04, 0x02, 0x01, 0x05,
    0x00, 0x04, 0x20]

/-- The block of the given length that a signature of the message is a root of. -/
def encodedHash (message : Bytes) (length : Nat) : Bytes :=
  let tail := hashLabel ++ Sha256.hash message
  [0x00, 0x01] ++ List.replicate (length - tail.length - 3) 0xFF ++ 0x00 :: tail

def PublicKey.verify (k : PublicKey) (message signature : Bytes) : Bool :=
  let length := byteLength k.modulus
  let root := Der.natOf signature
  k.isAcceptable && signature.length == length && root < k.modulus &&
    powMod root k.exponent k.modulus == Der.natOf (encodedHash message length)

end Switchboard.Rsa
