import Switchboard.Crypto.Sha256

/-! Message authentication codes by SHA-256 under a secret key. -/

namespace Switchboard.Hmac

/-- The key as one block: hashed if it is longer, with zeros behind it if it is shorter. -/
def block (key : Bytes) : Bytes :=
  let key := if 64 < key.length then Sha256.hash key else key
  key ++ List.replicate (64 - key.length) 0

def sign (key message : Bytes) : Bytes :=
  let key := block key
  Sha256.hash (key.map (· ^^^ 0x5C) ++ Sha256.hash (key.map (· ^^^ 0x36) ++ message))

end Switchboard.Hmac
