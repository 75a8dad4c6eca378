import Switchboard.Config
import Switchboard.Files
import Switchboard.Middleware
import Switchboard.Rejection
import Switchboard.Token.Jwt

/-! Middleware that lets in requests with a valid token alone and leaves its claims in the
context. -/

namespace Switchboard.Middleware

namespace Auth

/-- The variable that holds a secret where the configuration names none. -/
def secretVariable : String := "JWT_SECRET"

def secretOf (s : Surroundings) (c : Config.Jwt) : Option String :=
  (c.secret.or (s.lookupVariable secretVariable)).filter (!·.isEmpty)

/-- A key file goes before a secret. -/
def verifierOf (s : Surroundings) (name : String) (c : Config.Jwt) :
    Except SetupError Token.Verifier :=
  match c.publicKeyPath with
  | some path =>
    match s.read path with
    | .error e =>
      .error (.invalidMiddleware name
        ("could not read public key '" ++ path ++ "': " ++ e.message))
    | .ok pem =>
      match Token.Verifier.ofPem pem with
      | .ok v => .ok v
      | .error e => .error (.invalidMiddleware name ("could not parse public key: " ++ e.message))
  | none =>
    match secretOf s c with
    | some secret => .ok (.ofSecret (Utf8.encode secret))
    | none =>
      .error (.invalidMiddleware name
        ("either secret, public_key_path or " ++ secretVariable ++ " must be set"))

def defaultKey : String := "claims"

/-- The claims that a request comes with. -/
def claimsOf (v : Token.Verifier) (date : Nat) (r : Request) : Except Token.AuthError Json :=
  (Token.bearer? r.headers).bind (Token.verify v date)

end Auth

def auth (name : String) (v : Token.Verifier) (key : String) : Middleware :=
  plain name fun next ctx =>
    .today fun date =>
      match Auth.claimsOf v date ctx.request with
      | .ok claims => next (ctx.set key (.json claims))
      | .error reason =>
        .report (.authenticationFailed ctx.request.path reason.message)
          (.reply (ctx.mapResponse (Rejection.unauthorized reason.message).writeTo))

end Switchboard.Middleware
