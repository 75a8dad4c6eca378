import Switchboard.Headers

/-! Bearer tokens in the `Authorization` header. -/

namespace Switchboard.Token

inductive AuthError where
  | missingHeader
  | invalidHeader
  | invalidToken
deriving DecidableEq, Repr

def AuthError.message : AuthError → String
  | missingHeader => "Authorization header is missing"
  | invalidHeader => "Invalid Authorization header format"
  | invalidToken => "Invalid or expired token"

/-- The pieces between the blanks, at least one. -/
def words : List Char → List (List Char)
  | [] => [[]]
  | c :: rest =>
    if c = ' ' then [] :: words rest
    else
      match words rest with
      | [] => [[c]]
      | word :: more => (c :: word) :: more

def isBearer (scheme : List Char) : Bool :=
  scheme.map Char.toLower == "bearer".toList

/-- The token after the scheme, which one blank and no other divides. -/
def bearer? (headers : Headers) : Except AuthError String :=
  match headers.text? "authorization" with
  | none => .error .missingHeader
  | some value =>
    if value.isEmpty then .error .missingHeader
    else
      match words value.toList with
      | [scheme, token] =>
        if isBearer scheme && !token.isEmpty then .ok (String.ofList token)
        else .error .invalidHeader
      | _ => .error .invalidHeader

end Switchboard.Token
