import Switchboard.Message

/-! Answers that stand for a refused or failed request. -/

namespace Switchboard

inductive Rejection where
  | rateLimited
  | unauthorized (reason : String)
  | timeout
  | internal
  | routeNotFound
  | unavailable
deriving DecidableEq, Repr

namespace Rejection

def status : Rejection → Nat
  | rateLimited => 429
  | unauthorized _ => 401
  | timeout => 499
  | internal => 500
  | routeNotFound => 404
  | unavailable => 503

/-- A rejection without a body of its own keeps the one that is there. -/
def body? : Rejection → Option String
  | rateLimited => some "Too many requests"
  | unauthorized reason => some reason
  | timeout => none
  | internal => some "unknown server error"
  | routeNotFound => none
  | unavailable => some "Service Unavailable"

def message : Rejection → String
  | rateLimited => "Rate limited"
  | unauthorized reason => "Unauthorized: " ++ reason
  | timeout => "Timed out"
  | internal => "Internal server error"
  | routeNotFound => "Route not found"
  | unavailable => "Service unavailable"

/-- Sets the status and the body and leaves the headers. -/
def writeTo (r : Rejection) (response : Response) : Response :=
  match r.body? with
  | some body => (response.setStatus r.status).setText body
  | none => response.setStatus r.status

end Rejection

end Switchboard
