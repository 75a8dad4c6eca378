import Switchboard.DotEnv
import Switchboard.Config.Decode
import Switchboard.Service.Front

/-! How a service comes up from its configuration. -/

namespace Switchboard

open RateLimit (Amount)
open Server

/-- Answers that the service is there. -/
def healthHandler : Handler :=
  fun ctx => .reply (ctx.mapResponse (·.setText "\x7b\"status\":\"ok\"\x7d"))

namespace Service

variable {R : Type} [Amount R]

/-- Adds the route that tells the health of the service, and starts the HTTP front end. -/
def launch (s : Service R) : Except SetupError (Service R) :=
  match s.http with
  | none => .ok s
  | some server => do
    let s ← s.pushRoute server "GET" "/health" healthHandler []
    match s.http with
    | none => pure s
    | some server =>
      let (server, _) ← server.start
      pure { s with http := some server }

/-- The service that the configuration at a path describes, at work. -/
def ofPath (around : Surroundings) (date : Nat) (path : String) :
    Except SetupError (Service R) := do
  let around := around.withDotEnv
  let config ← Config.Service.load around path
  let s ← ofConfig around date config
  s.launch

end Service

end Switchboard
