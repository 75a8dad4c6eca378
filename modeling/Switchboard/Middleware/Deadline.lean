import Switchboard.Config
import Switchboard.Middleware
import Switchboard.Rejection

/-! Middleware that answers for a call that takes too long. The call itself runs on to its end. -/

namespace Switchboard.Middleware

def Deadline.default : Duration := .ofMillis 1000

/-- The time of a configuration. No time and a time of no length stand for the default. -/
def Deadline.ofConfig (name : String) (c : Config.Timeout) : Except SetupError Duration :=
  match c.timeout with
  | none => .ok default
  | some raw =>
    match Duration.parse raw with
    | .ok d => .ok (if d.isZero then default else d)
    | .error e => .error (.invalidMiddleware name ("timeout: '" ++ raw ++ "': " ++ e.message))

/-- A call that panics in time panics here too. -/
def deadline (name : String) (limit : Duration) : Middleware :=
  plain name fun next ctx =>
    .race (next ctx) limit fun
      | .ended outcome => .ofOutcome outcome
      | .late =>
        .report (.deadlineExceeded name ctx.request.path limit)
          (.reply (ctx.mapResponse Rejection.timeout.writeTo))

end Switchboard.Middleware
