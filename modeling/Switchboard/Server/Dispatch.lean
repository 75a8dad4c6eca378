import Switchboard.Call
import Switchboard.Rejection

/-! What a front end does with the route it has found. -/

namespace Switchboard.Server

/-- Runs the handler with the names that the route has bound. Without a route the answer is that
there is none. -/
def dispatch (route : Option (Handler × Table String)) (ctx : Context) : Call :=
  match route with
  | some (handler, params) => handler (ctx.setParams params)
  | none => .reply (ctx.mapResponse Rejection.routeNotFound.writeTo)

structure Reply where
  status : Nat
  headers : Headers
  body : Bytes

def Reply.toJson (r : Reply) : Json :=
  .obj [("body", bytesJson r.body), ("headers", r.headers.toJson), ("status", .ofNat r.status)]

end Switchboard.Server
