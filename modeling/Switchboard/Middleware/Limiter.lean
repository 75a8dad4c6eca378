import Switchboard.Middleware
import Switchboard.RateLimit.Settings
import Switchboard.Rejection

/-! Middleware that admits calls at the pace of its settings. -/

namespace Switchboard

/-- A rate limiter with the number of its store and, where it has one, of its sweeper. -/
structure Limiter where
  name : String
  settings : RateLimit.Settings
  store : Nat
  /-- The key and the burst that a context is counted by. -/
  keyOf : Context → String × Nat

namespace Limiter

def ofSettings (name : String) (s : RateLimit.Settings) (store : Nat) : Limiter :=
  ⟨name, s, store, s.keyFor⟩

def markLimit (l : Limiter) (remaining : Nat) (response : Response) : Response :=
  (response.setHeaderText "x-ratelimit-limit" (toString l.settings.requests)).setHeaderText
    "x-ratelimit-remaining" (toString remaining)

/-- The answer to a call that has to come back after so many seconds. -/
def reject (l : Limiter) (key : String) (ctx : Context) (retry : Nat) (reset : Option Nat) :
    Call :=
  let marked := ctx.mapResponse fun response =>
    let response := (l.markLimit 0 response).setHeaderText "retry-after" (toString retry)
    match reset with
    | some date => response.setHeaderText "x-ratelimit-reset" (toString date)
    | none => response
  .report (.rateChecked key ctx.request.path true l.settings.requests)
    (.reply (marked.mapResponse Rejection.rateLimited.writeTo))

/-- A burst of zero lets a call through uncounted. -/
def wrap (l : Limiter) (next : Handler) : Handler := fun ctx =>
  let (key, burst) := l.keyOf ctx
  if burst == 0 then next ctx
  else if l.settings.pace.isDegenerate then l.reject key ctx 1 none
  else
    .acquire l.store key burst l.settings.pace fun
      | .admitted remaining => next (ctx.mapResponse (l.markLimit remaining))
      | .rejected _ retry => .today fun date => l.reject key ctx retry (some (date + retry))

def middleware (l : Limiter) (sweeper : Option Nat) : Middleware :=
  { Middleware.plain l.name l.wrap with sweeper := sweeper }

end Limiter

end Switchboard
