import Switchboard.Middleware

/-! Middleware that leaves the time a call took in the context. -/

namespace Switchboard.Middleware

def timing (name : String) : Middleware :=
  plain name fun next ctx =>
    .clock fun start =>
      (next ctx).andThen fun ctx =>
        .clock fun stop => .reply (ctx.set "request_time" (.duration ⟨stop - start⟩))

end Switchboard.Middleware
