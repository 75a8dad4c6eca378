import Switchboard.Middleware
import Switchboard.Rejection

/-! Middleware that answers for a call that panics. -/

namespace Switchboard.Middleware

/-- The answer is written on the context as it came in. -/
def restore (name : String) : Middleware :=
  plain name fun next ctx =>
    .rescue (next ctx) fun
      | .replied inner => .reply inner
      | .failed fault =>
        .report (.recovered ctx.request.method ctx.request.path fault.text)
          (.reply (ctx.mapResponse Rejection.internal.writeTo))

end Switchboard.Middleware
