import Switchboard.Script

/-! Middleware wraps a handler into another one. A chain is composed from its inner end, and each
composition may write lines of its own. -/

namespace Switchboard

/-- A handler, and the lines that were written while it was composed. -/
structure Composed where
  handler : Handler
  lines : List String

structure Middleware where
  name : String
  invoke : Handler → Composed
  /-- The lines written when the middleware stops. -/
  farewell : List String
  /-- The number of the sweeper that stops with it. -/
  sweeper : Option Nat

namespace Middleware

/-- Middleware that is composed in silence and has nothing to stop. -/
def plain (name : String) (wrap : Handler → Handler) : Middleware :=
  ⟨name, fun next => ⟨wrap next, []⟩, [], none⟩

/-- The first of a chain is the outermost. -/
def compose : List Middleware → Handler → Composed
  | [], handler => ⟨handler, []⟩
  | m :: chain, handler =>
    let inner := compose chain handler
    let outer := m.invoke inner.handler
    ⟨outer.handler, inner.lines ++ outer.lines⟩

/-- Middleware written down as scripts before and after the call, with a line at every stage.
With `skip` it answers in place of what it wraps. -/
def scripted (name : String) (before after : Script) (skip : Bool) : Middleware :=
  { name := name
    invoke := fun next =>
      { handler := fun ctx =>
          .journal (name ++ ":in") <| Script.run before ctx fun ctx =>
            (if skip then .reply ctx else next ctx).andThen fun ctx =>
              Script.run after ctx fun ctx => .journal (name ++ ":out") (.reply ctx)
        lines := [name ++ ":compose"] }
    farewell := [name ++ ":stop"]
    sweeper := none }

end Middleware

end Switchboard
