import Switchboard.Registry
import Switchboard.Route.RouteTable

/-! A router composes the base chain and the chain of each route around its handler when the route
is pushed. -/

namespace Switchboard

open Route (RouteTable)

/-- A path may bind a name once. -/
def Route.check (path : String) : Except SetupError Unit :=
  match Route.repeatedName? [] (Route.pattern path) with
  | some name =>
    .error (.invalidRoute (path ++ ": parameter '" ++ name ++ "' appears more than once"))
  | none => .ok ()

structure Router where
  registry : Registry
  base : List Middleware
  table : RouteTable Handler

namespace Router

def empty (registry : Registry) (base : List Middleware) : Router :=
  ⟨registry, base, .empty⟩

/-- Routes that are pushed from now on have this base chain. -/
def withBase (r : Router) (names : List String) : Except SetupError Router :=
  (r.registry.resolve names).map ({ r with base := · })

/-- Composes the handler inside its own chain, and both inside the base chain. -/
def insert (r : Router) (path : String) (handler : Handler) (chain : List Middleware) :
    Router × List String :=
  let inner := Middleware.compose chain handler
  let outer := Middleware.compose r.base inner.handler
  ({ r with table := r.table.insert path outer.handler }, inner.lines ++ outer.lines)

/-- The router with one more route, and the lines that its composition wrote. -/
def push (r : Router) (path : String) (handler : Handler) (names : List String) :
    Except SetupError (Router × List String) := do
  Route.check path
  let chain ← r.registry.resolve names
  pure (r.insert path handler chain)

def find (r : Router) (path : String) : Option (Handler × Table String) :=
  r.table.find path

def count (r : Router) : Nat :=
  r.table.count

end Router

end Switchboard
