import Switchboard.Router

/-! One router for each method. A router keeps the base chain that was in force when its first
route was pushed. -/

namespace Switchboard

structure MethodRouter where
  registry : Registry
  base : List Middleware
  routers : Table Router

namespace MethodRouter

def empty (registry : Registry) : MethodRouter :=
  ⟨registry, [], []⟩

def withBase (r : MethodRouter) (names : List String) : Except SetupError MethodRouter :=
  (r.registry.resolve names).map ({ r with base := · })

/-- The router of a method in upper case, empty where there is none yet. -/
def routerOf (r : MethodRouter) (method : String) : Router :=
  (r.routers.get? method).getD (.empty r.registry r.base)

def push (r : MethodRouter) (method path : String) (handler : Handler) (names : List String) :
    Except SetupError (MethodRouter × List String) := do
  Route.check path
  let chain ← r.registry.resolve names
  let method := Text.upperAscii method
  let (router, lines) := (r.routerOf method).insert path handler chain
  pure ({ r with routers := r.routers.insert method router }, lines)

def find (r : MethodRouter) (method path : String) : Option (Handler × Table String) :=
  (r.routers.get? (Text.upperAscii method)).bind (·.find path)

def count (r : MethodRouter) : Nat :=
  r.routers.foldr (fun (_, router) count => router.count + count) 0

end MethodRouter

end Switchboard
