import Switchboard.Route.Path
import Switchboard.Route.Trie

/-! Routes by path. A route without dynamic segments goes before one with them, and both go before
the route for every path. -/

namespace Switchboard.Route

structure RouteTable (α : Type) where
  statics : Table α
  trie : Trie α
  wildcard : Option α

namespace RouteTable

variable {α : Type}

def empty : RouteTable α :=
  ⟨[], .empty, none⟩

/-- Of two static routes with one normal form the later stands. -/
def insert (t : RouteTable α) (path : String) (handler : α) : RouteTable α :=
  if isWildcard path then { t with wildcard := some handler }
  else
    let segments := pattern path
    if segments.any (·.isDynamic) then { t with trie := t.trie.insert segments handler }
    else { t with statics := t.statics.insert (normalize path) handler }

def find (t : RouteTable α) (path : String) : Option (α × Table String) :=
  match t.statics.get? (normalize path) with
  | some handler => some (handler, [])
  | none =>
    match t.trie.find (split (normalize path)) with
    | some found => some found
    | none => t.wildcard.map (·, [])

def count (t : RouteTable α) : Nat :=
  t.statics.length + t.trie.routes + (if t.wildcard.isSome then 1 else 0)

end RouteTable

end Switchboard.Route
