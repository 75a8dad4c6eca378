import Switchboard.Table
import Switchboard.Route.Segment

/-! A trie of route patterns in an arena of nodes. Literal segments share their nodes, a dynamic
segment always opens a node of its own. A search tries the literal child first and then the
dynamic ones in the order of their registration, and goes back where a branch ends in nothing. -/

namespace Switchboard.Route

structure Node (α : Type) where
  literals : Table Nat
  dynamics : List (String × Nat)
  handler : Option α

structure Trie (α : Type) where
  nodes : Array (Node α)
  routes : Nat

namespace Trie

variable {α : Type}

def empty : Trie α :=
  ⟨#[Node.mk [] [] none], 0⟩

def nodeCount (t : Trie α) : Nat :=
  t.nodes.size

/-- Adds an empty node as the last one. -/
def grow (t : Trie α) : Trie α :=
  { t with nodes := t.nodes.push (Node.mk [] [] none) }

/-- The child to follow for a segment, opened where it is missing. -/
def descend (t : Trie α) (current : Nat) : Segment → Nat × Trie α
  | .literal text =>
    match (t.nodes[current]?).bind (·.literals.get? text) with
    | some child => (child, t)
    | none =>
      let child := t.nodes.size
      (child, { t.grow with nodes := t.grow.nodes.modify current fun node =>
        { node with literals := node.literals.insert text child } })
  | .dynamic name =>
    let child := t.nodes.size
    (child, { t.grow with nodes := t.grow.nodes.modify current fun node =>
      { node with dynamics := node.dynamics ++ [(name, child)] } })

/-- Sets the handler of a node. A node that had none is one more route. -/
def assign (t : Trie α) (index : Nat) (handler : α) : Trie α :=
  { nodes := t.nodes.modify index fun node => { node with handler := some handler }
    routes := if ((t.nodes[index]?).bind (·.handler)).isSome then t.routes else t.routes + 1 }

def insertFrom (t : Trie α) (current : Nat) (handler : α) : List Segment → Trie α
  | [] => t.assign current handler
  | segment :: rest =>
    let (child, grown) := t.descend current segment
    grown.insertFrom child handler rest

def insert (t : Trie α) (pattern : List Segment) (handler : α) : Trie α :=
  t.insertFrom 0 handler pattern

/-- The handler found below a node, with the names bound on the way. -/
def walk (t : Trie α) (index : Nat) : List String → Option (α × List (String × String))
  | [] => (t.nodes[index]?).bind fun node => node.handler.map (·, [])
  | segment :: rest =>
    (t.nodes[index]?).bind fun node =>
      ((node.literals.get? segment).bind fun child => t.walk child rest) <|>
        node.dynamics.findSome? fun (name, child) =>
          (t.walk child rest).map fun (handler, bound) => (handler, (name, segment) :: bound)

/-- Of two bindings of one name the later counts. -/
def find (t : Trie α) (path : List String) : Option (α × Table String) :=
  (t.walk 0 path).map fun (handler, bound) => (handler, Table.ofList bound)

end Trie

end Switchboard.Route
