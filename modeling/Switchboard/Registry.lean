import Switchboard.Middleware.Auth
import Switchboard.Middleware.Cors
import Switchboard.Middleware.Deadline
import Switchboard.Middleware.Limiter
import Switchboard.Middleware.Restore
import Switchboard.Middleware.Timing

/-! Middleware by name. A chain is given by a list of names, each of which has to be known. -/

namespace Switchboard

structure Registry where
  entries : Table Middleware

namespace Registry

def empty : Registry := ⟨[]⟩

instance : Inhabited Registry := ⟨empty⟩

def get? (r : Registry) (name : String) : Option Middleware :=
  r.entries.get? name

def contains (r : Registry) (name : String) : Bool :=
  r.entries.contains name

def size (r : Registry) : Nat :=
  r.entries.length

/-- Registers middleware, in place of any that has the name. -/
def register (r : Registry) (name : String) (m : Middleware) : Registry :=
  ⟨r.entries.insert name m⟩

/-- The middleware of a list of names. The first name that is not known is the error. -/
def resolve (r : Registry) : List String → Except SetupError (List Middleware)
  | [] => .ok []
  | name :: rest =>
    match r.get? name with
    | none => .error (.middlewareNotFound name)
    | some m => (resolve r rest).map (m :: ·)

/-- The composition that a list of names stands for. -/
def chain (r : Registry) (names : List String) : Except SetupError (Handler → Composed) :=
  (r.resolve names).map Middleware.compose

def stopLines (r : Registry) : List String :=
  r.entries.flatMap (·.2.farewell)

def sweepers (r : Registry) : List Nat :=
  r.entries.filterMap (·.2.sweeper)

end Registry

/-- A registry with the limiters in it. The limiter at place `i` counts in the store `i` and is
cleaned up by the sweeper `i`. -/
structure Setup where
  registry : Registry
  limiters : List Limiter

namespace Setup

def empty : Setup := ⟨.empty, []⟩

/-- Adds what a configuration describes under a name. -/
def add (s : Setup) (around : Surroundings) (name : String) :
    Config.Middleware → Except SetupError Setup
  | .rateLimit c => do
    let settings ← RateLimit.Settings.ofConfig name c
    let limiter := Limiter.ofSettings name settings s.limiters.length
    pure
      { registry := s.registry.register name (limiter.middleware (some s.limiters.length))
        limiters := s.limiters ++ [limiter] }
  | .timing => .ok { s with registry := s.registry.register name (.timing name) }
  | .restore => .ok { s with registry := s.registry.register name (.restore name) }
  | .timeout c => do
    let limit ← Middleware.Deadline.ofConfig name c
    pure { s with registry := s.registry.register name (.deadline name limit) }
  | .cors c => do
    let policy ← Middleware.Cors.Policy.ofConfig name c
    pure { s with registry := s.registry.register name (.cors name policy) }
  | .jwt c => do
    let verifier ← Middleware.Auth.verifierOf around name c
    pure
      { s with
        registry := s.registry.register name
          (.auth name verifier (c.ctxKey.getD Middleware.Auth.defaultKey)) }

def addAll (s : Setup) (around : Surroundings) :
    List (String × Config.Middleware) → Except SetupError Setup
  | [] => .ok s
  | (name, config) :: rest => do
    let s ← s.add around name config
    s.addAll around rest

def ofConfig (around : Surroundings) (configs : Table Config.Middleware) :
    Except SetupError Setup :=
  empty.addAll around configs

def register (s : Setup) (name : String) (m : Middleware) : Setup :=
  { s with registry := s.registry.register name m }

end Setup

end Switchboard
