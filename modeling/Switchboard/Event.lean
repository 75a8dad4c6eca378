import Switchboard.Context

/-! What a service reports about its work, with the level, the message and the fields of each kind
of event. -/

namespace Switchboard

inductive Level where
  | debug
  | info
  | warn
  | error
deriving DecidableEq, Repr

def Level.rank : Level → Nat
  | debug => 0
  | info => 1
  | warn => 2
  | error => 3

def Level.name : Level → String
  | debug => "DEBUG"
  | info => "INFO"
  | warn => "WARN"
  | error => "ERROR"

inductive Event where
  | recovered (method route fault : String)
  | deadlineExceeded (middleware route : String) (timeout : Duration)
  | rateChecked (key route : String) (limited : Bool) (limit : Nat)
  | authenticationFailed (route reason : String)
  | headerSkipped (name : String)
  | deliveryHeaderSkipped (name : String)
  | sweepingDisabled (middleware : String)
  | bodyUnreadable (reason : String)
  | startup (component status : String) (detail : Option String)
  | routeRegistered (server method route : String)
  | metric (name : String) (value : Float) (unit context : String)

namespace Event

def level : Event → Level
  | recovered .. => .error
  | rateChecked _ _ limited _ => if limited then .warn else .debug
  | startup .. | routeRegistered .. | metric .. => .info
  | _ => .warn

def message : Event → String
  | recovered .. => "Recovered from panic in handler"
  | deadlineExceeded .. => "Handler deadline exceeded"
  | rateChecked _ _ limited _ =>
    if limited then "Rate limit exceeded" else "Rate limit check passed"
  | authenticationFailed .. => "Authentication failed"
  | headerSkipped _ => "Skipping invalid header"
  | deliveryHeaderSkipped _ => "Skipping invalid delivery header"
  | sweepingDisabled _ => "Cleanup interval is zero, idle buckets will not be swept"
  | bodyUnreadable _ => "Failed to read request body"
  | startup .. => "Startup"
  | routeRegistered .. => "Route registered"
  | metric .. => "Metric"

def fields : Event → List (String × Json)
  | recovered method route fault =>
    [("error", .str fault), ("method", .str method), ("route", .str route)]
  | deadlineExceeded middleware route timeout =>
    [("middleware", .str middleware), ("route", .str route), ("timeout", .str timeout.text)]
  | rateChecked key route _ limit =>
    [("key", .str key), ("limit", .ofNat limit), ("route", .str route)]
  | authenticationFailed route reason => [("reason", .str reason), ("route", .str route)]
  | headerSkipped name => [("header", .str name)]
  | deliveryHeaderSkipped name => [("header", .str name)]
  | sweepingDisabled middleware => [("middleware", .str middleware)]
  | bodyUnreadable reason => [("error", .str reason)]
  | startup component status detail =>
    [("component", .str component)] ++
      (match detail with
        | some d => [("detail", .str d)]
        | none => []) ++ [("status", .str status)]
  | routeRegistered server method route =>
    [("method", .str method), ("route", .str route), ("server", .str server)]
  | metric name value unit context =>
    [("context", .str context), ("metric", .str name), ("unit", .str unit),
      ("value", .float value)]

/-- Warnings and errors are kept by every service. -/
def isAlarm (e : Event) : Bool :=
  Level.warn.rank ≤ e.level.rank

def toJson (e : Event) : Json :=
  .obj [("fields", .obj e.fields), ("level", .str e.level.name), ("message", .str e.message)]

end Event

end Switchboard
