import Switchboard.SetupError
import Switchboard.Table

/-! The configuration of a service: how much is logged, the middleware by name, and the front
ends. -/

namespace Switchboard

inductive KeyStrategy where
  | ip
  | header
  | global
  | methodPath
  | ipMethodPath
deriving DecidableEq, Repr

def KeyStrategy.name : KeyStrategy → String
  | ip => "ip"
  | header => "header"
  | global => "global"
  | methodPath => "method_path"
  | ipMethodPath => "ip_method_path"

def KeyStrategy.all : List KeyStrategy :=
  [ip, header, global, methodPath, ipMethodPath]

def KeyStrategy.ofName? (name : String) : Option KeyStrategy :=
  all.find? (·.name == name)

namespace Config

structure RateLimit where
  requests : Option Nat
  interval : Option String
  burst : Option Nat
  keyStrategy : KeyStrategy
  headerName : Option String
  cleanupInterval : Option String
  evictAfter : Option String
deriving DecidableEq

def RateLimit.default : RateLimit := ⟨none, none, none, .ip, none, none, none⟩

structure Timeout where
  timeout : Option String
deriving DecidableEq

structure Cors where
  allowOrigins : List String
  allowMethods : List String
  allowHeaders : List String
  exposeHeaders : List String
  allowCredentials : Bool
  maxAge : Option Nat
deriving DecidableEq

def Cors.default : Cors := ⟨[], [], [], [], false, none⟩

structure Jwt where
  secret : Option String
  publicKeyPath : Option String
  ctxKey : Option String
deriving DecidableEq

def Jwt.default : Jwt := ⟨none, none, none⟩

inductive Middleware where
  | rateLimit (config : RateLimit)
  | timing
  | restore
  | timeout (config : Timeout)
  | cors (config : Cors)
  | jwt (config : Jwt)
deriving DecidableEq

structure Http where
  name : String
  addr : String
  baseMiddleware : List String
  maxInFlight : Nat
deriving DecidableEq

def Http.default : Http := ⟨"http", "0.0.0.0:8080", [], 1024⟩

structure Consumer where
  name : String
  queue : Option String
  /-- Without a list the consumer has the default chain. -/
  baseMiddleware : Option (List String)
  limitMessageCount : Nat
deriving DecidableEq

def Consumer.ofName (name : String) : Consumer := ⟨name, none, none, 64⟩

structure Service where
  level : String
  middlewares : Table Middleware
  http : Option Http
  kafka : Option Consumer
  amqp : Option Consumer

def defaultLevel : String := "info"

def Service.default : Service := ⟨defaultLevel, [], none, none, none⟩

/-- The paths of the key files that the middleware reads. -/
def Service.keyPaths (s : Service) : List String :=
  s.middlewares.filterMap fun (_, middleware) =>
    match middleware with
    | .jwt config => config.publicKeyPath
    | _ => none

/-- The most units that may be in work at one time. -/
def maxConcurrency : Nat := 4294967295

/-- A limit of zero stands for one. -/
def concurrencyLimit (owner field : String) (value : Nat) : Except SetupError Nat :=
  if maxConcurrency < value then
    .error (.config (owner ++ ": " ++ field ++ " must be at most " ++ toString maxConcurrency ++
      ", got " ++ toString value))
  else .ok (Nat.max value 1)

/-- The queue that a consumer is bound to. -/
def Consumer.boundQueue (c : Consumer) : Except SetupError String :=
  match c.queue with
  | some queue =>
    if queue.isEmpty then .error (.config ("amqp consumer '" ++ c.name ++ "' requires a queue"))
    else .ok queue
  | none => .error (.config ("amqp consumer '" ++ c.name ++ "' requires a queue"))

def Http.limit (h : Http) : Except SetupError Nat :=
  concurrencyLimit h.name "max_in_flight" h.maxInFlight

def Consumer.limit (c : Consumer) : Except SetupError Nat :=
  concurrencyLimit c.name "limit_message_count" c.limitMessageCount

/-- Every limit is in range, and the queue consumer has a queue. -/
def Service.validate (s : Service) : Except SetupError Unit := do
  if let some http := s.http then
    let _ ← http.limit
  if let some kafka := s.kafka then
    let _ ← kafka.limit
  if let some amqp := s.amqp then
    let _ ← amqp.limit
  if let some amqp := s.amqp then
    let _ ← amqp.boundQueue
  pure ()

end Config

end Switchboard
