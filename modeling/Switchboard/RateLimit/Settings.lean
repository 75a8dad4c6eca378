import Switchboard.Call
import Switchboard.Config

/-! What a rate limiter admits, by which key it counts, and when it forgets a key. -/

namespace Switchboard.RateLimit

structure Settings where
  requests : Nat
  interval : Duration
  burst : Nat
  keyStrategy : KeyStrategy
  headerName : Option String
  cleanupInterval : Duration
  evictAfter : Duration
deriving DecidableEq

namespace Settings

def default : Settings :=
  ⟨60, .ofSeconds 60, 60, .ip, none, .ofSeconds 60, .ofSeconds 900⟩

def ofPace (requests : Nat) (interval : Duration) : Settings :=
  { default with requests := requests, interval := interval, burst := Nat.max requests 1 }

/-- A burst of zero stands for the number of requests. -/
def withBurst (s : Settings) (burst : Nat) : Settings :=
  { s with burst := if burst == 0 then Nat.max s.requests 1 else burst }

def pace (s : Settings) : Pace :=
  ⟨s.requests, s.interval⟩

def durationOf (name field : String) (value : Option String) (default : Duration) :
    Except SetupError Duration :=
  match value with
  | none => .ok default
  | some raw =>
    match Duration.parse raw with
    | .ok d => .ok d
    | .error e =>
      .error (.invalidMiddleware name (field ++ ": '" ++ raw ++ "': " ++ e.message))

def orDefault (d default : Duration) : Duration :=
  if d.isZero then default else d

/-- The settings of a configuration. A span of no length between clean-ups or before eviction
stands for the default. -/
def ofConfig (name : String) (c : Config.RateLimit) : Except SetupError Settings := do
  let requests := c.requests.getD default.requests
  let interval ← durationOf name "interval" c.interval default.interval
  let cleanup ← durationOf name "cleanup_interval" c.cleanupInterval default.cleanupInterval
  let evict ← durationOf name "evict_after" c.evictAfter default.evictAfter
  if c.keyStrategy = .header ∧ (c.headerName.getD "").isEmpty then
    .error (.invalidMiddleware name "key_strategy 'header' requires header_name")
  else
    .ok
      { requests := requests
        interval := interval
        burst := (c.burst.filter (0 < ·)).getD (Nat.max requests 1)
        keyStrategy := c.keyStrategy
        headerName := c.headerName
        cleanupInterval := orDefault cleanup default.cleanupInterval
        evictAfter := orDefault evict default.evictAfter }

/-- Stands for a source or a header value that is not there. -/
def unknown : String := "unknown"

/-- The key that a request is counted by. -/
def key (s : Settings) (r : Request) : String :=
  let source := r.remote.getD unknown
  match s.keyStrategy with
  | .global => "global"
  | .header =>
    let value := (s.headerName.bind r.header?).filter (!·.isEmpty)
    "header:" ++ value.getD unknown
  | .methodPath => r.method ++ " " ++ r.path
  | .ipMethodPath => source ++ " " ++ r.method ++ " " ++ r.path
  | .ip => source

def keyFor (s : Settings) (ctx : Context) : String × Nat :=
  (s.key ctx.request, s.burst)

end Settings

end Switchboard.RateLimit
