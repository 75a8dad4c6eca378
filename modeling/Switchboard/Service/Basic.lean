import Switchboard.Server.Consumer
import Switchboard.Server.Http
import Switchboard.World

/-! A service at work: its front ends, its rate limiters, and the tasks that run in turn on one
thread. Time passes only while every task waits, and then goes to the next point at which one of
them goes on. -/

namespace Switchboard

open RateLimit (Amount)
open Server

/-- What the end of a task is for. -/
inductive Owner where
  | nobody
  /-- A task that races this one against a deadline. -/
  | parent (task : Nat)
  /-- A request over HTTP, and whether it has found a route. -/
  | request (incoming : Incoming) (found : Bool)
  /-- A delivery to a consumer, with its number if it was sent and holds a slot. -/
  | delivery (consumer : Nat) (number : Option Nat)

inductive Stage where
  /-- Has not yet asked for a slot. -/
  | arriving (incoming : Incoming)
  /-- Waits for a slot. -/
  | inLine (incoming : Incoming)
  /-- Has not yet been routed. -/
  | unrouted (delivery : Delivery)
  | ready (call : Call)
  | asleep (due : Instant) (rest : Call)
  | racing (child : Nat) (deadline : Instant) (rest : Verdict → Call)
  | ended (outcome : Outcome) (time : Instant)
  | answered (reply : Reply) (time : Instant)

structure Task where
  stage : Stage
  owner : Owner

inductive Agent where
  | task (id : Nat)
  | intake (consumer : Nat)
  | sweeper (id : Nat)
deriving DecidableEq

/-- Evicts idle buckets from a store at equal intervals while it is scheduled. -/
structure Sweeper where
  name : String
  store : Nat
  period : Duration
  evictAfter : Duration
  next : Option Instant

structure Service (R : Type) where
  world : World R
  registry : Registry
  limiters : List Limiter
  sweepers : Array Sweeper
  http : Option HttpServer
  consumers : Array Consumer
  tasks : Array Task
  /-- Who goes on now, in turn. -/
  queue : List Agent
  /-- Who goes on later, in order of time. -/
  timers : List (Instant × Agent)
  /-- The task that goes on only when nobody else can, and whether it is its turn. -/
  foreground : Option Nat
  resumed : Bool

namespace Service

variable {R : Type}

def fresh (date : Nat) : Service R :=
  ⟨.fresh date, .empty, [], #[], none, #[], #[], [], [], none, false⟩

def enqueue (s : Service R) (agent : Agent) : Service R :=
  if s.foreground.map Agent.task = some agent then { s with resumed := true }
  else if s.queue.contains agent then s
  else { s with queue := s.queue ++ [agent] }

def enqueueAll (s : Service R) (agents : List Agent) : Service R :=
  agents.foldl enqueue s

/-- Among timers of one time the earlier set goes first. -/
def insertTimer (due : Instant) (agent : Agent) :
    List (Instant × Agent) → List (Instant × Agent)
  | [] => [(due, agent)]
  | t :: rest =>
    if due < t.1 then (due, agent) :: t :: rest else t :: insertTimer due agent rest

def setTimer (s : Service R) (due : Instant) (agent : Agent) : Service R :=
  { s with timers := insertTimer due agent s.timers }

def setStage (s : Service R) (id : Nat) (stage : Stage) : Service R :=
  { s with tasks := s.tasks.modify id ({ · with stage := stage }) }

def setOwner (s : Service R) (id : Nat) (owner : Owner) : Service R :=
  { s with tasks := s.tasks.modify id ({ · with owner := owner }) }

def stage? (s : Service R) (id : Nat) : Option Stage :=
  (s.tasks[id]?).map (·.stage)

def owner? (s : Service R) (id : Nat) : Option Owner :=
  (s.tasks[id]?).map (·.owner)

/-- A task that has not begun, and is in nobody's turn yet. -/
def addTask (s : Service R) (stage : Stage) (owner : Owner) : Service R × Nat :=
  ({ s with tasks := s.tasks.push ⟨stage, owner⟩ }, s.tasks.size)

/-- A task that begins when its turn comes. -/
def spawn (s : Service R) (stage : Stage) (owner : Owner) : Service R × Nat :=
  let (s, id) := s.addTask stage owner
  (s.enqueue (.task id), id)

def setConsumer (s : Service R) (i : Nat) (c : Consumer) : Service R :=
  { s with consumers := s.consumers.setIfInBounds i c }

def claimantAgent (consumer : Nat) : Claimant → Option Agent
  | .intake => some (.intake consumer)
  | .drain => none

/-- Gives back the slot of a request and lets the next in line go on. -/
def leaveGate (s : Service R) : Service R :=
  match s.http with
  | none => s
  | some server =>
    let (gate, served) := server.gate.give 1
    { s with http := some { server with gate := gate } }.enqueueAll (served.map Agent.task)

/-- Whether a task is racing another one. -/
def isRacing (s : Service R) (parent child : Nat) : Bool :=
  match s.stage? parent with
  | some (.racing c _ _) => c == child
  | _ => false

/-- The end of a task, as its owner needs it. -/
def finish (s : Service R) (id : Nat) (outcome : Outcome) : Service R :=
  let now := s.world.now
  let ended := s.setStage id (.ended outcome now)
  match s.owner? id with
  | some (.parent parent) =>
    if s.isRacing parent id then ended.enqueue (.task parent) else ended
  | some (.request incoming found) =>
    match outcome, s.http with
    | .replied ctx, some server =>
      let (server, reply) := server.answer found ctx.response
      let answered := Stage.answered (Http.stamp incoming reply) now
      ({ s with http := some server }.setStage id answered).leaveGate
    | _, _ => ended.leaveGate
  | some (.delivery consumer number) =>
    match s.consumers[consumer]? with
    | some c =>
      let (c, served) := c.finish number outcome now
      (ended.setConsumer consumer c).enqueueAll (served.filterMap (claimantAgent consumer))
    | none => ended
  | _ => ended

end Service

end Switchboard
