import Switchboard.Service.Basic

/-! What the tasks, the intakes and the sweepers of a service do when it is their turn. -/

namespace Switchboard

open RateLimit (Amount)
open Server

namespace Service

variable {R : Type} [Amount R]

/-- Lets a task do what it can on a call. -/
def proceed (s : Service R) (id : Nat) (call : Call) : Service R :=
  let (pause, world) := call.poll s.world
  let s := { s with world := world }
  match pause with
  | .ended outcome => s.finish id outcome
  | .asleep span rest =>
    let due := world.now + span.nanos
    (s.setStage id (.asleep due rest)).setTimer due (.task id)
  | .racing body limit rest =>
    let (s, child) := s.spawn (.ready body) (.parent id)
    let deadline := world.now + limit.nanos
    (s.setStage id (.racing child deadline rest)).setTimer deadline (.task id)

/-- Serves a request that has a slot. -/
def serve (s : Service R) (id : Nat) (i : Incoming) : Service R :=
  match s.http with
  | none => s
  | some server =>
    match i.body with
    | none =>
      let (server, reply) := server.refuse
      let s := { s with
        http := some server
        world := s.world.report (.bodyUnreadable "error reading a body from connection") }
      (s.setStage id (.answered (Http.stamp i reply) s.world.now)).leaveGate
    | some body =>
      let route := server.route i
      (s.setOwner id (.request i route.isSome)).proceed id
        (dispatch route (.ofRequest (i.request body)))

/-- How a race stands. A body that has ended counts even at the deadline. -/
def verdict? (s : Service R) (child : Nat) (deadline : Instant) : Option Verdict :=
  match s.stage? child with
  | some (.ended outcome _) => some (.ended outcome)
  | _ => if deadline ≤ s.world.now then some .late else none

def runTask (s : Service R) (id : Nat) : Service R :=
  match s.stage? id with
  | some (.arriving i) =>
    match s.http with
    | none => s
    | some server =>
      match server.gate.take id 1 with
      | (gate, true) => { s with http := some { server with gate := gate } }.serve id i
      | (gate, false) =>
        { s with http := some { server with gate := gate } }.setStage id (.inLine i)
  | some (.inLine i) =>
    if s.http.any (·.gate.isWaiting id) then s else s.serve id i
  | some (.unrouted delivery) =>
    match s.owner? id with
    | some (.delivery consumer _) =>
      match s.consumers[consumer]? with
      | some c => s.proceed id (c.process delivery)
      | none => s
    | _ => s
  | some (.ready call) => s.proceed id call
  | some (.asleep due rest) => if due ≤ s.world.now then s.proceed id rest else s
  | some (.racing child deadline rest) =>
    match s.verdict? child deadline with
    | some verdict => s.proceed id (rest verdict)
    | none => s
  | _ => s

/-- One step of the intake of a consumer. It keeps its turn while it can go on. -/
def runIntake (s : Service R) (consumer : Nat) : Service R :=
  match s.consumers[consumer]? with
  | none => s
  | some c =>
    let (c, progress) := c.advance
    let s := s.setConsumer consumer c
    match progress with
    | .waits => s
    | .goesOn => { s with queue := .intake consumer :: s.queue }
    | .takes number =>
      match c.delivery? number with
      | some delivery =>
        let (s, _) := s.spawn (.unrouted delivery) (.delivery consumer (some number))
        { s with queue := .intake consumer :: s.queue }
      | none => s
    | .ends served => s.enqueueAll (served.filterMap (claimantAgent consumer))

def runSweeper (s : Service R) (id : Nat) : Service R :=
  match s.sweepers[id]? with
  | none => s
  | some sweeper =>
    match sweeper.next with
    | none => s
    | some due =>
      if s.world.now < due then s
      else
        let (world, _) := s.world.evict sweeper.store sweeper.evictAfter
        let buckets := (world.storeAt sweeper.store).active
        let world := world.report
          (.metric "rate_limit_buckets" (Double.ofNat buckets) "count" sweeper.name)
        let next := due + sweeper.period.nanos
        { s with
          world := world
          sweepers := s.sweepers.setIfInBounds id { sweeper with next := some next }
        }.setTimer next (.sweeper id)

def run (s : Service R) : Agent → Service R
  | .task id => s.runTask id
  | .intake consumer => s.runIntake consumer
  | .sweeper id => s.runSweeper id

end Service

end Switchboard
