import Switchboard.Service.Schedule

/-! What can be asked of a service: to be set up, to take routes, requests and deliveries, to
start and to stop. -/

namespace Switchboard

open RateLimit (Amount)
open Server

namespace Service

variable {R : Type} [Amount R]

def sweeperOf (l : Limiter) : Sweeper :=
  ⟨l.name, l.store, l.settings.cleanupInterval, l.settings.evictAfter, none⟩

/-- Starts a sweeper, anew if it is at work. One without a period is left as it is. -/
def startSweeper (s : Service R) (id : Nat) : Service R :=
  match s.sweepers[id]? with
  | none => s
  | some sweeper =>
    if sweeper.period.isZero then
      { s with world := s.world.report (.sweepingDisabled sweeper.name) }
    else
      let due := s.world.now + sweeper.period.nanos
      { s with
        sweepers := s.sweepers.setIfInBounds id { sweeper with next := some due }
      }.setTimer due (.sweeper id)

def stopSweeper (s : Service R) (id : Nat) : Service R :=
  { s with sweepers := s.sweepers.modify id ({ · with next := none }) }

/-- A service that has limiters with a store for each, and no front end. -/
def ofLimiters (date : Nat) (limiters : List Limiter) (stores : Nat) : Service R :=
  let s : Service R := fresh date
  { s with
    world := { s.world with stores := (List.replicate stores RateLimit.Store.empty).toArray }
    limiters := limiters
    sweepers := (limiters.map sweeperOf).toArray }

/-- A service around a registry, whose limiters are swept. -/
def ofSetup (date : Nat) (setup : Setup) : Service R :=
  let s := ofLimiters date setup.limiters setup.limiters.length
  setup.registry.sweepers.foldl startSweeper { s with registry := setup.registry }

def ofConfig (around : Surroundings) (date : Nat) (c : Config.Service) :
    Except SetupError (Service R) := do
  let setup ← Setup.ofConfig around c.middlewares
  let http ← c.http.mapM (HttpServer.ofConfig · setup.registry)
  let kafka ← c.kafka.mapM (Consumer.kafka · setup.registry)
  let amqp ← c.amqp.mapM (Consumer.amqp · setup.registry)
  pure
    { ofSetup date setup with
      http := http
      consumers := (kafka.toList ++ amqp.toList).toArray }

/-- Registers middleware. A limiter that no name leads to any more is not swept any more. -/
def register (s : Service R) (name : String) (m : Middleware) : Service R :=
  let registry := s.registry.register name m
  let gone := s.registry.sweepers.filter fun id => !registry.sweepers.contains id
  gone.foldl stopSweeper { s with registry := registry }

def stopMiddleware (s : Service R) : Service R :=
  let s := { s with world := s.world.write s.registry.stopLines }
  s.registry.sweepers.foldl stopSweeper s

def write (s : Service R) (lines : List String) : Service R :=
  { s with world := s.world.write lines }

def report (s : Service R) (event : Event) : Service R :=
  { s with world := s.world.report event }

/-- Evicts the idle buckets of a limiter now. -/
def sweep (s : Service R) (l : Limiter) : Service R × Nat :=
  let (world, removed) := s.world.evict l.store l.settings.evictAfter
  ({ s with world := world }, removed)

/-! ### HTTP -/

def pushRoute (s : Service R) (server : HttpServer) (method path : String) (handler : Handler)
    (names : List String) : Except SetupError (Service R) :=
  (server.push method path handler names).map fun (server, lines) =>
    ({ s with http := some server }.write lines).report
      (.routeRegistered server.config.name method path)

inductive Answer where
  | replied (reply : Reply) (time : Instant)
  | failed (fault : Fault)

def answerOf (s : Service R) (id : Nat) : Answer :=
  match s.stage? id with
  | some (.answered reply time) => .replied reply time
  | some (.ended (.failed fault) _) => .failed fault
  | _ => .failed .unsaid

/-- Serves one request to its end. -/
def request (s : Service R) (i : Incoming) : Service R × Answer :=
  let (s, id) := s.attend (.arriving i) (.request i false)
  (s, s.answerOf id)

def spawnRequests (s : Service R) : List Incoming → Service R × List Nat
  | [] => (s, [])
  | i :: rest =>
    let (s, id) := s.spawn (.arriving i) (.request i false)
    let (s, ids) := s.spawnRequests rest
    (s, id :: ids)

/-- Serves requests that come in at one time. -/
def requests (s : Service R) (incoming : List Incoming) : Service R × List Answer :=
  let (s, ids) := s.spawnRequests incoming
  let s := s.await fun s => ids.all (isOver · s)
  (s, ids.map s.answerOf)

/-! ### Consumers -/

def pushTopic (s : Service R) (consumer : Nat) (c : Consumer) (topic : String)
    (handler : Handler) (names : List String) : Except SetupError (Service R) :=
  (c.push topic handler names).map fun (c, lines) =>
    ((s.setConsumer consumer c).write lines).report
      (.routeRegistered c.name c.mode.method topic)

/-- Answers a delivery outside the intake, without a slot. -/
def handle (s : Service R) (consumer : Nat) (d : Delivery) : Service R × Outcome :=
  let (s, id) := s.attend (.unrouted d) (.delivery consumer none)
  match s.stage? id with
  | some (.ended outcome _) => (s, outcome)
  | _ => (s, .failed .unsaid)

def startConsumer (s : Service R) (consumer : Nat) (c : Consumer) (buffer : Nat) :
    Except SetupError (Service R) :=
  (c.start buffer).map fun c => (s.setConsumer consumer c).enqueue (.intake consumer)

/-- Lets an intake go on that waits for what has happened to its source. -/
def wakeReceiver (s : Service R) (consumer : Nat) (c : Consumer) : Service R :=
  if c.intake = .receiving then s.enqueue (.intake consumer) else s

def closeSource (s : Service R) (consumer : Nat) (c : Consumer) : Service R :=
  (s.setConsumer consumer c.closeSource).wakeReceiver consumer c

def canSend (consumer : Nat) (s : Service R) : Bool :=
  match s.consumers[consumer]? with
  | some c => !c.isReachable || c.hasRoom
  | none => true

/-- Sends deliveries one after the other, each as soon as there is room. Yields their numbers, and
whether all could be sent. -/
def sendAll (s : Service R) (consumer : Nat) : List Delivery → Service R × List Nat × Bool
  | [] => (s, [], true)
  | d :: rest =>
    let s := s.await (canSend consumer)
    match s.consumers[consumer]? with
    | none => (s, [], false)
    | some c =>
      if c.isReachable then
        let s := (s.setConsumer consumer (c.send d)).wakeReceiver consumer c
        let (s, numbers, sent) := s.sendAll consumer rest
        (s, c.deliveries.size :: numbers, sent)
      else (s, [], false)

def receiptOf (s : Service R) (consumer number : Nat) : Receipt :=
  ((s.consumers[consumer]?).bind (·.receipt? number)).getD .dropped

def isSettled (s : Service R) (consumer number : Nat) : Bool :=
  match s.receiptOf consumer number with
  | .pending => false
  | _ => true

/-- Waits for what becomes of deliveries. -/
def collect (s : Service R) (consumer : Nat) (numbers : List Nat) :
    Service R × List Receipt :=
  let s := s.await fun s => numbers.all (s.isSettled consumer)
  (s, numbers.map (s.receiptOf consumer))

def isIdle (consumer : Nat) (s : Service R) : Bool :=
  s.consumers[consumer]?.all (·.intake = .idle)

def isDrained (consumer : Nat) (s : Service R) : Bool :=
  s.consumers[consumer]?.all (·.isDrained)

/-- Claims all slots of a consumer, waits for them and gives them back. -/
def drain (s : Service R) (consumer : Nat) : Service R :=
  match s.consumers[consumer]? with
  | none => s
  | some c =>
    let s := (s.setConsumer consumer c.beginDrain).await (isDrained consumer)
    match s.consumers[consumer]? with
    | none => s
    | some c =>
      let (c, served) := c.endDrain
      (s.setConsumer consumer c).enqueueAll (served.filterMap (claimantAgent consumer))

/-- Ends the intake of a consumer and waits until no delivery is in work. -/
def stopConsumer (s : Service R) (consumer : Nat) : Service R :=
  match s.consumers[consumer]? with
  | none => s
  | some c =>
    let s :=
      if c.running then
        let s := s.setConsumer consumer c.signal
        let s := if c.intake = .idle then s else s.enqueue (.intake consumer)
        s.await (isIdle consumer)
      else s
    s.drain consumer

def stopHttp (s : Service R) : Service R :=
  { s with http := s.http.map (·.stop) }

/-- Stops the front ends one after the other, and then the middleware. -/
def shutdown (s : Service R) : Service R :=
  let s := s.stopHttp
  ((List.range s.consumers.size).foldl stopConsumer s).stopMiddleware

end Service

end Switchboard
