import Switchboard.Config
import Switchboard.Router
import Switchboard.Server.Dispatch
import Switchboard.Server.Gate
import Switchboard.Server.Stats

/-! The front end for messages. While it runs, an intake takes a slot, waits for a delivery, hands
both to a task and begins again. It ends when it is told to stop or its source is exhausted. -/

namespace Switchboard.Server

inductive Mode where
  /-- Deliveries are routed by their topic. -/
  | kafka
  /-- Deliveries are routed by the queue that the consumer is bound to. -/
  | amqp (queue : String)
deriving DecidableEq, Repr

structure Delivery where
  topic : String
  headers : Headers
  payload : Bytes
  source : Option String

def Mode.method : Mode → String
  | kafka => "KAFKA"
  | amqp _ => "AMQP"

def Mode.routeKey : Mode → Delivery → String
  | kafka, d => d.topic
  | amqp queue, _ => queue

def Mode.request (m : Mode) (d : Delivery) : Request :=
  ⟨m.method, m.routeKey d, d.headers, d.payload, d.source⟩

/-- What has become of a delivery that was sent. -/
inductive Receipt where
  | pending
  | replied (reply : Reply) (time : Instant)
  /-- Nobody is left who could reply. -/
  | dropped

/-- A channel of deliveries, by their numbers. -/
structure Source where
  buffer : Nat
  queue : List Nat
  /-- Whether more may come. -/
  isOpen : Bool

inductive Claimant where
  | intake
  | drain
deriving DecidableEq

inductive Intake where
  | idle
  | seeking
  | inLine
  /-- Holds a slot and waits for a delivery. -/
  | receiving
deriving DecidableEq

structure Consumer where
  name : String
  mode : Mode
  router : Router
  gate : Gate Claimant
  stats : Stats
  /-- Started, and not stopped since. -/
  running : Bool
  signalled : Bool
  intake : Intake
  source : Option Source
  /-- Every delivery that was sent, by its number. -/
  deliveries : Array (Delivery × Receipt)

namespace Consumer

def defaultBase (registry : Registry) : List String :=
  if registry.contains "timing" then ["timing"] else []

/-- The limit is looked at before the base chain is resolved. -/
def ofMode (config : Config.Consumer) (mode : Mode) (registry : Registry) :
    Except SetupError Consumer := do
  let limit ← config.limit
  let router ← (Router.empty registry []).withBase
    (config.baseMiddleware.getD (defaultBase registry))
  pure ⟨config.name, mode, router, .ofLimit limit, .zero, false, false, .idle, none, #[]⟩

def kafka (config : Config.Consumer) (registry : Registry) : Except SetupError Consumer :=
  ofMode config .kafka registry

def amqp (config : Config.Consumer) (registry : Registry) : Except SetupError Consumer := do
  let queue ← config.boundQueue
  ofMode config (.amqp queue) registry

def push (c : Consumer) (topic : String) (handler : Handler) (names : List String) :
    Except SetupError (Consumer × List String) :=
  (c.router.push topic handler names).map fun (router, lines) =>
    ({ c with router := router }, lines)

/-- The call that answers a delivery. -/
def process (c : Consumer) (d : Delivery) : Call :=
  dispatch (c.router.find (c.mode.routeKey d)) (.ofRequest (c.mode.request d))

/-- Begins to take deliveries from a fresh source with room for so many. -/
def start (c : Consumer) (buffer : Nat) : Except SetupError Consumer :=
  if c.running then .error (.server (c.name ++ " is already running"))
  else
    .ok
      { c with
        running := true
        signalled := false
        intake := .seeking
        source := some ⟨Nat.max buffer 1, [], true⟩ }

def signal (c : Consumer) : Consumer :=
  { c with running := false, signalled := true }

/-- Whether a delivery can be sent, now or later. -/
def isReachable (c : Consumer) : Bool :=
  c.source.any (·.isOpen)

def hasRoom (c : Consumer) : Bool :=
  c.source.all fun s => s.queue.length < s.buffer

/-- Puts a delivery into the source. -/
def send (c : Consumer) (d : Delivery) : Consumer :=
  { c with
    deliveries := c.deliveries.push (d, .pending)
    source := c.source.map fun s => { s with queue := s.queue ++ [c.deliveries.size] } }

/-- No more deliveries come. -/
def closeSource (c : Consumer) : Consumer :=
  { c with source := c.source.map ({ · with isOpen := false }) }

def settle (c : Consumer) (number : Nat) (receipt : Receipt) : Consumer :=
  { c with deliveries := c.deliveries.modify number fun d => (d.1, receipt) }

def delivery? (c : Consumer) (number : Nat) : Option Delivery :=
  (c.deliveries[number]?).map (·.1)

def receipt? (c : Consumer) (number : Nat) : Option Receipt :=
  (c.deliveries[number]?).map (·.2)

/-- Ends the intake. What is still in the source is dropped with it. -/
def endIntake (c : Consumer) : Consumer :=
  let left := (c.source.map (·.queue)).getD []
  { left.foldl (fun c n => c.settle n .dropped) c with intake := .idle, source := none }

def giveBack (c : Consumer) (count : Nat) : Consumer × List Claimant :=
  let (gate, served) := c.gate.give count
  ({ c with gate := gate }, served)

inductive Progress where
  | waits
  | goesOn
  /-- A delivery leaves with the slot. -/
  | takes (number : Nat)
  | ends (served : List Claimant)

/-- Gives the slot back and ends. -/
def quit (c : Consumer) : Consumer × Progress :=
  let (c, served) := c.giveBack 1
  (c.endIntake, .ends served)

/-- One step of the intake. The signal to stop goes before everything else. -/
def advance (c : Consumer) : Consumer × Progress :=
  match c.intake with
  | .idle => (c, .waits)
  | .seeking =>
    if c.signalled then (c.endIntake, .ends [])
    else
      match c.gate.take .intake 1 with
      | (gate, true) => ({ c with gate := gate, intake := .receiving }, .goesOn)
      | (gate, false) => ({ c with gate := gate, intake := .inLine }, .waits)
  | .inLine =>
    if c.gate.isWaiting .intake then
      if c.signalled then
        let (gate, served) := c.gate.leave .intake
        ({ c with gate := gate }.endIntake, .ends served)
      else (c, .waits)
    else if c.signalled then c.quit
    else ({ c with intake := .receiving }, .goesOn)
  | .receiving =>
    if c.signalled then c.quit
    else
      match c.source with
      | none => c.quit
      | some s =>
        match s.queue with
        | number :: rest =>
          ({ c with source := some { s with queue := rest }, intake := .seeking }, .takes number)
        | [] => if s.isOpen then (c, .waits) else c.quit

/-- Counts an answered delivery, and keeps the reply to one that was sent. -/
def answer (c : Consumer) (number : Option Nat) (r : Response) (now : Instant) : Consumer :=
  let c := { c with stats := c.stats.record r.status }
  match number with
  | some n => c.settle n (.replied ⟨r.status, r.headers, r.body⟩ now)
  | none => c

/-- Ends the work on a delivery. One that was sent gives its slot back, however its call ended. -/
def finish (c : Consumer) (number : Option Nat) (outcome : Outcome) (now : Instant) :
    Consumer × List Claimant :=
  let c :=
    match outcome, number with
    | .replied ctx, _ => c.answer number ctx.response now
    | .failed _, some n => c.settle n .dropped
    | .failed _, none => c
  match number with
  | some _ => c.giveBack 1
  | none => (c, [])

/-- Claims all slots, to wait until no work is left. -/
def beginDrain (c : Consumer) : Consumer :=
  { c with gate := (c.gate.take .drain c.gate.limit).1 }

def isDrained (c : Consumer) : Bool :=
  !c.gate.isWaiting .drain

def endDrain (c : Consumer) : Consumer × List Claimant :=
  c.giveBack c.gate.limit

end Consumer

end Switchboard.Server
