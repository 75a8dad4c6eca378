import Switchboard.Service.Tasks

/-! The order in which a service does its work: everybody whose turn it is, then the task in the
foreground, and then, when all wait, whoever is due next. -/

namespace Switchboard

open RateLimit (Amount)
open Server

namespace Service

variable {R : Type} [Amount R]

/-- Goes to a later time and wakes those whose timers are due by then. -/
def advanceTo (s : Service R) (time : Instant) : Service R :=
  let due := s.timers.takeWhile (fun t => t.1 ≤ time)
  let later := s.timers.dropWhile (fun t => t.1 ≤ time)
  let s := { s with world := { s.world with now := time }, timers := later }
  s.enqueueAll (due.map (·.2))

/-- Lets everybody go on until the goal is reached and all others wait, or nothing can happen. -/
def drive (goal : Service R → Bool) : Nat → Service R → Service R
  | 0, s => s
  | fuel + 1, s =>
    match s.queue with
    | agent :: rest => drive goal fuel ({ s with queue := rest }.run agent)
    | [] =>
      if s.resumed then
        match s.foreground with
        | some id => drive goal fuel ({ s with resumed := false }.runTask id)
        | none => drive goal fuel { s with resumed := false }
      else if goal s then s
      else
        match s.timers with
        | [] => s
        | (time, _) :: _ => drive goal fuel (s.advanceTo time)

/-- More steps than any run takes. -/
def patience : Nat := 1000000000000000

def isOver (id : Nat) (s : Service R) : Bool :=
  match s.stage? id with
  | some (.ended _ _) => true
  | some (.answered _ _) => true
  | _ => false

/-- Runs a task at once, and lets the others go on only while it waits. -/
def attend (s : Service R) (stage : Stage) (owner : Owner) : Service R × Nat :=
  let (s, id) := s.addTask stage owner
  let s := { s with foreground := some id }.runTask id
  let s := if isOver id s then s else drive (isOver id) patience s
  ({ s with foreground := none, resumed := false }, id)

/-- Waits for a goal that may be reached already. -/
def await (s : Service R) (goal : Service R → Bool) : Service R :=
  if goal s then s else drive goal patience s

/-- Runs a call to its end. -/
def call (s : Service R) (c : Call) : Service R × Outcome :=
  let (s, id) := s.attend (.ready c) .nobody
  match s.stage? id with
  | some (.ended outcome _) => (s, outcome)
  | _ => (s, .failed .unsaid)

/-- Lets time pass. What is due at the end of it still happens. -/
def sleep (s : Service R) (span : Duration) : Service R :=
  let target := s.world.now + span.nanos
  let s := drive (fun s => s.timers.all (target < ·.1)) patience s
  drive (fun _ => true) patience (s.advanceTo target)

/-- Lets the time pass that separates the service from a point in time, and sets the date. -/
def catchUp (s : Service R) (now : Instant) (date : Nat) : Service R :=
  let s := s.sleep ⟨now - s.world.now⟩
  { s with world := { s.world with date := date } }

end Service

end Switchboard
