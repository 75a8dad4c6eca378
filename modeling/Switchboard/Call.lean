import Switchboard.Event
import Switchboard.RateLimit.Store

/-! Handlers. A call is what a handler does on a context, step by step: each step says what it
asks of its surroundings and how it goes on with the answer. -/

namespace Switchboard

/-- What a call panics with. -/
inductive Fault where
  | said (text : String)
  | unsaid
deriving DecidableEq, Repr

/-- How a call ends. -/
inductive Outcome where
  | replied (ctx : Context)
  | failed (fault : Fault)

/-- How a race against a deadline ends. -/
inductive Verdict where
  | ended (outcome : Outcome)
  | late

/-- So many requests in so much time. -/
structure Pace where
  requests : Nat
  interval : Duration
deriving DecidableEq, Repr

inductive Call where
  | reply (ctx : Context)
  | panic (fault : Fault)
  | journal (line : String) (rest : Call)
  | report (event : Event) (rest : Call)
  | clock (rest : Instant → Call)
  /-- The date, in seconds since 1970. -/
  | today (rest : Nat → Call)
  | sleep (span : Duration) (rest : Call)
  | acquire (store : Nat) (key : String) (capacity : Nat) (pace : Pace)
      (rest : RateLimit.Decision → Call)
  /-- Goes on with the outcome of a body that may fail. -/
  | rescue (body : Call) (rest : Outcome → Call)
  /-- Runs a body as a task of its own and goes on when it has ended or the time is over. -/
  | race (body : Call) (limit : Duration) (rest : Verdict → Call)

abbrev Handler := Context → Call

namespace Call

/-- Goes on with the context that a call replies with. -/
def andThen : Call → (Context → Call) → Call
  | reply ctx, next => next ctx
  | panic fault, _ => panic fault
  | journal line rest, next => journal line (rest.andThen next)
  | report event rest, next => report event (rest.andThen next)
  | clock rest, next => clock fun now => (rest now).andThen next
  | today rest, next => today fun date => (rest date).andThen next
  | sleep span rest, next => sleep span (rest.andThen next)
  | acquire store key capacity pace rest, next =>
    acquire store key capacity pace fun decision => (rest decision).andThen next
  | rescue body rest, next => rescue body fun outcome => (rest outcome).andThen next
  | race body limit rest, next => race body limit fun verdict => (rest verdict).andThen next

def ofOutcome : Outcome → Call
  | .replied ctx => reply ctx
  | .failed fault => panic fault

end Call

def Fault.text : Fault → String
  | said text => text
  | unsaid => "unknown panic"

/-- Requests by seconds. An interval of no length admits nobody. -/
def Pace.rate (R : Type) [RateLimit.Amount R] (p : Pace) : R :=
  if p.interval.isZero then RateLimit.Amount.ofNat 0
  else RateLimit.Amount.ofNat p.requests / RateLimit.Amount.ofDuration p.interval

/-- A pace without requests or without time lets nothing through. -/
def Pace.isDegenerate (p : Pace) : Bool :=
  p.interval.isZero || p.requests == 0

end Switchboard
