import Switchboard.Call

/-! What calls act on, and how far a call gets before it has to wait. -/

namespace Switchboard

open RateLimit (Amount Store)

/-- The clock, the date, the stores of the rate limiters, and what has been written so far. -/
structure World (R : Type) where
  now : Instant
  date : Nat
  stores : Array (Store R)
  journal : Array String
  events : Array Event

/-- Where a call stands when it has to wait, or its end. -/
inductive Pause where
  | ended (outcome : Outcome)
  | asleep (span : Duration) (rest : Call)
  | racing (body : Call) (limit : Duration) (rest : Verdict → Call)

namespace World

variable {R : Type}

def fresh (date : Nat) : World R :=
  ⟨0, date, #[], #[], #[]⟩

def write (w : World R) (lines : List String) : World R :=
  { w with journal := w.journal ++ lines }

def report (w : World R) (event : Event) : World R :=
  { w with events := w.events.push event }

def storeAt (w : World R) (i : Nat) : Store R :=
  w.stores.getD i .empty

def setStore (w : World R) (i : Nat) (s : Store R) : World R :=
  { w with stores := w.stores.setIfInBounds i s }

/-- The panic of a call that would have to wait for longer than can be said. -/
def endlessWait : Fault :=
  .said "cannot convert float seconds to Duration: value is either too big or NaN"

def evict (w : World R) (store : Nat) (after : Duration) [Amount R] : World R × Nat :=
  let (s, removed) := (w.storeAt store).evict after w.now
  (w.setStore store s, removed)

end World

/-- Does the steps of a call up to the first that has to wait. A sleep of no length does not. -/
def Call.poll {R : Type} [Amount R] : Call → World R → Pause × World R
  | .reply ctx, w => (.ended (.replied ctx), w)
  | .panic fault, w => (.ended (.failed fault), w)
  | .journal line rest, w => rest.poll (w.write [line])
  | .report event rest, w => rest.poll (w.report event)
  | .clock rest, w => (rest w.now).poll w
  | .today rest, w => (rest w.date).poll w
  | .sleep span rest, w => if span.isZero then rest.poll w else (.asleep span rest, w)
  | .acquire store key capacity pace rest, w =>
    match (w.storeAt store).acquire key capacity (pace.rate R) w.now with
    | (s, some decision) => (rest decision).poll (w.setStore store s)
    | (s, none) => (.ended (.failed World.endlessWait), w.setStore store s)
  | .rescue body rest, w =>
    match body.poll w with
    | (.ended outcome, w) => (rest outcome).poll w
    | (.asleep span inner, w) => (.asleep span (.rescue inner rest), w)
    | (.racing body limit inner, w) =>
      (.racing body limit fun verdict => .rescue (inner verdict) rest, w)
  | .race body limit rest, w => (.racing body limit rest, w)

end Switchboard
