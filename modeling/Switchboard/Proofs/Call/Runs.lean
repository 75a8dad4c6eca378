import Switchboard.World

/-! Runs of calls: what a call asks of its surroundings up to its end, with the answers it gets. -/

namespace Switchboard

open RateLimit (Amount Decision)

inductive Exchange where
  | journal (line : String)
  | report (event : Event)
  | clock (now : Instant)
  | today (date : Nat)
  | sleep (span : Duration)
  | acquire (store : Nat) (key : String) (capacity : Nat) (pace : Pace) (answer : Option Decision)
  /-- A body that has not ended in time runs on by itself. -/
  | abandon (body : Call) (limit : Duration)

namespace Call

/-- How a call may go: its exchanges in their order, and its end. -/
inductive Runs : Call → List Exchange → Outcome → Prop
  | reply (ctx : Context) : Runs (.reply ctx) [] (.replied ctx)
  | panic (fault : Fault) : Runs (.panic fault) [] (.failed fault)
  | journal {line : String} {rest : Call} {trace : List Exchange} {outcome : Outcome}
    (h : Runs rest trace outcome) : Runs (.journal line rest) (.journal line :: trace) outcome
  | report {event : Event} {rest : Call} {trace : List Exchange} {outcome : Outcome}
    (h : Runs rest trace outcome) : Runs (.report event rest) (.report event :: trace) outcome
  | clock {rest : Instant → Call} {now : Instant} {trace : List Exchange} {outcome : Outcome}
    (h : Runs (rest now) trace outcome) : Runs (.clock rest) (.clock now :: trace) outcome
  | today {rest : Nat → Call} {date : Nat} {trace : List Exchange} {outcome : Outcome}
    (h : Runs (rest date) trace outcome) : Runs (.today rest) (.today date :: trace) outcome
  | sleep {span : Duration} {rest : Call} {trace : List Exchange} {outcome : Outcome}
    (h : Runs rest trace outcome) : Runs (.sleep span rest) (.sleep span :: trace) outcome
  | acquire {store : Nat} {key : String} {capacity : Nat} {pace : Pace}
    {rest : Decision → Call} {decision : Decision} {trace : List Exchange} {outcome : Outcome}
    (h : Runs (rest decision) trace outcome) :
    Runs (.acquire store key capacity pace rest)
      (.acquire store key capacity pace (some decision) :: trace) outcome
  | stuck (store : Nat) (key : String) (capacity : Nat) (pace : Pace) (rest : Decision → Call) :
    Runs (.acquire store key capacity pace rest) [.acquire store key capacity pace none]
      (.failed World.endlessWait)
  | rescue {body : Call} {rest : Outcome → Call} {inner trace : List Exchange}
    {ended outcome : Outcome} (hb : Runs body inner ended) (h : Runs (rest ended) trace outcome) :
    Runs (.rescue body rest) (inner ++ trace) outcome
  | inTime {body : Call} {limit : Duration} {rest : Verdict → Call} {inner trace : List Exchange}
    {ended outcome : Outcome} (hb : Runs body inner ended)
    (h : Runs (rest (.ended ended)) trace outcome) :
    Runs (.race body limit rest) (inner ++ trace) outcome
  | late {body : Call} {limit : Duration} {rest : Verdict → Call} {trace : List Exchange}
    {outcome : Outcome} (h : Runs (rest .late) trace outcome) :
    Runs (.race body limit rest) (.abandon body limit :: trace) outcome

variable {trace : List Exchange} {outcome : Outcome}

theorem runs_reply_iff {ctx : Context} :
    (reply ctx).Runs trace outcome ↔ trace = [] ∧ outcome = .replied ctx := by
  constructor
  · intro h
    cases h
    exact ⟨rfl, rfl⟩
  · rintro ⟨rfl, rfl⟩
    exact .reply ctx

theorem runs_journal_iff {line : String} {rest : Call} :
    (journal line rest).Runs trace outcome ↔
      ∃ tail, trace = .journal line :: tail ∧ rest.Runs tail outcome := by
  constructor
  · intro h
    cases h with
    | journal h => exact ⟨_, rfl, h⟩
  · rintro ⟨tail, rfl, h⟩
    exact .journal h

theorem runs_clock_iff {rest : Instant → Call} :
    (clock rest).Runs trace outcome ↔
      ∃ now tail, trace = .clock now :: tail ∧ (rest now).Runs tail outcome := by
  constructor
  · intro h
    cases h with
    | clock h => exact ⟨_, _, rfl, h⟩
  · rintro ⟨now, tail, rfl, h⟩
    exact .clock h

theorem runs_rescue_iff {body : Call} {rest : Outcome → Call} :
    (rescue body rest).Runs trace outcome ↔
      ∃ inner ended tail, body.Runs inner ended ∧ (rest ended).Runs tail outcome ∧
        trace = inner ++ tail := by
  constructor
  · intro h
    cases h with
    | rescue hb h => exact ⟨_, _, _, hb, h, rfl⟩
  · rintro ⟨inner, ended, tail, hb, h, rfl⟩
    exact .rescue hb h

theorem runs_ofOutcome_iff {ended : Outcome} :
    (ofOutcome ended).Runs trace outcome ↔ trace = [] ∧ outcome = ended := by
  cases ended with
  | replied ctx => exact runs_reply_iff
  | failed fault =>
    constructor
    · intro h
      cases h
      exact ⟨rfl, rfl⟩
    · rintro ⟨rfl, rfl⟩
      exact .panic fault

theorem Runs.andThen {call : Call} {next : Context → Call} {ctx : Context}
    {first second : List Exchange} (h : call.Runs first (.replied ctx))
    (hn : (next ctx).Runs second outcome) :
    (call.andThen next).Runs (first ++ second) outcome := by
  generalize he : Outcome.replied ctx = ended at h
  induction h with
  | reply ctx' =>
    obtain rfl := Outcome.replied.inj he
    exact hn
  | panic => cases he
  | stuck => cases he
  | journal _ ih => exact .journal (ih he)
  | report _ ih => exact .report (ih he)
  | clock _ ih => exact .clock (ih he)
  | today _ ih => exact .today (ih he)
  | sleep _ ih => exact .sleep (ih he)
  | acquire _ ih => exact .acquire (ih he)
  | rescue hb _ _ ih =>
    rw [List.append_assoc]
    exact .rescue hb (ih he)
  | inTime hb _ _ ih =>
    rw [List.append_assoc]
    exact .inTime hb (ih he)
  | late _ ih => exact .late (ih he)

theorem andThen_reply (call : Call) : call.andThen reply = call := by
  induction call with
  | reply ctx => rfl
  | panic fault => rfl
  | journal line rest ih => rw [andThen, ih]
  | report event rest ih => rw [andThen, ih]
  | clock rest ih => rw [andThen, funext ih]
  | today rest ih => rw [andThen, funext ih]
  | sleep span rest ih => rw [andThen, ih]
  | acquire store key capacity pace rest ih => rw [andThen, funext ih]
  | rescue body rest _ ih => rw [andThen, funext ih]
  | race body limit rest _ ih => rw [andThen, funext ih]

theorem Runs.andThen_failed {call : Call} {next : Context → Call} {fault : Fault}
    (h : call.Runs trace (.failed fault)) : (call.andThen next).Runs trace (.failed fault) := by
  generalize he : Outcome.failed fault = ended at h
  induction h with
  | reply => cases he
  | panic fault' =>
    obtain rfl := Outcome.failed.inj he
    exact .panic fault
  | stuck =>
    obtain rfl := Outcome.failed.inj he
    exact .stuck ..
  | journal _ ih => exact .journal (ih he)
  | report _ ih => exact .report (ih he)
  | clock _ ih => exact .clock (ih he)
  | today _ ih => exact .today (ih he)
  | sleep _ ih => exact .sleep (ih he)
  | acquire _ ih => exact .acquire (ih he)
  | rescue hb _ _ ih => exact .rescue hb (ih he)
  | inTime hb _ _ ih => exact .inTime hb (ih he)
  | late _ ih => exact .late (ih he)

theorem exists_of_runs_andThen {call : Call} {next : Context → Call}
    (h : (call.andThen next).Runs trace outcome) :
    (∃ fault, outcome = .failed fault ∧ call.Runs trace (.failed fault)) ∨
      ∃ first ctx second, call.Runs first (.replied ctx) ∧ (next ctx).Runs second outcome ∧
        trace = first ++ second := by
  -- An exchange in front of the call is in front of whatever the call does.
  have hfront : ∀ (front : List Exchange) {rest call : Call} {tail : List Exchange},
      (∀ {trace ended}, rest.Runs trace ended → call.Runs (front ++ trace) ended) →
      ((∃ fault, outcome = .failed fault ∧ rest.Runs tail (.failed fault)) ∨
        ∃ first ctx second, rest.Runs first (.replied ctx) ∧ (next ctx).Runs second outcome ∧
          tail = first ++ second) →
      (∃ fault, outcome = .failed fault ∧ call.Runs (front ++ tail) (.failed fault)) ∨
        ∃ first ctx second, call.Runs first (.replied ctx) ∧ (next ctx).Runs second outcome ∧
          front ++ tail = first ++ second := by
    rintro front rest call tail hcall (⟨fault, ho, hf⟩ | ⟨first, ctx, second, hc, hn, rfl⟩)
    · exact .inl ⟨fault, ho, hcall hf⟩
    · exact .inr ⟨_, ctx, second, hcall hc, hn, (List.append_assoc ..).symm⟩
  induction call generalizing trace with
  | reply ctx => exact .inr ⟨[], ctx, trace, .reply ctx, h, rfl⟩
  | panic fault =>
    cases h
    exact .inl ⟨fault, rfl, .panic fault⟩
  | journal line rest ih =>
    cases h with
    | journal h => exact hfront [.journal line] .journal (ih h)
  | report event rest ih =>
    cases h with
    | report h => exact hfront [.report event] .report (ih h)
  | clock rest ih =>
    cases h with
    | clock h => exact hfront [.clock _] .clock (ih _ h)
  | today rest ih =>
    cases h with
    | today h => exact hfront [.today _] .today (ih _ h)
  | sleep span rest ih =>
    cases h with
    | sleep h => exact hfront [.sleep span] .sleep (ih h)
  | acquire store key capacity pace rest ih =>
    cases h with
    | acquire h =>
      exact hfront [.acquire store key capacity pace _] .acquire (ih _ h)
    | stuck => exact .inl ⟨World.endlessWait, rfl, .stuck ..⟩
  | rescue body rest _ ih =>
    cases h with
    | rescue hb h => exact hfront _ (.rescue hb) (ih _ h)
  | race body limit rest _ ih =>
    cases h with
    | inTime hb h => exact hfront _ (.inTime hb) (ih _ h)
    | late h => exact hfront [.abandon body limit] .late (ih _ h)

/-- A call that goes on with another does all of its own exchanges before those of the other, and
ends where it panics. -/
theorem runs_andThen {call : Call} {next : Context → Call} :
    (call.andThen next).Runs trace outcome ↔
      (∃ fault, outcome = .failed fault ∧ call.Runs trace (.failed fault)) ∨
        ∃ first ctx second, call.Runs first (.replied ctx) ∧ (next ctx).Runs second outcome ∧
          trace = first ++ second := by
  constructor
  · exact exists_of_runs_andThen
  · rintro (⟨fault, rfl, h⟩ | ⟨first, ctx, second, hc, hn, rfl⟩)
    · exact h.andThen_failed
    · exact hc.andThen hn

theorem runs_andThen_iff {call : Call} {next : Context → Call} {last : Context} :
    (call.andThen next).Runs trace (.replied last) ↔
      ∃ first ctx second, call.Runs first (.replied ctx) ∧
        (next ctx).Runs second (.replied last) ∧ trace = first ++ second := by
  simp [runs_andThen]

end Call

section Worlds

variable {R : Type} [Amount R]

/-- What a world answers to one exchange, and what becomes of it. -/
inductive World.Takes : World R → Exchange → World R → Prop
  | journal (w : World R) (line : String) : Takes w (.journal line) (w.write [line])
  | report (w : World R) (event : Event) : Takes w (.report event) (w.report event)
  | clock (w : World R) : Takes w (.clock w.now) w
  | today (w : World R) : Takes w (.today w.date) w
  | sleep (w : World R) {span : Duration} (h : span.isZero = true) : Takes w (.sleep span) w
  | acquire (w : World R) {store : Nat} {key : String} {capacity : Nat} {pace : Pace}
    {s : RateLimit.Store R} {answer : Option Decision}
    (h : (w.storeAt store).acquire key capacity (pace.rate R) w.now = (s, answer)) :
    Takes w (.acquire store key capacity pace answer) (w.setStore store s)

inductive World.Answers : World R → List Exchange → World R → Prop
  | nil (w : World R) : Answers w [] w
  | cons {w next last : World R} {exchange : Exchange} {trace : List Exchange}
    (h : w.Takes exchange next) (ht : Answers next trace last) : Answers w (exchange :: trace) last

theorem World.Answers.append {w next last : World R} {first second : List Exchange}
    (hf : w.Answers first next) (hs : next.Answers second last) :
    w.Answers (first ++ second) last := by
  induction hf with
  | nil => exact hs
  | cons h _ ih => exact .cons h (ih hs)

/-- What is left to do of a call that has paused. -/
def Pause.rest : Pause → Call
  | .ended outcome => .ofOutcome outcome
  | .asleep span rest => .sleep span rest
  | .racing body limit rest => .race body limit rest

/-- A body that sleeps puts the call that waits for it to sleep. -/
theorem Call.runs_rescue_asleep {body inner : Call} {rest : Outcome → Call} {span : Duration}
    {trace tail : List Exchange} {outcome : Outcome}
    (hr : ∀ {tail outcome}, (sleep span inner).Runs tail outcome →
      body.Runs (trace ++ tail) outcome)
    (h : (sleep span (rescue inner rest)).Runs tail outcome) :
    (rescue body rest).Runs (trace ++ tail) outcome := by
  cases h with
  | sleep h =>
    obtain ⟨first, ended, second, hi, hn, rfl⟩ := runs_rescue_iff.mp h
    rw [← List.cons_append, ← List.append_assoc]
    exact .rescue (hr (.sleep hi)) hn

theorem Call.runs_rescue_racing {body racer : Call} {inner : Verdict → Call}
    {rest : Outcome → Call} {limit : Duration} {trace tail : List Exchange} {outcome : Outcome}
    (hr : ∀ {tail outcome}, (race racer limit inner).Runs tail outcome →
      body.Runs (trace ++ tail) outcome)
    (h : (race racer limit fun verdict => rescue (inner verdict) rest).Runs tail outcome) :
    (rescue body rest).Runs (trace ++ tail) outcome := by
  cases h with
  | @inTime _ _ _ raced _ _ _ hb h =>
    obtain ⟨first, ended, second, hi, hn, rfl⟩ := runs_rescue_iff.mp h
    have hbody := hr (.inTime hb hi)
    rw [← List.append_assoc raced, ← List.append_assoc]
    exact .rescue hbody hn
  | late h =>
    obtain ⟨first, ended, second, hi, hn, rfl⟩ := runs_rescue_iff.mp h
    rw [← List.cons_append, ← List.append_assoc]
    exact .rescue (hr (.late hi)) hn

/-- The steps that a call does up to a pause begin a run, which all that is left to do completes. -/
theorem Call.runs_of_poll (call : Call) (w : World R) :
    ∃ trace, w.Answers trace (call.poll w).2 ∧
      ∀ {tail outcome}, (call.poll w).1.rest.Runs tail outcome →
        call.Runs (trace ++ tail) outcome := by
  induction call generalizing w with
  | reply ctx => exact ⟨[], .nil w, fun h => h⟩
  | panic fault => exact ⟨[], .nil w, fun h => h⟩
  | journal line rest ih =>
    obtain ⟨trace, hw, hr⟩ := ih (w.write [line])
    exact ⟨_, .cons (.journal w line) hw, fun h => .journal (hr h)⟩
  | report event rest ih =>
    obtain ⟨trace, hw, hr⟩ := ih (w.report event)
    exact ⟨_, .cons (.report w event) hw, fun h => .report (hr h)⟩
  | clock rest ih =>
    obtain ⟨trace, hw, hr⟩ := ih w.now w
    exact ⟨_, .cons (.clock w) hw, fun h => .clock (hr h)⟩
  | today rest ih =>
    obtain ⟨trace, hw, hr⟩ := ih w.date w
    exact ⟨_, .cons (.today w) hw, fun h => .today (hr h)⟩
  | sleep span rest ih =>
    by_cases hz : span.isZero = true
    · obtain ⟨trace, hw, hr⟩ := ih w
      simp only [poll, hz, if_true]
      exact ⟨_, .cons (.sleep w hz) hw, fun h => .sleep (hr h)⟩
    · rw [poll, if_neg hz]
      exact ⟨[], .nil w, fun h => h⟩
  | acquire store key capacity pace rest ih =>
    cases ha : (w.storeAt store).acquire key capacity (pace.rate R) w.now with
    | mk s answer =>
      cases answer with
      | none =>
        simp only [poll, ha]
        refine ⟨_, .cons (.acquire w ha) (.nil _), fun h => ?_⟩
        cases h with
        | panic => exact .stuck store key capacity pace rest
      | some decision =>
        obtain ⟨trace, hw, hr⟩ := ih decision (w.setStore store s)
        simp only [poll, ha]
        exact ⟨_, .cons (.acquire w ha) hw, fun h => .acquire (hr h)⟩
  | rescue body rest ihb ih =>
    obtain ⟨trace, hw, hr⟩ := ihb w
    cases hp : body.poll w with
    | mk pause next =>
      rw [hp] at hw hr
      cases pause with
      | ended ended =>
        obtain ⟨after, hw', hr'⟩ := ih ended next
        have hb := hr (runs_ofOutcome_iff.mpr ⟨rfl, rfl⟩)
        simp only [poll, hp]
        refine ⟨trace ++ after, hw.append hw', fun h => ?_⟩
        rw [List.append_nil] at hb
        rw [List.append_assoc]
        exact .rescue hb (hr' h)
      | asleep span inner =>
        simp only [poll, hp]
        exact ⟨trace, hw, fun h => runs_rescue_asleep hr h⟩
      | racing racer limit inner =>
        simp only [poll, hp]
        exact ⟨trace, hw, fun h => runs_rescue_racing hr h⟩
  | race body limit rest => exact ⟨[], .nil w, fun h => h⟩

end Worlds

end Switchboard
