import Switchboard.Proofs.Middleware.Layers
import Switchboard.Registry

/-! Where a panic arises in a chain of middleware, and that it comes out of the chain as it is. -/

namespace Switchboard.Middleware

/-- How middleware goes on with a context that its part before the call does not panic on. -/
structure Frame where
  before : List Exchange
  ctx : Context
  calls : Bool
  after : Handler

def Frame.inner (f : Frame) (next : Handler) : Call :=
  if f.calls then next f.ctx else .reply f.ctx

inductive Meeting where
  | enters (frame : Frame)
  | breaks (trace : List Exchange) (fault : Fault)

/-- The ways in which middleware may meet a context, around a handler. -/
abbrev Manner := Handler → Context → Meeting → Prop

/-- The call panics before it enters, or it enters and its part after the call follows. -/
def Manner.Goes (manner : Manner) (next : Handler) (ctx : Context) (trace : List Exchange)
    (outcome : Outcome) : Prop :=
  (∃ fault, manner next ctx (.breaks trace fault) ∧ outcome = .failed fault) ∨
  ∃ frame tail, manner next ctx (.enters frame) ∧
    ((frame.inner next).andThen frame.after).Runs tail outcome ∧ trace = frame.before ++ tail

/-- Middleware that catches no panic of what is inside. -/
structure Link where
  middleware : Middleware
  manner : Manner
  goes_iff : ∀ {next ctx trace outcome},
    ((middleware.invoke next).handler ctx).Runs trace outcome ↔ manner.Goes next ctx trace outcome

def Link.wrap (chain : List Link) (handler : Handler) : Handler :=
  (compose (chain.map (·.middleware)) handler).handler

/-- Where a panic arises: in the handler, or in the part of some middleware before the call or after
it. The exchanges are those that come before the panic. -/
inductive Panics (handler : Handler) : List Link → Context → List Exchange → Fault → Prop
  | handler {ctx : Context} {trace : List Exchange} {fault : Fault}
    (h : (handler ctx).Runs trace (.failed fault)) : Panics handler [] ctx trace fault
  | before {link : Link} {chain : List Link} {ctx : Context} {trace : List Exchange} {fault : Fault}
    (h : link.manner (Link.wrap chain handler) ctx (.breaks trace fault)) :
    Panics handler (link :: chain) ctx trace fault
  | inside {link : Link} {chain : List Link} {ctx : Context} {frame : Frame}
    {trace : List Exchange} {fault : Fault}
    (h : link.manner (Link.wrap chain handler) ctx (.enters frame)) (hc : frame.calls = true)
    (hp : Panics handler chain frame.ctx trace fault) :
    Panics handler (link :: chain) ctx (frame.before ++ trace) fault
  | after {link : Link} {chain : List Link} {ctx back : Context} {frame : Frame}
    {inner outer : List Exchange} {fault : Fault}
    (h : link.manner (Link.wrap chain handler) ctx (.enters frame))
    (hi : (frame.inner (Link.wrap chain handler)).Runs inner (.replied back))
    (ha : (frame.after back).Runs outer (.failed fault)) :
    Panics handler (link :: chain) ctx (frame.before ++ (inner ++ outer)) fault

/-- A call through a chain panics exactly where something in the chain does, and with the same
fault. -/
theorem panics_iff {chain : List Link} {handler : Handler} {ctx : Context}
    {trace : List Exchange} {fault : Fault} :
    (Link.wrap chain handler ctx).Runs trace (.failed fault) ↔
      Panics handler chain ctx trace fault := by
  induction chain generalizing ctx trace with
  | nil =>
    constructor
    · exact .handler
    · intro h
      cases h with
      | handler h => exact h
  | cons link chain ih =>
    have hgoes : (Link.wrap (link :: chain) handler ctx).Runs trace (.failed fault) ↔
        link.manner.Goes (Link.wrap chain handler) ctx trace (.failed fault) := link.goes_iff
    rw [hgoes]
    constructor
    · rintro (⟨fault', h, hf⟩ | ⟨frame, tail, h, ht, rfl⟩)
      · obtain rfl := Outcome.failed.inj hf
        exact .before h
      · rcases Call.runs_andThen.mp ht with ⟨fault', hf, hi⟩ | ⟨inner, back, outer, hi, ha, rfl⟩
        · obtain rfl := Outcome.failed.inj hf
          cases hc : frame.calls with
          | true =>
            simp only [Frame.inner, hc, if_true] at hi
            exact .inside h hc (ih.mp hi)
          | false =>
            simp only [Frame.inner, hc, Bool.false_eq_true, if_false] at hi
            cases hi
        · exact .after h hi ha
    · intro h
      cases h with
      | before h => exact .inl ⟨fault, h, rfl⟩
      | @inside _ _ _ frame inner _ h hc hp =>
        have hi : (frame.inner (Link.wrap chain handler)).Runs inner (.failed fault) := by
          rw [Frame.inner, if_pos hc]
          exact ih.mpr hp
        exact .inr ⟨frame, inner, h, hi.andThen_failed, rfl⟩
      | @after _ _ _ back frame inner outer _ h hi ha =>
        exact .inr ⟨frame, inner ++ outer, h, hi.andThen ha, rfl⟩

/-! ### Middleware at hand -/

/-- Middleware that has nothing to do after the call. -/
def Frame.passes (before : List Exchange) (ctx : Context) : Frame :=
  ⟨before, ctx, true, .reply⟩

def Frame.answers (before : List Exchange) (ctx : Context) : Frame :=
  ⟨before, ctx, false, .reply⟩

section Frames

variable (manner : Manner) {next : Handler} {ctx last : Context} {before trace : List Exchange}
  {outcome : Outcome}

theorem runs_passes_iff :
    (((Frame.passes before ctx).inner next).andThen (Frame.passes before ctx).after).Runs trace
      outcome ↔ (next ctx).Runs trace outcome := by
  simp [Frame.passes, Frame.inner, Call.andThen_reply]

theorem runs_answers_iff :
    (((Frame.answers before ctx).inner next).andThen (Frame.answers before ctx).after).Runs trace
      outcome ↔ trace = [] ∧ outcome = .replied ctx := by
  simp [Frame.answers, Frame.inner, Call.andThen, Call.runs_reply_iff]

theorem goes_passes (h : manner next ctx (.enters (.passes before last)))
    (hn : (next last).Runs trace outcome) : manner.Goes next ctx (before ++ trace) outcome :=
  .inr ⟨_, trace, h, runs_passes_iff.mpr hn, rfl⟩

theorem goes_answers (h : manner next ctx (.enters (.answers before last))) :
    manner.Goes next ctx before (.replied last) :=
  .inr ⟨_, [], h, runs_answers_iff.mpr ⟨rfl, rfl⟩, (List.append_nil before).symm⟩

end Frames

inductive Manner.Scripted (name : String) (before after : Script) (skip : Bool) (ctx : Context) :
    Meeting → Prop
  | enters {trace : List Exchange} {last : Context}
    (h : (before.handler ctx).Runs trace (.replied last)) :
    Scripted name before after skip ctx (.enters ⟨.journal (name ++ ":in") :: trace, last, !skip,
      fun ctx => Script.run after ctx fun ctx => .journal (name ++ ":out") (.reply ctx)⟩)
  | breaks {trace : List Exchange} {fault : Fault}
    (h : (before.handler ctx).Runs trace (.failed fault)) :
    Scripted name before after skip ctx (.breaks (.journal (name ++ ":in") :: trace) fault)

def Link.scripted (name : String) (before after : Script) (skip : Bool) : Link where
  middleware := .scripted name before after skip
  manner _ := Manner.Scripted name before after skip
  goes_iff := by
    intro next ctx trace outcome
    have hinner : ∀ ctx, (if skip then Call.reply ctx else next ctx) =
        if !skip then next ctx else .reply ctx := by
      cases skip <;> simp
    simp only [Middleware.scripted, Call.runs_journal_iff, Script.run_eq_andThen before, hinner]
    constructor
    · rintro ⟨tail, rfl, hs⟩
      rcases Call.runs_andThen.mp hs with ⟨fault, rfl, hb⟩ | ⟨first, last, second, hb, hn, rfl⟩
      · exact .inl ⟨fault, .breaks hb, rfl⟩
      · exact .inr ⟨_, second, .enters hb, hn, rfl⟩
    · rintro (⟨fault, h, rfl⟩ | ⟨frame, tail, h, hn, rfl⟩)
      · cases h with
        | breaks hb => exact ⟨_, rfl, hb.andThen_failed⟩
      · cases h with
        | enters hb => exact ⟨_, rfl, hb.andThen hn⟩

inductive Manner.Times (ctx : Context) : Meeting → Prop
  | enters (start : Instant) : Times ctx (.enters ⟨[.clock start], ctx, true, fun ctx =>
      .clock fun stop => .reply (ctx.set "request_time" (.duration ⟨stop - start⟩))⟩)

def Link.timing (name : String) : Link where
  middleware := .timing name
  manner _ := Manner.Times
  goes_iff := by
    intro next ctx trace outcome
    constructor
    · intro h
      obtain ⟨start, tail, rfl, hn⟩ := Call.runs_clock_iff.mp h
      exact .inr ⟨_, tail, .enters start, hn, rfl⟩
    · rintro (⟨fault, h, _⟩ | ⟨frame, tail, h, hn, rfl⟩)
      · cases h
      · cases h with
        | enters start => exact Call.runs_clock_iff.mpr ⟨start, tail, rfl, hn⟩

inductive Manner.Authenticates (v : Token.Verifier) (key : String) (ctx : Context) : Meeting → Prop
  | valid {date : Nat} {claims : Json} (h : Auth.claimsOf v date ctx.request = .ok claims) :
    Authenticates v key ctx (.enters (.passes [.today date] (ctx.set key (.json claims))))
  | refused {date : Nat} {reason : Token.AuthError}
    (h : Auth.claimsOf v date ctx.request = .error reason) :
    Authenticates v key ctx (.enters (.answers
      [.today date, .report (.authenticationFailed ctx.request.path reason.message)]
      (ctx.mapResponse (Rejection.unauthorized reason.message).writeTo)))

def Link.auth (name : String) (v : Token.Verifier) (key : String) : Link where
  middleware := .auth name v key
  manner _ := Manner.Authenticates v key
  goes_iff := by
    intro next ctx trace outcome
    constructor
    · intro h
      cases h with
      | @today _ date tail _ h =>
        cases hc : Auth.claimsOf v date ctx.request with
        | ok claims =>
          simp only [hc] at h
          exact goes_passes (fun _ => Manner.Authenticates v key) (.valid hc) h
        | error reason =>
          simp only [hc] at h
          cases h with
          | report h =>
            obtain ⟨rfl, rfl⟩ := Call.runs_reply_iff.mp h
            exact goes_answers (fun _ => Manner.Authenticates v key) (.refused hc)
    · rintro (⟨fault, h, _⟩ | ⟨frame, tail, h, hn, rfl⟩)
      · cases h
      · cases h with
        | @valid date claims hc =>
          refine Call.Runs.today ?_
          simp only [hc]
          exact runs_passes_iff.mp hn
        | @refused date reason hc =>
          obtain ⟨rfl, rfl⟩ := runs_answers_iff.mp hn
          refine Call.Runs.today ?_
          simp only [hc]
          exact .report (.reply _)

inductive Manner.Admits (policy : Cors.Policy) (ctx : Context) : Meeting → Prop
  | foreign (h : policy.origin? ctx.request = none) :
    Admits policy ctx (.enters (.passes [] ctx))
  | preflight {origin : Bytes} (h : policy.origin? ctx.request = some origin)
    (hp : Cors.isPreflight ctx.request = true) :
    Admits policy ctx (.enters (.answers []
      ((ctx.mapResponse (policy.mark origin)).mapResponse policy.answerPreflight)))
  | marked {origin : Bytes} (h : policy.origin? ctx.request = some origin)
    (hp : Cors.isPreflight ctx.request = false) :
    Admits policy ctx (.enters (.passes [] (ctx.mapResponse (policy.mark origin))))

def Link.cors (name : String) (policy : Cors.Policy) : Link where
  middleware := .cors name policy
  manner _ := Manner.Admits policy
  goes_iff := by
    intro next ctx trace outcome
    have hcall : (((Middleware.cors name policy).invoke next).handler ctx) =
        match policy.origin? ctx.request with
        | none => next ctx
        | some origin =>
          if Cors.isPreflight ctx.request then
            .reply ((ctx.mapResponse (policy.mark origin)).mapResponse policy.answerPreflight)
          else next (ctx.mapResponse (policy.mark origin)) := rfl
    rw [hcall]
    constructor
    · intro h
      cases ho : policy.origin? ctx.request with
      | none =>
        simp only [ho] at h
        exact goes_passes (fun _ => Manner.Admits policy) (.foreign ho) h
      | some origin =>
        simp only [ho] at h
        cases hp : Cors.isPreflight ctx.request with
        | true =>
          simp only [hp, if_true] at h
          obtain ⟨rfl, rfl⟩ := Call.runs_reply_iff.mp h
          exact goes_answers (fun _ => Manner.Admits policy) (.preflight ho hp)
        | false =>
          simp only [hp, Bool.false_eq_true, if_false] at h
          exact goes_passes (fun _ => Manner.Admits policy) (.marked ho hp) h
    · rintro (⟨fault, h, _⟩ | ⟨frame, tail, h, hn, rfl⟩)
      · cases h
      · cases h with
        | foreign ho =>
          simp only [ho]
          exact runs_passes_iff.mp hn
        | preflight ho hp =>
          obtain ⟨rfl, rfl⟩ := runs_answers_iff.mp hn
          simp only [ho, hp, if_true]
          exact .reply _
        | marked ho hp =>
          simp only [ho, hp, Bool.false_eq_true, if_false]
          exact runs_passes_iff.mp hn

/-- A limiter counts a call in its store, and panics if the wait for the next one cannot be said. -/
inductive Manner.Counts (l : Limiter) (ctx : Context) : Meeting → Prop
  | uncounted (h : (l.keyOf ctx).2 = 0) : Counts l ctx (.enters (.passes [] ctx))
  | closed {event : Event} {last : Context} (h : (l.keyOf ctx).2 ≠ 0)
    (hd : l.settings.pace.isDegenerate = true)
    (hr : l.reject (l.keyOf ctx).1 ctx 1 none = .report event (.reply last)) :
    Counts l ctx (.enters (.answers [.report event] last))
  | admitted {remaining : Nat} (h : (l.keyOf ctx).2 ≠ 0)
    (hd : l.settings.pace.isDegenerate = false) :
    Counts l ctx (.enters (.passes
      [.acquire l.store (l.keyOf ctx).1 (l.keyOf ctx).2 l.settings.pace (some (.admitted remaining))]
      (ctx.mapResponse (l.markLimit remaining))))
  | rejected {wait : Duration} {retry date : Nat} {event : Event} {last : Context}
    (h : (l.keyOf ctx).2 ≠ 0) (hd : l.settings.pace.isDegenerate = false)
    (hr : l.reject (l.keyOf ctx).1 ctx retry (some (date + retry)) = .report event (.reply last)) :
    Counts l ctx (.enters (.answers
      [.acquire l.store (l.keyOf ctx).1 (l.keyOf ctx).2 l.settings.pace
          (some (.rejected wait retry)), .today date, .report event] last))
  | stuck (h : (l.keyOf ctx).2 ≠ 0) (hd : l.settings.pace.isDegenerate = false) :
    Counts l ctx (.breaks
      [.acquire l.store (l.keyOf ctx).1 (l.keyOf ctx).2 l.settings.pace none] World.endlessWait)

theorem runs_reject_iff {l : Limiter} {key : String} {ctx : Context} {retry : Nat}
    {reset : Option Nat} {trace : List Exchange} {outcome : Outcome} :
    (l.reject key ctx retry reset).Runs trace outcome ↔
      ∃ event last, l.reject key ctx retry reset = .report event (.reply last) ∧
        trace = [.report event] ∧ outcome = .replied last := by
  constructor
  · intro h
    cases h with
    | report h =>
      obtain ⟨rfl, rfl⟩ := Call.runs_reply_iff.mp h
      exact ⟨_, _, rfl, rfl, rfl⟩
  · rintro ⟨event, last, h, rfl, rfl⟩
    rw [h]
    exact .report (.reply last)

def Link.limiter (l : Limiter) (sweeper : Option Nat) : Link where
  middleware := l.middleware sweeper
  manner _ := Manner.Counts l
  goes_iff := by
    intro next ctx trace outcome
    have hcall : ((l.middleware sweeper).invoke next).handler ctx =
        if (l.keyOf ctx).2 == 0 then next ctx
        else if l.settings.pace.isDegenerate then l.reject (l.keyOf ctx).1 ctx 1 none
        else .acquire l.store (l.keyOf ctx).1 (l.keyOf ctx).2 l.settings.pace fun
          | .admitted remaining => next (ctx.mapResponse (l.markLimit remaining))
          | .rejected _ retry => .today fun date =>
            l.reject (l.keyOf ctx).1 ctx retry (some (date + retry)) := rfl
    rw [hcall]
    constructor
    · intro h
      by_cases hz : (l.keyOf ctx).2 = 0
      · simp only [hz, beq_self_eq_true, if_true] at h
        exact goes_passes (fun _ => Manner.Counts l) (.uncounted hz) h
      · have hb : ((l.keyOf ctx).2 == 0) = false := by simpa using hz
        rw [hb] at h
        cases hd : l.settings.pace.isDegenerate with
        | true =>
          simp only [hd, Bool.false_eq_true, if_false, if_true] at h
          obtain ⟨event, last, hr, rfl, rfl⟩ := runs_reject_iff.mp h
          exact goes_answers (fun _ => Manner.Counts l) (.closed hz hd hr)
        | false =>
          simp only [hd, Bool.false_eq_true, if_false] at h
          cases h with
          | stuck => exact .inl ⟨_, .stuck hz hd, rfl⟩
          | @acquire _ _ _ _ _ decision _ _ h =>
            cases decision with
            | admitted remaining => exact goes_passes (fun _ => Manner.Counts l) (.admitted hz hd) h
            | rejected wait retry =>
              cases h with
              | today h =>
                obtain ⟨event, last, hr, rfl, rfl⟩ := runs_reject_iff.mp h
                exact goes_answers (fun _ => Manner.Counts l) (.rejected hz hd hr)
    · rintro (⟨fault, h, rfl⟩ | ⟨frame, tail, h, hn, rfl⟩)
      · cases h with
        | stuck hz hd =>
          simp only [beq_iff_eq, hz, hd, Bool.false_eq_true, if_false]
          exact .stuck ..
      · cases h with
        | uncounted hz =>
          simp only [hz, beq_self_eq_true, if_true]
          exact runs_passes_iff.mp hn
        | closed hz hd hr =>
          obtain ⟨rfl, rfl⟩ := runs_answers_iff.mp hn
          simp only [beq_iff_eq, hz, hd, if_false, if_true]
          exact runs_reject_iff.mpr ⟨_, _, hr, rfl, rfl⟩
        | admitted hz hd =>
          simp only [beq_iff_eq, hz, hd, Bool.false_eq_true, if_false]
          exact .acquire (runs_passes_iff.mp hn)
        | rejected hz hd hr =>
          obtain ⟨rfl, rfl⟩ := runs_answers_iff.mp hn
          simp only [beq_iff_eq, hz, hd, Bool.false_eq_true, if_false]
          exact .acquire (.today (runs_reject_iff.mpr ⟨_, _, hr, rfl, rfl⟩))

/-- In time, the call is as it would be without the deadline. Late, it is abandoned. -/
inductive Manner.Races (name : String) (limit : Duration) (next : Handler) (ctx : Context) :
    Meeting → Prop
  | inTime : Races name limit next ctx (.enters (.passes [] ctx))
  | late : Races name limit next ctx (.enters (.answers
      [.abandon (next ctx) limit, .report (.deadlineExceeded name ctx.request.path limit)]
      (ctx.mapResponse Rejection.timeout.writeTo)))

def Link.deadline (name : String) (limit : Duration) : Link where
  middleware := .deadline name limit
  manner := Manner.Races name limit
  goes_iff := by
    intro next ctx trace outcome
    constructor
    · intro h
      cases h with
      | inTime hb h =>
        obtain ⟨rfl, rfl⟩ := Call.runs_ofOutcome_iff.mp h
        rw [List.append_nil]
        exact goes_passes (Manner.Races name limit) .inTime hb
      | late h =>
        cases h with
        | report h =>
          obtain ⟨rfl, rfl⟩ := Call.runs_reply_iff.mp h
          exact goes_answers (Manner.Races name limit) .late
    · rintro (⟨fault, h, _⟩ | ⟨frame, tail, h, hn, rfl⟩)
      · cases h
      · cases h with
        | inTime =>
          have hrace : (((Middleware.deadline name limit).invoke next).handler ctx).Runs
              (tail ++ []) outcome :=
            .inTime (runs_passes_iff.mp hn) (Call.runs_ofOutcome_iff.mpr ⟨rfl, rfl⟩)
          rwa [List.append_nil] at hrace
        | late =>
          obtain ⟨rfl, rfl⟩ := runs_answers_iff.mp hn
          exact .late (.report (.reply _))

end Switchboard.Middleware
