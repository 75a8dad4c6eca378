import Switchboard.Proofs.Middleware.Panics

/-! What is left of a panic outside of the middleware that answers for it: the context as it came in,
an answer that says nothing of what is inside, and one error in the log. -/

namespace Switchboard

def Exchange.error? : Exchange → Option Event
  | .report event => if event.level = .error then some event else none
  | _ => none

/-- The errors among what is reported. -/
def errors (trace : List Exchange) : List Event :=
  trace.filterMap Exchange.error?

@[simp] theorem errors_nil : errors [] = [] := rfl

@[simp] theorem errors_append (first second : List Exchange) :
    errors (first ++ second) = errors first ++ errors second := List.filterMap_append

theorem errors_cons_of_silent {exchange : Exchange} {trace : List Exchange}
    (h : exchange.error? = none) : errors (exchange :: trace) = errors trace :=
  List.filterMap_cons_none h

/-- A call that reports no error itself, however it goes. -/
def Call.Quiet (call : Call) : Prop :=
  ∀ ⦃trace outcome⦄, call.Runs trace outcome → errors trace = []

namespace Call

theorem quiet_reply (ctx : Context) : (reply ctx).Quiet := by
  intro trace outcome h
  cases h
  rfl

theorem quiet_panic (fault : Fault) : (panic fault).Quiet := by
  intro trace outcome h
  cases h
  rfl

theorem Quiet.journal {line : String} {rest : Call} (h : rest.Quiet) :
    (journal line rest).Quiet := by
  intro trace outcome hr
  cases hr with
  | journal hr =>
    rw [errors_cons_of_silent rfl, h hr]

theorem Quiet.report {event : Event} {rest : Call} (he : event.level ≠ .error) (h : rest.Quiet) :
    (report event rest).Quiet := by
  intro trace outcome hr
  cases hr with
  | report hr =>
    have hsilent : (Exchange.report event).error? = none := if_neg he
    rw [errors_cons_of_silent hsilent, h hr]

theorem Quiet.sleep {span : Duration} {rest : Call} (h : rest.Quiet) : (sleep span rest).Quiet := by
  intro trace outcome hr
  cases hr with
  | sleep hr =>
    rw [errors_cons_of_silent rfl, h hr]

theorem Quiet.andThen {call : Call} {next : Context → Call} (h : call.Quiet)
    (hn : ∀ ctx, (next ctx).Quiet) : (call.andThen next).Quiet := by
  intro trace outcome hr
  rcases runs_andThen.mp hr with ⟨fault, rfl, hc⟩ | ⟨first, ctx, second, hc, hs, rfl⟩
  · exact h hc
  · rw [errors_append, h hc, hn ctx hs, List.append_nil]

end Call

mutual

theorem Action.quiet_run : (action : Action) → (ctx : Context) → (next : Context → Call) →
    (∀ ctx, (next ctx).Quiet) → (action.run ctx next).Quiet
  | .status _, _, _, h => h _
  | .body _, _, _, h => h _
  | .header name value, ctx, next, h => by
    simp only [Action.run]
    split
    · exact h _
    · exact (h ctx).report (by simp [Event.level])
  | .append _, _, _, h => h _
  | .echo, _, _, h => h _
  | .upper, _, _, h => h _
  | .param _, _, _, h => h _
  | .params, _, _, h => h _
  | .request, _, _, h => h _
  | .value _, _, _, h => h _
  | .set _ _, _, _, h => h _
  | .clear, _, _, h => h _
  | .log _, ctx, _, h => (h ctx).journal
  | .sleep _, ctx, _, h => (h ctx).sleep
  | .panic fault, _, _, _ => Call.quiet_panic fault
  | .ifHeader name actions, ctx, next, h => by
    simp only [Action.run]
    split
    · exact Script.quiet_run actions ctx next h
    · exact h ctx
  | .ifPath path actions, ctx, next, h => by
    simp only [Action.run]
    split
    · exact Script.quiet_run actions ctx next h
    · exact h ctx

theorem Script.quiet_run : (script : Script) → (ctx : Context) → (next : Context → Call) →
    (∀ ctx, (next ctx).Quiet) → (Script.run script ctx next).Quiet
  | [], ctx, _, h => h ctx
  | action :: rest, ctx, next, h => by
    rw [Script.run]
    exact Action.quiet_run action ctx _ fun ctx => Script.quiet_run rest ctx next h

end

theorem Script.quiet_handler (script : Script) (ctx : Context) : (script.handler ctx).Quiet :=
  Script.quiet_run script ctx .reply Call.quiet_reply

namespace Middleware

def Meeting.Quiet : Meeting → Prop
  | .enters frame => errors frame.before = [] ∧ ∀ ctx, (frame.after ctx).Quiet
  | .breaks trace _ => errors trace = []

/-- Middleware whose own parts report no error. -/
def Link.Quiet (link : Link) : Prop :=
  ∀ ⦃next ctx meeting⦄, link.manner next ctx meeting → meeting.Quiet

theorem Link.quiet_wrap {chain : List Link} {handler : Handler} (hl : ∀ link ∈ chain, link.Quiet)
    (hh : ∀ ctx, (handler ctx).Quiet) (ctx : Context) : (wrap chain handler ctx).Quiet := by
  induction chain generalizing ctx with
  | nil => exact hh ctx
  | cons link chain ih =>
    have hlink := hl link List.mem_cons_self
    have hwrap := ih fun link hm => hl link (List.mem_cons_of_mem _ hm)
    intro trace outcome hr
    have hgoes : link.manner.Goes (wrap chain handler) ctx trace outcome := link.goes_iff.mp hr
    rcases hgoes with ⟨fault, h, rfl⟩ | ⟨frame, tail, h, ht, rfl⟩
    · exact hlink h
    · obtain ⟨hbefore, hafter⟩ := hlink h
      have hinner : (frame.inner (wrap chain handler)).Quiet := by
        rw [Frame.inner]
        split
        · exact hwrap frame.ctx
        · exact Call.quiet_reply frame.ctx
      rw [errors_append, hbefore, hinner.andThen hafter ht, List.append_nil]

theorem quiet_scripted (name : String) (before after : Script) (skip : Bool) :
    (Link.scripted name before after skip).Quiet := by
  intro next ctx meeting h
  cases h with
  | enters hb =>
    have hbefore := Script.quiet_handler before ctx hb
    refine ⟨(errors_cons_of_silent rfl).trans hbefore, fun ctx => ?_⟩
    exact Script.quiet_run after ctx _ fun ctx => (Call.quiet_reply ctx).journal
  | breaks hb =>
    have hbefore := Script.quiet_handler before ctx hb
    exact (errors_cons_of_silent rfl).trans hbefore

theorem quiet_timing (name : String) : (Link.timing name).Quiet := by
  intro next ctx meeting h
  cases h with
  | enters start =>
    refine ⟨rfl, fun ctx trace outcome hr => ?_⟩
    obtain ⟨stop, tail, rfl, ht⟩ := Call.runs_clock_iff.mp hr
    rw [errors_cons_of_silent rfl, Call.quiet_reply _ ht]

theorem quiet_auth (name : String) (v : Token.Verifier) (key : String) :
    (Link.auth name v key).Quiet := by
  intro next ctx meeting h
  cases h with
  | valid => exact ⟨rfl, Call.quiet_reply⟩
  | refused => exact ⟨rfl, Call.quiet_reply⟩

theorem quiet_cors (name : String) (policy : Cors.Policy) : (Link.cors name policy).Quiet := by
  intro next ctx meeting h
  cases h <;> exact ⟨rfl, Call.quiet_reply⟩

theorem quiet_limiter (l : Limiter) (sweeper : Option Nat) : (Link.limiter l sweeper).Quiet := by
  intro next ctx meeting h
  cases h with
  | uncounted => exact ⟨rfl, Call.quiet_reply⟩
  | closed _ _ hr =>
    obtain ⟨rfl, -⟩ := Call.report.inj hr
    exact ⟨rfl, Call.quiet_reply⟩
  | admitted => exact ⟨rfl, Call.quiet_reply⟩
  | rejected _ _ hr =>
    obtain ⟨rfl, -⟩ := Call.report.inj hr
    exact ⟨rfl, Call.quiet_reply⟩
  | stuck => rfl

theorem quiet_deadline (name : String) (limit : Duration) : (Link.deadline name limit).Quiet := by
  intro next ctx meeting h
  cases h <;> exact ⟨rfl, Call.quiet_reply⟩

/-- All middleware of this library but restore. -/
inductive Link.BuiltIn : Link → Prop
  | scripted (name : String) (before after : Script) (skip : Bool) :
    BuiltIn (.scripted name before after skip)
  | timing (name : String) : BuiltIn (.timing name)
  | auth (name : String) (v : Token.Verifier) (key : String) : BuiltIn (.auth name v key)
  | cors (name : String) (policy : Cors.Policy) : BuiltIn (.cors name policy)
  | limiter (l : Limiter) (sweeper : Option Nat) : BuiltIn (.limiter l sweeper)
  | deadline (name : String) (limit : Duration) : BuiltIn (.deadline name limit)

theorem Link.BuiltIn.quiet {link : Link} (h : link.BuiltIn) : link.Quiet := by
  cases h with
  | scripted name before after skip => exact quiet_scripted name before after skip
  | timing name => exact quiet_timing name
  | auth name v key => exact quiet_auth name v key
  | cors name policy => exact quiet_cors name policy
  | limiter l sweeper => exact quiet_limiter l sweeper
  | deadline name limit => exact quiet_deadline name limit

/-- What is logged about a panic. -/
def recovery (ctx : Context) (fault : Fault) : Event :=
  .recovered ctx.request.method ctx.request.path fault.text

theorem runs_restore_iff {name : String} {next : Handler} {ctx : Context} {trace : List Exchange}
    {outcome : Outcome} :
    (((restore name).invoke next).handler ctx).Runs trace outcome ↔
      (∃ back, (next ctx).Runs trace (.replied back) ∧ outcome = .replied back) ∨
      ∃ before fault, (next ctx).Runs before (.failed fault) ∧
        trace = before ++ [.report (recovery ctx fault)] ∧
        outcome = .replied (ctx.mapResponse Rejection.internal.writeTo) := by
  constructor
  · intro h
    obtain ⟨inner, ended, tail, hn, ht, rfl⟩ := Call.runs_rescue_iff.mp h
    cases ended with
    | replied back =>
      obtain ⟨rfl, rfl⟩ := Call.runs_reply_iff.mp ht
      exact .inl ⟨back, by rwa [List.append_nil], rfl⟩
    | failed fault =>
      cases ht with
      | report ht =>
        obtain ⟨rfl, rfl⟩ := Call.runs_reply_iff.mp ht
        exact .inr ⟨inner, fault, hn, rfl, rfl⟩
  · rintro (⟨back, hn, rfl⟩ | ⟨before, fault, hn, rfl, rfl⟩)
    · exact Call.runs_rescue_iff.mpr ⟨trace, _, [], hn, .reply back, (List.append_nil trace).symm⟩
    · exact Call.runs_rescue_iff.mpr ⟨before, _, _, hn, .report (.reply _), rfl⟩

/-- Whatever is inside, restore replies. A panic is answered on the context as it came in and logged
once, and every other call is left as it is. It is the only error of the call where the handler
reports none, since the other middleware never does. The middleware outside of restore goes on from
either reply. -/
theorem restore_recovers (name : String) (inner : List Middleware) (handler : Handler) :
    let next := (compose inner handler).handler
    let restored := ((restore name).invoke next).handler
    (∀ ctx trace fault, ¬ (restored ctx).Runs trace (.failed fault)) ∧
    (∀ ctx trace outcome, (restored ctx).Runs trace outcome ↔
      (∃ back, (next ctx).Runs trace (.replied back) ∧ outcome = .replied back) ∨
      ∃ before fault, (next ctx).Runs before (.failed fault) ∧
        trace = before ++ [.report (.recovered ctx.request.method ctx.request.path fault.text)] ∧
        outcome = .replied { ctx with response :=
          { ctx.response with status := 500, body := Utf8.encode "unknown server error" } }) ∧
    (∀ links : List Link, links.map (·.middleware) = inner → ∀ ctx before fault,
      (next ctx).Runs before (.failed fault) ↔ Panics handler links ctx before fault) ∧
    (∀ ctx, (next ctx).Quiet → ∀ trace outcome, (restored ctx).Runs trace outcome →
      (errors trace = [] ∧ (next ctx).Runs trace outcome) ∨
      ∃ before fault, (next ctx).Runs before (.failed fault) ∧
        errors trace = [.recovered ctx.request.method ctx.request.path fault.text]) ∧
    (∀ links : List Link, links.map (·.middleware) = inner → (∀ link ∈ links, link.BuiltIn) →
      (∀ ctx, (handler ctx).Quiet) → ∀ ctx, (next ctx).Quiet) ∧
    (∀ layers outer, List.Forall₂ Describes layers outer → ∀ ctx trace last,
      Part.of (compose (outer ++ restore name :: inner) handler).handler ctx trace last ↔
        Passage layers restored ctx trace last) := by
  intro next restored
  refine ⟨?never, ?outcomes, ?panics, ?logged, ?quiet, ?outside⟩
  case never =>
    intro ctx trace fault h
    rcases runs_restore_iff.mp h with ⟨_, _, he⟩ | ⟨_, _, _, _, he⟩ <;> cases he
  case outcomes =>
    intro ctx trace outcome
    exact runs_restore_iff
  case panics =>
    rintro links rfl ctx before fault
    exact panics_iff
  case logged =>
    intro ctx hquiet trace outcome h
    rcases runs_restore_iff.mp h with ⟨back, hn, rfl⟩ | ⟨before, fault, hn, rfl, rfl⟩
    · exact .inl ⟨hquiet hn, hn⟩
    · refine .inr ⟨before, fault, hn, ?_⟩
      rw [errors_append, hquiet hn]
      rfl
  case quiet =>
    rintro links rfl hlinks hhandler ctx
    exact Link.quiet_wrap (fun link hm => (hlinks link hm).quiet) hhandler ctx
  case outside =>
    intro layers outer hd ctx trace last
    rw [compose_append]
    exact runs_compose_iff hd

/-- A handler that panics in time behind a deadline, inside of restore and of a stopwatch. -/
theorem restore_recovers_explosion :
    let handler := Script.handler [.status 201, .set "user" "ada", .panic (.said "boom")]
    let ctx := Context.ofRequest ⟨"GET", "/explode", .empty, [], none⟩
    let back : Context :=
      { ctx with response := ⟨500, .empty, Utf8.encode "unknown server error"⟩ }
    let recovered := Event.recovered "GET" "/explode" "boom"
    (errors [.report recovered]).length = 1 ∧
      Part.of (compose [timing "timing", restore "restore", deadline "timeout" (.ofMillis 250)]
          handler).handler ctx [.clock 3, .report recovered, .clock 5]
        (back.set "request_time" (.duration ⟨2⟩)) := by
  intro handler ctx back recovered
  have hlinks : [Link.deadline "timeout" (.ofMillis 250)].map (·.middleware) =
      [deadline "timeout" (.ofMillis 250)] := rfl
  obtain ⟨-, houtcomes, hpanics, hlogged, hquiet, houtside⟩ :=
    restore_recovers "restore" [deadline "timeout" (.ofMillis 250)] handler
  have htime : (Link.deadline "timeout" (.ofMillis 250)).manner (Link.wrap [] handler) ctx
      (.enters (.passes [] ctx)) := Manner.Races.inTime
  have hhandler : (handler ctx).Runs [] (.failed (.said "boom")) := .panic _
  have hfails := (hpanics _ hlinks ctx _ _).mpr (.inside htime rfl (.handler hhandler))
  have hback := (houtcomes ctx _ _).mpr (.inr ⟨[], .said "boom", hfails, rfl, rfl⟩)
  constructor
  · have hbuiltIn : ∀ link ∈ [Link.deadline "timeout" (.ofMillis 250)], link.BuiltIn :=
      List.forall_mem_singleton.mpr (.deadline "timeout" (.ofMillis 250))
    have hinner := hquiet _ hlinks hbuiltIn (Script.quiet_handler _) ctx
    rcases hlogged ctx hinner _ _ hback with ⟨h, _⟩ | ⟨_, _, _, h⟩
    · cases h
    · exact congrArg List.length h
  · have htiming : List.Forall₂ Describes [.timing] [timing "timing"] :=
      .cons (describes_timing "timing") .nil
    have hafter : (Call.clock fun stop => .reply
        (back.set "request_time" (.duration ⟨stop - 3⟩))).Runs [.clock 5]
        (.replied (back.set "request_time" (.duration ⟨2⟩))) := .clock (.reply _)
    exact (houtside _ _ htiming ctx _ _).mpr
      (.intro (.call ⟨3, rfl⟩ rfl (.handler _)) hback (.cons hafter (.nil _)) rfl)

end Middleware

end Switchboard
