import Switchboard.Proofs.Middleware.Panics
import Switchboard.Proofs.Router.Chains
import Switchboard.Proofs.Service.Dates
import Switchboard.Service.Front

/-! Authentication as a gate: what is inside of it has no part in a request that it refuses. -/

namespace Switchboard

/-- Handlers that do the same on a date on every context with a request. -/
def Agree (date : Nat) (request : Request) (first second : Handler) : Prop :=
  ∀ ctx : Context, ctx.request = request → (first ctx).onDate date = (second ctx).onDate date

variable {date : Nat} {request : Request} {first second : Handler}

namespace Agree

variable {ctx : Context} (h : Agree date ctx.request first second)
include h

theorem here : (first ctx).onDate date = (second ctx).onDate date :=
  h ctx rfl

theorem mapResponse (f : Response → Response) :
    (first (ctx.mapResponse f)).onDate date = (second (ctx.mapResponse f)).onDate date :=
  h (ctx.mapResponse f) rfl

theorem replyText (text : String) :
    (first (ctx.replyText text)).onDate date = (second (ctx.replyText text)).onDate date :=
  h (ctx.replyText text) rfl

theorem set (key : String) (value : Value) :
    (first (ctx.set key value)).onDate date = (second (ctx.set key value)).onDate date :=
  h (ctx.set key value) rfl

end Agree

mutual

-- The actions of a script may change everything in a context but its request.
theorem Action.onDate_run : (action : Action) → (ctx : Context) → {first second : Handler} →
    Agree date ctx.request first second →
    (action.run ctx first).onDate date = (action.run ctx second).onDate date
  | .status _, _, _, _, h => h.mapResponse _
  | .body _, _, _, _, h => h.mapResponse _
  | .header name value, ctx, _, _, h => by
    simp only [Action.run]
    split
    · exact h.mapResponse _
    · exact congrArg (Call.report _) h.here
  | .append _, _, _, _, h => h.replyText _
  | .echo, _, _, _, h => h.mapResponse _
  | .upper, _, _, _, h => h.replyText _
  | .param _, _, _, _, h => h.replyText _
  | .params, _, _, _, h => h.replyText _
  | .request, _, _, _, h => h.replyText _
  | .value _, _, _, _, h => h.replyText _
  | .set _ _, _, _, _, h => h.set _ _
  | .clear, _, _, _, h => h.mapResponse _
  | .log _, ctx, _, _, h => congrArg (Call.journal _) h.here
  | .sleep _, ctx, _, _, h => congrArg (Call.sleep _) h.here
  | .panic _, _, _, _, _ => rfl
  | .ifHeader name actions, ctx, _, _, h => by
    simp only [Action.run]
    split
    · exact Script.onDate_run actions ctx h
    · exact h.here
  | .ifPath path actions, ctx, _, _, h => by
    simp only [Action.run]
    split
    · exact Script.onDate_run actions ctx h
    · exact h.here

/-- A script goes on with the request that it was given. -/
theorem Script.onDate_run : (script : Script) → (ctx : Context) → {first second : Handler} →
    Agree date ctx.request first second →
    (Script.run script ctx first).onDate date = (Script.run script ctx second).onDate date
  | [], _, _, _, h => h.here
  | action :: rest, ctx, first, second, h => by
    have hrest : Agree date ctx.request (Script.run rest · first) (Script.run rest · second) := by
      intro ctx' hctx
      rw [← hctx] at h
      exact Script.onDate_run rest ctx' h
    rw [Script.run, Script.run]
    exact Action.onDate_run action ctx hrest

end

namespace Middleware

/-- Middleware that uses what is inside by calling it alone, and with the request as it came. -/
def PassesRequest (m : Middleware) : Prop :=
  ∀ ⦃date : Nat⦄ ⦃request : Request⦄ ⦃first second : Handler⦄, Agree date request first second →
    Agree date request (m.invoke first).handler (m.invoke second).handler

theorem agree_compose {outer : List Middleware} (ho : ∀ m ∈ outer, m.PassesRequest)
    (h : Agree date request first second) :
    Agree date request (compose outer first).handler (compose outer second).handler := by
  induction outer with
  | nil => exact h
  | cons m outer ih =>
    exact ho m List.mem_cons_self (ih fun m hm => ho m (List.mem_cons_of_mem _ hm))

theorem onDate_andThen_congr {call call' : Call} (h : call.onDate date = call'.onDate date)
    (next : Context → Call) :
    (call.andThen next).onDate date = (call'.andThen next).onDate date := by
  rw [Call.onDate_andThen, Call.onDate_andThen, h]

theorem passesRequest_scripted (name : String) (before after : Script) (skip : Bool) :
    (scripted name before after skip).PassesRequest := by
  rintro date _ first second h ctx rfl
  refine congrArg (Call.journal _) (Script.onDate_run before ctx fun ctx' hctx => ?_)
  cases skip with
  | true => rfl
  | false => exact onDate_andThen_congr (h ctx' hctx) _

theorem passesRequest_timing (name : String) : (timing name).PassesRequest := by
  rintro date _ first second h ctx rfl
  exact congrArg Call.clock (funext fun start => onDate_andThen_congr (h.here) _)

theorem passesRequest_auth (name : String) (v : Token.Verifier) (key : String) :
    (auth name v key).PassesRequest := by
  rintro date _ first second h ctx rfl
  simp only [auth, plain, Call.onDate]
  split
  · exact h _ rfl
  · rfl

theorem passesRequest_cors (name : String) (policy : Cors.Policy) :
    (cors name policy).PassesRequest := by
  rintro date _ first second h ctx rfl
  simp only [cors, plain]
  split
  · exact h.here
  · split
    · rfl
    · exact h _ rfl

theorem passesRequest_limiter (l : Limiter) (sweeper : Option Nat) :
    (l.middleware sweeper).PassesRequest := by
  rintro date _ first second h ctx rfl
  simp only [Limiter.middleware, plain, Limiter.wrap]
  split
  · exact h.here
  · split
    · rfl
    · simp only [Call.onDate]
      congr 1
      funext decision
      cases decision with
      | admitted remaining => exact h _ rfl
      | rejected wait retry => rfl

theorem passesRequest_deadline (name : String) (limit : Duration) :
    (deadline name limit).PassesRequest := by
  rintro date _ first second h ctx rfl
  simp only [deadline, plain, Call.onDate, h.here]

theorem passesRequest_restore (name : String) : (restore name).PassesRequest := by
  rintro date _ first second h ctx rfl
  simp only [restore, plain, Call.onDate, h.here]

end Middleware

namespace Setup

theorem exists_of_bind_eq_ok {ε α β : Type} {x : Except ε α} {f : α → Except ε β} {b : β}
    (h : x >>= f = .ok b) : ∃ a, x = .ok a ∧ f a = .ok b := by
  cases x with
  | error e => cases h
  | ok a => exact ⟨a, rfl, h⟩

def PassesRequest (s : Setup) : Prop :=
  ∀ name m, s.registry.get? name = some m → m.PassesRequest

theorem PassesRequest.register {s : Setup} (h : s.PassesRequest) {m : Middleware}
    (hm : m.PassesRequest) (name : String) (limiters : List Limiter) :
    PassesRequest ⟨s.registry.register name m, limiters⟩ := by
  intro other found hf
  rw [Registry.get?, Registry.register, Table.get?_insert] at hf
  split at hf
  · obtain rfl := Option.some.inj hf
    exact hm
  · exact h other found hf

theorem PassesRequest.add {s next : Setup} (h : s.PassesRequest) {around : Surroundings}
    {name : String} {c : Config.Middleware} (ha : s.add around name c = .ok next) :
    next.PassesRequest := by
  cases c with
  | rateLimit c =>
    obtain ⟨settings, -, hnext⟩ := exists_of_bind_eq_ok ha
    obtain rfl := Except.ok.inj hnext
    exact h.register (Middleware.passesRequest_limiter _ _) _ _
  | timing =>
    obtain rfl := Except.ok.inj ha
    exact h.register (Middleware.passesRequest_timing name) _ _
  | restore =>
    obtain rfl := Except.ok.inj ha
    exact h.register (Middleware.passesRequest_restore name) _ _
  | timeout c =>
    obtain ⟨limit, -, hnext⟩ := exists_of_bind_eq_ok ha
    obtain rfl := Except.ok.inj hnext
    exact h.register (Middleware.passesRequest_deadline _ _) _ _
  | cors c =>
    obtain ⟨policy, -, hnext⟩ := exists_of_bind_eq_ok ha
    obtain rfl := Except.ok.inj hnext
    exact h.register (Middleware.passesRequest_cors _ _) _ _
  | jwt c =>
    obtain ⟨v, -, hnext⟩ := exists_of_bind_eq_ok ha
    obtain rfl := Except.ok.inj hnext
    exact h.register (Middleware.passesRequest_auth _ _ _) _ _

theorem PassesRequest.addAll {s last : Setup} (h : s.PassesRequest) {around : Surroundings}
    {configs : List (String × Config.Middleware)} (ha : s.addAll around configs = .ok last) :
    last.PassesRequest := by
  induction configs generalizing s with
  | nil =>
    obtain rfl := Except.ok.inj ha
    exact h
  | cons config rest ih =>
    obtain ⟨next, hadd, hrest⟩ := exists_of_bind_eq_ok ha
    exact ih (h.add hadd) hrest

/-- Whatever a configuration describes passes the request on. -/
theorem passesRequest_ofConfig {around : Surroundings} {configs : Table Config.Middleware}
    {s : Setup} (h : ofConfig around configs = .ok s) : s.PassesRequest := by
  have hempty : empty.PassesRequest := fun _ _ hf => by cases hf
  exact hempty.addAll h

end Setup

namespace Middleware

section Gate

variable {v : Token.Verifier} {name key : String} {next : Handler} {ctx : Context}
  {trace : List Exchange} {outcome : Outcome}

theorem claimsOf_eq_ok_iff {claims : Json} :
    Auth.claimsOf v date request = .ok claims ↔
      ∃ token, Token.bearer? request.headers = .ok token ∧
        Token.verify v date token = .ok claims := by
  rw [Auth.claimsOf]
  cases Token.bearer? request.headers <;> simp [Except.bind]

theorem claimsOf_eq_error_iff {reason : Token.AuthError} :
    Auth.claimsOf v date request = .error reason ↔
      Token.bearer? request.headers = .error reason ∨
        ∃ token, Token.bearer? request.headers = .ok token ∧
          Token.verify v date token = .error reason := by
  rw [Auth.claimsOf]
  cases Token.bearer? request.headers <;> simp [Except.bind]

/-- A gate asks for the date, and then lets a request in with its claims or answers it. -/
theorem runs_auth_iff :
    (((auth name v key).invoke next).handler ctx).Runs trace outcome ↔
      ∃ date,
        (∃ claims tail, Auth.claimsOf v date ctx.request = .ok claims ∧
          (next (ctx.set key (.json claims))).Runs tail outcome ∧ trace = .today date :: tail) ∨
        ∃ reason, Auth.claimsOf v date ctx.request = .error reason ∧
          trace = [.today date,
            .report (.authenticationFailed ctx.request.path reason.message)] ∧
          outcome = .replied
            (ctx.mapResponse (Rejection.unauthorized reason.message).writeTo) := by
  rw [show ((auth name v key).invoke next).handler ctx =
    ((Link.auth name v key).middleware.invoke next).handler ctx from rfl, Link.goes_iff]
  constructor
  · rintro (⟨fault, h, -⟩ | ⟨frame, tail, h, hn, rfl⟩)
    · cases h
    · cases h with
      | @valid date claims hc =>
        exact ⟨date, .inl ⟨claims, tail, hc, runs_passes_iff.mp hn, rfl⟩⟩
      | @refused date reason hc =>
        obtain ⟨rfl, rfl⟩ := runs_answers_iff.mp hn
        exact ⟨date, .inr ⟨reason, hc, rfl, rfl⟩⟩
  · rintro ⟨date, ⟨claims, tail, hc, hn, rfl⟩ | ⟨reason, hc, rfl, rfl⟩⟩
    · exact goes_passes (fun _ => Manner.Authenticates v key) (.valid hc) hn
    · exact goes_answers (fun _ => Manner.Authenticates v key) (.refused hc)

/-- On a date on which a gate refuses a request it does not matter what is inside. -/
theorem agree_auth {reason : Token.AuthError}
    (h : Auth.claimsOf v date request = .error reason) (name key : String)
    (first second : Handler) :
    Agree date request ((auth name v key).invoke first).handler
      ((auth name v key).invoke second).handler := by
  rintro ctx rfl
  simp only [auth, plain, Call.onDate, h]

theorem onDate_compose_auth {outer : List Middleware} (ho : ∀ m ∈ outer, m.PassesRequest)
    (h : ∀ token claims, Token.bearer? ctx.request.headers = .ok token →
      Token.verify v date token ≠ .ok claims)
    (name key : String) (inner inner' : List Middleware) (handler handler' : Handler) :
    ((compose (outer ++ auth name v key :: inner) handler).handler ctx).onDate date =
      ((compose (outer ++ auth name v key :: inner') handler').handler ctx).onDate date := by
  obtain ⟨reason, hreason⟩ : ∃ reason, Auth.claimsOf v date ctx.request = .error reason := by
    cases hc : Auth.claimsOf v date ctx.request with
    | error reason => exact ⟨reason, rfl⟩
    | ok claims =>
      obtain ⟨token, ht, hv⟩ := claimsOf_eq_ok_iff.mp hc
      exact absurd hv (h token claims ht)
  rw [compose_append, compose_append]
  exact agree_compose ho (agree_auth hreason name key _ _) ctx rfl

end Gate

end Middleware

open Middleware (compose auth)

/-- What is found under a path is the chain of the route that answers for it. Wherever a gate stands
in that chain, a request that it refuses does not get past it: the gate reports and answers, and the
call ends the same and leaves the same world behind whatever is inside. A request that it does not
refuse goes on inside once, with its claims. -/
theorem Router.gate_keeps_out {registry : Registry} {base : List Middleware} {r : Router}
    {changes : List Change} {log : List Pushed}
    (h : (empty registry base).replay changes = .ok (r, log)) {path : String} {found : Handler}
    {params : Table String} (hf : r.find path = some (found, params)) :
    (∃ e ∈ log, Route.scan (log.map fun e => (e.path, e)) path = some (e, params) ∧
      found = (compose (e.base ++ e.chain) e.handler).handler ∧
      ∀ outer name v key inner, e.base ++ e.chain = outer ++ auth name v key :: inner →
        let next := (compose inner e.handler).handler
        let gate := ((auth name v key).invoke next).handler
        found = (compose outer gate).handler ∧
        (∀ ctx trace outcome, (gate ctx).Runs trace outcome ↔ ∃ date,
          (∃ token claims tail, Token.bearer? ctx.request.headers = .ok token ∧
            Token.verify v date token = .ok claims ∧
            (next { ctx with values := ctx.values.insert key (.json claims) }).Runs tail outcome ∧
            trace = .today date :: tail) ∨
          ∃ reason, (Token.bearer? ctx.request.headers = .error reason ∨
              ∃ token, Token.bearer? ctx.request.headers = .ok token ∧
                Token.verify v date token = .error reason) ∧
            trace = [.today date,
              .report (.authenticationFailed ctx.request.path reason.message)] ∧
            outcome = .replied { ctx with response :=
              { ctx.response with status := 401, body := Utf8.encode reason.message } }) ∧
        ((∀ m ∈ outer, m.PassesRequest) → ∀ (R : Type) [RateLimit.Amount R] (s : Service R) ctx,
          (∀ token claims, Token.bearer? ctx.request.headers = .ok token →
            Token.verify v s.world.date token ≠ .ok claims) →
          ∀ inner' handler',
            let other := (compose (outer ++ auth name v key :: inner') handler').handler
            (s.call (found ctx)).2 = (s.call (other ctx)).2 ∧
              (s.call (found ctx)).1.world = (s.call (other ctx)).1.world)) ∧
    (∀ around configs setup, Setup.ofConfig around configs = .ok setup → setup.PassesRequest) ∧
    ∀ name before after skip, (Middleware.scripted name before after skip).PassesRequest := by
  refine ⟨?route, fun _ _ _ hs => Setup.passesRequest_ofConfig hs,
    Middleware.passesRequest_scripted⟩
  obtain ⟨e, he, hscan, rfl⟩ := exists_of_find h hf
  refine ⟨e, he, hscan, rfl, fun outer name v key inner hchain => ⟨?inside, ?gate, ?twice⟩⟩
  case inside =>
    rw [Pushed.composed, hchain, Middleware.compose_append]
    rfl
  case gate =>
    intro ctx trace outcome
    rw [Middleware.runs_auth_iff]
    simp only [Middleware.claimsOf_eq_ok_iff, Middleware.claimsOf_eq_error_iff]
    constructor
    · rintro ⟨date, ⟨claims, tail, ⟨token, ht, hv⟩, hn, htrace⟩ | hrefused⟩
      · exact ⟨date, .inl ⟨token, claims, tail, ht, hv, hn, htrace⟩⟩
      · exact ⟨date, .inr hrefused⟩
    · rintro ⟨date, ⟨token, claims, tail, ht, hv, hn, htrace⟩ | hrefused⟩
      · exact ⟨date, .inl ⟨claims, tail, ⟨token, ht, hv⟩, hn, htrace⟩⟩
      · exact ⟨date, .inr hrefused⟩
  case twice =>
    intro ho R _ s ctx hrefused inner' handler'
    rw [Pushed.composed, hchain]
    exact s.call_eq_of_onDate (Middleware.onDate_compose_auth ho hrefused name key _ _ _ _)

/-- A gate behind a limiter, restore and a deadline, with another limiter inside of it, and a
request without a token. The handler is as good as one that panics outside of any limiter. -/
theorem Router.gate_keeps_out_stranger :
    let outer : Limiter := .ofSettings "outer" (.ofPace 10 (.ofSeconds 1)) 0
    let inner : Limiter := .ofSettings "inner" (.ofPace 10 (.ofSeconds 1)) 1
    let v := Token.Verifier.ofSecret (Utf8.encode "secret")
    let limited := Registry.empty.register "outer" (outer.middleware none)
    let restored := limited.register "restore" (.restore "restore")
    let timed := restored.register "timeout" (.deadline "timeout" (.ofSeconds 1))
    let guarded := timed.register "auth" (auth "auth" v "user")
    let registry := guarded.register "inner" (inner.middleware none)
    let s : Service Rat := .ofLimiters 0 [outer, inner] 2
    let ctx := Context.ofRequest ⟨"GET", "/orders", .empty, [], none⟩
    ∃ r log found params, (empty registry []).replay
        [.base ["outer", "restore"],
          .push "/orders" (Script.handler [.log "in", .status 201]) ["timeout", "auth", "inner"]] =
        .ok (r, log) ∧ r.find "/orders" = some (found, params) ∧
      let other := (compose [outer.middleware none, .restore "restore",
        .deadline "timeout" (.ofSeconds 1), auth "auth" v "user"]
        (Script.handler [.panic (.said "boom")])).handler
      (s.call (found ctx)).2 = (s.call (other ctx)).2 ∧
        (s.call (found ctx)).1.world = (s.call (other ctx)).1.world := by
  intro outer inner v limited restored timed guarded registry s ctx
  have h : (empty registry []).replay [.base ["outer", "restore"],
      .push "/orders" (Script.handler [.log "in", .status 201]) ["timeout", "auth", "inner"]] =
      .ok (_, [_]) := rfl
  refine ⟨_, _, _, _, h, rfl, ?_⟩
  obtain ⟨⟨e, he, -, -, hgate⟩, -⟩ := gate_keeps_out h (rfl : Router.find _ "/orders" = some (_, _))
  obtain rfl := List.mem_singleton.mp he
  obtain ⟨-, -, htwice⟩ := hgate [outer.middleware none, .restore "restore",
    .deadline "timeout" (.ofSeconds 1)] "auth" v "user" [inner.middleware none] rfl
  have hpasses : ∀ m ∈ [outer.middleware none, .restore "restore",
      .deadline "timeout" (.ofSeconds 1)], m.PassesRequest := by
    simp [Middleware.passesRequest_limiter, Middleware.passesRequest_restore,
      Middleware.passesRequest_deadline]
  have hrefused : ∀ token claims, Token.bearer? ctx.request.headers = .ok token →
      Token.verify v s.world.date token ≠ .ok claims := by
    intro token claims ht
    cases ht
  exact htwice hpasses Rat s ctx hrefused [] _

end Switchboard
