import Switchboard.Proofs.Middleware.Gatekeeping
import Switchboard.Proofs.Middleware.Recovery
import Switchboard.Proofs.RateLimit.Retry

/-! The headers for other origins. They are written before the rest of the chain runs, so they reach
the outside only because all that is inside leaves them as they are on every way out: when it
answers by itself, when it gives up on a call, and when it answers for a panic. -/

namespace Switchboard

/-- Whether a header, in any case, is one for other origins or `Vary`. -/
def Headers.Guarded (name : String) : Prop :=
  Text.lowerAscii name = "vary" ∨
    "access-control-".toList <+: (Text.lowerAscii name).toList

namespace Response

/-- Whether the guarded headers are the same. -/
def Keeps (first second : Response) : Prop :=
  ∀ name, Headers.Guarded name → second.headers.getAll name = first.headers.getAll name

variable {first second third : Response}

theorem Keeps.refl (r : Response) : r.Keeps r :=
  fun _ _ => rfl

theorem Keeps.trans (h : first.Keeps second) (h' : second.Keeps third) : first.Keeps third :=
  fun name hn => (h' name hn).trans (h name hn)

theorem keeps_of_headers_eq (h : second.headers = first.headers) : first.Keeps second :=
  fun _ _ => by rw [h]

theorem keeps_setHeader (r : Response) (name : String) (value : Bytes) (hv : name ≠ "vary")
    (ha : ¬ "access-control-".toList <+: name.toList) : r.Keeps (r.setHeader name value) := by
  intro other ho
  rw [setHeader, Headers.getAll_insert, if_neg]
  rintro rfl
  exact ho.elim hv ha

theorem keeps_writeTo (rejection : Rejection) (r : Response) : r.Keeps (rejection.writeTo r) := by
  rw [Rejection.writeTo]
  split
  · exact keeps_of_headers_eq rfl
  · exact keeps_of_headers_eq rfl

end Response

/-- A handler that replies with the guarded headers that it was given. -/
def KeepsMarks (handler : Handler) : Prop :=
  ∀ ctx trace back, (handler ctx).Runs trace (.replied back) → ctx.response.Keeps back.response

/-- A context for a request in whose response no guarded header is set. -/
def Unmarked (r : Request) (ctx : Context) : Prop :=
  ctx.request = r ∧ ∀ name, Headers.Guarded name → ctx.response.headers.getAll name = []

theorem Unmarked.of_keeps {r : Request} {ctx last : Context} (h : Unmarked r ctx)
    (hr : last.request = ctx.request) (hk : ctx.response.Keeps last.response) : Unmarked r last :=
  ⟨hr.trans h.1, fun name hn => (hk name hn).trans (h.2 name hn)⟩

theorem unmarked_ofRequest (r : Request) (params : Table String) :
    Unmarked r ((Context.ofRequest r).setParams params) :=
  ⟨rfl, fun _ _ => rfl⟩

/-! ### What is inside leaves the headers as they are -/

namespace Limiter

theorem keeps_markLimit (l : Limiter) (remaining : Nat) (r : Response) :
    r.Keeps (l.markLimit remaining r) :=
  (r.keeps_setHeader "x-ratelimit-limit" _ (by decide) (by decide)).trans
    (Response.keeps_setHeader _ "x-ratelimit-remaining" _ (by decide) (by decide))

theorem keeps_of_reject {l : Limiter} {key : String} {ctx last : Context} {retry : Nat}
    {reset : Option Nat} {event : Event}
    (h : l.reject key ctx retry reset = .report event (.reply last)) :
    ctx.response.Keeps last.response := by
  obtain ⟨-, hlast⟩ := Call.report.inj h
  obtain rfl := Call.reply.inj hlast
  have hretry : ctx.response.Keeps
      ((l.markLimit 0 ctx.response).setHeaderText "retry-after" (toString retry)) :=
    (l.keeps_markLimit 0 _).trans (Response.keeps_setHeader _ _ _ (by decide) (by decide))
  refine .trans ?_ (Response.keeps_writeTo _ _)
  cases reset with
  | none => exact hretry
  | some date =>
    exact hretry.trans (Response.keeps_setHeader _ "x-ratelimit-reset" _ (by decide) (by decide))

end Limiter

namespace Middleware

/-- Middleware that leaves the guarded headers alone, on the way in and on every way out. -/
def PassesMarks (m : Middleware) : Prop :=
  ∀ next : Handler, KeepsMarks next → KeepsMarks (m.invoke next).handler

/-- Middleware that catches no panic keeps the headers if each of its parts does. -/
theorem passesMarks_of_link (link : Link)
    (h : ∀ next ctx frame, link.manner next ctx (.enters frame) →
      ctx.response.Keeps frame.ctx.response ∧ KeepsMarks frame.after) :
    link.middleware.PassesMarks := by
  intro next hnext ctx trace back hr
  rcases link.goes_iff.mp hr with ⟨_, _, hf⟩ | ⟨frame, tail, hm, ht, -⟩
  · cases hf
  · obtain ⟨hctx, hafter⟩ := h next ctx frame hm
    obtain ⟨inner, mid, outer, hi, ho, -⟩ := Call.runs_andThen_iff.mp ht
    have hmid : frame.ctx.response.Keeps mid.response := by
      cases hc : frame.calls with
      | true =>
        rw [Frame.inner, if_pos hc] at hi
        exact hnext _ _ _ hi
      | false =>
        rw [Frame.inner, if_neg (by simp [hc])] at hi
        obtain ⟨-, hmid⟩ := Call.runs_reply_iff.mp hi
        obtain rfl := Outcome.replied.inj hmid
        exact .refl _
    exact (hctx.trans hmid).trans (hafter _ _ _ ho)

theorem keepsMarks_reply : KeepsMarks .reply := by
  intro ctx trace back h
  obtain ⟨-, hback⟩ := Call.runs_reply_iff.mp h
  obtain rfl := Outcome.replied.inj hback
  exact .refl _

theorem passesMarks_limiter (l : Limiter) (sweeper : Option Nat) :
    (l.middleware sweeper).PassesMarks := by
  refine passesMarks_of_link (.limiter l sweeper) fun next ctx frame h => ?_
  cases h with
  | uncounted => exact ⟨.refl _, keepsMarks_reply⟩
  | closed _ _ hr => exact ⟨Limiter.keeps_of_reject hr, keepsMarks_reply⟩
  | admitted => exact ⟨l.keeps_markLimit _ _, keepsMarks_reply⟩
  | rejected _ _ hr => exact ⟨Limiter.keeps_of_reject hr, keepsMarks_reply⟩

theorem passesMarks_auth (name : String) (v : Token.Verifier) (key : String) :
    (auth name v key).PassesMarks := by
  refine passesMarks_of_link (.auth name v key) fun next ctx frame h => ?_
  cases h with
  | valid => exact ⟨.refl _, keepsMarks_reply⟩
  | refused => exact ⟨Response.keeps_writeTo _ _, keepsMarks_reply⟩

theorem passesMarks_deadline (name : String) (limit : Duration) :
    (deadline name limit).PassesMarks := by
  refine passesMarks_of_link (.deadline name limit) fun next ctx frame h => ?_
  cases h with
  | inTime => exact ⟨.refl _, keepsMarks_reply⟩
  | late => exact ⟨Response.keeps_writeTo _ _, keepsMarks_reply⟩

theorem passesMarks_timing (name : String) : (timing name).PassesMarks := by
  refine passesMarks_of_link (.timing name) fun next ctx frame h => ?_
  cases h with
  | enters start =>
    refine ⟨.refl _, fun ctx trace back hr => ?_⟩
    obtain ⟨stop, tail, -, ht⟩ := Call.runs_clock_iff.mp hr
    exact keepsMarks_reply (ctx.set "request_time" _) _ _ ht

theorem passesMarks_restore (name : String) : (restore name).PassesMarks := by
  intro next hnext ctx trace back hr
  rcases runs_restore_iff.mp hr with ⟨last, hn, hback⟩ | ⟨before, fault, -, -, hback⟩
  · obtain rfl := Outcome.replied.inj hback
    exact hnext _ _ _ hn
  -- What answers for the panic is the context as it came in, and not what the panic left.
  · obtain rfl := Outcome.replied.inj hback
    exact Response.keeps_writeTo _ _

inductive Ordinary : Middleware → Prop
  | limiter (l : Limiter) (sweeper : Option Nat) : Ordinary (l.middleware sweeper)
  | auth (name : String) (v : Token.Verifier) (key : String) : Ordinary (auth name v key)
  | deadline (name : String) (limit : Duration) : Ordinary (deadline name limit)
  | timing (name : String) : Ordinary (timing name)
  | restore (name : String) : Ordinary (restore name)

theorem Ordinary.passesMarks {m : Middleware} (h : m.Ordinary) : m.PassesMarks := by
  cases h with
  | limiter => exact passesMarks_limiter _ _
  | auth => exact passesMarks_auth _ _ _
  | deadline => exact passesMarks_deadline _ _
  | timing => exact passesMarks_timing _
  | restore => exact passesMarks_restore _

theorem keepsMarks_compose {inner : List Middleware} {handler : Handler}
    (hi : ∀ m ∈ inner, m.PassesMarks) (hh : KeepsMarks handler) :
    KeepsMarks (compose inner handler).handler := by
  induction inner with
  | nil => exact hh
  | cons m inner ih =>
    exact hi m List.mem_cons_self _ (ih fun m hm => hi m (List.mem_cons_of_mem _ hm))

/-! ### What is outside calls on contexts that are not marked -/

/-- Middleware that, on contexts of a kind, depends on what is inside through calls on contexts of
this kind alone. -/
def Confines (kind : Context → Prop) (m : Middleware) : Prop :=
  ∀ ⦃first second : Handler⦄, (∀ ctx, kind ctx → first ctx = second ctx) →
    ∀ ctx, kind ctx → (m.invoke first).handler ctx = (m.invoke second).handler ctx

theorem compose_eq_of_confines {kind : Context → Prop} {outer : List Middleware}
    {first second : Handler} (ho : ∀ m ∈ outer, m.Confines kind)
    (h : ∀ ctx, kind ctx → first ctx = second ctx) :
    ∀ ctx, kind ctx → (compose outer first).handler ctx = (compose outer second).handler ctx := by
  induction outer with
  | nil => exact h
  | cons m outer ih =>
    exact ho m List.mem_cons_self (ih fun m hm => ho m (List.mem_cons_of_mem _ hm))

theorem Ordinary.confines {m : Middleware} (hm : m.Ordinary) (r : Request) :
    m.Confines (Unmarked r) := by
  intro first second h ctx hctx
  cases hm with
  | limiter l sweeper =>
    have hadmitted : ∀ remaining, first (ctx.mapResponse (l.markLimit remaining)) =
        second (ctx.mapResponse (l.markLimit remaining)) :=
      fun remaining => h _ (hctx.of_keeps rfl (l.keeps_markLimit remaining _))
    simp only [Limiter.middleware, plain, Limiter.wrap, h ctx hctx, hadmitted]
  | auth name v key =>
    have hvalid : ∀ claims, first (ctx.set key (.json claims)) =
        second (ctx.set key (.json claims)) :=
      fun claims => h _ (hctx.of_keeps rfl (.refl _))
    simp only [Middleware.auth, plain, hvalid]
  | deadline name limit => simp only [Middleware.deadline, plain, h ctx hctx]
  | timing name => simp only [Middleware.timing, plain, h ctx hctx]
  | restore name => simp only [Middleware.restore, plain, h ctx hctx]

end Middleware

/-! ### Scripts that write none of the headers -/

mutual

/-- Whether an action writes no guarded header, and clears the response only if it may. -/
def Action.Discreet (mayClear : Prop) : Action → Prop
  | .header name _ => ¬ Headers.Guarded name
  | .clear => mayClear
  | .ifHeader _ actions => Script.Discreet mayClear actions
  | .ifPath _ actions => Script.Discreet mayClear actions
  | _ => True

def Script.Discreet (mayClear : Prop) : Script → Prop
  | [] => True
  | action :: rest => action.Discreet mayClear ∧ Script.Discreet mayClear rest

end

theorem Response.keeps_set? {r : Response} {name value : String} {headers : Headers}
    (hn : ¬ Headers.Guarded name) (h : r.headers.set? name value = some headers) :
    r.Keeps { r with headers := headers } := by
  intro other ho
  rw [Headers.set?, Headers.name?] at h
  split at h
  · rename_i key hkey
    split at hkey
    · obtain rfl := Option.some.inj hkey
      split at h
      · obtain rfl := Option.some.inj h
        rw [Headers.getAll_insert, if_neg]
        intro heq
        rw [Headers.Guarded, heq] at ho
        exact hn ho
      · cases h
    · cases hkey
  · cases h

/-- Contexts of a kind stay so as long as their request and their guarded headers are kept, and
after the response is cleared if it may be. -/
structure Context.Stays (mayClear : Prop) (kind : Context → Prop) : Prop where
  of_keeps : ∀ ⦃ctx last : Context⦄, kind ctx → last.request = ctx.request →
    ctx.response.Keeps last.response → kind last
  fresh : mayClear → ∀ ⦃ctx : Context⦄, kind ctx → kind (ctx.mapResponse fun _ => .fresh)

/-- Relations of calls that go with the steps of a script. -/
structure Call.Steps (related : Call → Call → Prop) : Prop where
  panic (fault : Fault) : related (.panic fault) (.panic fault)
  journal {first second : Call} (line : String) (h : related first second) :
    related (.journal line first) (.journal line second)
  report {first second : Call} (event : Event) (h : related first second) :
    related (.report event first) (.report event second)
  sleep {first second : Call} (span : Duration) (h : related first second) :
    related (.sleep span first) (.sleep span second)

section Scripts

variable {mayClear : Prop} {kind : Context → Prop} {ctx : Context}

theorem Context.Stays.mapResponse (hk : Stays mayClear kind) (hctx : kind ctx)
    {f : Response → Response} (hf : (f ctx.response).headers = ctx.response.headers) :
    kind (ctx.mapResponse f) :=
  hk.of_keeps hctx rfl (Response.keeps_of_headers_eq hf)

theorem Context.Stays.replyText (hk : Stays mayClear kind) (hctx : kind ctx) (text : String) :
    kind (ctx.replyText text) :=
  hk.mapResponse hctx rfl

variable {related : Call → Call → Prop}

mutual

theorem Action.related_run (hr : Call.Steps related) (hk : Context.Stays mayClear kind) :
    (action : Action) → action.Discreet mayClear → (ctx : Context) → kind ctx →
    (first second : Handler) → (∀ last, kind last → related (first last) (second last)) →
    related (action.run ctx first) (action.run ctx second)
  | .status _, _, ctx, hctx, _, _, h => h _ (hk.mapResponse hctx rfl)
  | .body _, _, ctx, hctx, _, _, h => h _ (hk.mapResponse hctx rfl)
  | .header name value, hd, ctx, hctx, _, _, h => by
    simp only [Action.run]
    split
    · rename_i headers hset
      exact h _ (hk.of_keeps hctx rfl (Response.keeps_set? hd hset))
    · exact hr.report _ (h ctx hctx)
  | .append _, _, ctx, hctx, _, _, h => h _ (hk.replyText hctx _)
  | .echo, _, ctx, hctx, _, _, h => h _ (hk.mapResponse hctx rfl)
  | .upper, _, ctx, hctx, _, _, h => h _ (hk.replyText hctx _)
  | .param _, _, ctx, hctx, _, _, h => h _ (hk.replyText hctx _)
  | .params, _, ctx, hctx, _, _, h => h _ (hk.replyText hctx _)
  | .request, _, ctx, hctx, _, _, h => h _ (hk.replyText hctx _)
  | .value _, _, ctx, hctx, _, _, h => h _ (hk.replyText hctx _)
  | .set key text, _, ctx, hctx, _, _, h =>
    h (ctx.set key (.text text)) (hk.of_keeps hctx rfl (.refl _))
  | .clear, hd, ctx, hctx, _, _, h => h _ (hk.fresh hd hctx)
  | .log line, _, ctx, hctx, _, _, h => hr.journal line (h ctx hctx)
  | .sleep span, _, ctx, hctx, _, _, h => hr.sleep span (h ctx hctx)
  | .panic fault, _, _, _, _, _, _ => hr.panic fault
  | .ifHeader name actions, hd, ctx, hctx, _, _, h => by
    simp only [Action.run]
    split
    · exact Script.related_run hr hk actions hd ctx hctx _ _ h
    · exact h ctx hctx
  | .ifPath path actions, hd, ctx, hctx, _, _, h => by
    simp only [Action.run]
    split
    · exact Script.related_run hr hk actions hd ctx hctx _ _ h
    · exact h ctx hctx

/-- A discreet script goes on with contexts of the kind that it was given. -/
theorem Script.related_run (hr : Call.Steps related) (hk : Context.Stays mayClear kind) :
    (script : Script) → Script.Discreet mayClear script → (ctx : Context) → kind ctx →
    (first second : Handler) → (∀ last, kind last → related (first last) (second last)) →
    related (Script.run script ctx first) (Script.run script ctx second)
  | [], _, ctx, hctx, _, _, h => h ctx hctx
  | action :: rest, hd, ctx, hctx, _, _, h => by
    rw [Script.run, Script.run]
    exact Action.related_run hr hk action hd.1 ctx hctx _ _ fun mid hmid =>
      Script.related_run hr hk rest hd.2 mid hmid _ _ h

end

end Scripts

theorem Script.keepsMarks {script : Script} (h : script.Discreet False) :
    KeepsMarks (Script.handler script) := by
  intro ctx
  -- Of two related calls only the first counts.
  let related : Call → Call → Prop := fun call _ =>
    ∀ trace back, call.Runs trace (.replied back) → ctx.response.Keeps back.response
  have hrelated : Call.Steps related := by
    constructor
    · rintro fault trace back hr
      cases hr
    · rintro first second line h trace back hr
      cases hr with
      | journal hr => exact h _ _ hr
    · rintro first second event h trace back hr
      cases hr with
      | report hr => exact h _ _ hr
    · rintro first second span h trace back hr
      cases hr with
      | sleep hr => exact h _ _ hr
  have hstays : Context.Stays False fun last => ctx.response.Keeps last.response :=
    ⟨fun _ _ h _ hk => h.trans hk, False.elim⟩
  have hreply : ∀ last, ctx.response.Keeps last.response →
      related (.reply last) (.reply last) :=
    fun last hlast _ _ hr => hlast.trans (Middleware.keepsMarks_reply _ _ _ hr)
  exact Script.related_run hrelated hstays script h ctx (.refl _) .reply .reply hreply

/-- Scripts before the call inside may clear the response, and those after it may do anything. -/
theorem Middleware.confines_scripted (name : String) {before : Script} (after : Script)
    (skip : Bool) (h : before.Discreet True) (r : Request) :
    (scripted name before after skip).Confines (Unmarked r) := by
  intro first second hsame ctx hctx
  have hequal : Call.Steps Eq := by
    constructor
    · exact fun _ => rfl
    · exact fun line h => congrArg (Call.journal line) h
    · exact fun event h => congrArg (Call.report event) h
    · exact fun span h => congrArg (Call.sleep span) h
  have hstays : Context.Stays True (Unmarked r) :=
    ⟨fun _ _ h hr hk => h.of_keeps hr hk, fun _ _ h => ⟨h.1, fun _ _ => rfl⟩⟩
  refine congrArg (Call.journal _) (Script.related_run hequal hstays before h ctx hctx _ _ ?_)
  intro last hlast
  rw [hsame last hlast]

/-! ### What a configuration promises -/

namespace Middleware.Cors

/-- The `Origin` of a request that the configuration admits: it is text, and it or a star is listed,
or nothing is. -/
def Admits (c : Config.Cors) (r : Request) (origin : Bytes) : Prop :=
  r.headers.get? "origin" = some origin ∧ ∃ text, Headers.textOf? origin = some text ∧
    (c.allowOrigins = [] ∨ "*" ∈ c.allowOrigins ∨ text ∈ c.allowOrigins)

/-- The headers for an admitted origin. -/
structure Marks (c : Config.Cors) (origin : Bytes) (h : Headers) : Prop where
  origin_eq : h.getAll "access-control-allow-origin" = [origin]
  vary_eq : h.getAll "vary" = [Utf8.encode "Origin"]
  credentials_eq : h.getAll "access-control-allow-credentials" =
    if c.allowCredentials then [Utf8.encode "true"] else []
  expose_eq : h.getAll "access-control-expose-headers" =
    if c.exposeHeaders = [] then [] else [Utf8.encode (", ".intercalate c.exposeHeaders)]

/-- The further headers of the answer to a preflight request. -/
structure Permits (c : Config.Cors) (h : Headers) : Prop where
  methods_eq : h.getAll "access-control-allow-methods" =
    [Utf8.encode (", ".intercalate (orDefault c.allowMethods defaultMethods))]
  headers_eq : h.getAll "access-control-allow-headers" =
    [Utf8.encode (", ".intercalate (orDefault c.allowHeaders defaultHeaders))]
  maxAge_eq : h.getAll "access-control-max-age" =
    [Utf8.encode (toString ((c.maxAge.filter (0 < ·)).getD 86400))]

variable {name : String} {c : Config.Cors} {policy : Policy}

theorem eq_of_listValue {field : String} {words : List String} {value : Bytes}
    (h : listValue name field words = .ok value) :
    value = Utf8.encode (", ".intercalate words) := by
  rw [listValue] at h
  split at h
  · exact (Except.ok.inj h).symm
  · cases h

theorem Policy.ofConfig_eq (h : ofConfig name c = .ok policy) :
    policy =
      { origins := orDefault c.allowOrigins ["*"]
        methods := Utf8.encode (", ".intercalate (orDefault c.allowMethods defaultMethods))
        headers := Utf8.encode (", ".intercalate (orDefault c.allowHeaders defaultHeaders))
        expose := if c.exposeHeaders = [] then none
          else some (Utf8.encode (", ".intercalate c.exposeHeaders))
        credentials := c.allowCredentials
        maxAge := (c.maxAge.filter (0 < ·)).getD 86400 } := by
  rw [ofConfig] at h
  by_cases he : c.exposeHeaders = []
  · rw [if_pos (by rw [he]; rfl)] at h
    obtain ⟨expose, hx, h⟩ := Setup.exists_of_bind_eq_ok h
    obtain ⟨methods, hm, h⟩ := Setup.exists_of_bind_eq_ok h
    obtain ⟨headers, hh, h⟩ := Setup.exists_of_bind_eq_ok h
    obtain rfl := Except.ok.inj h
    obtain rfl := Except.ok.inj hx
    rw [eq_of_listValue hm, eq_of_listValue hh, if_pos he]
  · rw [if_neg (by simpa using he)] at h
    obtain ⟨expose, hx, h⟩ := Setup.exists_of_bind_eq_ok h
    obtain ⟨value, hv, hx⟩ := Setup.exists_of_bind_eq_ok hx
    obtain ⟨methods, hm, h⟩ := Setup.exists_of_bind_eq_ok h
    obtain ⟨headers, hh, h⟩ := Setup.exists_of_bind_eq_ok h
    obtain rfl := Except.ok.inj h
    obtain rfl := Except.ok.inj hx
    rw [eq_of_listValue hm, eq_of_listValue hh, if_neg he, eq_of_listValue hv]

theorem admits_iff (h : Policy.ofConfig name c = .ok policy) (text : String) :
    policy.admits text = true ↔
      c.allowOrigins = [] ∨ "*" ∈ c.allowOrigins ∨ text ∈ c.allowOrigins := by
  have hany : ∀ origins : List String,
      (origins.any fun allowed => allowed == "*" || allowed == text) = true ↔
        "*" ∈ origins ∨ text ∈ origins := by
    simp only [List.any_eq_true, Bool.or_eq_true, beq_iff_eq, and_or_left, exists_or,
      exists_eq_right, implies_true]
  rw [Policy.ofConfig_eq h, Policy.admits, hany, orDefault]
  cases c.allowOrigins with
  | nil => simp
  | cons origin origins => simp

theorem origin?_eq_some_iff (h : Policy.ofConfig name c = .ok policy) {r : Request}
    {origin : Bytes} : policy.origin? r = some origin ↔ Admits c r origin := by
  rw [Policy.origin?, Option.filter_eq_some_iff, Admits]
  refine and_congr_right fun _ => ?_
  cases Headers.textOf? origin with
  | none => simp
  | some text => simp [admits_iff h]

theorem getAll_setHeader (r : Response) (name other : String) (value : Bytes) :
    (r.setHeader name value).headers.getAll other =
      if Text.lowerAscii other = name then [value] else r.headers.getAll other :=
  Headers.getAll_insert ..

theorem getAll_mark (p : Policy) (origin : Bytes) (r : Response) (name : String) :
    (p.mark origin r).headers.getAll name =
      if Text.lowerAscii name = "access-control-allow-origin" then [origin]
      else if Text.lowerAscii name = "vary" then [Utf8.encode "Origin"]
      else if Text.lowerAscii name = "access-control-allow-credentials" ∧ p.credentials = true then
        [Utf8.encode "true"]
      else if Text.lowerAscii name = "access-control-expose-headers" ∧ p.expose.isSome = true then
        p.expose.toList
      else r.headers.getAll name := by
  -- No name is written twice, so the order of the writes does not show.
  simp only [Policy.mark, Response.setHeaderText]
  cases p.credentials <;> cases p.expose <;>
    simp only [getAll_setHeader, Bool.false_eq_true, if_false, if_true] <;> grind

theorem getAll_answerPreflight (p : Policy) (r : Response) (name : String) :
    (p.answerPreflight r).headers.getAll name =
      if Text.lowerAscii name = "access-control-allow-methods" then [p.methods]
      else if Text.lowerAscii name = "access-control-allow-headers" then [p.headers]
      else if Text.lowerAscii name = "access-control-max-age" then [Utf8.encode (toString p.maxAge)]
      else r.headers.getAll name := by
  simp only [Policy.answerPreflight, Response.setHeaderText, Response.setStatus, getAll_setHeader]
  grind

/-- The names of all headers that are written for other origins. -/
def names : List String :=
  ["access-control-allow-origin", "vary", "access-control-allow-credentials",
    "access-control-expose-headers", "access-control-allow-methods", "access-control-allow-headers",
    "access-control-max-age"]

theorem lowerAscii_names : ∀ name ∈ names, Text.lowerAscii name = name := by
  decide +kernel

theorem guarded_names : ∀ name ∈ names, Headers.Guarded name := by
  intro name hn
  rw [Headers.Guarded, lowerAscii_names name hn]
  revert name
  decide

theorem ne_of_not_guarded {name key : String} (h : ¬ Headers.Guarded name) (hk : key ∈ names) :
    Text.lowerAscii name ≠ key := by
  rintro rfl
  have hg := guarded_names _ hk
  rw [Headers.Guarded, lowerAscii_names _ hk] at hg
  exact h hg

theorem marks_mark (h : Policy.ofConfig name c = .ok policy) (origin : Bytes) {r : Response}
    (hr : ∀ name, Headers.Guarded name → r.headers.getAll name = []) :
    Marks c origin (policy.mark origin r).headers := by
  obtain rfl := Policy.ofConfig_eq h
  constructor
  · rw [getAll_mark, lowerAscii_names _ (by decide), if_pos rfl]
  · rw [getAll_mark, lowerAscii_names _ (by decide)]
    rfl
  · rw [getAll_mark, lowerAscii_names _ (by decide), hr _ (guarded_names _ (by decide))]
    cases c.allowCredentials <;> simp
  · rw [getAll_mark, lowerAscii_names _ (by decide), hr _ (guarded_names _ (by decide))]
    by_cases he : c.exposeHeaders = [] <;> simp [he]

theorem Marks.of_keeps {origin : Bytes} {first second : Response} (h : Marks c origin first.headers)
    (hk : first.Keeps second) : Marks c origin second.headers where
  origin_eq := (hk _ (guarded_names _ (by decide))).trans h.origin_eq
  vary_eq := (hk _ (guarded_names _ (by decide))).trans h.vary_eq
  credentials_eq := (hk _ (guarded_names _ (by decide))).trans h.credentials_eq
  expose_eq := (hk _ (guarded_names _ (by decide))).trans h.expose_eq

theorem Marks.answerPreflight {origin : Bytes} {r : Response} (h : Marks c origin r.headers)
    (p : Policy) : Marks c origin (p.answerPreflight r).headers := by
  constructor
  all_goals rw [getAll_answerPreflight, lowerAscii_names _ (by decide)]
  · exact h.origin_eq
  · exact h.vary_eq
  · exact h.credentials_eq
  · exact h.expose_eq

theorem permits_answerPreflight (h : Policy.ofConfig name c = .ok policy) (r : Response) :
    Permits c (policy.answerPreflight r).headers := by
  obtain rfl := Policy.ofConfig_eq h
  constructor
  all_goals rw [getAll_answerPreflight, lowerAscii_names _ (by decide)]
  all_goals rfl

theorem getAll_mark_of_not_guarded (p : Policy) (origin : Bytes) (r : Response) {name : String}
    (h : ¬ Headers.Guarded name) :
    (p.mark origin r).headers.getAll name = r.headers.getAll name := by
  have hne : ∀ key ∈ names, Text.lowerAscii name ≠ key := fun _ => ne_of_not_guarded h
  rw [getAll_mark, if_neg (hne _ (by decide)), if_neg (hne _ (by decide)),
    if_neg fun hk => hne _ (by decide) hk.1, if_neg fun hk => hne _ (by decide) hk.1]

theorem getAll_answerPreflight_of_not_guarded (p : Policy) (r : Response) {name : String}
    (h : ¬ Headers.Guarded name) :
    (p.answerPreflight r).headers.getAll name = r.headers.getAll name := by
  have hne : ∀ key ∈ names, Text.lowerAscii name ≠ key := fun _ => ne_of_not_guarded h
  rw [getAll_answerPreflight, if_neg (hne _ (by decide)), if_neg (hne _ (by decide)),
    if_neg (hne _ (by decide))]

theorem mark_eq (p : Policy) (origin : Bytes) (r : Response) :
    p.mark origin r = { r with headers := (p.mark origin r).headers } := by
  rw [Policy.mark]
  cases p.credentials <;> cases p.expose <;> rfl

theorem answerPreflight_mark_eq (p : Policy) (origin : Bytes) (r : Response) :
    p.answerPreflight (p.mark origin r) =
      { r with status := 204, headers := (p.answerPreflight (p.mark origin r)).headers } := by
  rw [mark_eq]
  rfl

theorem isPreflight_iff {r : Request} :
    isPreflight r = true ↔
      r.method = "OPTIONS" ∧ (r.headers.get? "access-control-request-method").isSome = true := by
  rw [isPreflight, Bool.and_eq_true, beq_iff_eq]
  rfl

end Middleware.Cors

namespace Middleware

open Cors (Admits Marks Permits isPreflight)

variable {name : String} {c : Config.Cors} {policy : Cors.Policy} {ctx : Context}

theorem cors_of_not_admits (hp : Cors.Policy.ofConfig name c = .ok policy)
    (h : ∀ origin, ¬ Admits c ctx.request origin) (next : Handler) :
    ((cors name policy).invoke next).handler ctx = next ctx := by
  have hnone : policy.origin? ctx.request = none := by
    rw [Option.eq_none_iff_forall_ne_some]
    exact fun origin ho => h origin ((Cors.origin?_eq_some_iff hp).mp ho)
  simp only [cors, plain, hnone]

theorem cors_of_preflight {origin : Bytes} (ho : policy.origin? ctx.request = some origin)
    (h : isPreflight ctx.request = true) (next : Handler) :
    ((cors name policy).invoke next).handler ctx =
      .reply { ctx with response := { ctx.response with
        status := 204
        headers := (policy.answerPreflight (policy.mark origin ctx.response)).headers } } := by
  simp only [cors, plain, ho, h, if_true]
  exact congrArg (fun response => Call.reply { ctx with response := response })
    (Cors.answerPreflight_mark_eq policy origin ctx.response)

theorem cors_of_not_preflight {origin : Bytes} (name : String)
    (ho : policy.origin? ctx.request = some origin) (h : isPreflight ctx.request = false)
    (next : Handler) :
    ((cors name policy).invoke next).handler ctx =
      next { ctx with response := { ctx.response with
        headers := (policy.mark origin ctx.response).headers } } := by
  simp only [cors, plain, ho, h, Bool.false_eq_true, if_false]
  exact congrArg (fun response => next { ctx with response := response })
    (Cors.mark_eq policy origin ctx.response)

/-- What an accepted configuration does in a chain, for middleware outside that shows no guarded
headers to what is inside, and a handler that keeps them. A request that is not admitted goes as if
the chain were without it. An admitted preflight request is answered here, whatever is inside. For
all other admitted requests the rest runs once, on marked contexts, and the marks stand on whatever
it replies: an answer of its own, one for a late call, or one for a panic. -/
theorem cors_marks (hp : Cors.Policy.ofConfig name c = .ok policy) {outer inner : List Middleware}
    {handler : Handler} {r : Request} (ho : ∀ m ∈ outer, m.Confines (Unmarked r))
    (hi : ∀ m ∈ inner, m.Ordinary) (hh : KeepsMarks handler) :
    let next := (compose inner handler).handler
    let gate := ((cors name policy).invoke next).handler
    let whole := (compose (outer ++ cors name policy :: inner) handler).handler
    let preflight :=
      r.method = "OPTIONS" ∧ (r.headers.get? "access-control-request-method").isSome = true
    whole = (compose outer gate).handler ∧
    ((∀ origin, ¬ Admits c r origin) →
      ∀ ctx, Unmarked r ctx → whole ctx = (compose (outer ++ inner) handler).handler ctx) ∧
    (∀ origin, Admits c r origin → preflight → ∀ ctx, Unmarked r ctx →
      (∀ inner' handler', (compose (outer ++ cors name policy :: inner') handler').handler ctx =
        whole ctx) ∧
      ∃ headers, gate ctx =
          .reply { ctx with response := { ctx.response with status := 204, headers := headers } } ∧
        Marks c origin headers ∧ Permits c headers ∧ ∀ name, ¬ Headers.Guarded name →
          headers.getAll name = ctx.response.headers.getAll name) ∧
    ∀ origin, Admits c r origin → ¬ preflight → ∀ ctx, Unmarked r ctx →
      (∃ headers, gate ctx =
          next { ctx with response := { ctx.response with headers := headers } } ∧
        Marks c origin headers ∧ ∀ name, ¬ Headers.Guarded name →
          headers.getAll name = ctx.response.headers.getAll name) ∧
      ∀ trace back, (gate ctx).Runs trace (.replied back) →
        Marks c origin back.response.headers := by
  intro next gate whole preflight
  have hwhole : ∀ inner' handler',
      (compose (outer ++ cors name policy :: inner') handler').handler = (compose outer
        ((cors name policy).invoke (compose inner' handler').handler).handler).handler :=
    fun inner' handler' => by rw [compose_append, compose]
  refine ⟨hwhole inner handler, ?foreign, ?preflight, ?inside⟩
  case foreign =>
    -- All that is outside is between equal insides, on the contexts that reach them.
    intro h ctx hctx
    simp only [whole]
    rw [hwhole, compose_append]
    refine compose_eq_of_confines ho (fun ctx hctx => ?_) ctx hctx
    refine cors_of_not_admits hp ?_ _
    rwa [hctx.1]
  case preflight =>
    intro origin ha hpre ctx hctx
    have horigin : policy.origin? r = some origin := (Cors.origin?_eq_some_iff hp).mpr ha
    have hrequest : isPreflight r = true := Cors.isPreflight_iff.mpr hpre
    have hmarks := Cors.marks_mark hp origin hctx.2
    refine ⟨fun inner' handler' => ?_, _,
      cors_of_preflight (by rw [hctx.1, horigin]) (by rw [hctx.1, hrequest]) next,
      hmarks.answerPreflight policy, Cors.permits_answerPreflight hp _, fun name hn => ?_⟩
    · simp only [whole]
      rw [hwhole, hwhole]
      refine compose_eq_of_confines ho (fun ctx hctx => ?_) ctx hctx
      rw [cors_of_preflight (by rw [hctx.1, horigin]) (by rw [hctx.1, hrequest]),
        cors_of_preflight (by rw [hctx.1, horigin]) (by rw [hctx.1, hrequest])]
    · exact (Cors.getAll_answerPreflight_of_not_guarded policy _ hn).trans
        (Cors.getAll_mark_of_not_guarded policy origin _ hn)
  case inside =>
    -- The marks are on the context that goes in, and what replies has kept them since.
    intro origin ha hpre ctx hctx
    have horigin : policy.origin? ctx.request = some origin := by
      rw [hctx.1]
      exact (Cors.origin?_eq_some_iff hp).mpr ha
    have hrequest : isPreflight ctx.request = false := by
      rw [hctx.1, ← Bool.not_eq_true, Cors.isPreflight_iff]
      exact hpre
    have hgate := cors_of_not_preflight name horigin hrequest next
    have hmarks := Cors.marks_mark hp origin hctx.2
    refine ⟨⟨_, hgate, hmarks,
      fun name hn => Cors.getAll_mark_of_not_guarded policy origin _ hn⟩, fun trace back hr => ?_⟩
    rw [show gate ctx = _ from hgate] at hr
    have hkeeps := keepsMarks_compose (fun m hm => (hi m hm).passesMarks) hh
    exact Cors.Marks.of_keeps hmarks (hkeeps _ _ _ hr)

/-- The answer for a panic behind a deadline, to a page from elsewhere. -/
theorem cors_marks_explosion :
    let c : Config.Cors := { Config.Cors.default with allowCredentials := true }
    let outer := [scripted "front" [.clear, .header "x-front" "on"] [] false, timing "timing"]
    let inner := [restore "restore", deadline "timeout" (.ofMillis 250)]
    let handler := Script.handler [.status 201, .panic (.said "boom")]
    let origin := Utf8.encode "https://page.test"
    let r : Request := ⟨"GET", "/explode", Headers.empty.insert "origin" origin, [], none⟩
    let ctx := (Context.ofRequest r).setParams []
    let next := (compose inner handler).handler
    ∃ policy, Cors.Policy.ofConfig "cors" c = .ok policy ∧ Admits c r origin ∧
      (compose (outer ++ cors "cors" policy :: inner) handler).handler =
        (compose outer ((cors "cors" policy).invoke next).handler).handler ∧
      ∃ back, (((cors "cors" policy).invoke next).handler ctx).Runs
          [.report (.recovered "GET" "/explode" "boom")] (.replied back) ∧
        back.response.status = 500 ∧ Marks c origin back.response.headers := by
  intro c outer inner handler origin r ctx next
  obtain ⟨policy, hp⟩ : ∃ policy, Cors.Policy.ofConfig "cors" c = .ok policy := by
    have hok : (Cors.Policy.ofConfig "cors" c).isOk = true := by decide +kernel
    cases hc : Cors.Policy.ofConfig "cors" c with
    | ok policy => exact ⟨policy, rfl⟩
    | error _ => simp [hc, Except.isOk, Except.toBool] at hok
  have hadmits : Admits c r origin :=
    ⟨by decide +kernel, "https://page.test", by decide +kernel, .inl rfl⟩
  have hplain : ¬ Headers.Guarded "x-front" := by
    have hlower : Text.lowerAscii "x-front" = "x-front" := by decide +kernel
    rw [Headers.Guarded, hlower]
    decide
  have hfront : Script.Discreet True [.clear, .header "x-front" "on"] :=
    ⟨trivial, hplain, trivial⟩
  have ho : ∀ m ∈ outer, m.Confines (Unmarked r) := by
    intro m hm
    rcases List.mem_pair.mp hm with rfl | rfl
    · exact confines_scripted _ _ _ hfront r
    · exact Ordinary.confines (.timing _) r
  have hi : ∀ m ∈ inner, m.Ordinary := by
    intro m hm
    rcases List.mem_pair.mp hm with rfl | rfl
    · exact .restore _
    · exact .deadline _ _
  have hh : KeepsMarks handler :=
    Script.keepsMarks ⟨trivial, trivial, trivial⟩
  obtain ⟨hwhole, -, -, hinside⟩ := cors_marks hp ho hi hh
  have hmethod : ¬ (r.method = "OPTIONS" ∧
      (r.headers.get? "access-control-request-method").isSome = true) :=
    fun h => absurd h.1 (by decide)
  obtain ⟨⟨headers, hgate, -, -⟩, hmarks⟩ :=
    hinside origin hadmits hmethod ctx (unmarked_ofRequest r [])
  let marked : Context := { ctx with response := { ctx.response with headers := headers } }
  have hhandler : (handler marked).Runs [] (.failed (.said "boom")) := .panic _
  have hfails : (((deadline "timeout" (.ofMillis 250)).invoke handler).handler marked).Runs []
      (.failed (.said "boom")) := .inTime hhandler (.panic _)
  have hruns : (((cors "cors" policy).invoke next).handler ctx).Runs
      [.report (.recovered "GET" "/explode" "boom")]
      (.replied (marked.mapResponse Rejection.internal.writeTo)) := by
    rw [hgate]
    exact (@runs_restore_iff "restore" _ _ _ _).mpr (.inr ⟨[], .said "boom", hfails, rfl, rfl⟩)
  exact ⟨policy, hp, hadmits, hwhole, _, hruns, rfl, hmarks _ _ hruns⟩

end Middleware

end Switchboard
