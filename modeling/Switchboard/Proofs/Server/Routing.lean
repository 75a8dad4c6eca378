import Switchboard.Proofs.Route.Instances
import Switchboard.Proofs.Router.Family
import Switchboard.Service.Tasks

/-! Requests whose path is written with escapes, from the network to the handler of their route. -/

namespace Switchboard

open Middleware (compose)
open RateLimit (Amount)
open Route (inBraces instantiate names pattern)

namespace Server

/-- What is asked of a server that is to take a route. -/
structure Push where
  method : String
  path : String
  handler : Handler
  names : List String

theorem Incoming.path_request (i : Incoming) (body : Bytes) : (i.request body).path = i.path := rfl

namespace HttpServer

def pushed (s : HttpServer) (p : Push) : Except SetupError (HttpServer × List String) :=
  s.push p.method p.path p.handler p.names

/-- The server after a push. One that fails leaves it as it was. -/
def after (s : HttpServer) (p : Push) : HttpServer :=
  ((s.pushed p).toOption.map (·.1)).getD s

variable {s s₀ : HttpServer} {p : Push} {key : String}

theorem ofConfig_router {config : Config.Http} {registry : Registry}
    (h : ofConfig config registry = .ok s) :
    ∃ base, registry.resolve config.baseMiddleware = .ok base ∧
      s.router = ⟨registry, base, []⟩ := by
  rw [ofConfig, MethodRouter.withBase] at h
  cases hr : registry.resolve config.baseMiddleware with
  | error e => simp [MethodRouter.empty, hr, Except.map, bind, Except.bind] at h
  | ok base =>
    cases hl : config.limit with
    | error e => simp [MethodRouter.empty, hr, hl, Except.map, bind, Except.bind] at h
    | ok limit =>
      simp only [MethodRouter.empty, hr, hl, Except.map, bind, Except.bind, pure, Except.pure] at h
      obtain rfl := Except.ok.inj h
      exact ⟨base, rfl, rfl⟩

/-- A push succeeds whenever the path and all middleware are good, whatever the server has. -/
theorem pushed_of_resolve {chain : List Middleware} (hc : Route.check p.path = .ok ())
    (hr : s.router.registry.resolve p.names = .ok chain) :
    ∃ lines, s.pushed p = .ok ({ s with
      router := (s.router.put (Text.upperAscii p.method)
        ((s.router.routerOf (Text.upperAscii p.method)).insert p.path p.handler chain).1) },
      lines) := by
  rw [pushed, push, MethodRouter.push_ok_iff.mpr ⟨chain, hc, hr, rfl, rfl⟩]
  exact ⟨_, rfl⟩

theorem router_after {chain : List Middleware} (hc : Route.check p.path = .ok ())
    (hr : s.router.registry.resolve p.names = .ok chain) :
    (s.after p).router = s.router.put (Text.upperAscii p.method)
      ((s.router.routerOf (Text.upperAscii p.method)).insert p.path p.handler chain).1 := by
  obtain ⟨lines, h⟩ := pushed_of_resolve hc hr
  rw [after, h]
  rfl

theorem after_of_fails {e : SetupError} (h : s.pushed p = .error e) : s.after p = s := by
  rw [after, h]
  rfl

/-- A push that succeeds has a good path and good middleware. -/
theorem resolve_of_pushed {result : HttpServer × List String} (h : s.pushed p = .ok result) :
    ∃ chain, Route.check p.path = .ok () ∧ s.router.registry.resolve p.names = .ok chain := by
  rw [pushed, push] at h
  cases hm : s.router.push p.method p.path p.handler p.names with
  | error e =>
    rw [hm] at h
    cases h
  | ok r =>
    obtain ⟨chain, hc, hr, -⟩ := MethodRouter.push_ok_iff.mp hm
    exact ⟨chain, hc, hr⟩

theorem pushed_of_repeatedName? {name : String}
    (h : Route.repeatedName? [] (pattern p.path) = some name) : ∃ e, s.pushed p = .error e := by
  cases hp : s.pushed p with
  | error e => exact ⟨e, rfl⟩
  | ok result =>
    obtain ⟨_, hc, -⟩ := resolve_of_pushed hp
    rw [Router.check_eq_ok_iff, h] at hc
    cases hc

/-- Pushes that fail, and those of other methods, leave the router of a method alone. -/
theorem router_foldl_after {pushes : List Push} (hs : s.router.registry = s₀.router.registry)
    (h : ∀ q ∈ pushes, Text.upperAscii q.method = key → ∃ e, s₀.pushed q = .error e) :
    (pushes.foldl after s).router.registry = s.router.registry ∧
      (pushes.foldl after s).router.base = s.router.base ∧
      (pushes.foldl after s).router.routers.get? key = s.router.routers.get? key := by
  induction pushes generalizing s with
  | nil => exact ⟨rfl, rfl, rfl⟩
  | cons q pushes ih =>
    obtain ⟨hq, h⟩ := List.forall_mem_cons.mp h
    rw [List.foldl_cons]
    cases hp : s.pushed q with
    | error e =>
      rw [after_of_fails hp]
      exact ih hs h
    | ok result =>
      obtain ⟨chain, hc, hr⟩ := resolve_of_pushed hp
      have hrouter := router_after hc hr
      have hne : key ≠ Text.upperAscii q.method := by
        rintro rfl
        obtain ⟨e, he⟩ := hq rfl
        obtain ⟨lines, hok⟩ := pushed_of_resolve (s := s₀) hc (hs ▸ hr)
        rw [he] at hok
        cases hok
      obtain ⟨hregistry, hbase, hget⟩ := ih (s := s.after q) (by rw [hrouter]; exact hs) h
      rw [hrouter] at hregistry hbase hget
      exact ⟨hregistry, hbase, hget.trans (by rw [MethodRouter.get?_put, if_neg hne])⟩

/-- The router of a method for which only one push succeeds holds the route of this push alone. -/
theorem only_route {config : Config.Http} {registry : Registry}
    {before later : List Push} {chain : List Middleware}
    (h : ofConfig config registry = .ok s₀) (hc : Route.check p.path = .ok ())
    (hr : registry.resolve p.names = .ok chain)
    (honly : ∀ q ∈ before ++ later, Text.upperAscii q.method = Text.upperAscii p.method →
      ∃ e, s₀.pushed q = .error e) :
    ∃ base, registry.resolve config.baseMiddleware = .ok base ∧
      (((before ++ p :: later).foldl after s₀).router.routers.get?
        (Text.upperAscii p.method)).map (·.table) =
        some (Route.RouteTable.empty.insert p.path
          (compose (base ++ chain) p.handler).handler) := by
  obtain ⟨base, hb, hrouter⟩ := ofConfig_router h
  refine ⟨base, hb, ?_⟩
  rw [List.foldl_append, List.foldl_cons]
  obtain ⟨hregistry, hbase, hget⟩ := router_foldl_after (s := s₀) rfl
    fun q hq => honly q (List.mem_append_left _ hq)
  generalize before.foldl after s₀ = s at *
  rw [hrouter] at hregistry hbase hget
  have hafter := router_after (s := s) hc (by rw [hregistry]; exact hr)
  have hempty : s.router.routerOf (Text.upperAscii p.method) = .empty registry base := by
    rw [MethodRouter.routerOf, hget, hregistry, hbase]
    rfl
  have hsame : (s.after p).router.registry = s₀.router.registry := by
    rw [hafter, hrouter]
    exact hregistry
  have hlater := (router_foldl_after hsame fun q hq => honly q (List.mem_append_right _ hq)).2.2
  rw [hlater, hafter, MethodRouter.get?_put, if_pos rfl, hempty, Router.insert_eq]
  rfl

end HttpServer

variable {config : Config.Http} {registry : Registry} {s₀ server : HttpServer}
  {before later : List Push} {p : Push} {chain : List Middleware}

/-- The only route of its method is reached under every path that comes of its pattern, however the
segments are written, with the values of the names and the path as they were before. A path that is
not written as text is looked up and handed on as it came. -/
theorem written_path_reaches_route (h : HttpServer.ofConfig config registry = .ok s₀)
    (hnodup : (names (pattern p.path)).Nodup) (hne : names (pattern p.path) ≠ [])
    (hchain : registry.resolve p.names = .ok chain)
    (honly : ∀ q ∈ before ++ later, Text.upperAscii q.method = Text.upperAscii p.method →
      ∃ e, s₀.pushed q = .error e)
    (hserver : server.router = ((before ++ p :: later).foldl HttpServer.after s₀).router) :
    Route.normalize p.path = instantiate p.path inBraces ∧
    (∃ base, registry.resolve config.baseMiddleware = .ok base ∧
      ∀ (value : String → String) (raws : List String) (i : Incoming),
        (∀ name ∈ names (pattern p.path), value name ≠ "" ∧ '/' ∉ (value name).toList) →
        List.Forall₂ Percent.Writes ((pattern p.path).map (Route.Segment.fill value)) raws →
        Text.upperAscii i.method = Text.upperAscii p.method →
        Net.rawPath i.target = Route.join raws →
        let handler := (compose (base ++ chain) p.handler).handler
        let params := (names (pattern p.path)).map fun name => (name, value name)
        server.route i = some (handler, params) ∧
        ∀ body, (i.request body).path = instantiate p.path value ∧
          ∀ {R : Type} [Amount R] (s : Service R) (id : Nat), s.http = some server →
            i.body = some body → s.serve id i = (s.setOwner id (.request i true)).proceed id
              (handler { request := i.request body, response := ⟨200, .empty, []⟩,
                         params := params, values := [] })) ∧
    ∀ (other : HttpServer) (i : Incoming),
      (∀ text, Utf8.encode text ≠ Percent.unescape (Utf8.encode (Net.rawPath i.target))) →
      other.route i = other.router.find i.method (Net.rawPath i.target) ∧
      ∀ body, (i.request body).path = Net.rawPath i.target := by
  have hpattern : pattern p.path ≠ [] := fun hp => hne (by rw [hp]; rfl)
  refine ⟨Route.normalize_eq_instantiate hpattern, ?_, ?_⟩
  · have hc : Route.check p.path = .ok () :=
      Router.check_eq_ok_iff.mpr (Route.repeatedName?_nil_eq_none hnodup)
    obtain ⟨base, hb, honly⟩ := HttpServer.only_route h hc hchain honly
    refine ⟨base, hb, fun value raws i hvalue hraws hm hraw => ?_⟩
    intro handler params
    have hpath : i.path = instantiate p.path value := by
      rw [Incoming.path, Net.path, hraw]
      exact (Route.writes_join hraws).decodePath_eq
    have hroute : server.route i = some (handler, params) := by
      rw [HttpServer.route, MethodRouter.find, hm, hserver, hpath]
      obtain ⟨router, hr, ht⟩ := Option.map_eq_some_iff.mp honly
      rw [hr, Option.bind_some, Router.find, ht]
      exact Route.find_instantiate _ hnodup hne hvalue
    refine ⟨hroute, fun body => ⟨?_, fun {R} _ s id hs hbody => ?_⟩⟩
    · exact (i.path_request body).trans hpath
    simp only [Service.serve, hs, hbody, hroute]
    rfl
  · intro other i htext
    have hpath : i.path = Net.rawPath i.target := Percent.decodePath_of_not_text htext
    exact ⟨by rw [HttpServer.route, hpath], fun body => i.path_request body ▸ hpath⟩

/-- Values that look like escapes and patterns come back as they are. A path that binds a name twice
is no route. -/
theorem written_path_reaches_route_braces :
    let p : Push := ⟨"get", "//{user}/100%/{file}", .reply, []⟩
    let other : Push := ⟨"POST", "/{user}", .reply, []⟩
    let twice : Push := ⟨"GET", "/{user}/{user}", .reply, []⟩
    let i : Incoming := ⟨"GET", "//%7ba%7d%252F%2a/100%25/%e6%97%a5%20%e6%9c%ac/", .empty,
      some [], .v4 127 0 0 1, "1"⟩
    ∃ s₀ server, HttpServer.ofConfig .default .empty = .ok s₀ ∧
      server = ([other] ++ p :: [twice]).foldl HttpServer.after s₀ ∧
      server.route i = some (.reply, [("user", "{a}%2F*"), ("file", "日 本")]) ∧
      (i.request []).path = "//{a}%2F*/100%/日 本/" := by
  intro p other twice i
  let value : String → String := fun name => if name = "user" then "{a}%2F*" else "日 本"
  obtain ⟨s₀, hs⟩ : ∃ s₀, HttpServer.ofConfig .default .empty = .ok s₀ := ⟨_, rfl⟩
  have hget : Text.upperAscii "get" = "GET" := MethodRouter.upperAscii_eq rfl
  have hpost : Text.upperAscii "POST" = "POST" := MethodRouter.upperAscii_eq rfl
  have hmethod : Text.upperAscii "GET" = "GET" := MethodRouter.upperAscii_eq rfl
  have htwice : Route.repeatedName? [] (pattern twice.path) = some "user" := by decide
  have honly : ∀ q ∈ [other] ++ [twice], Text.upperAscii q.method = Text.upperAscii p.method →
      ∃ e, s₀.pushed q = .error e := by
    intro q hq hm
    rcases List.mem_cons.mp hq with rfl | hq
    · exact absurd (hpost.symm.trans (hm.trans hget)) (by decide)
    · obtain rfl := List.mem_singleton.mp hq
      exact HttpServer.pushed_of_repeatedName? htwice
  obtain ⟨server, hserver⟩ :
      ∃ server, server = ([other] ++ p :: [twice]).foldl HttpServer.after s₀ := ⟨_, rfl⟩
  have hkeep : Char.isAlphanum '%' = false := rfl
  obtain ⟨-, ⟨base, hb, h⟩, -⟩ :=
    written_path_reaches_route hs (by decide) (by decide) rfl honly
      (congrArg HttpServer.router hserver)
  obtain rfl : [] = base := Except.ok.inj hb
  obtain ⟨hroute, hpath⟩ := h value _ i (by decide)
    (Percent.forall₂_writes_escape hkeep _) (hmethod.trans hget.symm) (by decide +kernel)
  have hparams : (names (pattern p.path)).map (fun name => (name, value name)) =
      [("user", "{a}%2F*"), ("file", "日 本")] := by decide
  have hinstance : instantiate p.path value = "//{a}%2F*/100%/日 本/" := by decide +kernel
  exact ⟨s₀, server, hs, hserver, hroute.trans (by rw [hparams]; rfl), (hpath []).1.trans hinstance⟩

end Server

end Switchboard
