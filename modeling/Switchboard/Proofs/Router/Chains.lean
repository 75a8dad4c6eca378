import Switchboard.Proofs.Middleware.Layers
import Switchboard.Proofs.Router.History

/-! What runs around the handler of a route: the base chain of the time when it was pushed, and
inside of it the chain of its own. -/

namespace Switchboard

open Middleware (Describes Passage Part invocations)

theorem Registry.resolve_append {registry : Registry} {outer inner : List String}
    {base chain : List Middleware} (ho : registry.resolve outer = .ok base)
    (hi : registry.resolve inner = .ok chain) :
    registry.resolve (outer ++ inner) = .ok (base ++ chain) := by
  induction outer generalizing base with
  | nil =>
    obtain rfl := Except.ok.inj ho
    exact hi
  | cons name outer ih =>
    cases hg : registry.get? name with
    | none => simp [resolve, hg] at ho
    | some m =>
      cases hr : registry.resolve outer with
      | error e => simp [resolve, hg, hr, Except.map] at ho
      | ok rest =>
        obtain rfl : m :: rest = base := by simpa [resolve, hg, hr, Except.map] using ho
        simp [resolve, hg, ih hr, Except.map]

namespace Router

/-- The base chain that some changes leave in force. -/
inductive InForce (registry : Registry) : List Middleware → List Change → List Middleware → Prop
  | nil (base : List Middleware) : InForce registry base [] base
  | base {base next last : List Middleware} {names : List String} {rest : List Change}
    (h : registry.resolve names = .ok next) (ht : InForce registry next rest last) :
    InForce registry base (.base names :: rest) last
  | push {base last : List Middleware} {rest : List Change} (path : String) (handler : Handler)
    (names : List String) (ht : InForce registry base rest last) :
    InForce registry base (.push path handler names :: rest) last

theorem replay_inForce {r last : Router} {changes : List Change} {log : List Pushed}
    (h : r.replay changes = .ok (last, log)) : InForce r.registry r.base changes last.base := by
  induction changes generalizing r log with
  | nil =>
    obtain ⟨rfl, rfl⟩ := Prod.mk.inj (Except.ok.inj h)
    exact .nil r.base
  | cons c rest ih =>
    obtain ⟨next, pushed, tail, hc, ht, rfl⟩ := replay_cons_eq_ok_iff.mp h
    have hi := ih ht
    rcases change_eq_ok hc with ⟨names, base, rfl, hr, rfl, _⟩ | ⟨e, rfl, _, rfl, _⟩ |
      ⟨path, handler, names, _, rfl, _, rfl, _⟩
    · exact .base hr hi
    · exact .push e.path e.handler e.names hi
    · exact .push path handler names hi

variable {registry : Registry} {base : List Middleware} {r : Router} {changes : List Change}
  {log : List Pushed}

/-- A lookup hands out the composed handler of the route that answers for the path. -/
theorem find_eq_map_scan (h : (empty registry base).replay changes = .ok (r, log)) (path : String) :
    r.find path = (Route.scan (log.map fun e => (e.path, e)) path).map
      fun found => (found.1.composed.handler, found.2) := by
  have hmap := Route.scan_map (fun e : Pushed => e.composed.handler)
    (log.map fun e => (e.path, e)) path
  rw [← hmap, List.map_map, find, table_eq_ofLog h, find_ofLog h]
  rfl

theorem exists_of_find (h : (empty registry base).replay changes = .ok (r, log)) {path : String}
    {found : Handler} {params : Table String} (hf : r.find path = some (found, params)) :
    ∃ e ∈ log, Route.scan (log.map fun e => (e.path, e)) path = some (e, params) ∧
      found = e.composed.handler := by
  rw [find_eq_map_scan h] at hf
  obtain ⟨⟨e, params⟩, hscan, hfound⟩ := Option.map_eq_some_iff.mp hf
  obtain ⟨rfl, rfl⟩ := Prod.mk.inj hfound
  obtain ⟨p, hp, rfl⟩ := Route.mem_of_scan hscan
  obtain ⟨e, he, rfl⟩ := List.mem_map.mp hp
  exact ⟨e, he, hscan, rfl⟩

/-- Every route of a history runs the base chain that was in force on its push around its own chain
around its handler. The chain was composed on the push, each middleware once for each time that it
is listed, and a lookup hands out what was composed then for the route that answers. -/
theorem pushed_runs_chain (h : (empty registry base).replay changes = .ok (r, log)) :
    (∀ path, r.find path = (Route.scan (log.map fun e => (e.path, e)) path).map
      fun found => (found.1.composed.handler, found.2)) ∧
    ∀ first e rest, log = first ++ e :: rest →
      (∃ before after here next,
        changes = before ++ .push e.path e.handler e.names :: after ∧
        (empty registry base).replay before = .ok (here, first) ∧
        here.push e.path e.handler e.names = .ok (next, e.lines) ∧
        next.table = here.table.insert e.path e.composed.handler ∧
        InForce registry base before e.base) ∧
      registry.resolve e.names = .ok e.chain ∧
      (invocations (e.base ++ e.chain) e.handler).map (·.1) = (e.base ++ e.chain).reverse ∧
      e.lines = (invocations (e.base ++ e.chain) e.handler).flatMap
        (fun i => (i.1.invoke i.2).lines) ∧
      (∀ names, registry.resolve names = .ok e.base → ∃ wrap,
        registry.chain (names ++ e.names) = .ok wrap ∧ wrap e.handler = e.composed) ∧
      ∀ layers, List.Forall₂ Describes layers (e.base ++ e.chain) → ∀ ctx trace last,
        Part.of e.composed.handler ctx trace last ↔
          Passage layers e.handler ctx trace last := by
  refine ⟨find_eq_map_scan h, ?_⟩
  rintro first e rest rfl
  obtain ⟨before, after, here, rfl, hb, hf, _⟩ := replay_split h
  have hregistry : here.registry = registry := (replay_table hb).1
  have hinForce : InForce registry base before e.base := by
    rw [hf.base]
    exact replay_inForce hb
  have hchain : registry.resolve e.names = .ok e.chain := by
    rw [← hregistry]
    exact hf.chain
  refine ⟨⟨before, after, here, _, rfl, hb, hf.push, rfl, hinForce⟩, hchain,
    Middleware.map_fst_invocations _ _, ?_, ?_, ?_⟩
  · rw [hf.lines]
    exact Middleware.lines_compose _ _
  · intro names hn
    refine ⟨_, ?_, rfl⟩
    rw [Registry.chain, Registry.resolve_append hn hchain]
    rfl
  · intro layers hl ctx trace last
    exact Middleware.runs_compose_iff hl

/-- The second of three in a chain of its own answers, and the base chain is around it all. -/
theorem pushed_runs_chain_orders :
    let registry := ((Registry.empty.register "base" (.scripted "base" [] [] false)).register
      "m0" (.scripted "m0" [] [] false)).register "m1" (.scripted "m1" [] [] true)
    ∃ r e, (empty registry []).replay
        [.base ["base"], .push "/orders" .reply ["m0", "m1", "m0"]] = .ok (r, [e]) ∧
      r.find "/orders" = some (e.composed.handler, []) ∧
      e.lines = ["m0:compose", "m1:compose", "m0:compose", "base:compose"] ∧
      ∀ ctx, Part.of e.composed.handler ctx [.journal "base:in", .journal "m0:in",
        .journal "m1:in", .journal "m1:out", .journal "m0:out", .journal "base:out"] ctx := by
  intro registry
  have h : (empty registry []).replay
      [.base ["base"], .push "/orders" .reply ["m0", "m1", "m0"]] = .ok (_, [_]) := rfl
  refine ⟨_, _, h, rfl, by decide, fun ctx => ?_⟩
  obtain ⟨_, _, _, _, _, hruns⟩ := (pushed_runs_chain h).2 [] _ [] rfl
  have hbase := Middleware.describes_scripted "base" [] [] false
  have hm0 := Middleware.describes_scripted "m0" [] [] false
  have hm1 := Middleware.describes_scripted "m1" [] [] true
  refine (hruns _ (.cons hbase (.cons hm0 (.cons hm1 (.cons hm0 .nil)))) ctx _ ctx).mpr ?_
  have henter : ∀ name skip, Middleware.Layer.scripted name [] [] skip ctx
      ⟨[.journal (name ++ ":in")], ctx, !skip,
        .of fun ctx => .journal (name ++ ":out") (.reply ctx)⟩ :=
    fun name skip => ⟨[], ctx, .reply ctx, rfl⟩
  have hentered := Middleware.Entered.call (henter "base" false) rfl <|
    .call (henter "m0" false) rfl <|
    .answer [.scripted "m0" [] [] false] (henter "m1" true) rfl
  exact .intro hentered ⟨rfl, rfl⟩
    (.cons (.journal (.reply ctx)) (.cons (.journal (.reply ctx)) (.cons (.journal (.reply ctx))
      (.nil ctx)))) rfl

end Router

end Switchboard
