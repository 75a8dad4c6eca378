import Switchboard.Proofs.Middleware.Passage
import Switchboard.Proofs.Route.Scan
import Switchboard.Router

/-! What is done to a router over time, and what its table holds after it. -/

namespace Switchboard.Router

open Middleware (compose)

inductive Change where
  | base (names : List String)
  | push (path : String) (handler : Handler) (names : List String)

/-- A route as it was pushed, with its own chain, the base chain that was in force and the lines
that were written. -/
structure Pushed where
  path : String
  handler : Handler
  names : List String
  base : List Middleware
  chain : List Middleware
  lines : List String

def Pushed.composed (e : Pushed) : Composed :=
  compose (e.base ++ e.chain) e.handler

def record (r : Router) (path : String) (handler : Handler) (names : List String) :
    Except SetupError (Router × Pushed) := do
  let (next, lines) ← r.push path handler names
  let chain ← r.registry.resolve names
  pure (next, ⟨path, handler, names, r.base, chain, lines⟩)

/-- A push that fails leaves the router as it was. -/
def settle (r : Router) : Except SetupError (Router × Pushed) → Router × List Pushed
  | .ok (next, e) => (next, [e])
  | .error _ => (r, [])

/-- Makes a change and lists the route that it pushed. A base chain that cannot be resolved leaves
no router. -/
def change (r : Router) : Change → Except SetupError (Router × List Pushed)
  | .base names => (r.withBase names).map fun next => (next, [])
  | .push path handler names => .ok (r.settle (r.record path handler names))

/-- Makes the changes one after the other, and keeps a log of the routes that were pushed. -/
def replay (r : Router) : List Change → Except SetupError (Router × List Pushed)
  | [] => .ok (r, [])
  | c :: rest => do
    let (next, pushed) ← r.change c
    let (last, log) ← next.replay rest
    pure (last, pushed ++ log)

def store (r : Router) (path : String) (handler : Handler) : Router :=
  { r with table := r.table.insert path handler }

/-- What the log says of a route is what the router did on the push. -/
structure Pushed.Faithful (r : Router) (e : Pushed) : Prop where
  base : e.base = r.base
  check : Route.check e.path = .ok ()
  chain : r.registry.resolve e.names = .ok e.chain
  push : r.push e.path e.handler e.names = .ok (r.store e.path e.composed.handler, e.lines)
  lines : e.lines = e.composed.lines

variable {r last : Router} {changes : List Change} {log : List Pushed}

theorem check_eq_ok_iff {path : String} :
    Route.check path = .ok () ↔ Route.repeatedName? [] (Route.pattern path) = none := by
  unfold Route.check
  split <;> simp_all

/-- What is stored for a route is its handler inside its own chain inside the base chain. -/
theorem insert_eq (r : Router) (path : String) (handler : Handler) (chain : List Middleware) :
    r.insert path handler chain =
      (r.store path (compose (r.base ++ chain) handler).handler,
        (compose (r.base ++ chain) handler).lines) := by
  simp [insert, store, Middleware.compose_append]

theorem push_eq {path : String} {names : List String} {chain : List Middleware}
    (hc : Route.check path = .ok ()) (hr : r.registry.resolve names = .ok chain)
    (handler : Handler) :
    r.push path handler names =
      .ok (r.store path (compose (r.base ++ chain) handler).handler,
        (compose (r.base ++ chain) handler).lines) := by
  rw [← insert_eq]
  simp [push, hc, hr, bind, Except.bind, pure, Except.pure]

theorem record_cases (r : Router) (path : String) (handler : Handler) (names : List String) :
    (∃ e : Pushed, e.path = path ∧ e.handler = handler ∧ e.names = names ∧ e.Faithful r ∧
      r.record path handler names = .ok (r.store path e.composed.handler, e)) ∨
    ∃ error, r.push path handler names = .error error ∧
      r.record path handler names = .error error := by
  cases hc : Route.check path with
  | error error =>
    have hp : r.push path handler names = .error error := by simp [push, hc, bind, Except.bind]
    exact .inr ⟨error, hp, by simp [record, hp, bind, Except.bind]⟩
  | ok u =>
    cases hr : r.registry.resolve names with
    | error error =>
      have hp : r.push path handler names = .error error := by
        simp [push, hc, hr, bind, Except.bind]
      exact .inr ⟨error, hp, by simp [record, hp, bind, Except.bind]⟩
    | ok chain =>
      left
      have hp := push_eq hc hr handler
      refine ⟨⟨path, handler, names, r.base, chain, (compose (r.base ++ chain) handler).lines⟩,
        rfl, rfl, rfl, ⟨rfl, hc, hr, hp, rfl⟩, ?_⟩
      simp [record, hp, hr, bind, Except.bind, pure, Except.pure, Pushed.composed]

/-- What a change does: it sets the base chain, or stores a route, or fails to. -/
theorem change_eq_ok {c : Change} {next : Router} {pushed : List Pushed}
    (h : r.change c = .ok (next, pushed)) :
    (∃ names base, c = .base names ∧ r.registry.resolve names = .ok base ∧
      next = { r with base := base } ∧ pushed = []) ∨
    (∃ e : Pushed, c = .push e.path e.handler e.names ∧ e.Faithful r ∧
      next = r.store e.path e.composed.handler ∧ pushed = [e]) ∨
    ∃ path handler names error, c = .push path handler names ∧
      r.push path handler names = .error error ∧ next = r ∧ pushed = [] := by
  cases c with
  | base names =>
    left
    rw [change, withBase] at h
    cases hr : r.registry.resolve names with
    | error error =>
      rw [hr] at h
      cases h
    | ok base =>
      rw [hr] at h
      obtain ⟨rfl, rfl⟩ := Prod.mk.inj (Except.ok.inj h)
      exact ⟨names, base, rfl, hr, rfl, rfl⟩
  | push path handler names =>
    right
    rw [change] at h
    rcases record_cases r path handler names with ⟨e, rfl, rfl, rfl, hf, hr⟩ | ⟨error, hp, hr⟩
    · rw [hr] at h
      obtain ⟨rfl, rfl⟩ := Prod.mk.inj (Except.ok.inj h)
      exact .inl ⟨e, rfl, hf, rfl, rfl⟩
    · rw [hr] at h
      obtain ⟨rfl, rfl⟩ := Prod.mk.inj (Except.ok.inj h)
      exact .inr ⟨path, handler, names, error, rfl, hp, rfl, rfl⟩

theorem replay_cons_eq_ok_iff {c : Change} {rest : List Change} :
    r.replay (c :: rest) = .ok (last, log) ↔
      ∃ next pushed tail, r.change c = .ok (next, pushed) ∧ next.replay rest = .ok (last, tail) ∧
        log = pushed ++ tail := by
  rw [replay]
  cases hc : r.change c with
  | error error => simp [bind, Except.bind]
  | ok result =>
    obtain ⟨next, pushed⟩ := result
    cases ht : next.replay rest with
    | error error => simp [bind, Except.bind, ht]
    | ok result =>
      obtain ⟨last', tail⟩ := result
      simp [bind, Except.bind, pure, Except.pure, ht, eq_comm]

/-- The table after a history holds the composed handlers of the log, put in one by one. -/
theorem replay_table (h : r.replay changes = .ok (last, log)) :
    last.registry = r.registry ∧
      last.table = log.foldl (fun t e => t.insert e.path e.composed.handler) r.table := by
  induction changes generalizing r log with
  | nil =>
    obtain ⟨rfl, rfl⟩ := Prod.mk.inj (Except.ok.inj h)
    exact ⟨rfl, rfl⟩
  | cons c rest ih =>
    obtain ⟨next, pushed, tail, hc, ht, rfl⟩ := replay_cons_eq_ok_iff.mp h
    obtain ⟨hreg, htab⟩ := ih ht
    rcases change_eq_ok hc with ⟨_, base, _, _, rfl, rfl⟩ | ⟨e, _, _, rfl, rfl⟩ |
      ⟨_, _, _, _, _, _, rfl, rfl⟩
    · exact ⟨hreg, htab⟩
    · exact ⟨hreg, htab⟩
    · exact ⟨hreg, htab⟩

/-- Every entry of the log was pushed by a change, on the router of the changes before it. -/
theorem replay_split {first rest : List Pushed} {e : Pushed}
    (h : r.replay changes = .ok (last, first ++ e :: rest)) :
    ∃ before after here, changes = before ++ .push e.path e.handler e.names :: after ∧
      r.replay before = .ok (here, first) ∧ e.Faithful here ∧
      (here.store e.path e.composed.handler).replay after = .ok (last, rest) := by
  induction changes generalizing r first with
  | nil =>
    have hlog := (Prod.mk.inj (Except.ok.inj h)).2
    cases first <;> cases hlog
  | cons c changes ih =>
    obtain ⟨next, pushed, tail, hc, ht, hlog⟩ := replay_cons_eq_ok_iff.mp h
    -- Where a later change pushed the entry, the induction hypothesis finds it.
    have hlater : ∀ {first' : List Pushed}, tail = first' ++ e :: rest → first = pushed ++ first' →
        ∃ before after here, c :: changes = before ++ .push e.path e.handler e.names :: after ∧
          r.replay before = .ok (here, first) ∧ e.Faithful here ∧
          (here.store e.path e.composed.handler).replay after = .ok (last, rest) := by
      rintro first' rfl rfl
      obtain ⟨before, after, here, rfl, hb, hf, ha⟩ := ih ht
      exact ⟨c :: before, after, here, rfl,
        replay_cons_eq_ok_iff.mpr ⟨next, pushed, first', hc, hb, rfl⟩, hf, ha⟩
    rcases change_eq_ok hc with ⟨_, base, _, _, _, rfl⟩ | ⟨e', rfl, hf, rfl, rfl⟩ |
      ⟨_, _, _, _, _, _, _, rfl⟩
    · exact hlater hlog.symm rfl
    · cases first with
      | nil =>
        obtain ⟨rfl, rfl⟩ := List.cons.inj hlog
        exact ⟨[], changes, r, rfl, rfl, hf, ht⟩
      | cons head first =>
        obtain ⟨rfl, htail⟩ := List.cons.inj hlog
        exact hlater htail.symm rfl
    · exact hlater hlog.symm rfl

theorem replay_faithful (h : r.replay changes = .ok (last, log)) {e : Pushed} (he : e ∈ log) :
    ∃ here, e.Faithful here := by
  obtain ⟨first, rest, rfl⟩ := List.append_of_mem he
  obtain ⟨_, _, here, _, _, hf, _⟩ := replay_split h
  exact ⟨here, hf⟩

theorem table_eq_ofLog {registry : Registry} {base : List Middleware}
    (h : (empty registry base).replay changes = .ok (r, log)) :
    r.table = .ofLog (log.map fun e => (e.path, e.composed.handler)) := by
  rw [(replay_table h).2, Route.RouteTable.ofLog, List.foldl_map]
  rfl

theorem find_ofLog {registry : Registry} {base : List Middleware}
    (h : (empty registry base).replay changes = .ok (r, log)) (path : String) :
    (Route.RouteTable.ofLog (log.map fun e => (e.path, e.composed.handler))).find path =
      Route.scan (log.map fun e => (e.path, e.composed.handler)) path := by
  refine Route.RouteTable.find_ofLog ?_ path
  intro e he
  obtain ⟨f, hf, rfl⟩ := List.mem_map.mp he
  obtain ⟨here, hfaithful⟩ := replay_faithful h hf
  exact check_eq_ok_iff.mp hfaithful.check

/-- A lookup in a router that has grown from nothing is a scan of the routes that were pushed. -/
theorem find_eq_scan {registry : Registry} {base : List Middleware}
    (h : (empty registry base).replay changes = .ok (r, log)) (path : String) :
    r.find path = Route.scan (log.map fun e => (e.path, e.composed.handler)) path := by
  rw [find, table_eq_ofLog h]
  exact find_ofLog h path

/-- The route with the most literals in front wins, and only its own names get values. -/
theorem find_eq_scan_profile : ∃ r log,
    (empty .empty []).replay [.push "/{kind}/7" .reply [], .push "/users/{id}" .reply [],
      .push "users/me/" .reply [], .push "//*" .reply []] = .ok (r, log) ∧
    r.find "/users/7" = Route.scan (log.map fun e => (e.path, e.composed.handler)) "/users/7" ∧
    (r.find "/users/7").map (·.2) = some [("id", "7")] := by
  have h : (empty .empty []).replay [.push "/{kind}/7" .reply [], .push "/users/{id}" .reply [],
      .push "users/me/" .reply [], .push "//*" .reply []] = .ok (_, _) := rfl
  exact ⟨_, _, h, find_eq_scan h "/users/7", rfl⟩

theorem find_empty (registry : Registry) (base : List Middleware) (path : String) :
    (empty registry base).find path = none := by
  have hwalk : ∀ pieces, (Route.Trie.empty : Route.Trie Handler).walk 0 pieces = none := by
    intro pieces
    cases pieces <;> rfl
  simp [find, empty, Route.RouteTable.find, Route.RouteTable.empty, Table.get?,
    Route.Trie.find, hwalk]

end Switchboard.Router
