import Switchboard.Proofs.Route.Instances
import Switchboard.Proofs.Router.Family
import Switchboard.Server.Consumer
import Switchboard.Server.Http

/-! A push step by step, on all that takes routes. Each step may change what is there, and a step
that fails takes nothing back. The path is checked and the names are resolved before anything is
changed, so a push that fails leaves no trace. -/

namespace Switchboard

open Middleware (compose invocations)
open Server (Consumer HttpServer)

theorem Middleware.invocations_append (outer inner : List Middleware) (handler : Handler) :
    invocations (outer ++ inner) handler =
      invocations inner handler ++ invocations outer (compose inner handler).handler := by
  induction outer with
  | nil => simp [invocations]
  | cons m outer ih => simp [invocations, ih, compose_append]

namespace Table

variable {α : Type}

theorem contains_eq_isSome_get? (t : Table α) (key : String) :
    t.contains key = (t.get? key).isSome := by
  induction t with
  | nil => rfl
  | cons p t ih =>
    obtain ⟨k, v⟩ := p
    rw [get?_cons]
    by_cases hk : key = k
    · simp [contains, hk]
    · rw [if_neg hk, ← ih]
      simp [contains, Ne.symm hk]

theorem insert_insert (t : Table α) (key : String) (first second : α) :
    (t.insert key first).insert key second = t.insert key second := by
  induction t with
  | nil => simp [insert]
  | cons p t ih =>
    by_cases hk : p.1 = key <;> simp [insert, hk, ih]

end Table

namespace Route

variable {segments : List Segment}

/-- The name that is found is the name of a segment, and the names before it are distinct and have
it among them. -/
theorem exists_of_repeatedName? {bound : List String} {name : String} (hb : bound.Nodup)
    (h : repeatedName? bound segments = some name) :
    ∃ before after, segments = before ++ .dynamic name :: after ∧
      (bound ++ names before).Nodup ∧ name ∈ bound ++ names before := by
  -- The names bound so far grow along the path, and those of the part behind are added at its end.
  induction segments generalizing bound with
  | nil => cases h
  | cons segment segments ih =>
    cases segment with
    | literal text =>
      obtain ⟨before, after, rfl, hn, hm⟩ := ih hb h
      exact ⟨.literal text :: before, after, rfl, hn, hm⟩
    | dynamic other =>
      rw [repeatedName?] at h
      split at h
      · rename_i hc
        obtain rfl := Option.some.inj h
        refine ⟨[], segments, rfl, by simpa [names] using hb, ?_⟩
        exact List.mem_append_left _ (List.contains_iff_mem.mp hc)
      · rename_i hc
        have hnew : other ∉ bound := fun hm => hc (List.contains_iff_mem.mpr hm)
        obtain ⟨before, after, rfl, hn, hm⟩ := ih (List.nodup_cons.mpr ⟨hnew, hb⟩) h
        have hp : (other :: bound ++ names before).Perm
            (bound ++ names (.dynamic other :: before)) := List.perm_middle.symm
        exact ⟨.dynamic other :: before, after, rfl, hp.nodup_iff.mp hn, hp.mem_iff.mp hm⟩

/-- A path is bad if it binds a name twice, and the error has the leftmost name that an earlier
segment has bound. -/
theorem check_cases (path : String) :
    (check path = .ok () ∧ (names (pattern path)).Nodup) ∨
    ∃ before name after, pattern path = before ++ .dynamic name :: after ∧
      (names before).Nodup ∧ name ∈ names before ∧ ¬ (names (pattern path)).Nodup ∧
      check path =
        .error (.invalidRoute (path ++ ": parameter '" ++ name ++ "' appears more than once")) := by
  unfold check
  cases h : repeatedName? [] (pattern path) with
  | none => exact .inl ⟨rfl, names_nodup h⟩
  | some name =>
    obtain ⟨before, after, hp, hn, hm⟩ := exists_of_repeatedName? List.nodup_nil h
    have htwice : ¬ (names (pattern path)).Nodup := by
      intro hnodup
      rw [repeatedName?_nil_eq_none hnodup] at h
      cases h
    exact .inr ⟨before, name, after, hp, hn, hm, htwice, rfl⟩

end Route

theorem Registry.contains_eq_isSome (registry : Registry) (name : String) :
    registry.contains name = (registry.get? name).isSome :=
  Table.contains_eq_isSome_get? _ _

/-- All names are known, or the first that is not is the error. -/
theorem Registry.resolve_cases (registry : Registry) (names : List String) :
    (∃ chain, registry.resolve names = .ok chain ∧ ∀ name ∈ names, registry.contains name) ∨
    ∃ before name after, names = before ++ name :: after ∧
      (∀ known ∈ before, registry.contains known) ∧ registry.contains name = false ∧
      registry.resolve names = .error (.middlewareNotFound name) := by
  induction names with
  | nil => exact .inl ⟨[], rfl, by simp⟩
  | cons name names ih =>
    have hc := registry.contains_eq_isSome name
    cases hg : registry.get? name with
    | none =>
      right
      refine ⟨[], name, names, rfl, by simp, by rw [hc, hg]; rfl, ?_⟩
      rw [resolve, hg]
    | some m =>
      have hknown : registry.contains name = true := by rw [hc, hg]; rfl
      rcases ih with ⟨chain, hr, hall⟩ | ⟨before, unknown, after, rfl, hb, hu, hr⟩
      · left
        refine ⟨m :: chain, ?_, List.forall_mem_cons.mpr ⟨hknown, hall⟩⟩
        rw [resolve, hg, hr]
        rfl
      · right
        refine ⟨name :: before, unknown, after, rfl, List.forall_mem_cons.mpr ⟨hknown, hb⟩, hu, ?_⟩
        rw [resolve, hg, hr]
        rfl

/-- A front end that takes routes. -/
inductive FrontEnd where
  | router (r : Router)
  | methods (r : MethodRouter)
  | http (s : HttpServer)
  | consumer (c : Consumer)

namespace FrontEnd

def registry : FrontEnd → Registry
  | router r => r.registry
  | methods r => r.registry
  | http s => s.router.registry
  | consumer c => c.router.registry

/-- A method counts only where there is a router for each. -/
def push (f : FrontEnd) (method path : String) (handler : Handler) (names : List String) :
    Except SetupError (FrontEnd × List String) :=
  match f with
  | router r => (r.push path handler names).map fun (r, lines) => (router r, lines)
  | methods r => (r.push method path handler names).map fun (r, lines) => (methods r, lines)
  | http s => (s.push method path handler names).map fun (s, lines) => (http s, lines)
  | consumer c => (c.push path handler names).map fun (c, lines) => (consumer c, lines)

def find (f : FrontEnd) (method path : String) : Option (Handler × Table String) :=
  match f with
  | router r => r.find path
  | methods r => r.find method path
  | http s => s.router.find method path
  | consumer c => c.router.find path

def count : FrontEnd → Nat
  | router r => r.count
  | methods r => r.count
  | http s => s.router.count
  | consumer c => c.router.count

/-- The router that a push of this method puts its route into, empty where there is none yet. -/
def routerOf (f : FrontEnd) (method : String) : Router :=
  match f with
  | router r => r
  | methods r => r.routerOf (Text.upperAscii method)
  | http s => s.router.routerOf (Text.upperAscii method)
  | consumer c => c.router

def put (f : FrontEnd) (method : String) (p : Router) : FrontEnd :=
  match f with
  | router _ => router p
  | methods r => methods (r.put (Text.upperAscii method) p)
  | http s => http { s with router := s.router.put (Text.upperAscii method) p }
  | consumer c => consumer { c with router := p }

def hasRouter (f : FrontEnd) (method : String) : Bool :=
  match f with
  | router _ => true
  | methods r => (r.routers.get? (Text.upperAscii method)).isSome
  | http s => (s.router.routers.get? (Text.upperAscii method)).isSome
  | consumer _ => true

/-- Has a router for the method from now on. -/
def opened (f : FrontEnd) (method : String) : FrontEnd :=
  if f.hasRouter method then f else f.put method (f.routerOf method)

variable {f : FrontEnd} {method path : String} {handler : Handler} {names : List String}

theorem push_of_check {e : SetupError} (h : Route.check path = .error e) :
    f.push method path handler names = .error e := by
  cases f <;>
    simp [push, Router.push, MethodRouter.push, HttpServer.push, Consumer.push, h, bind,
      Except.bind, Except.map]

theorem push_of_resolve_error {e : SetupError} (hc : Route.check path = .ok ())
    (hr : f.registry.resolve names = .error e) :
    f.push method path handler names = .error e := by
  cases f <;> rw [registry] at hr <;>
    simp [push, Router.push, MethodRouter.push, HttpServer.push, Consumer.push, hc, hr, bind,
      Except.bind, Except.map]

theorem push_of_resolve {chain : List Middleware} (hc : Route.check path = .ok ())
    (hr : f.registry.resolve names = .ok chain) :
    f.push method path handler names =
      .ok (f.put method ((f.routerOf method).insert path handler chain).1,
        ((f.routerOf method).insert path handler chain).2) := by
  cases f with
  | router r => simp [push, routerOf, put, Router.push_eq hc hr, Router.insert_eq, Except.map]
  | methods r =>
    simp [push, routerOf, put, MethodRouter.push_ok_iff.mpr ⟨chain, hc, hr, rfl, rfl⟩, Except.map]
  | http s =>
    simp [push, routerOf, put, HttpServer.push,
      MethodRouter.push_ok_iff.mpr ⟨chain, hc, hr, rfl, rfl⟩, Except.map]
  | consumer c =>
    simp [push, routerOf, put, Consumer.push, Router.push_eq hc hr, Router.insert_eq, Except.map]

theorem routerOf_put (p : Router) : (f.put method p).routerOf method = p := by
  cases f <;> simp [put, routerOf, MethodRouter.routerOf_put]

theorem put_put (p q : Router) : (f.put method p).put method q = f.put method q := by
  cases f <;> simp [put, MethodRouter.put, Table.insert_insert]

theorem routerOf_opened : (f.opened method).routerOf method = f.routerOf method := by
  rw [opened]
  split
  · rfl
  · exact routerOf_put _

theorem put_opened (p : Router) : (f.opened method).put method p = f.put method p := by
  rw [opened]
  split
  · rfl
  · exact put_put _ _

end FrontEnd

/-- The state of a push: the front end that takes the route, and which middleware has been invoked
on which handler so far. -/
structure PushState where
  front : FrontEnd
  made : List (Middleware × Handler)

/-- Steps that change this state, also if they fail. -/
abbrev Work := ExceptT SetupError (StateM PushState)

namespace Work

/-- Puts a chain around a handler from its inner end. -/
def wrap : List Middleware → Handler → Work Composed
  | [], handler => pure ⟨handler, []⟩
  | m :: chain, handler => do
    let inner ← wrap chain handler
    modify fun s => { s with made := s.made ++ [(m, inner.handler)] }
    let outer := m.invoke inner.handler
    pure ⟨outer.handler, inner.lines ++ outer.lines⟩

/-- Checks, resolves, opens the router of the method, composes the two chains and stores. -/
def push (method path : String) (handler : Handler) (names : List String) : Work (List String) := do
  liftExcept (Route.check path)
  let chain ← liftExcept ((← get).front.registry.resolve names)
  -- Nothing has been changed so far, and nothing fails from here on.
  modify fun s => { s with front := s.front.opened method }
  let router := (← get).front.routerOf method
  let inner ← wrap chain handler
  let outer ← wrap router.base inner.handler
  modify fun s => { s with front := s.front.put method (router.store path outer.handler) }
  pure (inner.lines ++ outer.lines)

/-- The outcome, and the state that the work leaves. -/
def on {α : Type} (w : Work α) (s : PushState) : Except SetupError α × PushState :=
  Id.run (w.run.run s)

variable {α β : Type}

@[simp] theorem on_pure (a : α) (s : PushState) : (pure a : Work α).on s = (.ok a, s) := rfl

@[simp] theorem on_get (s : PushState) : (get : Work PushState).on s = (.ok s, s) := rfl

@[simp] theorem on_modify (f : PushState → PushState) (s : PushState) :
    (modify f : Work PUnit).on s = (.ok ⟨⟩, f s) := rfl

@[simp] theorem on_liftExcept (result : Except SetupError α) (s : PushState) :
    (liftExcept result : Work α).on s = (result, s) := by
  cases result <;> rfl

/-- Work goes on where the work before it has ended well, in the state that it left. -/
@[simp] theorem on_bind (w : Work α) (f : α → Work β) (s : PushState) :
    (w >>= f).on s =
      match w.on s with
      | (.ok a, s) => (f a).on s
      | (.error e, s) => (.error e, s) := by
  simp only [on, ExceptT.run_bind, StateT.run_bind, Id.run_bind]
  rcases (w.run.run s).run with ⟨_ | _, _⟩ <;> rfl

@[simp] theorem on_map (f : α → β) (w : Work α) (s : PushState) :
    (f <$> w).on s = ((w.on s).1.map f, (w.on s).2) := by
  simp only [on, ExceptT.run_map, StateT.run_map, Id.run_map]

@[simp] theorem on_wrap (chain : List Middleware) (handler : Handler) (s : PushState) :
    (wrap chain handler).on s =
      (.ok (compose chain handler), { s with made := s.made ++ invocations chain handler }) := by
  induction chain generalizing s with
  | nil => simp [wrap, compose, invocations]
  | cons m chain ih => simp [wrap, ih, compose, invocations, Except.map]

variable {s : PushState} {method path : String} {handler : Handler} {names : List String}

theorem on_push_of_check {e : SetupError} (h : Route.check path = .error e) :
    (push method path handler names).on s = (.error e, s) := by
  simp [push, h]

theorem on_push_of_resolve_error {e : SetupError} (hc : Route.check path = .ok ())
    (hr : s.front.registry.resolve names = .error e) :
    (push method path handler names).on s = (.error e, s) := by
  simp [push, hc, hr]

theorem on_push_of_resolve {chain : List Middleware} (hc : Route.check path = .ok ())
    (hr : s.front.registry.resolve names = .ok chain) :
    (push method path handler names).on s =
      (.ok ((s.front.routerOf method).insert path handler chain).2,
        { front := s.front.put method ((s.front.routerOf method).insert path handler chain).1
          made := s.made ++ invocations ((s.front.routerOf method).base ++ chain) handler }) := by
  simp [push, hc, hr, FrontEnd.routerOf_opened, FrontEnd.put_opened, Router.insert, Router.store,
    Middleware.invocations_append, Except.map]

/-- Step by step a push does what the push of the front end does, and one that fails leaves all as
it was. -/
theorem on_push (method path : String) (handler : Handler) (names : List String) (s : PushState) :
    (∃ e, s.front.push method path handler names = .error e ∧
      (push method path handler names).on s = (.error e, s)) ∨
    ∃ chain next lines, s.front.registry.resolve names = .ok chain ∧
      s.front.push method path handler names = .ok (next, lines) ∧
      (push method path handler names).on s = (.ok lines,
        ⟨next, s.made ++ invocations ((s.front.routerOf method).base ++ chain) handler⟩) := by
  cases hc : Route.check path with
  | error e => exact .inl ⟨e, FrontEnd.push_of_check hc, on_push_of_check hc⟩
  | ok u =>
    cases hr : s.front.registry.resolve names with
    | error e =>
      exact .inl ⟨e, FrontEnd.push_of_resolve_error hc hr, on_push_of_resolve_error hc hr⟩
    | ok chain =>
      exact .inr ⟨chain, _, _, rfl, FrontEnd.push_of_resolve hc hr, on_push_of_resolve hc hr⟩

end Work

inductive Operation where
  | push (method path : String) (handler : Handler) (names : List String)
  | find (method path : String)
  | count

inductive Answer where
  | pushed (lines : List String)
  | refused (cause : SetupError)
  | found (route : Option (Handler × Table String))
  | counted (count : Nat)

def Answer.ofPush : Except SetupError (List String) → Answer
  | .ok lines => pushed lines
  | .error e => refused e

namespace PushState

def perform (s : PushState) : Operation → Answer × PushState
  | .push method path handler names =>
    let result := (Work.push method path handler names).on s
    (.ofPush result.1, result.2)
  | .find method path => (.found (s.front.find method path), s)
  | .count => (.counted s.front.count, s)

def performAll (s : PushState) : List Operation → List Answer × PushState
  | [] => ([], s)
  | op :: rest =>
    let (answer, next) := s.perform op
    let (answers, last) := next.performAll rest
    (answer :: answers, last)

variable {s : PushState} {method path : String} {handler : Handler} {names : List String}
  {cause : SetupError}

theorem perform_push (s : PushState) (method path : String) (handler : Handler)
    (names : List String) :
    s.perform (.push method path handler names) =
      (.ofPush ((Work.push method path handler names).on s).1,
        ((Work.push method path handler names).on s).2) := rfl

theorem perform_push_refused_iff :
    (s.perform (.push method path handler names)).1 = .refused cause ↔
      s.front.push method path handler names = .error cause ∧
        s.perform (.push method path handler names) = (.refused cause, s) := by
  rw [perform_push]
  rcases Work.on_push method path handler names s with ⟨e, he, ho⟩ | ⟨_, _, _, -, he, ho⟩
  · rw [ho, he]
    constructor
    · rintro h
      obtain rfl := Answer.refused.inj h
      exact ⟨rfl, rfl⟩
    · rintro ⟨-, h⟩
      exact congrArg Prod.fst h
  · rw [ho, he]
    constructor
    · rintro ⟨⟩
    · rintro ⟨⟨⟩, -⟩

/-- A push that is refused has failed before anything was changed. The front end is as it was, with
the routers that it had, and later operations answer as if the push had not been there. -/
theorem of_refused (h : (s.perform (.push method path handler names)).1 = .refused cause) :
    let after := (s.perform (.push method path handler names)).2
    s.front.push method path handler names = .error cause ∧ after.made = s.made ∧
      after.front = s.front ∧ (∀ other, after.front.hasRouter other = s.front.hasRouter other) ∧
      ∀ later, s.performAll (.push method path handler names :: later) =
        (.refused cause :: (s.performAll later).1, (s.performAll later).2) := by
  obtain ⟨hp, hb⟩ := perform_push_refused_iff.mp h
  refine ⟨hp, by rw [hb], by rw [hb], fun other => by rw [hb], fun later => ?_⟩
  rw [performAll, hb]

theorem of_pushed {lines : List String}
    (h : (s.perform (.push method path handler names)).1 = .pushed lines) :
    let after := (s.perform (.push method path handler names)).2
    ∃ chain, s.front.registry.resolve names = .ok chain ∧
      s.front.push method path handler names = .ok (after.front, lines) ∧
      after.made = s.made ++ invocations ((s.front.routerOf method).base ++ chain) handler := by
  rw [perform_push] at h ⊢
  rcases Work.on_push method path handler names s with ⟨e, -, ho⟩ | ⟨c, n, l, hr, hp, ho⟩
  · rw [ho] at h
    cases h
  · rw [ho] at h ⊢
    obtain rfl := Answer.pushed.inj h
    exact ⟨c, hr, hp, rfl⟩

theorem refused_of_error (h : s.front.push method path handler names = .error cause) :
    (s.perform (.push method path handler names)).1 = .refused cause := by
  rw [perform_push]
  rcases Work.on_push method path handler names s with ⟨e, he, ho⟩ | ⟨_, _, _, -, he, -⟩
  · obtain rfl := Except.error.inj (he.symm.trans h)
    rw [ho]
    rfl
  · cases he.symm.trans h

/-- A push is refused for a path that binds a name twice or a middleware that is not known, and for
nothing else. The path comes first, with the leftmost name that an earlier segment has bound, then
the first unknown name of the list. A push that is refused has invoked no middleware and has opened
no router, and whatever comes later finds the front end without it. -/
theorem push_refused_iff (s : PushState) (method path : String) (handler : Handler)
    (names : List String) :
    let op : Operation := .push method path handler names
    let after := (s.perform op).2
    let twice := ¬ (Route.names (Route.pattern path)).Nodup
    let unknown := ∃ name ∈ names, s.front.registry.contains name = false
    ((∃ cause, (s.perform op).1 = .refused cause) ↔ twice ∨ unknown) ∧
    (twice → ∃ first name rest, Route.pattern path = first ++ .dynamic name :: rest ∧
      (Route.names first).Nodup ∧ name ∈ Route.names first ∧
      (s.perform op).1 = .refused
        (.invalidRoute (path ++ ": parameter '" ++ name ++ "' appears more than once"))) ∧
    (¬ twice → unknown → ∃ first name rest, names = first ++ name :: rest ∧
      (∀ known ∈ first, s.front.registry.contains known) ∧
      s.front.registry.contains name = false ∧
      (s.perform op).1 = .refused (.middlewareNotFound name)) ∧
    (∀ cause, (s.perform op).1 = .refused cause →
      s.front.push method path handler names = .error cause ∧ after.made = s.made ∧
      after.front = s.front ∧ (∀ other, after.front.hasRouter other = s.front.hasRouter other) ∧
      ∀ later, s.performAll (op :: later) =
        (.refused cause :: (s.performAll later).1, (s.performAll later).2)) ∧
    ∀ lines, (s.perform op).1 = .pushed lines → ∃ chain,
      s.front.registry.resolve names = .ok chain ∧
      s.front.push method path handler names = .ok (after.front, lines) ∧
      after.made = s.made ++ invocations ((s.front.routerOf method).base ++ chain) handler := by
  intro op after twice unknown
  -- The path comes first: where it is bad, the names have no say.
  rcases Route.check_cases path with ⟨hc, hn⟩ | ⟨first, name, rest, hp, hf, hm, ht, hc⟩
  · rcases s.front.registry.resolve_cases names with
      ⟨chain, hr, hall⟩ | ⟨first, name, rest, hp, hf, hu, hr⟩
    · have hgood : ¬ (twice ∨ unknown) := by
        rintro (ht | ⟨name, hm, hu⟩)
        · exact ht hn
        · exact absurd (hall name hm) (by simp [hu])
      refine ⟨iff_of_false ?_ hgood, fun h => (hgood (.inl h)).elim,
        fun _ h => (hgood (.inr h)).elim, fun _ => of_refused, fun _ => of_pushed⟩
      rintro ⟨cause, h⟩
      cases (FrontEnd.push_of_resolve hc hr).symm.trans (of_refused h).1
    · have hrefused : (s.perform op).1 = .refused (.middlewareNotFound name) :=
        refused_of_error (FrontEnd.push_of_resolve_error hc hr)
      have hunknown : unknown := ⟨name, by simp [hp], hu⟩
      exact ⟨iff_of_true ⟨_, hrefused⟩ (.inr hunknown), fun h => (h hn).elim,
        fun _ _ => ⟨first, name, rest, hp, hf, hu, hrefused⟩, fun _ => of_refused,
        fun _ => of_pushed⟩
  · have hrefused : (s.perform op).1 = .refused
        (.invalidRoute (path ++ ": parameter '" ++ name ++ "' appears more than once")) :=
      refused_of_error (FrontEnd.push_of_check hc)
    exact ⟨iff_of_true ⟨_, hrefused⟩ (.inl ht), fun _ => ⟨first, name, rest, hp, hf, hm, hrefused⟩,
      fun h => (h ht).elim, fun _ => of_refused, fun _ => of_pushed⟩

end PushState

end Switchboard
