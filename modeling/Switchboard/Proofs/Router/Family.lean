import Mathlib.Algebra.BigOperators.Group.Finset.Basic
import Switchboard.Proofs.Router.History
import Switchboard.Router.Methods

/-! A method router as a family of routers, each with a history of its own. A base chain reaches the
router of a method only until the first route of that method is pushed. -/

namespace Switchboard

namespace MethodRouter

inductive Change where
  | base (names : List String)
  | push (method path : String) (handler : Handler) (names : List String)

/-- The method of a push, in upper case. -/
def Change.key? : Change → Option String
  | base _ => none
  | push method _ _ _ => some (Text.upperAscii method)

def change (r : MethodRouter) : Change → Except SetupError MethodRouter
  | .base names => r.withBase names
  | .push method path handler names => (r.push method path handler names).map (·.1)

def replay (r : MethodRouter) : List Change → Except SetupError MethodRouter
  | [] => .ok r
  | c :: rest => do
    let next ← r.change c
    next.replay rest

/-- What the router of a method goes through. Once it is opened, changes of the base chain pass it
by. -/
def ownHistory (key : String) : Bool → List Change → List Router.Change
  | _, [] => []
  | isOpen, .base names :: rest =>
    if isOpen then ownHistory key isOpen rest else .base names :: ownHistory key isOpen rest
  | isOpen, .push method path handler names :: rest =>
    if Text.upperAscii method = key then .push path handler names :: ownHistory key true rest
    else ownHistory key isOpen rest

/-- Every change of the base chain, and the pushes of one method. -/
def sharedHistory (key : String) : List Change → List Router.Change
  | [] => []
  | .base names :: rest => .base names :: sharedHistory key rest
  | .push method path handler names :: rest =>
    if Text.upperAscii method = key then .push path handler names :: sharedHistory key rest
    else sharedHistory key rest

def methods (changes : List Change) : Finset String :=
  (changes.filterMap Change.key?).toFinset

/-- The routers know the middleware that the method router knows. -/
def Uniform (r : MethodRouter) : Prop :=
  ∀ key p, r.routers.get? key = some p → p.registry = r.registry

def put (r : MethodRouter) (key : String) (p : Router) : MethodRouter :=
  { r with routers := r.routers.insert key p }

variable {r next last : MethodRouter} {changes : List Change}

theorem get?_put (r : MethodRouter) (key other : String) (p : Router) :
    (r.put key p).routers.get? other = if other = key then some p else r.routers.get? other := by
  rw [put, Table.get?_insert]
  by_cases h : other = key <;> simp [h]

theorem routerOf_put (r : MethodRouter) (key other : String) (p : Router) :
    (r.put key p).routerOf other = if other = key then p else r.routerOf other := by
  rw [routerOf, get?_put]
  split <;> rfl

theorem routerOf_registry (hu : r.Uniform) (key : String) :
    (r.routerOf key).registry = r.registry := by
  rw [routerOf]
  cases hg : r.routers.get? key with
  | none => rfl
  | some p => exact hu key p hg

theorem replay_cons_ok_iff {c : Change} :
    r.replay (c :: changes) = .ok last ↔
      ∃ next, r.change c = .ok next ∧ next.replay changes = .ok last := by
  rw [replay]
  cases r.change c <;> simp [bind, Except.bind]

/-- A push that succeeds puts the route into the router of its method. -/
theorem push_ok_iff {method path : String} {handler : Handler} {names lines : List String} :
    r.push method path handler names = .ok (next, lines) ↔
      ∃ chain, Route.check path = .ok () ∧ r.registry.resolve names = .ok chain ∧
        next = r.put (Text.upperAscii method)
          ((r.routerOf (Text.upperAscii method)).insert path handler chain).1 ∧
        lines = ((r.routerOf (Text.upperAscii method)).insert path handler chain).2 := by
  simp only [push, put]
  cases hc : Route.check path with
  | error e => simp [bind, Except.bind]
  | ok u =>
    cases hr : r.registry.resolve names with
    | error e => simp [bind, Except.bind]
    | ok chain => simp [bind, Except.bind, pure, Except.pure, eq_comm]

/-- What a change does: it sets the base chain, or puts a route into the router of its method. -/
theorem change_ok_cases {c : Change} (h : r.change c = .ok next) :
    (∃ names base, c = .base names ∧ r.registry.resolve names = .ok base ∧
      next = { r with base := base }) ∨
    ∃ method path handler names chain, c = .push method path handler names ∧
      Route.check path = .ok () ∧ r.registry.resolve names = .ok chain ∧
      next = r.put (Text.upperAscii method)
        ((r.routerOf (Text.upperAscii method)).insert path handler chain).1 := by
  cases c with
  | base names =>
    left
    rw [change, withBase] at h
    cases hr : r.registry.resolve names with
    | error e => simp [hr, Except.map] at h
    | ok base => exact ⟨names, base, rfl, hr, by simpa [hr, Except.map, eq_comm] using h⟩
  | push method path handler names =>
    right
    rw [change] at h
    cases hp : r.push method path handler names with
    | error e => simp [hp, Except.map] at h
    | ok result =>
      obtain ⟨next', lines⟩ := result
      obtain rfl : next' = next := by simpa [hp, Except.map] using h
      obtain ⟨chain, hc, hr, hn, _⟩ := push_ok_iff.mp hp
      exact ⟨method, path, handler, names, chain, rfl, hc, hr, hn⟩

theorem Uniform.change {c : Change} (hu : r.Uniform) (h : r.change c = .ok next) :
    next.Uniform := by
  rcases change_ok_cases h with ⟨_, base, _, _, rfl⟩ |
    ⟨method, path, handler, _, chain, _, _, _, rfl⟩
  · exact hu
  · intro other p hp
    rw [get?_put] at hp
    split at hp
    · obtain rfl := Option.some.inj hp
      exact routerOf_registry hu _
    · exact hu other p hp

/-- The router of a method that is pushed to makes a push of its own. -/
theorem replay_push {p : Router} {path : String} {handler : Handler} {names : List String}
    {chain : List Middleware} {rest : List Router.Change} {final : Router}
    {log : List Router.Pushed} (hc : Route.check path = .ok ())
    (hr : p.registry.resolve names = .ok chain)
    (h : (p.insert path handler chain).1.replay rest = .ok (final, log)) :
    ∃ log', p.replay (.push path handler names :: rest) = .ok (final, log') := by
  rcases Router.record_cases p path handler names with
    ⟨e, rfl, rfl, rfl, hf, hrec⟩ | ⟨error, hp, _⟩
  · refine ⟨[e] ++ log, Router.replay_cons_eq_ok_iff.mpr ⟨_, [e], log, ?_, h, rfl⟩⟩
    obtain rfl : e.chain = chain := Except.ok.inj (hf.chain.symm.trans hr)
    rw [Router.change, hrec, Router.settle, Router.insert_eq, Router.Pushed.composed, hf.base]
  · rw [Router.push_eq hc hr] at hp
    cases hp

/-- The router of a method makes its own history, change by change. -/
theorem replay_routerOf (hu : r.Uniform) (h : r.replay changes = .ok last) (key : String) :
    ∃ log, (r.routerOf key).replay (ownHistory key (r.routers.get? key).isSome changes) =
      .ok (last.routerOf key, log) := by
  induction changes generalizing r with
  | nil =>
    obtain rfl := Except.ok.inj h
    exact ⟨[], rfl⟩
  | cons c rest ih =>
    obtain ⟨next, hc, ht⟩ := replay_cons_ok_iff.mp h
    obtain ⟨log, hlog⟩ := ih (hu.change hc) ht
    rcases change_ok_cases hc with ⟨names, base, rfl, hr, rfl⟩ |
      ⟨method, path, handler, names, chain, rfl, hcheck, hr, rfl⟩
    · cases hg : r.routers.get? key with
      | some p => exact ⟨log, by simpa [ownHistory, routerOf, hg] using hlog⟩
      | none =>
        refine ⟨log, ?_⟩
        have hb : (r.routerOf key).change (.base names) =
            .ok ({ r.routerOf key with base := base }, []) := by
          rw [Router.change, Router.withBase, routerOf_registry hu, hr]
          simp [Except.map, routerOf_registry hu]
        refine Router.replay_cons_eq_ok_iff.mpr ⟨_, [], log, hb, ?_, rfl⟩
        simpa [routerOf, hg, Router.empty] using hlog
    · rw [get?_put, routerOf_put] at hlog
      by_cases hk : Text.upperAscii method = key
      · subst hk
        simp only [if_true] at hlog
        rw [← routerOf_registry hu (Text.upperAscii method)] at hr
        simpa [ownHistory] using replay_push hcheck hr hlog
      · rw [if_neg (Ne.symm hk), if_neg (Ne.symm hk)] at hlog
        exact ⟨log, by simpa [ownHistory, hk] using hlog⟩

theorem mem_keys_replay {key : String} (h : r.replay changes = .ok last) :
    key ∈ last.routers.keys ↔ key ∈ r.routers.keys ∨ key ∈ methods changes := by
  induction changes generalizing r with
  | nil =>
    obtain rfl := Except.ok.inj h
    simp [methods]
  | cons c rest ih =>
    obtain ⟨next, hc, ht⟩ := replay_cons_ok_iff.mp h
    rw [ih ht]
    rcases change_ok_cases hc with ⟨names, base, rfl, _, rfl⟩ |
      ⟨method, path, handler, names, chain, rfl, _, _, rfl⟩
    · simp [methods, Change.key?]
    · simp [put, methods, Change.key?, Table.mem_keys_insert, or_assoc, or_left_comm]

theorem nodup_keys_replay (hn : r.routers.keys.Nodup) (h : r.replay changes = .ok last) :
    last.routers.keys.Nodup := by
  induction changes generalizing r with
  | nil =>
    obtain rfl := Except.ok.inj h
    exact hn
  | cons c rest ih =>
    obtain ⟨next, hc, ht⟩ := replay_cons_ok_iff.mp h
    rcases change_ok_cases hc with ⟨_, base, _, _, rfl⟩ | ⟨_, _, _, _, _, _, _, _, rfl⟩
    · refine ih ?_ ht
      exact hn
    · refine ih ?_ ht
      exact Table.nodup_keys_insert hn _ _

theorem count_eq_sum (hn : r.routers.keys.Nodup) :
    r.count = ∑ key ∈ r.routers.keys.toFinset, (r.routerOf key).count := by
  have hget : ∀ p ∈ r.routers, p.2.count = (r.routerOf p.1).count := by
    rintro ⟨key, p⟩ hp
    simp [routerOf, Table.get?_of_mem hn hp]
  have hsum : r.count = (r.routers.map (·.2.count)).sum := by
    rw [count]
    induction r.routers with
    | nil => rfl
    | cons p t ih => simp [ih]
  rw [hsum, List.map_congr_left hget, List.sum_toFinset _ hn, Table.keys, List.map_map]
  rfl

theorem find_eq_routerOf (r : MethodRouter) (method path : String) :
    r.find method path = (r.routerOf (Text.upperAscii method)).find path := by
  rw [find, routerOf]
  cases r.routers.get? (Text.upperAscii method) with
  | none => exact (Router.find_empty r.registry r.base path).symm
  | some p => rfl

theorem ownHistory_eq_shared {key : String} {before after : List Change}
    (hb : ∀ c ∈ before, c.key? ≠ some key) (ha : ∀ names, .base names ∉ after) :
    ownHistory key false (before ++ after) = sharedHistory key (before ++ after) := by
  have hafter : ∀ isOpen, ownHistory key isOpen after = sharedHistory key after := by
    induction after with
    | nil => exact fun _ => rfl
    | cons c after ih =>
      intro isOpen
      have ih := ih fun names h => ha names (List.mem_cons_of_mem c h)
      cases c with
      | base names => exact absurd (List.mem_cons_self ..) (ha names)
      | push method path handler names =>
        by_cases hk : Text.upperAscii method = key <;>
          simp [ownHistory, sharedHistory, hk, ih]
  induction before with
  | nil => exact hafter false
  | cons c before ih =>
    have ih := ih fun d hd => hb d (List.mem_cons_of_mem c hd)
    cases c with
    | base names => simp [ownHistory, sharedHistory, ih]
    | push method path handler names =>
      have hk : Text.upperAscii method ≠ key := by
        simpa [Change.key?] using hb _ (List.mem_cons_self ..)
      simp [ownHistory, sharedHistory, hk, ih]

/-- A method router answers as routers that each make the history of their own method. Where no
change of the base chain comes after the first push of a method, that history has all changes of the
base chain. -/
theorem find_eq_ownHistory {registry : Registry} (h : (empty registry).replay changes = .ok r) :
    ∃ family : String → Router,
      (∀ key, ∃ log, (Router.empty registry []).replay (ownHistory key false changes) =
        .ok (family key, log)) ∧
      (∀ method path, r.find method path = (family (Text.upperAscii method)).find path) ∧
      r.count = ∑ key ∈ methods changes, (family key).count ∧
      ∀ key before after, changes = before ++ after → (∀ c ∈ before, c.key? ≠ some key) →
        (∀ names, .base names ∉ after) →
        ∃ log, (Router.empty registry []).replay (sharedHistory key changes) =
          .ok (family key, log) := by
  have hu : (empty registry).Uniform := fun key p hp => by cases hp
  have hfamily := replay_routerOf hu h
  have hkeys : r.routers.keys.toFinset = methods changes := by
    ext key
    rw [List.mem_toFinset, mem_keys_replay h]
    simp [empty, Table.keys]
  refine ⟨r.routerOf, hfamily, find_eq_routerOf r, ?_, ?_⟩
  · rw [← hkeys]
    exact count_eq_sum (nodup_keys_replay (by simp [empty, Table.keys]) h)
  · rintro key before after rfl hb ha
    rw [← ownHistory_eq_shared hb ha]
    exact hfamily key

theorem upperAscii_eq {s t : String} (h : s.toList.map Char.toUpper = t.toList) :
    Text.upperAscii s = t := by
  apply String.toList_injective
  rw [Text.upperAscii, String.toList_map, h]

/-- The chain that comes after the first push of a method is not around its routes. -/
theorem find_eq_ownHistory_orders :
    let registry := Registry.empty.register "m0" (.scripted "m0" [] [] false)
    ∃ (r : MethodRouter) (family : String → Router),
      (empty registry).replay [.push "get" "/a" .reply [], .base ["m0"],
        .push "GET" "/orders" .reply [], .push "POST" "/b" .reply []] = .ok r ∧
      (∃ log, (Router.empty registry []).replay [.push "/a" .reply [], .push "/orders" .reply []] =
        .ok (family "GET", log)) ∧
      (∃ log, (Router.empty registry []).replay [.base ["m0"], .push "/b" .reply []] =
        .ok (family "POST", log)) ∧
      r.find "get" "/orders" = (family "GET").find "/orders" ∧
      r.count = (family "GET").count + (family "POST").count := by
  intro registry
  obtain ⟨r, h⟩ : ∃ r, (empty registry).replay [.push "get" "/a" .reply [], .base ["m0"],
      .push "GET" "/orders" .reply [], .push "POST" "/b" .reply []] = .ok r := ⟨_, rfl⟩
  obtain ⟨family, hown, hfind, hcount, _⟩ := find_eq_ownHistory h
  have hget : Text.upperAscii "get" = "GET" := upperAscii_eq rfl
  have hGet : Text.upperAscii "GET" = "GET" := upperAscii_eq rfl
  have hPost : Text.upperAscii "POST" = "POST" := upperAscii_eq rfl
  refine ⟨r, family, h, ?_, ?_, ?_, ?_⟩
  · simpa [ownHistory, hget, hGet, hPost] using hown "GET"
  · simpa [ownHistory, hget, hGet, hPost] using hown "POST"
  · rw [hfind, hget]
  · simpa [methods, Change.key?, List.filterMap_cons, hget, hGet, hPost] using hcount

/-- Were every change of the base chain part of the history of every method, a chain that is set
later would be around the later routes of a method that has a route. -/
theorem later_base_passes_by :
    let registry := Registry.empty.register "m0" (.scripted "m0" [] [] false)
    let changes := [.push "GET" "/a" .reply [], .base ["m0"], .push "GET" "/b" .reply []]
    ∃ r shared log found expected, (empty registry).replay changes = .ok r ∧
      (Router.empty registry []).replay (sharedHistory "GET" changes) = .ok (shared, log) ∧
      r.find "GET" "/b" = some (found, []) ∧ shared.find "/b" = some (expected, []) ∧
      ∀ ctx, (found ctx).Runs [] (.replied ctx) ∧ ¬ (expected ctx).Runs [] (.replied ctx) := by
  intro registry changes
  have hGet : Text.upperAscii "GET" = "GET" := upperAscii_eq rfl
  obtain ⟨r, hr⟩ : ∃ r, (empty registry).replay changes = .ok r := ⟨_, rfl⟩
  have hu : (empty registry).Uniform := fun key p hp => by cases hp
  obtain ⟨log, hown⟩ := replay_routerOf hu hr "GET"
  have hhistory : ownHistory "GET" ((empty registry).routers.get? "GET").isSome changes =
      [.push "/a" .reply [], .push "/b" .reply []] := by
    simp [changes, ownHistory, hGet]
  have hopened : (Router.empty registry []).replay
      [.push "/a" .reply [], .push "/b" .reply []] = .ok (_, _) := rfl
  have hrouter := (Prod.mk.inj (Except.ok.inj (hown.symm.trans (hhistory ▸ hopened)))).1
  have hshared : sharedHistory "GET" changes =
      [.push "/a" .reply [], .base ["m0"], .push "/b" .reply []] := by
    simp [changes, sharedHistory, hGet]
  have hs : (Router.empty registry []).replay
      [.push "/a" .reply [], .base ["m0"], .push "/b" .reply []] = .ok (_, _) := rfl
  refine ⟨r, _, _, .reply, _, hr, hshared ▸ hs, ?_, rfl, fun ctx => ⟨.reply ctx, ?_⟩⟩
  · rw [find_eq_routerOf, hGet, hrouter]
    rfl
  · intro h
    cases h

end MethodRouter

end Switchboard
