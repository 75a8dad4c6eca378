import Mathlib.Logic.Function.Basic
import Switchboard.Proofs.Service.Deliveries

/-! Which call a task has begun with. However often a task waits on the way, its end is an end of that
call. -/

namespace Switchboard

open RateLimit (Amount)
open Server

/-- What is done on a call may bring it to another one. -/
def Call.Leads (call rest : Call) : Prop :=
  ∃ trace, ∀ ⦃tail outcome⦄, rest.Runs tail outcome → call.Runs (trace ++ tail) outcome

namespace Call

variable {call next rest : Call}

theorem Leads.refl (call : Call) : call.Leads call :=
  ⟨[], fun _ _ h => h⟩

theorem Leads.trans (h : call.Leads next) (h' : next.Leads rest) : call.Leads rest := by
  obtain ⟨first, h⟩ := h
  obtain ⟨second, h'⟩ := h'
  refine ⟨first ++ second, fun tail outcome hr => ?_⟩
  rw [List.append_assoc]
  exact h (h' hr)

theorem Leads.runs (h : call.Leads rest) {tail : List Exchange} {outcome : Outcome}
    (hr : rest.Runs tail outcome) : ∃ trace, call.Runs trace outcome := by
  obtain ⟨trace, h⟩ := h
  exact ⟨trace ++ tail, h hr⟩

variable {body : Call} {limit : Duration} {after : Verdict → Call}

end Call

/-- Whether a task is at work on a call, or has been. -/
def Stage.HasBegun : Stage → Prop
  | .arriving _ | .inLine _ | .unrouted _ => False
  | _ => True

namespace Floor

/-- A stage of a task that has begun with a call. The body of a race is the call of another task. -/
inductive Follows (f : Floor) (origin : Nat → Call) (call : Call) : Stage → Prop
  | arriving (i : Incoming) : Follows f origin call (.arriving i)
  | inLine (i : Incoming) : Follows f origin call (.inLine i)
  | unrouted (d : Delivery) : Follows f origin call (.unrouted d)
  | ready {rest : Call} (h : call.Leads rest) : Follows f origin call (.ready rest)
  | asleep {rest : Call} (due : Instant) (h : call.Leads rest) :
    Follows f origin call (.asleep due rest)
  | racing {child : Nat} {task : Task} {limit : Duration} {rest : Verdict → Call}
    (deadline : Instant) (h : call.Leads (.race (origin child) limit rest))
    (ht : f.tasks[child]? = some task) (hb : task.stage.HasBegun) :
    Follows f origin call (.racing child deadline rest)
  | ended {trace : List Exchange} {outcome : Outcome} (time : Instant)
    (h : call.Runs trace outcome) : Follows f origin call (.ended outcome time)
  | answered (reply : Reply) (time : Instant) : Follows f origin call (.answered reply time)

/-- Every task follows its call. For a delivery of a consumer that call is among the given ones. -/
structure Traced (f : Floor) (i : Nat) (dispatched : Nat → Call → Prop) (origin : Nat → Call) :
    Prop where
  follows {id : Nat} {task : Task} (ht : f.tasks[id]? = some task) :
    f.Follows origin (origin id) task.stage
  routed {id : Nat} {task : Task} {n : Nat} (ht : f.tasks[id]? = some task)
    (hn : task.number? i = some n) : (∃ d, task.stage = .unrouted d) ∨ dispatched n (origin id)

variable {f g : Floor} {i id : Nat} {dispatched : Nat → Call → Prop} {origin : Nat → Call}
  {call : Call} {stage : Stage} {task : Task}

theorem Follows.congr (h : f.Follows origin call stage) {origin' : Nat → Call}
    (hc : ∀ child task, f.tasks[child]? = some task → task.stage.HasBegun →
      origin' child = origin child ∧ ∃ task', g.tasks[child]? = some task' ∧ task'.stage.HasBegun) :
    g.Follows origin' call stage := by
  cases h with
  | racing deadline h ht hb =>
    obtain ⟨ho, task', ht', hb'⟩ := hc _ _ ht hb
    rw [← ho] at h
    exact .racing deadline h ht' hb'
  | arriving i => exact .arriving i
  | inLine i => exact .inLine i
  | unrouted d => exact .unrouted d
  | ready h => exact .ready h
  | asleep due h => exact .asleep due h
  | ended time h => exact .ended time h
  | answered reply time => exact .answered reply time

theorem begun_setTask (ht : f.tasks[id]? = some task) {next : Task}
    (hb : task.stage.HasBegun → next.stage.HasBegun) {child : Nat} {found : Task}
    (hf : f.tasks[child]? = some found) (hfb : found.stage.HasBegun) :
    ∃ found', (f.setTask id next).tasks[child]? = some found' ∧ found'.stage.HasBegun := by
  by_cases he : id = child
  · subst he
    obtain rfl := Option.some.inj (ht.symm.trans hf)
    exact ⟨next, Service.getElem?_setTask f ht next, hb hfb⟩
  · exact ⟨found, (getElem?_setTask_of_ne he next).trans hf, hfb⟩

/-- A task goes on with its call. -/
theorem Traced.goOn (h : f.Traced i dispatched origin) (ht : f.tasks[id]? = some task)
    (next : Task) (ho : next.number? i = task.number? i)
    (hb : task.stage.HasBegun → next.stage.HasBegun)
    (hu : next.number? i = none ∨ task.stage.HasBegun)
    (hf : f.Follows origin (origin id) next.stage) :
    (f.setTask id next).Traced i dispatched origin where
  follows := by
    intro j found hj
    have hkeeps : ∀ child task', f.tasks[child]? = some task' → task'.stage.HasBegun →
        origin child = origin child ∧
          ∃ found, (f.setTask id next).tasks[child]? = some found ∧ found.stage.HasBegun :=
      fun child task' hc hcb => ⟨rfl, begun_setTask ht hb hc hcb⟩
    rcases getElem?_setTask_cases hj with ⟨rfl, rfl⟩ | ⟨-, hj⟩
    · exact hf.congr hkeeps
    · exact (h.follows hj).congr hkeeps
  routed := by
    intro j found n hj hn
    rcases getElem?_setTask_cases hj with ⟨rfl, rfl⟩ | ⟨-, hj⟩
    · rcases hu with hnone | hbegun
      · rw [hnone] at hn
        cases hn
      · rcases h.routed ht (ho ▸ hn) with ⟨d, hd⟩ | hd
        · rw [hd] at hbegun
          exact hbegun.elim
        · exact .inr hd
    · exact h.routed hj hn

/-- A task comes in that begins with a call, or does not begin yet. -/
theorem Traced.addTask (h : f.Traced i dispatched origin) (task : Task) (call : Call)
    (hs : task.stage = .ready call ∨ ¬ task.stage.HasBegun)
    (hn : task.number? i = none ∨ ∃ d, task.stage = .unrouted d) :
    (f.addTask task).Traced i dispatched (Function.update origin f.tasks.size call) := by
  have hold : ∀ {j : Nat} {found : Task}, f.tasks[j]? = some found →
      Function.update origin f.tasks.size call j = origin j := by
    intro j found hj
    have hlt : j < f.tasks.size := (Array.getElem?_eq_some_iff.mp hj).1
    rw [Function.update_of_ne (Nat.ne_of_lt hlt)]
  constructor
  · intro j found hj
    rcases getElem?_addTask_cases hj with ⟨rfl, rfl⟩ | hj
    · rw [Function.update_self]
      rcases hs with hs | hs
      · rw [hs]
        exact .ready (.refl call)
      · revert hs
        cases found.stage with
        | arriving i => exact fun _ => .arriving i
        | inLine i => exact fun _ => .inLine i
        | unrouted d => exact fun _ => .unrouted d
        | _ => exact fun hs => absurd trivial hs
    · rw [hold hj]
      refine (h.follows hj).congr fun child task' hc hcb => ⟨hold hc, task', ?_, hcb⟩
      have hlt : child < f.tasks.size := (Array.getElem?_eq_some_iff.mp hc).1
      rw [Floor.addTask, Array.getElem?_push, if_neg (Nat.ne_of_lt hlt), hc]
  · intro j found n hj hnumber
    rcases getElem?_addTask_cases hj with ⟨rfl, rfl⟩ | hj
    · rcases hn with hn | hn
      · rw [hn] at hnumber
        cases hnumber
      · exact .inl hn
    · rw [hold hj]
      exact h.routed hj hnumber

theorem Traced.mono (h : f.Traced i dispatched origin) {dispatched' : Nat → Call → Prop}
    (hd : ∀ n call, dispatched n call → dispatched' n call) : f.Traced i dispatched' origin where
  follows := h.follows
  routed ht hn := (h.routed ht hn).imp_right (hd _ _)

theorem Traced.close (h : f.Traced i dispatched origin) {call : Call} {owner : Owner}
    (ht : f.tasks[id]? = some ⟨.ready call, owner⟩) {stage : Stage} (hc : Closed call stage) :
    (f.setTask id ⟨stage, owner⟩).Traced i dispatched origin := by
  have hfollows := h.follows ht
  cases hfollows with
  | ready hl =>
    cases hc with
    | ended time hr =>
      obtain ⟨trace, hr⟩ := hl.runs hr
      exact h.goOn ht _ rfl (fun hb => hb) (.inr trivial) (.ended time hr)
    | answered reply time => exact h.goOn ht _ rfl (fun hb => hb) (.inr trivial) (.answered reply time)

theorem Traced.race (h : f.Traced i dispatched origin) {call body : Call} {limit : Duration}
    {rest : Verdict → Call} {owner : Owner} (ht : f.tasks[id]? = some ⟨.ready call, owner⟩)
    (deadline : Instant) (hr : call.Leads (.race body limit rest)) :
    ∃ origin', ((f.setTask id ⟨.racing f.tasks.size deadline rest, owner⟩).addTask
      ⟨.ready body, .parent id⟩).Traced i dispatched origin' := by
  have hlt : id < f.tasks.size := (Array.getElem?_eq_some_iff.mp ht).1
  have hadd := h.addTask ⟨.ready body, .parent id⟩ body (.inl rfl) (.inl rfl)
  have hid : (f.addTask ⟨.ready body, .parent id⟩).tasks[id]? = some ⟨.ready call, owner⟩ := by
    rw [Floor.addTask, Array.getElem?_push, if_neg (Nat.ne_of_lt hlt), ht]
  have hchild : (f.addTask ⟨.ready body, .parent id⟩).tasks[f.tasks.size]? =
      some ⟨.ready body, .parent id⟩ := by
    rw [Floor.addTask, Array.getElem?_push, if_pos rfl]
  have hbody : Function.update origin f.tasks.size body f.tasks.size = body := by
    rw [Function.update_self]
  rw [← Service.setTask_addTask f hlt]
  refine ⟨_, hadd.goOn hid _ rfl (fun _ => trivial) (.inr trivial) ?_⟩
  have hfollows := hadd.follows hid
  cases hfollows with
  | ready hl =>
    have hleads : (Function.update origin f.tasks.size body id).Leads
        (.race (Function.update origin f.tasks.size body f.tasks.size) limit rest) := by
      rw [hbody]
      exact hl.trans hr
    exact .racing deadline hleads hchild trivial

end Floor

/-- The calls that answer a delivery: the handler of the route that the router has for its key, on a
fresh context with the delivery and the values of the names, or else `404` at once. -/
inductive Server.Consumer.Answers (c : Consumer) (d : Delivery) : Call → Prop
  | routed {handler : Handler} {params : Table String}
    (h : c.router.find (c.mode.routeKey d) = some (handler, params)) :
    Answers c d (handler
      { request := ⟨c.mode.method, c.mode.routeKey d, d.headers, d.payload, d.source⟩,
        response := ⟨200, .empty, []⟩, params := params, values := [] })
  | unrouted (h : c.router.find (c.mode.routeKey d) = none) :
    Answers c d (.reply
      { request := ⟨c.mode.method, c.mode.routeKey d, d.headers, d.payload, d.source⟩,
        response := ⟨404, .empty, []⟩, params := [], values := [] })

/-- On the way from one state of a service to another, when the intake has taken a delivery, this is
a call that answers it. -/
def Watch.Dispatches {R : Type} [Amount R] (i : Nat) (w₀ w : Watch R) (n : Nat) (call : Call) : Prop :=
  ∃ w₁ c d, w₀.Reaches i w₁ ∧ w₁.Reaches i w ∧ n ∈ w₁.taken ∧
    w₁.service.consumers[i]? = some c ∧ c.delivery? n = some d ∧ c.Answers d call

namespace Watch

variable {R : Type} [Amount R] {i : Nat} {w₀ w w' : Watch R}

theorem Dispatches.step {n : Nat} {call : Call} (h : Dispatches i w₀ w n call)
    (hs : w.Step i w') : Dispatches i w₀ w' n call := by
  obtain ⟨w₁, c, d, hbefore, hafter, h⟩ := h
  exact ⟨w₁, c, d, hbefore, hafter.tail hs, h⟩

end Watch

end Switchboard
