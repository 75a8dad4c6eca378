import Switchboard.Proofs.Service.Capacity

/-! What the HTTP front end counts, and what leaves for the network. A status is counted before one
that is none is replaced by 500. -/

namespace Switchboard

open RateLimit (Amount)
open Server

namespace Server.HttpServer

variable {server next : HttpServer}

theorem stats_ofConfig {config : Config.Http} {registry : Registry}
    (h : ofConfig config registry = .ok server) : server.stats = .zero := by
  cases hr : (MethodRouter.empty registry).withBase config.baseMiddleware with
  | error e =>
    rw [ofConfig, hr] at h
    cases h
  | ok router =>
    cases hl : config.limit with
    | error e =>
      rw [ofConfig, hr, hl] at h
      cases h
    | ok limit =>
      rw [ofConfig, hr, hl] at h
      obtain rfl := Except.ok.inj h
      rfl

theorem stats_push {method path : String} {handler : Handler} {names lines : List String}
    (h : server.push method path handler names = .ok (next, lines)) :
    next.stats = server.stats := by
  cases hp : server.router.push method path handler names with
  | error e =>
    rw [push, hp] at h
    cases h
  | ok r =>
    rw [push, hp] at h
    obtain rfl := (Prod.mk.inj (Except.ok.inj h)).1
    rfl

theorem stats_start {ip : Net.Ip} (h : server.start = .ok (next, ip)) :
    next.stats = server.stats := by
  rw [start] at h
  split at h
  · cases h
  · split at h
    · obtain rfl := (Prod.mk.inj (Except.ok.inj h)).1
      rfl
    · cases h

end Server.HttpServer

/-- The status of the answer that a request has got. -/
def Task.status? (t : Task) : Option Nat :=
  match t.stage with
  | .answered reply _ => some reply.status
  | _ => none

/-- What is counted when the call of a request comes so far. -/
def Pause.counted : Pause → List Nat
  | .ended (.replied ctx) => [Http.statusOf ctx.response]
  | _ => []

/-- What is counted when a request that has a slot is served. -/
def Server.HttpServer.counted {R : Type} [Amount R] (server : HttpServer) (i : Incoming)
    (w : World R) : List Nat :=
  match i.body with
  | none => [400]
  | some body => ((dispatch (server.route i) (.ofRequest (i.request body))).poll w).1.counted

theorem filterMap_set_perm {α β : Type} {f : α → Option β} {l : List α} {i : Nat} {a : α}
    (h : l[i]? = some a) (ha : f a = none) (b : α) :
    ((l.set i b).filterMap f).Perm (l.filterMap f ++ (f b).toList) := by
  induction l generalizing i with
  | nil => cases h
  | cons c l ih =>
    cases i with
    | zero =>
      obtain rfl : c = a := by simpa using h
      rw [List.set_cons_zero, List.filterMap_cons_none ha]
      cases hb : f b with
      | none => simp [List.filterMap_cons_none hb]
      | some x =>
        rw [List.filterMap_cons_some hb]
        exact (List.perm_append_singleton x _).symm
    | succ i =>
      have hrest := ih (by simpa using h)
      rw [List.set_cons_succ]
      cases hc : f c with
      | none =>
        rw [List.filterMap_cons_none hc, List.filterMap_cons_none hc]
        exact hrest
      | some x =>
        rw [List.filterMap_cons_some hc, List.filterMap_cons_some hc]
        exact hrest.cons x

namespace Service

variable {R : Type}

/-- The statuses of all answers that have left so far. -/
def statuses (s : Service R) : List Nat :=
  s.tasks.toList.filterMap Task.status?

def stats? (s : Service R) : Option Stats :=
  s.http.map (·.stats)

/-- Between two states these statuses have been counted, and an answer has left for each. -/
structure Records (s next : Service R) (counted : List Nat) : Prop where
  stats_eq : next.stats? = s.stats?.map (counted.foldl Stats.record ·)
  perm : next.statuses.Perm (s.statuses ++ counted.map Http.sentStatus)

variable {s next last : Service R} {id : Nat} {task : Task} {server : HttpServer}

theorem Records.of_eq (ht : next.tasks = s.tasks) (hs : next.stats? = s.stats?) :
    Records s next [] := by
  refine ⟨?_, ?_⟩
  · rw [hs]
    exact Option.map_id_apply.symm
  · rw [statuses, ht, List.map_nil, List.append_nil, statuses]

theorem Records.isSome_http {counted : List Nat} (h : Records s next counted) :
    next.http.isSome = s.http.isSome := by
  have hstats := congrArg Option.isSome h.stats_eq
  simpa [stats?] using hstats

theorem Records.trans {counted more : List Nat} (h : Records s next counted)
    (h' : Records next last more) : Records s last (counted ++ more) := by
  refine ⟨?_, ?_⟩
  · rw [h'.stats_eq, h.stats_eq, Option.map_map]
    simp only [Function.comp_def, List.foldl_append]
  · rw [List.map_append, ← List.append_assoc]
    exact h'.perm.trans (h.perm.append_right _)

/-- What comes before that leaves the tasks and the statistics alone makes no difference. -/
theorem Records.of_before {middle : Service R} {counted : List Nat}
    (h : Records middle next counted) (ht : middle.tasks = s.tasks)
    (hs : middle.stats? = s.stats?) : Records s next counted :=
  (Records.of_eq ht hs).trans h

theorem Records.of_after {middle : Service R} {counted : List Nat}
    (h : Records s middle counted) (ht : next.tasks = middle.tasks)
    (hs : next.stats? = middle.stats?) : Records s next counted := by
  have hall := h.trans (.of_eq ht hs)
  rwa [List.append_nil] at hall

theorem statuses_setStage (h : s.tasks[id]? = some task) (hn : task.status? = none)
    (stage : Stage) : (s.setStage id stage).statuses.Perm
      (s.statuses ++ (Task.status? ⟨stage, task.owner⟩).toList) := by
  have hset : (s.setStage id stage).tasks = s.tasks.setIfInBounds id ⟨stage, task.owner⟩ :=
    congrArg Floor.tasks (floor_setStage h stage)
  rw [statuses, hset, Array.toList_setIfInBounds]
  exact filterMap_set_perm (by simpa using h) hn _

theorem Records.setStage (h : s.tasks[id]? = some task) (hn : task.status? = none) {stage : Stage}
    (hs : ∀ owner, Task.status? ⟨stage, owner⟩ = none) : Records s (s.setStage id stage) [] := by
  refine ⟨Option.map_id_apply.symm, ?_⟩
  have hperm := statuses_setStage h hn stage
  rw [hs] at hperm
  exact hperm

theorem Records.setOwner (h : s.tasks[id]? = some task) (hn : task.status? = none)
    (owner : Owner) : Records s (s.setOwner id owner) [] := by
  refine ⟨Option.map_id_apply.symm, ?_⟩
  have hset : (s.setOwner id owner).tasks = s.tasks.setIfInBounds id ⟨task.stage, owner⟩ :=
    congrArg Floor.tasks (floor_setOwner h owner)
  have hget : s.tasks.toList[id]? = some task := by simpa using h
  have hsame : Task.status? ⟨task.stage, owner⟩ = none := hn
  have hperm := filterMap_set_perm hget hn ⟨task.stage, owner⟩
  rw [hsame] at hperm
  rw [statuses, hset, Array.toList_setIfInBounds]
  exact hperm

theorem Records.addTask {stage : Stage} {owner : Owner}
    (hs : Task.status? ⟨stage, owner⟩ = none) : Records s (s.addTask stage owner).1 [] := by
  refine ⟨Option.map_id_apply.symm, ?_⟩
  rw [statuses, Service.addTask, Array.toList_push, List.filterMap_append,
    List.filterMap_cons_none hs]
  rfl

theorem http_enqueue (s : Service R) (agent : Agent) : (s.enqueue agent).http = s.http := by
  rw [enqueue]
  split
  · rfl
  · split <;> rfl

theorem http_enqueueAll (s : Service R) (agents : List Agent) :
    (s.enqueueAll agents).http = s.http := by
  induction agents generalizing s with
  | nil => rfl
  | cons agent agents ih => exact (ih (s.enqueue agent)).trans (http_enqueue s agent)

theorem Records.enqueueAll (s : Service R) (agents : List Agent) :
    Records s (s.enqueueAll agents) [] :=
  .of_eq (congrArg Floor.tasks (floor_enqueueAll s agents))
    (by rw [stats?, http_enqueueAll, stats?])

theorem Records.leaveGate (s : Service R) : Records s s.leaveGate [] := by
  cases hs : s.http with
  | none =>
    rw [Service.leaveGate, hs]
    exact .of_eq rfl rfl
  | some server =>
    simp only [Service.leaveGate, hs]
    refine (Records.enqueueAll _ _).of_before rfl ?_
    rw [stats?, stats?, hs]
    rfl

theorem Records.spawn {stage : Stage} {owner : Owner}
    (hs : Task.status? ⟨stage, owner⟩ = none) : Records s (s.spawn stage owner).1 [] :=
  (Records.addTask hs).trans (.enqueueAll _ [_])

/-- An answer leaves with the status that stands for the one counted. -/
theorem Records.answered (hs : s.http = some server) (h : s.tasks[id]? = some task)
    (hn : task.status? = none) {next : HttpServer} {w : World R} {reply : Reply} {status : Nat}
    (hstats : next.stats = server.stats.record status)
    (hreply : reply.status = Http.sentStatus status) (now : Instant) :
    Records s ({ s with world := w, http := some next }.setStage id (.answered reply now))
      [status] := by
  refine ⟨?_, ?_⟩
  · rw [stats?, stats?, hs]
    exact congrArg some hstats
  · have hperm := statuses_setStage (s := { s with world := w, http := some next }) h hn
      (.answered reply now)
    have hstatus : Task.status? ⟨.answered reply now, task.owner⟩ = some (Http.sentStatus status) :=
      congrArg some hreply
    rw [hstatus] at hperm
    exact hperm

theorem Records.finish (hs : s.http = some server) (h : s.tasks[id]? = some task)
    (hn : task.status? = none) (outcome : Outcome) :
    Records s (s.finish id outcome)
      (if task.owner.isRequest then (Pause.ended outcome).counted else []) := by
  have howner : s.owner? id = some task.owner := by rw [owner?, h, Option.map_some]
  have hended : Records s (s.setStage id (.ended outcome s.world.now)) [] :=
    .setStage h hn fun _ => rfl
  cases ho : task.owner with
  | nobody =>
    simp only [Service.finish, howner, ho]
    exact hended
  | parent parent =>
    simp only [Service.finish, howner, ho]
    split
    · exact hended.trans (.enqueueAll _ [_])
    · exact hended
  | delivery j number =>
    simp only [Service.finish, howner, ho]
    split
    · exact hended.trans ((Records.enqueueAll _ _).of_before rfl rfl)
    · exact hended
  | request i found =>
    cases outcome with
    | failed fault =>
      simp only [Service.finish, howner, ho]
      exact hended.trans (.leaveGate _)
    | replied ctx =>
      simp only [Service.finish, howner, ho, hs]
      have hanswered := Records.answered (w := s.world) hs h hn
        (rfl : (server.answer found ctx.response).1.stats = _)
        (rfl : (Http.stamp i (server.answer found ctx.response).2).status = _) s.world.now
      exact hanswered.trans (.leaveGate _)

variable [Amount R]

theorem Records.proceed (hs : s.http = some server) (h : s.tasks[id]? = some task)
    (hn : task.status? = none) (call : Call) :
    Records s (s.proceed id call)
      (if task.owner.isRequest then (call.poll s.world).1.counted else []) := by
  cases hp : call.poll s.world with
  | mk pause world =>
    let next : Service R := { s with world := world }
    cases pause with
    | ended outcome =>
      have hproceed : s.proceed id call = next.finish id outcome := by
        simp only [Service.proceed, hp]
        rfl
      rw [hproceed]
      exact (Records.finish (s := next) hs h hn outcome).of_before rfl rfl
    | asleep span rest =>
      let asleep := next.setStage id (.asleep (world.now + span.nanos) rest)
      have hasleep : Records next asleep [] := .setStage (s := next) h hn fun _ => rfl
      have hproceed : s.proceed id call =
          asleep.setTimer (world.now + span.nanos) (.task id) := by
        simp only [Service.proceed, hp]
        rfl
      have hcounted : (if task.owner.isRequest then (Pause.asleep span rest).counted else []) =
          [] := ite_self _
      rw [hproceed, hcounted]
      exact Records.of_after (hasleep.of_before rfl rfl) rfl rfl
    | racing body limit rest =>
      let spawned := (next.spawn (.ready body) (.parent id)).1
      have hspawn : Records next spawned [] := .spawn rfl
      have hid : spawned.tasks[id]? = some task := by
        have htasks : spawned.tasks = s.tasks.push ⟨.ready body, .parent id⟩ :=
          congrArg Floor.tasks (floor_spawn next _ _)
        have hlt : id < s.tasks.size := (Array.getElem?_eq_some_iff.mp h).1
        rw [htasks, Array.getElem?_push, if_neg (Nat.ne_of_lt hlt), h]
      let racing := spawned.setStage id (.racing s.tasks.size (world.now + limit.nanos) rest)
      have hracing : Records spawned racing [] := .setStage (s := spawned) hid hn fun _ => rfl
      have hproceed : s.proceed id call =
          racing.setTimer (world.now + limit.nanos) (.task id) := by
        simp only [Service.proceed, hp]
        rfl
      have hcounted :
          (if task.owner.isRequest then (Pause.racing body limit rest).counted else []) = [] :=
        ite_self _
      rw [hproceed, hcounted]
      have hspawned : Records s spawned [] := hspawn.of_before rfl rfl
      exact Records.of_after (hspawned.trans hracing) rfl rfl

theorem Records.serve (hs : s.http = some server) (h : s.tasks[id]? = some task)
    (hn : task.status? = none) (i : Incoming) :
    Records s (s.serve id i) (server.counted i s.world) := by
  cases hb : i.body with
  | none =>
    have hcounted : server.counted i s.world = [400] := by rw [HttpServer.counted, hb]
    simp only [Service.serve, hs, hb, hcounted]
    have hanswered := Records.answered
      (w := s.world.report (.bodyUnreadable "error reading a body from connection")) hs h hn
      (rfl : server.refuse.1.stats = _) (rfl : (Http.stamp i server.refuse.2).status = _)
      (s.world.report (.bodyUnreadable "error reading a body from connection")).now
    exact hanswered.trans (.leaveGate _)
  | some body =>
    let call := dispatch (server.route i) (.ofRequest (i.request body))
    let next := s.setOwner id (.request i (server.route i).isSome)
    have hserve : s.serve id i = next.proceed id call := by
      simp only [Service.serve, hs, hb]
      rfl
    have hcounted : server.counted i s.world = (call.poll next.world).1.counted := by
      rw [HttpServer.counted, hb]
      rfl
    have hid : next.tasks[id]? = some ⟨task.stage, .request i (server.route i).isSome⟩ := by
      have htasks := congrArg Floor.tasks (floor_setOwner h (.request i (server.route i).isSome))
      exact (congrArg (·[id]?) htasks).trans (getElem?_setTask s.floor h _)
    rw [hserve, hcounted]
    exact (Records.setOwner h hn _).trans (Records.proceed (s := next) hs hid hn call)

/-- The call that a task goes on with when it is its turn. -/
def goesOn? (s : Service R) : Stage → Option Call
  | .ready call => some call
  | .asleep due rest => if due ≤ s.world.now then some rest else none
  | .racing child deadline rest => (s.verdict? child deadline).map rest
  | _ => none

def countedAt (s : Service R) (server : HttpServer) (id : Nat) : Task → List Nat
  | ⟨.arriving i, _⟩ => if 1 ≤ server.gate.free then server.counted i s.world else []
  | ⟨.inLine i, _⟩ => if server.gate.isWaiting id then [] else server.counted i s.world
  | ⟨stage, owner⟩ =>
    match s.goesOn? stage with
    | some call => if owner.isRequest then (call.poll s.world).1.counted else []
    | none => []

/-- The statuses that are counted in a turn: that of the context which the call of a request ends
with, or 400 for a request whose body cannot be read. -/
def counted (s : Service R) : Agent → List Nat
  | .task id =>
    match s.tasks[id]?, s.http with
    | some task, some server => s.countedAt server id task
    | _, _ => []
  | _ => []

theorem Records.runTask (hs : s.http = some server) (hf : s.floor.Fits) (id : Nat) :
    Records s (s.runTask id) (s.counted (.task id)) := by
  cases h : s.tasks[id]? with
  | none =>
    have hstage : s.stage? id = none := by rw [stage?, h, Option.map_none]
    simp only [Service.runTask, hstage, counted, h]
    exact .of_eq rfl rfl
  | some task =>
    obtain ⟨stage, owner⟩ := task
    have hstage : s.stage? id = some stage := by rw [stage?, h, Option.map_some]
    have howner : s.owner? id = some owner := by rw [owner?, h, Option.map_some]
    have hfits := hf.at h
    have hcounted : s.counted (.task id) = s.countedAt server id ⟨stage, owner⟩ := by
      simp only [counted, h, hs]
    rw [hcounted]
    cases stage with
    | arriving i =>
      let next : Service R :=
        { s with http := some { server with gate := (server.gate.take id 1).1 } }
      have hstats : next.stats? = s.stats? := by
        rw [stats?, stats?, hs]
        rfl
      by_cases hfree : 1 ≤ server.gate.free
      · have hrun : s.runTask id = next.serve id i := by
          simp only [Service.runTask, hstage, hs, next, Gate.take, hfree, if_true]
        have hserve : Records next (next.serve id i) (server.counted i s.world) :=
          .serve (s := next) rfl h rfl i
        rw [hrun, countedAt, if_pos hfree]
        exact hserve.of_before rfl hstats
      · have hrun : s.runTask id = next.setStage id (.inLine i) := by
          simp only [Service.runTask, hstage, hs, next, Gate.take, hfree, if_false]
        have hline : Records next (next.setStage id (.inLine i)) [] :=
          .setStage (s := next) h rfl fun _ => rfl
        rw [hrun, countedAt, if_neg hfree]
        exact hline.of_before rfl hstats
    | inLine i =>
      simp only [Service.runTask, hstage, hs, countedAt, Option.any_some]
      split
      · exact .of_eq rfl rfl
      · exact .serve hs h rfl i
    | unrouted d =>
      obtain ⟨j, number, rfl⟩ := hfits
      simp only [Service.runTask, hstage, howner, countedAt, goesOn?]
      split
      · exact .proceed hs h rfl _
      · exact .of_eq rfl rfl
    | ready call =>
      simp only [Service.runTask, hstage, countedAt, goesOn?]
      exact .proceed hs h rfl call
    | asleep due rest =>
      simp only [Service.runTask, hstage, countedAt, goesOn?]
      split
      · exact .proceed hs h rfl rest
      · exact .of_eq rfl rfl
    | racing child deadline rest =>
      simp only [Service.runTask, hstage, countedAt, goesOn?]
      cases s.verdict? child deadline with
      | some verdict => exact .proceed hs h rfl (rest verdict)
      | none => exact .of_eq rfl rfl
    | ended outcome time =>
      simp only [Service.runTask, hstage, countedAt, goesOn?]
      exact .of_eq rfl rfl
    | answered reply time =>
      simp only [Service.runTask, hstage, countedAt, goesOn?]
      exact .of_eq rfl rfl

omit [Amount R] in
theorem Records.runIntake (s : Service R) (j : Nat) : Records s (s.runIntake j) [] := by
  cases hc : s.consumers[j]? with
  | none =>
    rw [runIntake_of_none hc]
    exact .of_eq rfl rfl
  | some c =>
    cases ha : c.advance with
    | mk next progress =>
      have hset : Records s (s.setConsumer j next) [] := .of_eq rfl rfl
      cases progress with
      | waits =>
        simp only [Service.runIntake, hc, ha]
        exact hset
      | goesOn =>
        simp only [Service.runIntake, hc, ha]
        exact .of_eq rfl rfl
      | ends served =>
        simp only [Service.runIntake, hc, ha]
        exact hset.trans (.enqueueAll _ _)
      | takes number =>
        cases hd : next.delivery? number with
        | none =>
          simp only [Service.runIntake, hc, ha, hd]
          exact hset
        | some d =>
          simp only [Service.runIntake, hc, ha, hd]
          exact Records.of_after (hset.trans (.spawn rfl)) rfl rfl

theorem Records.runSweeper (s : Service R) (id : Nat) : Records s (s.runSweeper id) [] := by
  refine .of_eq (congrArg Floor.tasks (floor_runSweeper s id)) ?_
  simp only [Service.runSweeper]
  repeat' split
  all_goals rfl

theorem Records.run (hs : s.http = some server) (hf : s.floor.Fits) (agent : Agent) :
    Records s (s.run agent) (s.counted agent) := by
  cases agent with
  | task id => exact .runTask hs hf id
  | intake j => exact .runIntake s j
  | sweeper id => exact .runSweeper s id

end Service

/-- A service, and the statuses that have been counted so far. -/
structure Ledger (R : Type) where
  service : Service R
  counted : List Nat

namespace Ledger

variable {R : Type} [Amount R]

/-- What can be done with a service that has an HTTP front end, in any order, and turns that are
taken at any time. -/
inductive Step : Ledger R → Ledger R → Prop
  | run (l : Ledger R) (agent : Agent) :
    Step l ⟨l.service.run agent, l.counted ++ l.service.counted agent⟩
  | arrive (l : Ledger R) {task : Task} (h : Newcomer task) :
    Step l { l with service := (l.service.addTask task.stage task.owner).1 }
  | push {l : Ledger R} {server next : HttpServer} {method path : String} {handler : Handler}
    {names lines : List String} (hs : l.service.http = some server)
    (h : server.push method path handler names = .ok (next, lines)) :
    Step l { l with service := { l.service with http := some next } }
  | start {l : Ledger R} {server next : HttpServer} {ip : Net.Ip}
    (hs : l.service.http = some server) (h : server.start = .ok (next, ip)) :
    Step l { l with service := { l.service with http := some next } }
  | stop {l : Ledger R} {server : HttpServer} (hs : l.service.http = some server) :
    Step l { l with service := { l.service with http := some server.stop } }
  /-- The world, the turns and the timers, and whatever else a service has. -/
  | around {l : Ledger R} {s : Service R} (ht : s.tasks = l.service.tasks)
    (hs : s.http = l.service.http) : Step l { l with service := s }

abbrev Reaches : Ledger R → Ledger R → Prop :=
  Relation.ReflTransGen Step

/-- The schedule of the service is one of these runs. -/
theorem reaches_drive (goal : Service R → Bool) (fuel : Nat) (l : Ledger R) :
    ∃ counted, l.Reaches ⟨l.service.drive goal fuel, counted⟩ := by
  induction fuel generalizing l with
  | zero => exact ⟨l.counted, .refl⟩
  | succ fuel ih =>
    obtain ⟨s, counted⟩ := l
    have hturn : ∀ (next : Service R) (agent : Agent), next.tasks = s.tasks → next.http = s.http →
        ∃ counted', Reaches ⟨s, counted⟩
          ⟨Service.drive goal fuel (next.run agent), counted'⟩ := by
      intro next agent ht hs
      obtain ⟨counted', hr⟩ := ih ⟨next.run agent, counted ++ next.counted agent⟩
      have haround : Step ⟨s, counted⟩ ⟨next, counted⟩ := .around ht hs
      exact ⟨counted', .head haround (.head (.run _ agent) hr)⟩
    have hidle : ∀ next : Service R, next.tasks = s.tasks → next.http = s.http →
        ∃ counted', Reaches ⟨s, counted⟩ ⟨Service.drive goal fuel next, counted'⟩ := by
      intro next ht hs
      obtain ⟨counted', hr⟩ := ih ⟨next, counted⟩
      exact ⟨counted', .head (.around ht hs) hr⟩
    simp only [Service.drive]
    split
    · exact hturn _ _ rfl rfl
    · split
      · split
        · exact hturn _ (.task _) rfl rfl
        · exact hidle _ rfl rfl
      · split
        · exact ⟨counted, .refl⟩
        · split
          · exact ⟨counted, .refl⟩
          · exact hidle _ (congrArg Floor.tasks (Service.floor_advanceTo ..))
              (Service.http_enqueueAll ..)

variable {s₀ : Service R} {l l' : Ledger R}

/-- Everything that happens to a service is recorded. -/
theorem Step.records (hf : l.service.floor.Fits) (hh : l.service.http.isSome = true)
    (h : l.Step l') :
    ∃ counted, l'.counted = l.counted ++ counted ∧ l.service.Records l'.service counted := by
  obtain ⟨server, hserver⟩ := Option.isSome_iff_exists.mp hh
  have hstats : ∀ {next : HttpServer}, next.stats = server.stats →
      (some next).map (·.stats) = l.service.stats? := by
    intro next he
    rw [Service.stats?, hserver, Option.map_some, Option.map_some, he]
  cases h with
  | run agent => exact ⟨_, rfl, .run hserver hf agent⟩
  | arrive hn =>
    refine ⟨[], (List.append_nil _).symm, .addTask ?_⟩
    cases hn <;> rfl
  | push hs hp =>
    obtain rfl := Option.some.inj (hserver.symm.trans hs)
    exact ⟨[], (List.append_nil _).symm, .of_eq rfl (hstats (HttpServer.stats_push hp))⟩
  | start hs hp =>
    obtain rfl := Option.some.inj (hserver.symm.trans hs)
    exact ⟨[], (List.append_nil _).symm, .of_eq rfl (hstats (HttpServer.stats_start hp))⟩
  | stop hs =>
    obtain rfl := Option.some.inj (hserver.symm.trans hs)
    exact ⟨[], (List.append_nil _).symm, .of_eq rfl (hstats rfl)⟩
  | around ht hs =>
    refine ⟨[], (List.append_nil _).symm, .of_eq ht ?_⟩
    rw [Service.stats?, hs, Service.stats?]

theorem Step.fits (hf : l.service.floor.Fits) (h : l.Step l') : l'.service.floor.Fits := by
  cases h with
  | run agent => exact (Kept.fits 0).step hf (.run ⟨l.service, [], 0⟩ agent) hf
  | arrive hn => exact Floor.Fits.addTask hf (fits_newcomer hn)
  | push => exact hf
  | start => exact hf
  | stop => exact hf
  | around ht hs =>
    intro t hm
    have hm' : t ∈ l.service.tasks := by
      rw [← ht]
      exact hm
    exact hf t hm'

theorem Reaches.records (hf : l.service.floor.Fits) (hh : l.service.http.isSome = true)
    (hr : l.Reaches l') :
    l'.service.floor.Fits ∧
      ∃ counted, l'.counted = l.counted ++ counted ∧ l.service.Records l'.service counted := by
  induction hr with
  | refl => exact ⟨hf, [], (List.append_nil _).symm, .of_eq rfl rfl⟩
  | tail _ hs ih =>
    obtain ⟨hfits, counted, hcounted, hrecords⟩ := ih
    obtain ⟨more, hmore, hrecords'⟩ := hs.records hfits (hrecords.isSome_http.trans hh)
    refine ⟨hs.fits hfits, counted ++ more, ?_, hrecords.trans hrecords'⟩
    rw [hmore, hcounted, List.append_assoc]

end Ledger

namespace Server

theorem Stats.foldl_record (stats : Stats) (counted : List Nat) :
    counted.foldl Stats.record stats =
      ⟨stats.handled + counted.length, stats.failed + counted.countP (400 ≤ ·)⟩ := by
  induction counted generalizing stats with
  | nil => rfl
  | cons status counted ih =>
    rw [List.foldl_cons, ih, record, List.length_cons, List.countP_cons]
    by_cases hf : 400 ≤ status <;> simp [hf] <;> omega

theorem Http.le_sentStatus_iff (status : Nat) :
    400 ≤ sentStatus status ↔ 400 ≤ status ∨ status < 100 := by
  unfold sentStatus
  split
  · simp_all
  · simp_all
    omega

/-- Of the statuses that are counted those below 100 leave as failures and are not counted so. -/
theorem Http.countP_sentStatus (counted : List Nat) :
    (counted.map sentStatus).countP (400 ≤ ·) =
      counted.countP (400 ≤ ·) + counted.countP (· < 100) := by
  induction counted with
  | nil => rfl
  | cons status counted ih =>
    have hiff := le_sentStatus_iff status
    simp only [List.map_cons, List.countP_cons, ih, decide_eq_true_eq, hiff]
    split <;> split <;> split <;> omega

end Server

/-- The statistics of an HTTP front end, whatever routes it has and whatever its requests come to. It
has handled as many requests as have got an answer. Those count as failed whose status was 400 or
above before it was looked at whether it is one: an answer that leaves with 500 in the place of a
status below 100 does not count. -/
theorem statistics_of_answers {R : Type} [Amount R] {s₀ : Service R} {l : Ledger R}
    {config : Config.Http} {registry : Registry} {server₀ : HttpServer}
    (hs : HttpServer.ofConfig config registry = .ok server₀) (hh : s₀.http = some server₀)
    (ht : s₀.tasks = #[]) (hr : Ledger.Reaches ⟨s₀, []⟩ l) :
    ∃ server, l.service.http = some server ∧
      l.service.statuses.Perm (l.counted.map Http.sentStatus) ∧
      server.stats.handled = l.service.statuses.length ∧
      server.stats.failed = l.counted.countP (400 ≤ ·) ∧
      server.stats.failed + l.counted.countP (· < 100) = l.service.statuses.countP (400 ≤ ·) := by
  have hfits : s₀.floor.Fits := fits_of_empty ht
  have hsome : s₀.http.isSome = true := by rw [hh, Option.isSome_some]
  obtain ⟨-, counted, hcounted, hrecords⟩ := hr.records hfits hsome
  rw [List.nil_append] at hcounted
  obtain ⟨server, hserver⟩ := Option.isSome_iff_exists.mp (hrecords.isSome_http.trans hsome)
  have hperm : l.service.statuses.Perm (l.counted.map Http.sentStatus) := by
    have hnone : s₀.statuses = [] := by
      rw [Service.statuses, ht]
      rfl
    have hall := hrecords.perm
    rwa [hnone, List.nil_append, ← hcounted] at hall
  have hstats : server.stats = ⟨l.counted.length, l.counted.countP (400 ≤ ·)⟩ := by
    have hall := hrecords.stats_eq
    rw [Service.stats?, Service.stats?, hserver, hh, ← hcounted] at hall
    have hfold : server.stats = l.counted.foldl Stats.record server₀.stats := Option.some.inj hall
    rw [hfold, HttpServer.stats_ofConfig hs, Stats.foldl_record]
    simp [Stats.zero]
  refine ⟨server, hserver, hperm, ?_, ?_, ?_⟩
  · rw [hstats, hperm.length_eq, List.length_map]
  · rw [hstats]
  · rw [hstats, hperm.countP_eq, Http.countP_sentStatus]

/-- A request that finds no route. -/
theorem statistics_of_answers_unrouted :
    let server : HttpServer := ⟨.default, .empty .empty, .ofLimit 1024, .zero, false⟩
    let s : Service Rat := { Service.fresh 0 with http := some server }
    ∃ l server', Ledger.Reaches ⟨s, []⟩ l ∧ l.counted = [404] ∧ l.service.http = some server' ∧
      l.service.statuses.Perm [404] ∧ server'.stats.handled = 1 ∧ server'.stats.failed = 1 := by
  intro server s
  let i : Incoming := ⟨"GET", "/s", .empty, some [], .v4 127 0 0 1, "id"⟩
  let arrived : Ledger Rat := ⟨(s.addTask (.arriving i) (.request i false)).1, []⟩
  let served : Ledger Rat := ⟨arrived.service.run (.task 0), arrived.service.counted (.task 0)⟩
  have harrive : Ledger.Step ⟨s, []⟩ arrived := .arrive ⟨s, []⟩ (.request i)
  have hserve : Ledger.Step arrived served := .run arrived (.task 0)
  have hreaches : Ledger.Reaches ⟨s, []⟩ served := .tail (.single harrive) hserve
  have hcounted : served.counted = [404] := rfl
  obtain ⟨server', hserver, hperm, hhandled, hfailed, -⟩ :=
    statistics_of_answers (rfl : HttpServer.ofConfig .default .empty = .ok server) rfl rfl hreaches
  rw [hcounted] at hperm hfailed
  refine ⟨served, server', hreaches, hcounted, hserver, hperm, ?_, hfailed⟩
  rw [hhandled, hperm.length_eq]
  rfl

/-- A handler that sets the status 99: what leaves is 500, and nothing counts as failed. -/
theorem low_status_not_failed :
    let server : HttpServer := ⟨.default, .empty .empty, .ofLimit 1024, .zero, false⟩
    ∃ next lines l server', server.push "GET" "/s" (Script.handler [.status 99]) [] =
        .ok (next, lines) ∧
      Ledger.Reaches ⟨{ (Service.fresh 0 : Service Rat) with http := some next }, []⟩ l ∧
      l.service.http = some server' ∧ l.service.statuses = [500] ∧ server'.stats = ⟨1, 0⟩ := by
  intro server
  let i : Incoming := ⟨"GET", "/s", .empty, some [], .v4 127 0 0 1, "id"⟩
  let router := ((server.router.routerOf (Text.upperAscii "GET")).insert "/s"
    (Script.handler [.status 99]) []).1
  let next : HttpServer :=
    { server with router := ⟨.empty, [], [(Text.upperAscii "GET", router)]⟩ }
  let s : Service Rat := { Service.fresh 0 with http := some next }
  let arrived : Ledger Rat := ⟨(s.addTask (.arriving i) (.request i false)).1, []⟩
  let served : Ledger Rat := ⟨arrived.service.run (.task 0), arrived.service.counted (.task 0)⟩
  have hpush : server.push "GET" "/s" (Script.handler [.status 99]) [] = .ok (next, _) := rfl
  have hroute : next.route i = router.find "/s" := by
    have hget : next.router.routers.get? (Text.upperAscii "GET") = some router := by
      simp [next, Table.get?]
    have hpath : i.path = "/s" := by decide +kernel
    rw [HttpServer.route, MethodRouter.find, hget, hpath, Option.bind_some]
  have hcounted : next.counted i arrived.service.world = [99] := by
    simp only [HttpServer.counted, hroute, i]
    rfl
  have hserved : served.counted = [99] := hcounted
  have harrive : Ledger.Step ⟨s, []⟩ arrived := .arrive ⟨s, []⟩ (.request i)
  have hserve : Ledger.Step arrived served := .run arrived (.task 0)
  have hreaches : Ledger.Reaches ⟨s, []⟩ served := .tail (.single harrive) hserve
  obtain ⟨-, counted, hall, hrecords⟩ := hreaches.records (fits_of_empty rfl) rfl
  obtain rfl : [99] = counted := hserved.symm.trans hall
  obtain ⟨server', hserver', hstats⟩ := Option.map_eq_some_iff.mp hrecords.stats_eq
  exact ⟨next, _, served, server', hpush, hreaches, hserver',
    List.perm_singleton.mp hrecords.perm, hstats⟩

end Switchboard
