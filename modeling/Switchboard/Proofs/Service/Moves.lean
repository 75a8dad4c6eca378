import Mathlib.Logic.Relation
import Switchboard.Proofs.Call.Runs
import Switchboard.Proofs.Server.Consumers
import Switchboard.Service.Front

/-! What a turn of a task does to the tasks, the consumers and the slots of a service, move by move.
Each move is about one task. -/

namespace Switchboard

open RateLimit (Amount)
open Server

/-- What slots and deliveries depend on. -/
structure Floor where
  tasks : Array Task
  consumers : Array Consumer
  /-- The slots of the HTTP front end, if there is one. -/
  gate : Option (Gate Nat)

namespace Floor

def setTask (f : Floor) (id : Nat) (task : Task) : Floor :=
  { f with tasks := f.tasks.setIfInBounds id task }

def addTask (f : Floor) (task : Task) : Floor :=
  { f with tasks := f.tasks.push task }

def setConsumer (f : Floor) (j : Nat) (c : Consumer) : Floor :=
  { f with consumers := f.consumers.setIfInBounds j c }

def setGate (f : Floor) (gate : Gate Nat) : Floor :=
  { f with gate := some gate }

end Floor

/-- A request gets a slot when it arrives, or has been given one in line. The gate is the one that it
leaves behind. -/
inductive Entered (gate : Gate Nat) (id : Nat) (i : Incoming) : Stage → Gate Nat → Prop
  | atOnce (h : 1 ≤ gate.free) : Entered gate id i (.arriving i) (gate.take id 1).1
  | called (h : gate.isWaiting id = false) : Entered gate id i (.inLine i) gate

/-- How a task goes on with its call up to the next time that it waits. -/
inductive Onward (f : Floor) : Stage → Stage → Prop
  | wake (due : Instant) (rest : Call) : Onward f (.asleep due rest) (.ready rest)
  | judge {child : Nat} {task : Task} {outcome : Outcome} {time : Instant} (deadline : Instant)
    (rest : Verdict → Call) (h : f.tasks[child]? = some task)
    (hs : task.stage = .ended outcome time) :
    Onward f (.racing child deadline rest) (.ready (rest (.ended outcome)))
  | late (child : Nat) (deadline : Instant) (rest : Verdict → Call) :
    Onward f (.racing child deadline rest) (.ready (rest .late))
  | sleep {call rest : Call} {trace : List Exchange} (due : Instant)
    (h : ∀ ⦃tail outcome⦄, rest.Runs tail outcome → call.Runs (trace ++ tail) outcome) :
    Onward f (.ready call) (.asleep due rest)

/-- How a call ends: the task has ended, or for a request there is an answer. -/
inductive Closed (call : Call) : Stage → Prop
  | ended {trace : List Exchange} {outcome : Outcome} (time : Instant) (h : call.Runs trace outcome) :
    Closed call (.ended outcome time)
  | answered (reply : Reply) (time : Instant) : Closed call (.answered reply time)

inductive Move (f : Floor) : Floor → Prop
  | lineUp {id : Nat} {i : Incoming} {owner : Owner} {gate : Gate Nat}
    (ht : f.tasks[id]? = some ⟨.arriving i, owner⟩) (hg : f.gate = some gate)
    (hfull : gate.free < 1) :
    Move f ((f.setTask id ⟨.inLine i, owner⟩).setGate (gate.take id 1).1)
  | refuse {id : Nat} {i : Incoming} {stage : Stage} {owner : Owner} {gate behind : Gate Nat}
    (ht : f.tasks[id]? = some ⟨stage, owner⟩) (hg : f.gate = some gate)
    (he : Entered gate id i stage behind) (reply : Reply) (time : Instant) :
    Move f ((f.setTask id ⟨.answered reply time, owner⟩).setGate (behind.give 1).1)
  | serve {id : Nat} {i : Incoming} {stage : Stage} {owner : Owner} {gate behind : Gate Nat}
    (ht : f.tasks[id]? = some ⟨stage, owner⟩) (hg : f.gate = some gate)
    (he : Entered gate id i stage behind) (call : Call) (found : Bool) :
    Move f ((f.setTask id ⟨.ready call, .request i found⟩).setGate behind)
  | route {id j : Nat} {number : Option Nat} {d : Delivery} {c : Consumer}
    (ht : f.tasks[id]? = some ⟨.unrouted d, .delivery j number⟩) (hc : f.consumers[j]? = some c) :
    Move f (f.setTask id ⟨.ready (c.process d), .delivery j number⟩)
  | goOn {id : Nat} {stage next : Stage} {owner : Owner}
    (ht : f.tasks[id]? = some ⟨stage, owner⟩) (h : Onward f stage next) :
    Move f (f.setTask id ⟨next, owner⟩)
  | race {id : Nat} {call body : Call} {limit : Duration} {rest : Verdict → Call} {owner : Owner}
    {trace : List Exchange} (ht : f.tasks[id]? = some ⟨.ready call, owner⟩) (deadline : Instant)
    (h : ∀ ⦃tail outcome⦄, (Call.race body limit rest).Runs tail outcome →
      call.Runs (trace ++ tail) outcome) :
    Move f ((f.setTask id ⟨.racing f.tasks.size deadline rest, owner⟩).addTask
      ⟨.ready body, .parent id⟩)
  | close {id : Nat} {call : Call} {owner : Owner} {trace : List Exchange} {outcome : Outcome}
    (ht : f.tasks[id]? = some ⟨.ready call, owner⟩) (time : Instant) (h : call.Runs trace outcome)
    (hr : ∀ i found, owner = .request i found → f.gate = none)
    (hd : ∀ j number, owner = .delivery j number → f.consumers[j]? = none) :
    Move f (f.setTask id ⟨.ended outcome time, owner⟩)
  | answer {id : Nat} {call : Call} {stage : Stage} {i : Incoming} {found : Bool} {gate : Gate Nat}
    (ht : f.tasks[id]? = some ⟨.ready call, .request i found⟩) (hg : f.gate = some gate)
    (h : Closed call stage) :
    Move f ((f.setTask id ⟨stage, .request i found⟩).setGate (gate.give 1).1)
  | settle {id j : Nat} {call : Call} {number : Option Nat} {c : Consumer} {trace : List Exchange}
    {outcome : Outcome} (ht : f.tasks[id]? = some ⟨.ready call, .delivery j number⟩)
    (hc : f.consumers[j]? = some c) (time : Instant) (h : call.Runs trace outcome) :
    Move f ((f.setTask id ⟨.ended outcome time, .delivery j number⟩).setConsumer j
      (c.finish number outcome time).1)

namespace Service

variable {R : Type}

def floor (s : Service R) : Floor :=
  ⟨s.tasks, s.consumers, s.http.map (·.gate)⟩

variable (s : Service R) (id : Nat)

@[simp] theorem floor_enqueue (agent : Agent) : (s.enqueue agent).floor = s.floor := by
  rw [enqueue]
  split
  · rfl
  · split <;> rfl

@[simp] theorem floor_enqueueAll (agents : List Agent) : (s.enqueueAll agents).floor = s.floor := by
  induction agents generalizing s with
  | nil => rfl
  | cons agent agents ih => exact (ih (s.enqueue agent)).trans (floor_enqueue s agent)

@[simp] theorem floor_setTimer (due : Instant) (agent : Agent) :
    (s.setTimer due agent).floor = s.floor := rfl

@[simp] theorem floor_setConsumer (j : Nat) (c : Consumer) :
    (s.setConsumer j c).floor = s.floor.setConsumer j c := rfl

@[simp] theorem floor_addTask (stage : Stage) (owner : Owner) :
    (s.addTask stage owner).1.floor = s.floor.addTask ⟨stage, owner⟩ := rfl

@[simp] theorem floor_spawn (stage : Stage) (owner : Owner) :
    (s.spawn stage owner).1.floor = s.floor.addTask ⟨stage, owner⟩ := by
  rw [spawn, floor_enqueue, floor_addTask]

variable {s id} {task : Task}

theorem floor_setStage (h : s.tasks[id]? = some task) (stage : Stage) :
    (s.setStage id stage).floor = s.floor.setTask id ⟨stage, task.owner⟩ := by
  rw [setStage, modify_eq_set h]
  rfl

theorem floor_setOwner (h : s.tasks[id]? = some task) (owner : Owner) :
    (s.setOwner id owner).floor = s.floor.setTask id ⟨task.stage, owner⟩ := by
  rw [setOwner, modify_eq_set h]
  rfl

theorem floor_leaveGate {gate : Gate Nat} (h : s.floor.gate = some gate) :
    s.leaveGate.floor = s.floor.setGate (gate.give 1).1 := by
  obtain ⟨server, hs, rfl⟩ := Option.map_eq_some_iff.mp h
  rw [leaveGate, hs]
  simp only [floor_enqueueAll]
  rfl

theorem floor_leaveGate_of_none (h : s.http = none) : s.leaveGate.floor = s.floor := by
  rw [leaveGate, h]

@[simp] theorem setTask_setTask (f : Floor) (id : Nat) (first second : Task) :
    (f.setTask id first).setTask id second = f.setTask id second := by
  simp [Floor.setTask]

theorem setTask_self {f : Floor} {id : Nat} {task : Task} (h : f.tasks[id]? = some task) :
    f.setTask id task = f := by
  have htasks : f.tasks.setIfInBounds id task = f.tasks := by
    apply Array.ext_getElem?
    intro j
    rw [Array.getElem?_setIfInBounds]
    split
    · subst_vars
      rw [if_pos (Array.getElem?_eq_some_iff.mp h).1, h]
    · rfl
  rw [Floor.setTask, htasks]

theorem setTask_addTask (f : Floor) {id : Nat} (h : id < f.tasks.size) (first second : Task) :
    (f.addTask first).setTask id second = (f.setTask id second).addTask first := by
  have htasks : (f.tasks.push first).setIfInBounds id second =
      (f.tasks.setIfInBounds id second).push first := by
    apply Array.ext_getElem?
    intro j
    simp only [Array.getElem?_push, Array.getElem?_setIfInBounds, Array.size_setIfInBounds,
      Array.size_push]
    by_cases hj : id = j
    · subst hj
      rw [if_pos rfl, if_pos rfl, if_neg (Nat.ne_of_lt h), if_pos h, if_pos (Nat.lt_succ_of_lt h)]
    · rw [if_neg hj, if_neg hj]
  simp only [Floor.addTask, Floor.setTask, htasks]

theorem getElem?_setTask (f : Floor) {id : Nat} {task : Task} (h : f.tasks[id]? = some task)
    (next : Task) : (f.setTask id next).tasks[id]? = some next := by
  have hid := (Array.getElem?_eq_some_iff.mp h).1
  simp [Floor.setTask, hid]

/-- The end of a call is one move, whoever the task is for. -/
theorem move_finish (h : s.tasks[id]? = some task) {call : Call} {trace : List Exchange}
    {outcome : Outcome} (hr : call.Runs trace outcome) :
    Move (s.floor.setTask id ⟨.ready call, task.owner⟩) (s.finish id outcome).floor := by
  obtain ⟨stage, owner⟩ := task
  have hready := getElem?_setTask s.floor h ⟨.ready call, owner⟩
  have howner : s.owner? id = some owner := by rw [owner?, h, Option.map_some]
  have hended : (s.setStage id (.ended outcome s.world.now)).floor =
      (s.floor.setTask id ⟨.ready call, owner⟩).setTask id ⟨.ended outcome s.world.now, owner⟩ := by
    rw [setTask_setTask, floor_setStage h]
  cases owner with
  | nobody =>
    have hfinish : s.finish id outcome = s.setStage id (.ended outcome s.world.now) := by
      simp only [finish, howner]
    rw [hfinish, hended]
    exact .close hready _ hr (by simp) (by simp)
  | parent parent =>
    have hfinish : (s.finish id outcome).floor =
        (s.setStage id (.ended outcome s.world.now)).floor := by
      simp only [finish, howner]
      split
      · rw [floor_enqueue]
      · rfl
    rw [hfinish, hended]
    exact .close hready _ hr (by simp) (by simp)
  | request i found =>
    cases hs : s.http with
    | none =>
      have hgate : s.floor.gate = none := by rw [floor, hs, Option.map_none]
      have hfinish : s.finish id outcome =
          (s.setStage id (.ended outcome s.world.now)).leaveGate := by
        simp only [finish, howner, hs]
      have hnone : (s.setStage id (.ended outcome s.world.now)).http = none := hs
      rw [hfinish, floor_leaveGate_of_none hnone, hended]
      exact .close hready _ hr (fun _ _ _ => hgate) (by simp)
    | some server =>
      have hgate : s.floor.gate = some server.gate := by rw [floor, hs, Option.map_some]
      cases outcome with
      | failed fault =>
        have hfinish : s.finish id (.failed fault) =
            (s.setStage id (.ended (.failed fault) s.world.now)).leaveGate := by
          simp only [finish, howner]
        have hleft : (s.setStage id (.ended (.failed fault) s.world.now)).floor.gate =
            some server.gate := hgate
        rw [hfinish, floor_leaveGate hleft, hended]
        exact .answer hready hgate (.ended _ hr)
      | replied ctx =>
        let next : Service R := { s with http := some (server.answer found ctx.response).1 }
        let answered : Stage :=
          .answered (Http.stamp i (server.answer found ctx.response).2) s.world.now
        have hfinish : s.finish id (.replied ctx) = (next.setStage id answered).leaveGate := by
          simp only [finish, howner, hs]
          rfl
        have hnext : next.floor = s.floor := by
          rw [floor, floor, hs]
          rfl
        have hanswered : (next.setStage id answered).floor =
            (s.floor.setTask id ⟨.ready call, .request i found⟩).setTask id
              ⟨answered, .request i found⟩ := by
          rw [setTask_setTask, ← hnext]
          exact floor_setStage (s := next) h answered
        have hleft : (next.setStage id answered).floor.gate = some server.gate := rfl
        rw [hfinish, floor_leaveGate hleft, hanswered]
        exact .answer hready hgate (.answered _ _)
  | delivery j number =>
    cases hc : s.consumers[j]? with
    | none =>
      have hfinish : s.finish id outcome = s.setStage id (.ended outcome s.world.now) := by
        simp only [finish, howner, hc]
      rw [hfinish, hended]
      exact .close hready _ hr (by simp) (by rintro _ _ ⟨⟩; exact hc)
    | some c =>
      have hfinish : (s.finish id outcome).floor =
          (s.setStage id (.ended outcome s.world.now)).floor.setConsumer j
            (c.finish number outcome s.world.now).1 := by
        simp only [finish, howner, hc, floor_enqueueAll, floor_setConsumer]
      rw [hfinish, hended]
      exact .settle hready hc s.world.now hr

theorem onward_of_verdict {child : Nat} {deadline : Instant} {verdict : Verdict}
    (h : s.verdict? child deadline = some verdict) (rest : Verdict → Call) :
    Onward s.floor (.racing child deadline rest) (.ready (rest verdict)) := by
  rw [verdict?] at h
  split at h
  · rename_i outcome time hs
    obtain ⟨task, ht, hstage⟩ := Option.map_eq_some_iff.mp hs
    obtain rfl := Option.some.inj h
    exact .judge deadline rest ht hstage
  · split at h
    · obtain rfl := Option.some.inj h
      exact .late child deadline rest
    · cases h

variable [Amount R]

/-- What a task can do on a call up to the next time that it waits is one move. -/
theorem move_proceed (h : s.tasks[id]? = some task) (call : Call) :
    Move (s.floor.setTask id ⟨.ready call, task.owner⟩) (s.proceed id call).floor := by
  obtain ⟨trace, -, hr⟩ := call.runs_of_poll s.world
  have hready := getElem?_setTask s.floor h ⟨.ready call, task.owner⟩
  cases hp : call.poll s.world with
  | mk pause world =>
    rw [hp] at hr
    let next : Service R := { s with world := world }
    cases pause with
    | ended outcome =>
      have hproceed : s.proceed id call = next.finish id outcome := by
        simp only [proceed, hp]
        rfl
      have hruns := hr (Call.runs_ofOutcome_iff.mpr ⟨rfl, rfl⟩)
      rw [hproceed]
      exact move_finish (s := next) h hruns
    | asleep span rest =>
      let due := world.now + span.nanos
      have hproceed : (s.proceed id call).floor = (next.setStage id (.asleep due rest)).floor := by
        simp only [proceed, hp]
        rfl
      have hasleep : (next.setStage id (.asleep due rest)).floor =
          (s.floor.setTask id ⟨.ready call, task.owner⟩).setTask id
            ⟨.asleep due rest, task.owner⟩ := by
        rw [setTask_setTask]
        exact floor_setStage (s := next) h _
      have hrest : ∀ ⦃tail outcome⦄, rest.Runs tail outcome →
          call.Runs ((trace ++ [.sleep span]) ++ tail) outcome := by
        intro tail outcome ht
        rw [List.append_assoc]
        exact hr (.sleep ht)
      rw [hproceed, hasleep]
      exact .goOn hready (.sleep due hrest)
    | racing body limit rest =>
      let racing : Stage := .racing s.tasks.size (world.now + limit.nanos) rest
      let spawned := (next.spawn (.ready body) (.parent id)).1
      have hproceed : (s.proceed id call).floor = (spawned.setStage id racing).floor := by
        simp only [proceed, hp]
        rfl
      have hspawned : spawned.floor = s.floor.addTask ⟨.ready body, .parent id⟩ := floor_spawn ..
      have hlt : id < s.tasks.size := (Array.getElem?_eq_some_iff.mp h).1
      have hid : spawned.tasks[id]? = some task := by
        have htasks : spawned.tasks = s.tasks.push ⟨.ready body, .parent id⟩ :=
          congrArg Floor.tasks hspawned
        rw [htasks, Array.getElem?_push, if_neg (Nat.ne_of_lt hlt), h]
      have hracing : (spawned.setStage id racing).floor =
          ((s.floor.setTask id ⟨.ready call, task.owner⟩).setTask id ⟨racing, task.owner⟩).addTask
            ⟨.ready body, .parent id⟩ := by
        rw [floor_setStage hid, hspawned, setTask_addTask _ hlt, setTask_setTask]
      have hsize : (s.floor.setTask id ⟨.ready call, task.owner⟩).tasks.size = s.tasks.size := by
        simp [Floor.setTask, floor]
      have hrest : ∀ ⦃tail outcome⦄, (Call.race body limit rest).Runs tail outcome →
          call.Runs (trace ++ tail) outcome := fun _ _ ht => hr ht
      have hrace := Move.race hready (world.now + limit.nanos) hrest
      rw [hproceed, hracing]
      rwa [hsize] at hrace

/-- A request that has a slot is refused or begins with its call. The floor `f` is the one before it
got the slot. -/
theorem moves_serve {i : Incoming} {server : HttpServer} {gate : Gate Nat} {f : Floor}
    (h : s.tasks[id]? = some task) (hs : s.http = some server)
    (hf : s.floor = f.setGate server.gate) (hg : f.gate = some gate)
    (he : Entered gate id i task.stage server.gate) :
    Relation.ReflTransGen Move f (s.serve id i).floor := by
  have ht : f.tasks[id]? = some task := by
    have htasks : s.tasks = f.tasks := congrArg Floor.tasks hf
    rw [← htasks, h]
  cases hb : i.body with
  | none =>
    let next : Service R := { s with
      http := some server.refuse.1
      world := s.world.report (.bodyUnreadable "error reading a body from connection") }
    let answered : Stage := .answered (Http.stamp i server.refuse.2) next.world.now
    have hserve : s.serve id i = (next.setStage id answered).leaveGate := by
      simp only [serve, hs, hb]
      rfl
    have hnext : next.floor = f.setGate server.gate := by
      rw [← hf, floor, floor, hs]
      rfl
    have hanswered : (next.setStage id answered).floor =
        (f.setGate server.gate).setTask id ⟨answered, task.owner⟩ := by
      rw [← hnext]
      exact floor_setStage (s := next) h answered
    have hleft : (next.setStage id answered).floor.gate = some server.gate := rfl
    rw [hserve, floor_leaveGate hleft, hanswered]
    exact .single (.refuse ht hg he _ _)
  | some body =>
    let found := (server.route i).isSome
    let call := dispatch (server.route i) (.ofRequest (i.request body))
    let next := s.setOwner id (.request i found)
    have hserve : s.serve id i = next.proceed id call := by
      simp only [serve, hs, hb]
      rfl
    have hnext : next.floor = s.floor.setTask id ⟨task.stage, .request i found⟩ :=
      floor_setOwner h _
    have hid : next.tasks[id]? = some ⟨task.stage, .request i found⟩ := by
      have htasks : next.tasks = (s.floor.setTask id ⟨task.stage, .request i found⟩).tasks :=
        congrArg Floor.tasks hnext
      rw [htasks]
      exact getElem?_setTask s.floor h _
    have hproceed := move_proceed hid call
    rw [hnext, setTask_setTask, hf] at hproceed
    rw [hserve]
    exact .tail (.single (.serve ht hg he call found)) hproceed

/-- A task's turn is made of moves. -/
theorem moves_runTask (s : Service R) (id : Nat) :
    Relation.ReflTransGen Move s.floor (s.runTask id).floor := by
  cases h : s.tasks[id]? with
  | none =>
    have hstage : s.stage? id = none := by rw [stage?, h, Option.map_none]
    simp only [runTask, hstage]
    exact .refl
  | some task =>
    obtain ⟨stage, owner⟩ := task
    have hstage : s.stage? id = some stage := by rw [stage?, h, Option.map_some]
    have howner : s.owner? id = some owner := by rw [owner?, h, Option.map_some]
    cases stage with
    | arriving i =>
      cases hs : s.http with
      | none =>
        simp only [runTask, hstage, hs]
        exact .refl
      | some server =>
        have hgate : s.floor.gate = some server.gate := by rw [floor, hs, Option.map_some]
        let next : Service R :=
          { s with http := some { server with gate := (server.gate.take id 1).1 } }
        by_cases hfree : 1 ≤ server.gate.free
        · have hrun : s.runTask id = next.serve id i := by
            simp only [runTask, hstage, hs, next, Gate.take, hfree, if_true]
          rw [hrun]
          exact moves_serve (s := next) h rfl rfl hgate (.atOnce hfree)
        · have hrun : s.runTask id = next.setStage id (.inLine i) := by
            simp only [runTask, hstage, hs, next, Gate.take, hfree, if_false]
          rw [hrun, floor_setStage (s := next) h]
          exact .single (.lineUp h hgate (by omega))
    | inLine i =>
      cases hs : s.http with
      | none =>
        have hserve : s.serve id i = s := by simp only [serve, hs]
        simp only [runTask, hstage, hserve, ite_self]
        exact .refl
      | some server =>
        have hgate : s.floor.gate = some server.gate := by rw [floor, hs, Option.map_some]
        cases hw : server.gate.isWaiting id with
        | true =>
          have hrun : s.runTask id = s := by simp [runTask, hstage, hs, hw]
          rw [hrun]
        | false =>
          have hrun : s.runTask id = s.serve id i := by simp [runTask, hstage, hs, hw]
          have hf : s.floor = s.floor.setGate server.gate := by
            rw [Floor.setGate, ← hgate]
          rw [hrun]
          exact moves_serve h hs hf hgate (.called hw)
    | unrouted d =>
      cases owner with
      | delivery j number =>
        cases hc : s.consumers[j]? with
        | none =>
          simp only [runTask, hstage, howner, hc]
          exact .refl
        | some c =>
          simp only [runTask, hstage, howner, hc]
          exact .tail (.single (.route h hc)) (move_proceed h _)
      | _ =>
        simp only [runTask, hstage, howner]
        exact .refl
    | ready call =>
      have hproceed := move_proceed h call
      rw [setTask_self (f := s.floor) h] at hproceed
      simp only [runTask, hstage]
      exact .single hproceed
    | asleep due rest =>
      simp only [runTask, hstage]
      split
      · exact .tail (.single (.goOn h (.wake due rest))) (move_proceed h rest)
      · exact .refl
    | racing child deadline rest =>
      cases hv : s.verdict? child deadline with
      | none =>
        simp only [runTask, hstage, hv]
        exact .refl
      | some verdict =>
        simp only [runTask, hstage, hv]
        have hgoes : Onward s.floor (.racing child deadline rest) (.ready (rest verdict)) :=
          onward_of_verdict hv rest
        exact .tail (.single (.goOn h hgoes)) (move_proceed h (rest verdict))
    | ended outcome time =>
      simp only [runTask, hstage]
      exact .refl
    | answered reply time =>
      simp only [runTask, hstage]
      exact .refl

end Service

end Switchboard
