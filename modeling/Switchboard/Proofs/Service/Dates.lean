import Switchboard.Proofs.Call.Dates
import Switchboard.Service.Schedule

/-! A service at work on a date: what it does to its world, and what its tasks come to, is the same
whether the calls of the tasks have been told the date or not. -/

namespace Switchboard

open RateLimit (Amount)
open Server

def Stage.onDate (date : Nat) : Stage → Stage
  | .ready call => .ready (call.onDate date)
  | .asleep due rest => .asleep due (rest.onDate date)
  | .racing child deadline rest => .racing child deadline fun v => (rest v).onDate date
  | stage => stage

def Task.onDate (date : Nat) (t : Task) : Task :=
  { t with stage := t.stage.onDate date }

theorem map_modify {α : Type} {g f k : α → α} (h : ∀ a, g (f a) = k (g a)) (items : Array α)
    (i : Nat) : (items.modify i f).map g = (items.map g).modify i k := by
  apply Array.ext_getElem?
  intro j
  rw [Array.getElem?_map, Array.getElem?_modify, Array.getElem?_modify, Array.getElem?_map]
  split
  · cases items[j]? with
    | none => rfl
    | some a => simp [h]
  · rfl

@[simp] theorem Stage.onDate_onDate (date : Nat) (stage : Stage) :
    (stage.onDate date).onDate date = stage.onDate date := by
  cases stage <;> simp [onDate]

namespace Service

variable {R : Type} (s : Service R) (id : Nat)

/-- The service whose tasks have all been told the date. -/
def onDate : Service R :=
  { s with tasks := s.tasks.map (Task.onDate s.world.date) }

@[simp] theorem onDate_onDate : s.onDate.onDate = s.onDate := by
  simp [onDate, Task.onDate, Function.comp_def]

variable {s} in
theorem onDate_eq_of_commutes {next other : Service R} (h : next.onDate = other) :
    next.onDate = other.onDate := by
  rw [← h, onDate_onDate]

theorem stage?_onDate :
    s.onDate.stage? id = (s.stage? id).map (Stage.onDate s.world.date) := by
  simp [onDate, stage?, Task.onDate, Function.comp_def]

@[simp] theorem owner?_onDate : s.onDate.owner? id = s.owner? id := by
  simp [onDate, owner?, Task.onDate, Function.comp_def]

@[simp] theorem isRacing_onDate (child : Nat) : s.onDate.isRacing id child = s.isRacing id child := by
  rw [isRacing, isRacing, stage?_onDate]
  rcases s.stage? id with _ | stage
  · rfl
  · cases stage <;> rfl

@[simp] theorem isOver_onDate : isOver id s.onDate = isOver id s := by
  rw [isOver, isOver, stage?_onDate]
  rcases s.stage? id with _ | stage
  · rfl
  · cases stage <;> rfl

@[simp] theorem verdict?_onDate (deadline : Instant) :
    s.onDate.verdict? id deadline = s.verdict? id deadline := by
  rw [verdict?, verdict?, stage?_onDate]
  rcases s.stage? id with _ | stage
  · rfl
  · cases stage <;> rfl

theorem onDate_setStage (stage : Stage) :
    (s.setStage id stage).onDate = s.onDate.setStage id (stage.onDate s.world.date) := by
  have htasks := map_modify (g := Task.onDate s.world.date) (f := ({ · with stage := stage }))
    (k := ({ · with stage := stage.onDate s.world.date })) (fun _ => rfl) s.tasks id
  exact congrArg (fun tasks => { s with tasks := tasks }) htasks

theorem onDate_setOwner (owner : Owner) :
    (s.setOwner id owner).onDate = s.onDate.setOwner id owner := by
  have htasks := map_modify (g := Task.onDate s.world.date) (f := ({ · with owner := owner }))
    (k := ({ · with owner := owner })) (fun _ => rfl) s.tasks id
  exact congrArg (fun tasks => { s with tasks := tasks }) htasks

theorem onDate_enqueue (agent : Agent) : (s.enqueue agent).onDate = s.onDate.enqueue agent := by
  have hforeground : s.onDate.foreground = s.foreground := rfl
  have hqueue : s.onDate.queue = s.queue := rfl
  rw [enqueue, enqueue, hforeground, hqueue]
  split
  · rfl
  · split <;> rfl

theorem onDate_enqueueAll (agents : List Agent) :
    (s.enqueueAll agents).onDate = s.onDate.enqueueAll agents := by
  induction agents generalizing s with
  | nil => rfl
  | cons agent agents ih =>
    rw [enqueueAll, List.foldl_cons, ← enqueueAll, ih, onDate_enqueue]
    rfl

@[simp] theorem world_enqueue (agent : Agent) : (s.enqueue agent).world = s.world := by
  rw [enqueue]
  split
  · rfl
  · split <;> rfl

theorem onDate_addTask (stage : Stage) (owner : Owner) :
    (s.addTask stage owner).1.onDate = (s.onDate.addTask (stage.onDate s.world.date) owner).1 := by
  simp only [addTask, onDate, Array.map_push]
  rfl

theorem snd_addTask_onDate (stage stage' : Stage) (owner : Owner) :
    (s.onDate.addTask stage owner).2 = (s.addTask stage' owner).2 := by
  simp [addTask, onDate]

theorem onDate_spawn (stage : Stage) (owner : Owner) :
    (s.spawn stage owner).1.onDate = (s.onDate.spawn (stage.onDate s.world.date) owner).1 := by
  rw [spawn, spawn, onDate_enqueue, onDate_addTask,
    ← snd_addTask_onDate s (stage.onDate s.world.date)]

theorem snd_spawn_onDate (stage stage' : Stage) (owner : Owner) :
    (s.onDate.spawn stage owner).2 = (s.spawn stage' owner).2 :=
  snd_addTask_onDate s stage stage' owner

theorem world_spawn (stage : Stage) (owner : Owner) : (s.spawn stage owner).1.world = s.world := by
  rw [spawn, world_enqueue]
  rfl

theorem onDate_setTimer (due : Instant) (agent : Agent) :
    (s.setTimer due agent).onDate = s.onDate.setTimer due agent :=
  rfl

theorem onDate_setConsumer (i : Nat) (c : Consumer) :
    (s.setConsumer i c).onDate = s.onDate.setConsumer i c :=
  rfl

theorem onDate_leaveGate : s.leaveGate.onDate = s.onDate.leaveGate := by
  have hhttp : s.onDate.http = s.http := rfl
  rw [leaveGate, leaveGate, hhttp]
  cases s.http with
  | none => rfl
  | some server => exact onDate_enqueueAll _ _

theorem onDate_finish (outcome : Outcome) :
    (s.finish id outcome).onDate = s.onDate.finish id outcome := by
  have hended : (s.setStage id (.ended outcome s.world.now)).onDate =
      s.onDate.setStage id (.ended outcome s.onDate.world.now) := onDate_setStage ..
  have hhttp : s.onDate.http = s.http := rfl
  have hconsumers : s.onDate.consumers = s.consumers := rfl
  rw [finish, finish, owner?_onDate, hhttp, hconsumers]
  rcases s.owner? id with _ | _ | parent | ⟨incoming, found⟩ | ⟨consumer, number⟩
  · exact hended
  · exact hended
  · simp only [isRacing_onDate]
    split
    · rw [onDate_enqueue, hended]
    · exact hended
  · simp only
    split
    · rw [onDate_leaveGate, onDate_setStage]
      rfl
    · rw [onDate_leaveGate, hended]
  · simp only
    cases s.consumers[consumer]? with
    | none => exact hended
    | some c =>
      simp only
      rw [onDate_enqueueAll, onDate_setConsumer, hended]
      rfl

theorem onDate_world {w : World R} (h : w.date = s.world.date) :
    ({ s with world := w } : Service R).onDate = { s.onDate with world := w } := by
  rw [onDate, onDate, h]

theorem onDate_runIntake (consumer : Nat) :
    (s.runIntake consumer).onDate = s.onDate.runIntake consumer := by
  have hconsumers : s.onDate.consumers = s.consumers := rfl
  rw [runIntake, runIntake, hconsumers]
  cases s.consumers[consumer]? with
  | none => rfl
  | some c =>
    simp only
    split
    · rfl
    · rfl
    · split
      · rename_i number _ _ delivery _
        have hspawn := onDate_spawn (s.setConsumer consumer c.advance.1) (.unrouted delivery)
          (.delivery consumer (some number))
        exact congrArg (fun t : Service R => { t with queue := .intake consumer :: t.queue }) hspawn
      · rfl
    · exact onDate_enqueueAll _ _

theorem onDate_advanceTo (time : Instant) : (s.advanceTo time).onDate = s.onDate.advanceTo time := by
  rw [advanceTo, onDate_enqueueAll]
  rfl

section Runs

variable [Amount R]

/-- What a task does on a call is what it does on the call on the date. -/
theorem onDate_proceed (call : Call) :
    (s.proceed id call).onDate = s.onDate.proceed id (call.onDate s.world.date) := by
  obtain ⟨hpoll, hdate⟩ := call.poll_onDate s.world
  rw [proceed, proceed, show s.onDate.world = s.world from rfl, hpoll]
  cases hp : call.poll s.world with
  | mk pause world =>
    rw [hp] at hdate
    have hworld := onDate_world s hdate
    cases pause with
    | ended outcome =>
      simp only [Pause.onDate]
      rw [onDate_finish, hworld]
    | asleep span rest =>
      simp only [Pause.onDate]
      rw [onDate_setTimer, onDate_setStage, hworld, hdate]
      rfl
    | racing body limit rest =>
      simp only [Pause.onDate]
      rw [onDate_setTimer, onDate_setStage, onDate_spawn, world_spawn, hworld, hdate,
        ← hworld]
      rw [snd_spawn_onDate _ _ (.ready body)]
      rfl

/-- It makes no difference whether a call is told the date before its turn or in it. -/
theorem onDate_proceed_told (call : Call) :
    (s.proceed id call).onDate = (s.onDate.proceed id (call.onDate s.world.date)).onDate := by
  rw [← onDate_proceed, onDate_onDate]

theorem onDate_proceed_onDate (call : Call) :
    (s.proceed id call).onDate = (s.onDate.proceed id call).onDate := by
  rw [onDate_proceed, onDate_proceed, onDate_onDate]
  rfl

theorem onDate_serve (i : Incoming) : (s.serve id i).onDate = (s.onDate.serve id i).onDate := by
  have hhttp : s.onDate.http = s.http := rfl
  rw [serve, serve, hhttp]
  cases s.http with
  | none => simp
  | some server =>
    simp only
    cases i.body with
    | none =>
      simp only
      refine onDate_eq_of_commutes ?_
      rw [onDate_leaveGate, onDate_setStage]
      rfl
    | some body =>
      simp only
      rw [onDate_proceed_onDate, onDate_setOwner]

theorem onDate_runTask : (s.runTask id).onDate = (s.onDate.runTask id).onDate := by
  have hhttp : s.onDate.http = s.http := rfl
  have hconsumers : s.onDate.consumers = s.consumers := rfl
  have hworld : s.onDate.world = s.world := rfl
  rw [runTask, runTask, stage?_onDate, hhttp, hconsumers, hworld, owner?_onDate]
  rcases s.stage? id with _ | stage
  · simp
  · cases stage with
    | arriving i =>
      simp only [Option.map_some, Stage.onDate]
      cases s.http with
      | none => simp
      | some server =>
        simp only
        split
        · exact onDate_serve _ id i
        · refine onDate_eq_of_commutes ?_
          rw [onDate_setStage]
          rfl
    | inLine i =>
      simp only [Option.map_some, Stage.onDate]
      split
      · simp
      · exact onDate_serve s id i
    | unrouted delivery =>
      simp only [Option.map_some, Stage.onDate]
      split
      · split
        · exact onDate_proceed_onDate s id _
        · simp
      · simp
    | ready call =>
      simp only [Option.map_some, Stage.onDate]
      exact onDate_proceed_told s id call
    | asleep due rest =>
      simp only [Option.map_some, Stage.onDate]
      split
      · exact onDate_proceed_told s id rest
      · simp
    | racing child deadline rest =>
      simp only [Option.map_some, Stage.onDate, verdict?_onDate]
      split
      · exact onDate_proceed_told s id _
      · simp
    | ended outcome time => simp [Stage.onDate]
    | answered reply time => simp [Stage.onDate]

theorem onDate_runSweeper : (s.runSweeper id).onDate = s.onDate.runSweeper id := by
  have hsweepers : s.onDate.sweepers = s.sweepers := rfl
  have hworld : s.onDate.world = s.world := rfl
  rw [runSweeper, runSweeper, hsweepers, hworld]
  split
  · rfl
  · split
    · rfl
    · split
      · rfl
      · rfl

theorem onDate_run (agent : Agent) : (s.run agent).onDate = (s.onDate.run agent).onDate := by
  cases agent with
  | task id => exact onDate_runTask s id
  | intake consumer => exact onDate_eq_of_commutes (onDate_runIntake s consumer)
  | sweeper id => exact onDate_eq_of_commutes (onDate_runSweeper s id)

/-- A goal that does not look into calls is reached at the same time on calls that have been told
the date. -/
theorem onDate_drive {goal : Service R → Bool} (hg : ∀ s : Service R, goal s.onDate = goal s)
    (fuel : Nat) : (drive goal fuel s).onDate = (drive goal fuel s.onDate).onDate := by
  induction fuel generalizing s with
  | zero => simp [drive]
  | succ fuel ih =>
    have hnext : ∀ {s t : Service R}, s.onDate = t.onDate →
        (drive goal fuel s).onDate = (drive goal fuel t).onDate := by
      intro s t h
      rw [ih s, h, ← ih t]
    have hqueue : s.onDate.queue = s.queue := rfl
    have hresumed : s.onDate.resumed = s.resumed := rfl
    have hforeground : s.onDate.foreground = s.foreground := rfl
    have htimers : s.onDate.timers = s.timers := rfl
    rw [drive, drive, hqueue, hresumed, hforeground, htimers, hg]
    split
    · exact hnext (onDate_run _ _)
    · split
      · split
        · exact hnext (onDate_runTask _ _)
        · exact hnext (onDate_onDate _).symm
      · split
        · simp
        · split
          · simp
          · exact hnext (onDate_eq_of_commutes (onDate_advanceTo s _))

/-- A task in the foreground goes the same way whether its call has been told the date or not. -/
theorem onDate_attend (stage : Stage) (owner : Owner) :
    (s.attend stage owner).1.onDate =
        (s.onDate.attend (stage.onDate s.world.date) owner).1.onDate ∧
      (s.attend stage owner).2 = (s.onDate.attend (stage.onDate s.world.date) owner).2 := by
  have hid := snd_addTask_onDate s (stage.onDate s.world.date) stage owner
  have hadd := onDate_addTask s stage owner
  rw [attend, attend]
  simp only [hid]
  generalize (s.addTask stage owner).2 = id
  generalize (s.addTask stage owner).1 = first at hadd ⊢
  generalize (s.onDate.addTask (stage.onDate s.world.date) owner).1 = second at hadd ⊢
  have hstart : ({ first with foreground := some id } : Service R).onDate =
      { second with foreground := some id } :=
    congrArg (fun t : Service R => { t with foreground := some id }) hadd
  have hrun := onDate_runTask { first with foreground := some id } id
  rw [hstart] at hrun
  generalize ({ first with foreground := some id } : Service R).runTask id = first at hrun ⊢
  generalize ({ second with foreground := some id } : Service R).runTask id = second at hrun ⊢
  -- The two go on from states that are alike but for the calls, which the goal does not look into.
  have hover : isOver id first = isOver id second := by
    rw [← isOver_onDate first, hrun, isOver_onDate]
  have hdrive : (drive (isOver id) patience first).onDate =
      (drive (isOver id) patience second).onDate := by
    rw [onDate_drive first fun s => isOver_onDate s id, hrun,
      ← onDate_drive second fun s => isOver_onDate s id]
  have hlast : (if isOver id first then first else drive (isOver id) patience first).onDate =
      (if isOver id second then second else drive (isOver id) patience second).onDate := by
    rw [hover]
    split
    · exact hrun
    · exact hdrive
  exact ⟨congrArg (fun t : Service R => { t with foreground := none, resumed := false }) hlast, trivial⟩

/-- How a call has ended whose task is at the stage. -/
def outcomeAt : Option Stage → Outcome
  | some (.ended outcome _) => outcome
  | _ => .failed .unsaid

theorem outcomeAt_onDate (date : Nat) (stage : Option Stage) :
    outcomeAt (stage.map (Stage.onDate date)) = outcomeAt stage := by
  rcases stage with _ | stage
  · rfl
  · cases stage <;> rfl

theorem call_eq_attend (call : Call) :
    s.call call = ((s.attend (.ready call) .nobody).1,
      outcomeAt ((s.attend (.ready call) .nobody).1.stage? (s.attend (.ready call) .nobody).2)) := by
  rw [Service.call]
  simp only
  split
  · rename_i outcome time hs
    rw [hs, outcomeAt]
  · rename_i hs
    rw [outcomeAt]
    exact hs

/-- Calls that are the same on the date come to the same end and leave the same world. -/
theorem call_eq_of_onDate {first second : Call}
    (h : first.onDate s.world.date = second.onDate s.world.date) :
    (s.call first).2 = (s.call second).2 ∧ (s.call first).1.world = (s.call second).1.world := by
  obtain ⟨hfirst, hid⟩ := onDate_attend s (.ready first) .nobody
  obtain ⟨hsecond, hid'⟩ := onDate_attend s (.ready second) .nobody
  simp only [Stage.onDate, h] at hfirst hid
  simp only [Stage.onDate] at hsecond hid'
  have hids := hid.trans hid'.symm
  have hstates := hfirst.trans hsecond.symm
  have hstage := congrArg
    (fun t : Service R => outcomeAt (t.stage? (s.attend (.ready second) .nobody).2)) hstates
  simp only [stage?_onDate, outcomeAt_onDate] at hstage
  have hworld : (s.attend (.ready first) .nobody).1.world =
      (s.attend (.ready second) .nobody).1.world := congrArg (·.onDate.world) hstates
  rw [call_eq_attend, call_eq_attend, hids]
  exact ⟨hstage, hworld⟩

end Runs

end Service

end Switchboard
