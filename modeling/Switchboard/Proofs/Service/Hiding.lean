import Switchboard.Proofs.Service.Clock

/-! A service without one of its tasks. What all others do is the same whether the task is there or
not, as long as it only waits for one of them. -/

namespace Switchboard

open RateLimit (Amount)
open Server

variable {R : Type}

/-- A world in which some events have not been reported. -/
def World.muted (mute : Event → Bool) (w : World R) : World R :=
  { w with events := w.events.filter (!mute ·) }

namespace World

variable {mute : Event → Bool} {w w' : World R}

theorem muted_report (w : World R) {event : Event} (h : mute event = false) :
    (w.report event).muted mute = (w.muted mute).report event := by
  have hevents : (w.events.push event).filter (!mute ·) =
      (w.events.filter (!mute ·)).push event :=
    Array.filter_push_of_pos (by simp [h]) (Array.size_push event)
  exact congrArg (fun events => { w with events := events }) hevents

theorem muted_report_of_mute (w : World R) {event : Event} (h : mute event = true) :
    (w.report event).muted mute = w.muted mute := by
  have hevents : (w.events.push event).filter (!mute ·) = w.events.filter (!mute ·) :=
    Array.filter_push_of_neg (by simp [h]) (Array.size_push event)
  exact congrArg (fun events => { w with events := events }) hevents

theorem muted_report_congr (h : w.muted mute = w'.muted mute) (event : Event) :
    (w.report event).muted mute = (w'.report event).muted mute := by
  cases he : mute event with
  | false => rw [muted_report w he, muted_report w' he, h]
  | true => rw [muted_report_of_mute w he, muted_report_of_mute w' he, h]

@[simp] theorem muted_muted (w : World R) : (w.muted mute).muted mute = w.muted mute := by
  rw [muted, muted, Array.filter_filter]
  simp

theorem now_eq_of_muted (h : w.muted mute = w'.muted mute) : w.now = w'.now := by
  have hnow := congrArg World.now h
  exact hnow

theorem date_eq_of_muted (h : w.muted mute = w'.muted mute) : w.date = w'.date := by
  have hdate := congrArg World.date h
  exact hdate

theorem storeAt_eq_of_muted (h : w.muted mute = w'.muted mute) (i : Nat) :
    w.storeAt i = w'.storeAt i := by
  have hstores := congrArg World.stores h
  exact congrArg (Array.getD · i .empty) hstores

variable [Amount R]

/-- Calls do not look at what has been reported. -/
theorem poll_congr (call : Call) (h : w.muted mute = w'.muted mute) :
    (call.poll w).1 = (call.poll w').1 ∧
      (call.poll w).2.muted mute = (call.poll w').2.muted mute := by
  induction call generalizing w w' with
  | reply ctx => exact ⟨rfl, h⟩
  | panic fault => exact ⟨rfl, h⟩
  | journal line rest ih =>
    exact ih (congrArg (World.write · [line]) h)
  | report event rest ih => exact ih (muted_report_congr h event)
  | clock rest ih =>
    rw [Call.poll, Call.poll, now_eq_of_muted h]
    exact ih _ h
  | today rest ih =>
    rw [Call.poll, Call.poll, date_eq_of_muted h]
    exact ih _ h
  | sleep span rest ih =>
    rw [Call.poll, Call.poll]
    split
    · exact ih h
    · exact ⟨rfl, h⟩
  | acquire store key capacity pace rest ih =>
    have hset : ∀ s, (w.setStore store s).muted mute = (w'.setStore store s).muted mute :=
      fun s => congrArg (World.setStore · store s) h
    rw [Call.poll, Call.poll, storeAt_eq_of_muted h, now_eq_of_muted h]
    split
    · exact ih _ (hset _)
    · exact ⟨rfl, hset _⟩
  | rescue body rest ihb ih =>
    obtain ⟨hpause, hworld⟩ := ihb h
    rw [Call.poll, Call.poll]
    cases hp : body.poll w with
    | mk pause next =>
      cases hp' : body.poll w' with
      | mk pause' next' =>
        rw [hp, hp'] at hpause hworld
        obtain rfl : pause = pause' := hpause
        cases pause with
        | ended outcome => exact ih outcome hworld
        | asleep span inner => exact ⟨rfl, hworld⟩
        | racing racer limit inner => exact ⟨rfl, hworld⟩
  | race body limit rest => exact ⟨rfl, h⟩

end World

/-- A task that is not there races nobody and is over from the start. -/
def Stage.gone : Stage := .ended (.failed .unsaid) 0

def Owner.without (p : Nat) : Owner → Owner
  | .parent q => if q = p then .nobody else .parent q
  | owner => owner

def Task.without (p id : Nat) (t : Task) : Task :=
  ⟨if id = p then .gone else t.stage, t.owner.without p⟩

theorem Owner.without_without (p : Nat) (owner : Owner) :
    (owner.without p).without p = owner.without p := by
  cases owner with
  | parent q =>
    by_cases hq : q = p <;> simp [without, hq]
  | _ => rfl

namespace Service

/-- The service in which a task is not there, and events of some kind have not been reported. -/
def without (p : Nat) (mute : Event → Bool) (s : Service R) : Service R :=
  { s with
    world := s.world.muted mute
    tasks := s.tasks.mapIdx (Task.without p)
    queue := s.queue.filter (· ≠ .task p)
    timers := s.timers.filter (·.2 ≠ .task p)
    foreground := s.foreground.filter (· ≠ p)
    resumed := s.resumed && s.foreground.any (· ≠ p) }

variable {p : Nat} {mute : Event → Bool} {s t : Service R} {id : Nat}

@[simp] theorem without_without (s : Service R) :
    (s.without p mute).without p mute = s.without p mute := by
  have htasks : (s.tasks.mapIdx (Task.without p)).mapIdx (Task.without p) =
      s.tasks.mapIdx (Task.without p) := by
    rw [Array.mapIdx_mapIdx]
    congr
    funext id task
    simp only [Function.comp, Task.without, Owner.without_without]
    split <;> rfl
  have hresumed : (s.resumed && s.foreground.any (· ≠ p) &&
      (s.foreground.filter (· ≠ p)).any (· ≠ p)) = (s.resumed && s.foreground.any (· ≠ p)) := by
    cases s.foreground with
    | none => simp
    | some id => by_cases hid : id = p <;> simp [hid, Option.filter]
  simp only [without, World.muted_muted, htasks, List.filter_filter, Option.filter_filter,
    Bool.and_self, hresumed]

theorem without_eq_of_commutes {next other : Service R} (h : next.without p mute = other) :
    next.without p mute = other.without p mute := by
  rw [← h, without_without]

theorem task?_without (s : Service R) (id : Nat) :
    (s.without p mute).tasks[id]? = (s.tasks[id]?).map (Task.without p id) :=
  Array.getElem?_mapIdx

theorem stage?_without (h : id ≠ p) : (s.without p mute).stage? id = s.stage? id := by
  rw [stage?, task?_without, stage?]
  cases s.tasks[id]? with
  | none => rfl
  | some task => simp [Task.without, h]

theorem owner?_without (s : Service R) (id : Nat) :
    (s.without p mute).owner? id = (s.owner? id).map (Owner.without p) := by
  rw [owner?, task?_without, owner?, Option.map_map, Option.map_map]
  rfl

theorem isRacing_without {q : Nat} (h : q ≠ p) (child : Nat) :
    (s.without p mute).isRacing q child = s.isRacing q child := by
  rw [isRacing, stage?_without h, isRacing]

theorem isRacing_without_self (s : Service R) (child : Nat) :
    (s.without p mute).isRacing p child = false := by
  rw [isRacing, stage?, task?_without]
  cases s.tasks[p]? with
  | none => rfl
  | some task => simp [Task.without, Stage.gone]

theorem verdict?_without (h : id ≠ p) (deadline : Instant) :
    (s.without p mute).verdict? id deadline = s.verdict? id deadline := by
  rw [verdict?, stage?_without h, verdict?]
  rfl

theorem without_tasks {tasks : Array Task} (h : tasks.mapIdx (Task.without p) =
    s.tasks.mapIdx (Task.without p)) : ({ s with tasks := tasks } : Service R).without p mute =
      s.without p mute :=
  congrArg (fun tasks => { s.without p mute with tasks := tasks }) h

theorem mapIdx_modify {α β : Type} {g : Nat → α → β} {f : α → α} {k : β → β} {i : Nat}
    (h : ∀ a, g i (f a) = k (g i a)) (items : Array α) :
    (items.modify i f).mapIdx g = (items.mapIdx g).modify i k := by
  apply Array.ext_getElem?
  intro j
  rw [Array.getElem?_mapIdx, Array.getElem?_modify, Array.getElem?_modify, Array.getElem?_mapIdx]
  split
  · subst_vars
    cases items[j]? with
    | none => rfl
    | some a => simp [h]
  · rfl

theorem without_setStage (h : id ≠ p) (s : Service R) (stage : Stage) :
    (s.setStage id stage).without p mute = (s.without p mute).setStage id stage := by
  have htasks := mapIdx_modify (g := Task.without p) (i := id) (f := ({ · with stage := stage }))
    (k := ({ · with stage := stage })) (fun _ => by simp [Task.without, h]) s.tasks
  exact congrArg (fun tasks => { s.without p mute with tasks := tasks }) htasks

/-- What becomes of a task that is not there makes no difference. -/
theorem without_setStage_self (s : Service R) (stage : Stage) :
    (s.setStage p stage).without p mute = s.without p mute := by
  have htasks := mapIdx_modify (g := Task.without p) (i := p) (f := ({ · with stage := stage }))
    (k := id) (fun _ => by simp [Task.without]) s.tasks
  have hsame : (s.tasks.mapIdx (Task.without p)).modify p id = s.tasks.mapIdx (Task.without p) := by
    apply Array.ext_getElem?
    intro j
    simp [Array.getElem?_modify]
  exact without_tasks (htasks.trans hsame)

theorem without_setOwner (s : Service R) (id : Nat) (owner : Owner) :
    (s.setOwner id owner).without p mute = (s.without p mute).setOwner id (owner.without p) := by
  have htasks := mapIdx_modify (g := Task.without p) (i := id) (f := ({ · with owner := owner }))
    (k := ({ · with owner := owner.without p })) (fun _ => rfl) s.tasks
  exact congrArg (fun tasks => { s.without p mute with tasks := tasks }) htasks

theorem without_enqueue_self (s : Service R) :
    (s.enqueue (.task p)).without p mute = s.without p mute := by
  rw [enqueue]
  split
  · rename_i hf
    obtain ⟨id, hid, he⟩ := Option.map_eq_some_iff.mp hf
    obtain rfl := Agent.task.inj he
    simp [without, hid]
  · split
    · rfl
    · simp [without]

theorem without_enqueue_of_ne {agent : Agent} (h : agent ≠ .task p) (s : Service R) :
    (s.enqueue agent).without p mute = (s.without p mute).enqueue agent := by
  have hmem : (s.queue.filter (· ≠ .task p)).contains agent = s.queue.contains agent := by
    simp [List.contains_eq_mem, h]
  by_cases hf : s.foreground.map Agent.task = some agent
  · obtain ⟨id, hid, rfl⟩ := Option.map_eq_some_iff.mp hf
    have hne : id ≠ p := fun he => h (he ▸ rfl)
    simp [enqueue, without, hid, hne, Option.filter]
  · have hf' : (s.foreground.filter (· ≠ p)).map Agent.task ≠ some agent := by
      cases hfore : s.foreground with
      | none => simp
      | some id =>
        rw [hfore] at hf
        by_cases hid : id = p
        · simp [hid, Option.filter]
        · simpa [hid, Option.filter] using hf
    have hleft : (s.without p mute).foreground = s.foreground.filter (· ≠ p) := rfl
    have hqueue : (s.without p mute).queue = s.queue.filter (· ≠ .task p) := rfl
    rw [enqueue, if_neg hf, enqueue, hleft, if_neg hf', hqueue, hmem]
    split
    · rfl
    · simp [without, h]

theorem without_enqueue (s : Service R) (agent : Agent) :
    (s.enqueue agent).without p mute = ((s.without p mute).enqueue agent).without p mute := by
  by_cases h : agent = .task p
  · rw [h, without_enqueue_self, without_enqueue_self, without_without]
  · exact without_eq_of_commutes (without_enqueue_of_ne h s)

theorem without_enqueueAll_filter (s : Service R) (agents : List Agent) :
    (s.enqueueAll agents).without p mute =
      ((s.without p mute).enqueueAll (agents.filter (· ≠ .task p))).without p mute := by
  induction agents generalizing s with
  | nil => exact (without_without s).symm
  | cons agent agents ih =>
    rw [enqueueAll, List.foldl_cons, ← enqueueAll, ih]
    by_cases ha : agent = .task p
    · rw [ha, without_enqueue_self, List.filter_cons_of_neg (by simp)]
    · rw [List.filter_cons_of_pos (by simpa using ha), enqueueAll, enqueueAll, List.foldl_cons,
        without_enqueue_of_ne ha]

theorem without_enqueueAll (s : Service R) (agents : List Agent) :
    (s.enqueueAll agents).without p mute =
      ((s.without p mute).enqueueAll agents).without p mute := by
  have hright : ((s.without p mute).enqueueAll agents).without p mute = _ :=
    without_enqueueAll_filter (s.without p mute) agents
  rw [without_without] at hright
  exact (without_enqueueAll_filter s agents).trans hright.symm

theorem without_addTask (h : p < s.tasks.size) (stage : Stage) (owner : Owner) :
    (s.addTask stage owner).1.without p mute =
      ((s.without p mute).addTask stage (owner.without p)).1 := by
  have hne : s.tasks.size ≠ p := Nat.ne_of_gt h
  simp only [addTask, without, Array.mapIdx_push, Task.without, hne, if_false]

theorem size_without (s : Service R) : (s.without p mute).tasks.size = s.tasks.size :=
  Array.size_mapIdx

theorem without_spawn (h : p < s.tasks.size) (stage : Stage) (owner : Owner) :
    (s.spawn stage owner).1.without p mute =
      ((s.without p mute).spawn stage (owner.without p)).1 := by
  have hne : Agent.task s.tasks.size ≠ .task p := by simpa using Nat.ne_of_gt h
  have hid : ((s.without p mute).addTask stage (owner.without p)).2 = s.tasks.size := size_without s
  have hadd : ((s.addTask stage owner).1.enqueue (.task s.tasks.size)).without p mute = _ :=
    without_enqueue_of_ne hne _
  rw [without_addTask h] at hadd
  simp only [spawn, hid]
  exact hadd

theorem without_setTimer (h : InOrder s.timers) (due : Instant) {agent : Agent}
    (ha : agent ≠ .task p) :
    (s.setTimer due agent).without p mute = (s.without p mute).setTimer due agent := by
  have htimers : (insertTimer due agent s.timers).filter (·.2 ≠ .task p) =
      insertTimer due agent (s.timers.filter (·.2 ≠ .task p)) :=
    h.filter_insertTimer (by simpa using ha)
  exact congrArg (fun timers => { s.without p mute with timers := timers }) htimers

theorem without_setTimer_self (s : Service R) (due : Instant) :
    (s.setTimer due (.task p)).without p mute = s.without p mute := by
  have htimers : (insertTimer due (.task p) s.timers).filter (·.2 ≠ .task p) =
      s.timers.filter (·.2 ≠ .task p) := filter_insertTimer_of_not (by simp)
  exact congrArg (fun timers => { s.without p mute with timers := timers }) htimers

theorem without_setConsumer (s : Service R) (j : Nat) (c : Consumer) :
    (s.setConsumer j c).without p mute = (s.without p mute).setConsumer j c :=
  rfl

theorem without_leaveGate (s : Service R) :
    s.leaveGate.without p mute = (s.without p mute).leaveGate.without p mute := by
  have hhttp : (s.without p mute).http = s.http := rfl
  rw [leaveGate, leaveGate, hhttp]
  cases s.http with
  | none => exact (without_without s).symm
  | some server => exact without_enqueueAll _ _

theorem without_finish (h : id ≠ p) (s : Service R) (outcome : Outcome) :
    (s.finish id outcome).without p mute =
      ((s.without p mute).finish id outcome).without p mute := by
  have hended : (s.setStage id (.ended outcome s.world.now)).without p mute =
      (s.without p mute).setStage id (.ended outcome (s.without p mute).world.now) :=
    without_setStage h s _
  have hhttp : (s.without p mute).http = s.http := rfl
  have hconsumers : (s.without p mute).consumers = s.consumers := rfl
  rw [finish, finish, owner?_without, hhttp, hconsumers]
  rcases s.owner? id with _ | _ | parent | ⟨incoming, found⟩ | ⟨consumer, number⟩
  · exact without_eq_of_commutes hended
  · exact without_eq_of_commutes hended
  · by_cases hp : parent = p
    · -- Nobody is told who is not there.
      subst hp
      simp only [Option.map_some, Owner.without, if_true]
      split
      · rw [without_enqueue_self]
        exact without_eq_of_commutes hended
      · exact without_eq_of_commutes hended
    · simp only [Option.map_some, Owner.without, hp, if_false, isRacing_without hp]
      split
      · rw [without_enqueue, hended]
      · exact without_eq_of_commutes hended
  · simp only [Option.map_some, Owner.without]
    split
    · rw [without_leaveGate, without_setStage h]
      rfl
    · rw [without_leaveGate, hended]
  · simp only [Option.map_some, Owner.without]
    cases s.consumers[consumer]? with
    | none => exact without_eq_of_commutes hended
    | some c =>
      simp only
      rw [without_enqueueAll, without_setConsumer, hended]
      rfl

theorem without_runIntake (h : p < s.tasks.size) (consumer : Nat) :
    (s.runIntake consumer).without p mute =
      ((s.without p mute).runIntake consumer).without p mute := by
  have hconsumers : (s.without p mute).consumers = s.consumers := rfl
  have hfront : ∀ s : Service R,
      ({ s with queue := .intake consumer :: s.queue } : Service R).without p mute =
        { s.without p mute with queue := .intake consumer :: (s.without p mute).queue } := by
    intro s
    simp [without]
  rw [runIntake, runIntake, hconsumers]
  cases s.consumers[consumer]? with
  | none => exact (without_without s).symm
  | some c =>
    simp only
    split
    · exact without_eq_of_commutes (without_setConsumer ..)
    · exact without_eq_of_commutes (hfront _)
    · split
      · rename_i number _ _ delivery _
        refine without_eq_of_commutes ?_
        rw [hfront, without_spawn (s := s.setConsumer consumer c.advance.1) h]
        rfl
      · exact without_eq_of_commutes (without_setConsumer ..)
    · rw [without_enqueueAll]
      rfl

/-- Worlds that differ in what is not heard make no difference. -/
theorem without_world (s : Service R) {w w' : World R} (h : w.muted mute = w'.muted mute) :
    ({ s with world := w } : Service R).without p mute =
      ({ s.without p mute with world := w' } : Service R).without p mute := by
  have hleft : ({ s with world := w } : Service R).without p mute =
      { s.without p mute with world := w.muted mute } := rfl
  have hright : ({ s.without p mute with world := w' } : Service R).without p mute =
      { (s.without p mute).without p mute with world := w'.muted mute } := rfl
  rw [hleft, hright, without_without, h]

theorem inOrder_without (p : Nat) (mute : Event → Bool) (h : InOrder s.timers) :
    InOrder (s.without p mute).timers :=
  h.filter _

/-- A task that waits from now on makes no other difference than its stage and its timer. -/
theorem without_wait_congr {next : Service R} (h : id ≠ p)
    (hs : s.without p mute = next.without p mute) (ht : InOrder s.timers)
    (hn : InOrder next.timers) (stage : Stage) (due : Instant) :
    ((s.setStage id stage).setTimer due (.task id)).without p mute =
      ((next.setStage id stage).setTimer due (.task id)).without p mute := by
  have hagent : Agent.task id ≠ .task p := by simpa using h
  have htimer : ∀ {r : Service R}, InOrder r.timers →
      ((r.setStage id stage).setTimer due (.task id)).without p mute =
        ((r.without p mute).setStage id stage).setTimer due (.task id) := by
    intro r hr
    rw [without_setTimer (s := r.setStage id stage) hr due hagent, without_setStage h]
  rw [htimer ht, htimer hn, hs]

theorem without_answered_congr {next : Service R} (h : id ≠ p)
    (hs : s.without p mute = next.without p mute) (stage : Stage) :
    (s.setStage id stage).leaveGate.without p mute =
      (next.setStage id stage).leaveGate.without p mute := by
  rw [without_leaveGate, without_setStage h, hs, ← without_setStage h, ← without_leaveGate]

theorem without_advanceTo (ht : InOrder s.timers) (time : Instant) :
    (s.advanceTo time).without p mute = ((s.without p mute).advanceTo time).without p mute := by
  obtain ⟨htake, hdrop⟩ := ht.filter_takeWhile time (·.2 ≠ .task p)
  have htimers : (s.without p mute).timers = s.timers.filter (·.2 ≠ .task p) := rfl
  have hagents : ∀ timers : List (Instant × Agent),
      (timers.filter (·.2 ≠ .task p)).map (·.2) = (timers.map (·.2)).filter (· ≠ .task p) := by
    intro timers
    rw [List.filter_map]
    rfl
  simp only [advanceTo]
  rw [without_enqueueAll_filter, htimers, htake, hdrop, hagents]
  rfl

section Turns

variable [Amount R]

theorem without_runSweeper (h : InOrder s.timers) (sweeper : Nat) :
    (s.runSweeper sweeper).without p mute =
      ((s.without p mute).runSweeper sweeper).without p mute := by
  have hsweepers : (s.without p mute).sweepers = s.sweepers := rfl
  have hnow : (s.without p mute).world.now = s.world.now := rfl
  have hagent : Agent.sweeper sweeper ≠ .task p := Agent.noConfusion
  rw [runSweeper, runSweeper, hsweepers, hnow]
  split
  · exact (without_without s).symm
  · rename_i found _
    split
    · exact (without_without s).symm
    · rename_i due _
      split
      · exact (without_without s).symm
      · have hevict : (s.world.evict found.store found.evictAfter).1.muted mute =
            ((s.without p mute).world.evict found.store found.evictAfter).1.muted mute :=
          (World.muted_muted _).symm
        have hstore := World.storeAt_eq_of_muted hevict found.store
        simp only [hstore]
        refine (without_setTimer ?_ _ hagent).trans
          (Eq.trans ?_ (without_setTimer ?_ _ hagent).symm)
        · exact h
        · have hworld := without_world (p := p) s (World.muted_report_congr hevict
            (.metric "rate_limit_buckets" (Double.ofNat
              (((s.without p mute).world.evict found.store found.evictAfter).1.storeAt
                found.store).active) "count" found.name))
          exact congrArg (fun r : Service R => { r with
            sweepers := s.sweepers.setIfInBounds sweeper
              { found with next := some (due + found.period.nanos) }
            }.setTimer (due + found.period.nanos) (.sweeper sweeper)) hworld
        · exact inOrder_without p mute h

theorem without_proceed (hp : p < s.tasks.size) (ht : InOrder s.timers) (h : id ≠ p)
    (call : Call) :
    (s.proceed id call).without p mute = ((s.without p mute).proceed id call).without p mute := by
  have hmuted : s.world.muted mute = (s.without p mute).world.muted mute :=
    (World.muted_muted s.world).symm
  obtain ⟨hpause, hworld⟩ := World.poll_congr call hmuted
  cases hc : call.poll s.world with
  | mk pause w =>
    cases hc' : call.poll (s.without p mute).world with
    | mk pause' w' =>
      rw [hc, hc'] at hpause hworld
      obtain rfl : pause = pause' := hpause
      have hnow : w.now = w'.now := World.now_eq_of_muted hworld
      have hnext := without_world (p := p) s hworld
      have hsize : (s.without p mute).tasks.size = s.tasks.size := size_without s
      rw [proceed, proceed, hc, hc']
      cases pause with
      | ended outcome =>
        simp only
        rw [without_finish h, hnext, ← without_finish h]
      | asleep span rest =>
        simp only [hnow]
        exact without_wait_congr h hnext ht (inOrder_without p mute ht) _ _
      | racing body limit rest =>
        have hspawn : (spawn { s with world := w } (.ready body)
            (.parent id)).1.without p mute = _ :=
          without_spawn (s := { s with world := w }) hp _ _
        have hspawn' : (spawn { s.without p mute with world := w' } (.ready body)
            (.parent id)).1.without p mute = _ :=
          without_spawn (s := { s.without p mute with world := w' }) (hsize ▸ hp) _ _
        rw [hnext, ← hspawn'] at hspawn
        have hchild : ({ s.without p mute with world := w' } : Service R).tasks.size =
          s.tasks.size := hsize
        simp only [hnow, spawn, addTask, hchild] at hspawn ⊢
        refine without_wait_congr h hspawn ?_ ?_ _ _
        · rw [timers_enqueue]
          exact ht
        · rw [timers_enqueue]
          exact inOrder_without p mute ht

theorem without_serve (hp : p < s.tasks.size) (ht : InOrder s.timers) (h : id ≠ p)
    (i : Incoming) :
    (s.serve id i).without p mute = ((s.without p mute).serve id i).without p mute := by
  have hhttp : (s.without p mute).http = s.http := rfl
  rw [serve, serve, hhttp]
  cases s.http with
  | none => exact (without_without s).symm
  | some server =>
    cases i.body with
    | none =>
      have hworld := without_world (p := p) s (World.muted_report_congr
        (show (s.world.muted mute).muted mute = s.world.muted mute from World.muted_muted _).symm
        (.bodyUnreadable "error reading a body from connection"))
      simp only
      exact without_answered_congr h
        (congrArg (fun r : Service R => { r with http := some server.refuse.1 }) hworld) _
    | some body =>
      simp only
      have howner : ∀ r : Service R,
          (r.setOwner id (.request i (server.route i).isSome)).without p mute =
            (r.without p mute).setOwner id (.request i (server.route i).isSome) :=
        fun r => without_setOwner r id _
      have hsize : ∀ (r : Service R) (owner : Owner),
          (r.setOwner id owner).tasks.size = r.tasks.size :=
        fun r owner => Array.size_modify
      rw [without_proceed (s := s.setOwner id _) ((hsize ..).symm ▸ hp) ht h, howner,
        without_proceed (s := (s.without p mute).setOwner id _)
          (by rw [hsize, size_without]; exact hp) (inOrder_without p mute ht) h, howner,
        without_without]

theorem without_runTask (hp : p < s.tasks.size) (ht : InOrder s.timers) (h : id ≠ p)
    (hr : s.isRacing id p = false) :
    (s.runTask id).without p mute = ((s.without p mute).runTask id).without p mute := by
  have hhttp : (s.without p mute).http = s.http := rfl
  have hconsumers : (s.without p mute).consumers = s.consumers := rfl
  have hnow : (s.without p mute).world.now = s.world.now := rfl
  have hself : s.without p mute = (s.without p mute).without p mute := (without_without s).symm
  rw [runTask, runTask, stage?_without h, hhttp, hnow, hconsumers, owner?_without]
  cases hs : s.stage? id with
  | none => exact hself
  | some stage =>
    cases stage with
    | arriving i =>
      cases s.http with
      | none => exact hself
      | some server =>
        simp only
        split
        · rename_i gate _
          exact without_serve (s := { s with http := some { server with gate := gate } }) hp ht h i
        · rename_i gate _
          exact without_eq_of_commutes
            (without_setStage h { s with http := some { server with gate := gate } } (.inLine i))
    | inLine i =>
      simp only
      split
      · exact hself
      · exact without_serve hp ht h i
    | unrouted delivery =>
      simp only
      cases s.owner? id with
      | none => exact hself
      | some owner =>
        cases owner with
        | delivery consumer number =>
          simp only [Option.map_some, Owner.without]
          cases s.consumers[consumer]? with
          | none => exact hself
          | some c => exact without_proceed hp ht h _
        | parent q =>
          simp only [Option.map_some, Owner.without]
          by_cases hq : q = p
          · simp only [hq, if_true]
            exact hself
          · simp only [hq, if_false]
            exact hself
        | nobody => exact hself
        | request incoming found => exact hself
    | ready call => exact without_proceed hp ht h call
    | asleep due rest =>
      simp only
      split
      · exact without_proceed hp ht h rest
      · exact hself
    | racing child deadline rest =>
      have hchild : child ≠ p := by simpa [isRacing, hs] using hr
      simp only [verdict?_without hchild]
      split
      · exact without_proceed hp ht h _
      · exact hself
    | ended outcome time => exact hself
    | answered reply time => exact hself

theorem without_run (hp : p < s.tasks.size) (ht : InOrder s.timers) {agent : Agent}
    (h : agent ≠ .task p) (hr : ∀ q, s.isRacing q p = false) :
    (s.run agent).without p mute = ((s.without p mute).run agent).without p mute := by
  cases agent with
  | task id => exact without_runTask hp ht (fun he => h (he ▸ rfl)) (hr id)
  | intake consumer => exact without_runIntake hp consumer
  | sweeper sweeper => exact without_runSweeper ht sweeper

end Turns

end Service

end Switchboard
