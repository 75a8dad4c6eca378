import Mathlib.Data.List.TakeWhile
import Switchboard.Proofs.Service.Dates
import Switchboard.Proofs.Service.Views

/-! What the turn of an agent leaves as it is: the clock, the other tasks and their timers, and
whose turn comes next. -/

namespace Switchboard

open RateLimit (Amount)
open Server

variable {R : Type}

theorem Call.now_poll [Amount R] (call : Call) (w : World R) : (call.poll w).2.now = w.now := by
  induction call generalizing w with
  | reply ctx => rfl
  | panic fault => rfl
  | journal line rest ih => exact ih (w.write [line])
  | report event rest ih => exact ih (w.report event)
  | clock rest ih => exact ih w.now w
  | today rest ih => exact ih w.date w
  | sleep span rest ih =>
    rw [poll]
    split
    · exact ih w
    · rfl
  | acquire store key capacity pace rest ih =>
    rw [poll]
    split
    · exact ih _ (w.setStore store _)
    · rfl
  | rescue body rest ihb ih =>
    have hbody := ihb w
    rw [poll]
    cases hp : body.poll w with
    | mk pause next =>
      rw [hp] at hbody
      cases pause with
      | ended outcome => exact (ih outcome next).trans hbody
      | asleep span inner => exact hbody
      | racing racer limit inner => exact hbody
  | race body limit rest => rfl

namespace Service

theorem insertTimer_of_lt {due : Instant} {timers : List (Instant × Agent)}
    (h : ∀ timer ∈ timers, due < timer.1) (agent : Agent) :
    insertTimer due agent timers = (due, agent) :: timers := by
  cases timers with
  | nil => rfl
  | cons timer rest => rw [insertTimer, if_pos (h timer List.mem_cons_self)]

theorem mem_insertTimer {due : Instant} {agent : Agent} {timers : List (Instant × Agent)}
    {timer : Instant × Agent} :
    timer ∈ insertTimer due agent timers ↔ timer = (due, agent) ∨ timer ∈ timers := by
  induction timers with
  | nil => simp [insertTimer]
  | cons first rest ih =>
    rw [insertTimer]
    split
    · simp
    · simp [ih, or_left_comm]

/-- Timers in order of time. -/
def InOrder (timers : List (Instant × Agent)) : Prop :=
  timers.Pairwise (·.1 ≤ ·.1)

theorem InOrder.insertTimer {timers : List (Instant × Agent)} (h : InOrder timers)
    (due : Instant) (agent : Agent) : InOrder (insertTimer due agent timers) := by
  induction timers with
  | nil => exact List.pairwise_singleton _ _
  | cons first rest ih =>
    obtain ⟨hfirst, hrest⟩ := List.pairwise_cons.mp h
    rw [Service.insertTimer]
    split
    · refine List.pairwise_cons.mpr ⟨fun timer hm => ?_, h⟩
      rcases List.mem_cons.mp hm with rfl | hm
      · exact Nat.le_of_lt ‹_›
      · exact Nat.le_trans (Nat.le_of_lt ‹_›) (hfirst timer hm)
    · refine List.pairwise_cons.mpr ⟨fun timer hm => ?_, ih hrest⟩
      rcases mem_insertTimer.mp hm with rfl | hm
      · exact Nat.le_of_not_lt ‹_›
      · exact hfirst timer hm

/-- In order of time it makes no difference whether a timer is set before others are left out. -/
theorem InOrder.filter_insertTimer {timers : List (Instant × Agent)} (h : InOrder timers)
    {keep : Instant × Agent → Bool} {due : Instant} {agent : Agent}
    (hk : keep (due, agent) = true) :
    (Service.insertTimer due agent timers).filter keep =
      Service.insertTimer due agent (timers.filter keep) := by
  induction timers with
  | nil => simp [Service.insertTimer, hk]
  | cons first rest ih =>
    obtain ⟨hfirst, hrest⟩ := List.pairwise_cons.mp h
    by_cases hlt : due < first.1
    · have hall : ∀ timer ∈ (first :: rest).filter keep, due < timer.1 := by
        intro timer hm
        rcases List.mem_cons.mp (List.mem_filter.mp hm).1 with rfl | hm
        · exact hlt
        · exact Nat.lt_of_lt_of_le hlt (hfirst timer hm)
      rw [Service.insertTimer, if_pos hlt, List.filter_cons_of_pos hk, insertTimer_of_lt hall]
    · rw [Service.insertTimer, if_neg hlt]
      cases hf : keep first with
      | true =>
        rw [List.filter_cons_of_pos hf, List.filter_cons_of_pos hf, ih hrest, Service.insertTimer,
          if_neg hlt]
      | false =>
        rw [List.filter_cons_of_neg (by simp [hf]), List.filter_cons_of_neg (by simp [hf]),
          ih hrest]

theorem filter_insertTimer_of_not {timers : List (Instant × Agent)}
    {keep : Instant × Agent → Bool} {due : Instant} {agent : Agent}
    (hk : keep (due, agent) = false) :
    (insertTimer due agent timers).filter keep = timers.filter keep := by
  induction timers with
  | nil => simp [insertTimer, hk]
  | cons first rest ih =>
    rw [insertTimer]
    split
    · rw [List.filter_cons_of_neg (by simp [hk])]
    · rw [List.filter_cons, List.filter_cons, ih]

theorem InOrder.filter_takeWhile {timers : List (Instant × Agent)} (h : InOrder timers)
    (time : Instant) (f : Instant × Agent → Bool) :
    (timers.filter f).takeWhile (·.1 ≤ time) = (timers.takeWhile (·.1 ≤ time)).filter f ∧
      (timers.filter f).dropWhile (·.1 ≤ time) = (timers.dropWhile (·.1 ≤ time)).filter f := by
  induction timers with
  | nil => exact ⟨rfl, rfl⟩
  | cons first rest ih =>
    obtain ⟨hfirst, hrest⟩ := List.pairwise_cons.mp h
    by_cases hdue : first.1 ≤ time
    · cases hf : f first with
      | true => simp [hf, hdue, ih hrest]
      | false => simp [hf, hdue, ih hrest]
    · have hlate : ∀ timer ∈ (first :: rest).filter f, ¬ timer.1 ≤ time := by
        intro timer hm
        rcases List.mem_cons.mp (List.mem_filter.mp hm).1 with rfl | hm
        · exact hdue
        · exact fun hle => hdue (Nat.le_trans (hfirst timer hm) hle)
      cases hl : (first :: rest).filter f with
      | nil => simp [hdue, hl]
      | cons timer later =>
        have htimer := hlate timer (by simp [hl])
        simp [hdue, hl, htimer]

/-- A timer that is due goes off, and one that lies ahead stays. -/
theorem InOrder.mem_takeWhile {timers : List (Instant × Agent)} (h : InOrder timers)
    {timer : Instant × Agent} (hm : timer ∈ timers) {time : Instant} (hd : timer.1 ≤ time) :
    timer ∈ timers.takeWhile (·.1 ≤ time) := by
  induction timers with
  | nil => exact hm
  | cons first rest ih =>
    obtain ⟨hfirst, hrest⟩ := List.pairwise_cons.mp h
    rcases List.mem_cons.mp hm with rfl | hm
    · simp [hd]
    · have hle : first.1 ≤ time := Nat.le_trans (hfirst timer hm) hd
      simp [hle, ih hrest hm]

theorem mem_dropWhile {timers : List (Instant × Agent)} {timer : Instant × Agent}
    (hm : timer ∈ timers) {time : Instant} (hd : time < timer.1) :
    timer ∈ timers.dropWhile (·.1 ≤ time) := by
  have happ := List.takeWhile_append_dropWhile (p := fun t : Instant × Agent => decide (t.1 ≤ time))
    (l := timers)
  rw [← happ] at hm
  refine (List.mem_append.mp hm).resolve_left fun ht => ?_
  have hle := List.mem_takeWhile_imp ht
  exact Nat.not_le_of_lt hd (of_decide_eq_true hle)

/-- A wake changes whose turn it is, and nothing else. -/
theorem exists_enqueue (s : Service R) (agent : Agent) : ∃ queue resumed,
    s.enqueue agent = { s with queue := queue, resumed := resumed } := by
  rw [enqueue]
  split
  · exact ⟨s.queue, true, rfl⟩
  · split
    · exact ⟨s.queue, s.resumed, rfl⟩
    · exact ⟨s.queue ++ [agent], s.resumed, rfl⟩

theorem exists_enqueueAll (s : Service R) (agents : List Agent) : ∃ queue resumed,
    s.enqueueAll agents = { s with queue := queue, resumed := resumed } := by
  induction agents generalizing s with
  | nil => exact ⟨s.queue, s.resumed, rfl⟩
  | cons agent agents ih =>
    obtain ⟨queue, resumed, he⟩ := exists_enqueue s agent
    obtain ⟨queue', resumed', he'⟩ := ih (s.enqueue agent)
    refine ⟨queue', resumed', ?_⟩
    rw [enqueueAll, List.foldl_cons, ← enqueueAll, he', he]

theorem timers_enqueue (s : Service R) (agent : Agent) : (s.enqueue agent).timers = s.timers := by
  obtain ⟨queue, resumed, he⟩ := exists_enqueue s agent
  rw [he]

/-- An agent whose turn will come before any time passes. -/
def Pending (s : Service R) (agent : Agent) : Prop :=
  agent ∈ s.queue ∨ s.resumed = true ∧ s.foreground.map Agent.task = some agent

variable {s middle next : Service R} {agent : Agent} {id : Nat}

theorem pending_enqueue (s : Service R) (agent : Agent) : (s.enqueue agent).Pending agent := by
  rw [enqueue]
  split
  · exact .inr ⟨rfl, ‹_›⟩
  · split
    · rename_i hc
      exact .inl (List.contains_iff_mem.mp hc)
    · exact .inl (List.mem_append_right _ List.mem_cons_self)

theorem Pending.enqueue (h : s.Pending agent) (other : Agent) :
    (s.enqueue other).Pending agent := by
  rw [Service.enqueue]
  split
  · exact h.imp_right fun hr => ⟨rfl, hr.2⟩
  · split
    · exact h
    · exact h.imp_left fun hm => List.mem_append_left _ hm

theorem pending_enqueueAll (s : Service R) {agents : List Agent}
    (h : agent ∈ agents ∨ s.Pending agent) : (s.enqueueAll agents).Pending agent := by
  induction agents generalizing s with
  | nil => exact h.resolve_left List.not_mem_nil
  | cons other agents ih =>
    refine ih (s.enqueue other) ?_
    rcases h with hm | hp
    · rcases List.mem_cons.mp hm with rfl | hm
      · exact .inr (pending_enqueue s agent)
      · exact .inl hm
    · exact .inr (hp.enqueue other)

theorem isRacing_iff {q r : Nat} : s.isRacing q r = true ↔
    ∃ task deadline rest, s.tasks[q]? = some task ∧ task.stage = .racing r deadline rest := by
  constructor
  · intro h
    rw [isRacing, stage?] at h
    cases ht : s.tasks[q]? with
    | none => simp [ht] at h
    | some task =>
      rw [ht, Option.map_some] at h
      cases hs : task.stage with
      | racing child deadline rest =>
        simp only [hs, beq_iff_eq] at h
        exact ⟨task, deadline, rest, rfl, h ▸ hs⟩
      | _ => simp [hs] at h
  · rintro ⟨task, deadline, rest, ht, hs⟩
    simp [isRacing, stage?, ht, hs]

theorem owner?_iff {q : Nat} {owner : Owner} : s.owner? q = some owner ↔
    ∃ task, s.tasks[q]? = some task ∧ task.owner = owner :=
  Option.map_eq_some_iff

theorem task?_iff {q : Nat} {stage : Stage} {owner : Owner} :
    s.tasks[q]? = some ⟨stage, owner⟩ ↔ s.stage? q = some stage ∧ s.owner? q = some owner := by
  rw [stage?, owner?]
  cases s.tasks[q]? with
  | none => simp
  | some task => cases task; simp

/-- What the turn of an agent leaves as it is, in the tasks, the turns and the timers of a
service. -/
structure Turn (agent : Agent) (s next : Service R) : Prop where
  now : next.world.now = s.world.now
  foreground : next.foreground = s.foreground
  size : s.tasks.size ≤ next.tasks.size
  others {q : Nat} : q < s.tasks.size → agent ≠ .task q → next.tasks[q]? = s.tasks[q]?
  /-- Only the agent gets children. -/
  parents {q r : Nat} : next.owner? q = some (.parent r) →
    s.owner? q = some (.parent r) ∨ agent = .task r
  /-- Only tasks that are new are raced from now on. -/
  races {q r : Nat} : next.isRacing q r = true → s.isRacing q r = true ∨ s.tasks.size ≤ r
  kept {timer : Instant × Agent} : timer ∈ s.timers → timer ∈ next.timers
  /-- A sweeper keeps to its period, and all others look ahead from now. -/
  set {timer : Instant × Agent} : timer ∈ next.timers → timer ∈ s.timers ∨
    timer.2 = agent ∧ (s.world.now ≤ timer.1 ∨ ∃ id, agent = .sweeper id)
  inOrder : InOrder s.timers → InOrder next.timers
  sweepers : (∀ id, agent ≠ .sweeper id) → next.sweepers = s.sweepers
  pending {other : Agent} : s.Pending other → next.Pending other

namespace Turn

theorem trans (h : Turn agent s middle) (h' : Turn agent middle next) : Turn agent s next where
  now := h'.now.trans h.now
  foreground := h'.foreground.trans h.foreground
  size := Nat.le_trans h.size h'.size
  others hq ha := (h'.others (Nat.lt_of_lt_of_le hq h.size) ha).trans (h.others hq ha)
  parents hp := (h'.parents hp).elim h.parents .inr
  races hr := (h'.races hr).elim h.races fun hle => .inr (Nat.le_trans h.size hle)
  kept hm := h'.kept (h.kept hm)
  set hm := (h'.set hm).elim h.set fun hset => .inr (h.now ▸ hset)
  inOrder ho := h'.inOrder (h.inOrder ho)
  sweepers ha := (h'.sweepers ha).trans (h.sweepers ha)
  pending hp := h'.pending (h.pending hp)

theorem isRacing_eq_false (h : Turn agent s next) {q r : Nat} (hr : r < s.tasks.size)
    (hq : s.isRacing q r = false) : next.isRacing q r = false := by
  refine Bool.eq_false_iff.mpr fun hn => ?_
  rcases h.races hn with hs | hle
  · exact Bool.noConfusion (hq.symm.trans hs)
  · exact Nat.not_lt_of_le hle hr

theorem of_eq (hnow : next.world.now = s.world.now) (hf : next.foreground = s.foreground)
    (ht : next.tasks = s.tasks) (htimers : next.timers = s.timers)
    (hs : (∀ id, agent ≠ .sweeper id) → next.sweepers = s.sweepers)
    (hp : ∀ other, s.Pending other → next.Pending other) : Turn agent s next where
  now := hnow
  foreground := hf
  size := Nat.le_of_eq (congrArg Array.size ht).symm
  others _ _ := congrArg (·[_]?) ht
  parents hq := by
    rw [owner?, ht] at hq
    exact .inl hq
  races hr := by
    rw [isRacing, stage?, ht] at hr
    exact .inl hr
  kept hm := htimers ▸ hm
  set hm := .inl (htimers ▸ hm)
  inOrder ho := htimers ▸ ho
  sweepers := hs
  pending := hp _

theorem refl (s : Service R) : Turn agent s s :=
  of_eq rfl rfl rfl rfl (fun _ => rfl) fun _ h => h

theorem enqueue (s : Service R) (other : Agent) : Turn agent s (s.enqueue other) := by
  obtain ⟨queue, resumed, he⟩ := exists_enqueue s other
  refine of_eq ?_ ?_ ?_ ?_ (fun _ => ?_) fun _ h => h.enqueue other
  all_goals rw [he]

theorem enqueueAll (s : Service R) (agents : List Agent) :
    Turn agent s (s.enqueueAll agents) := by
  induction agents generalizing s with
  | nil => exact refl s
  | cons other agents ih => exact (enqueue s other).trans (ih (s.enqueue other))

/-- An agent may do with its own task what it likes, but for a race with one that was there. -/
theorem modify {f : Task → Task} (h : Turn (.task id) s middle)
    (ho : ∀ task r, (f task).owner = .parent r → task.owner = .parent r)
    (hr : ∀ task r deadline rest, (f task).stage = .racing r deadline rest →
      task.stage = .racing r deadline rest ∨ s.tasks.size ≤ r) :
    Turn (.task id) s { middle with tasks := middle.tasks.modify id f } where
  now := h.now
  foreground := h.foreground
  size := Nat.le_trans h.size (Nat.le_of_eq Array.size_modify.symm)
  others hq ha := by
    rw [Array.getElem?_modify, if_neg fun he : id = _ => ha (congrArg Agent.task he),
      h.others hq ha]
  parents hq := by
    obtain ⟨task, ht, howner⟩ := owner?_iff.mp hq
    rw [Array.getElem?_modify] at ht
    split at ht
    · obtain ⟨old, hold, rfl⟩ := Option.map_eq_some_iff.mp ht
      exact h.parents (owner?_iff.mpr ⟨old, hold, ho old _ howner⟩)
    · exact h.parents (owner?_iff.mpr ⟨task, ht, howner⟩)
  races hq := by
    obtain ⟨task, deadline, rest, ht, hs⟩ := isRacing_iff.mp hq
    rw [Array.getElem?_modify] at ht
    split at ht
    · obtain ⟨old, hold, rfl⟩ := Option.map_eq_some_iff.mp ht
      rcases hr old _ deadline rest hs with hs | hle
      · exact h.races (isRacing_iff.mpr ⟨old, deadline, rest, hold, hs⟩)
      · exact .inr hle
    · exact h.races (isRacing_iff.mpr ⟨task, deadline, rest, ht, hs⟩)
  kept := h.kept
  set := h.set
  inOrder := h.inOrder
  sweepers := h.sweepers
  pending := h.pending

theorem setStage (h : Turn (.task id) s middle) {stage : Stage}
    (hs : ∀ r deadline rest, stage = .racing r deadline rest → s.tasks.size ≤ r) :
    Turn (.task id) s (middle.setStage id stage) :=
  h.modify (fun _ _ ho => ho) fun _ r deadline rest he => .inr (hs r deadline rest he)

theorem setOwner {owner : Owner} (h : ∀ r, owner ≠ .parent r) :
    Turn (.task id) s (s.setOwner id owner) :=
  (refl s).modify (fun _ r ho => absurd ho (h r)) fun _ _ _ _ hs => .inl hs

theorem addTask {stage : Stage} {owner : Owner}
    (hs : ∀ r deadline rest, stage ≠ .racing r deadline rest)
    (ho : ∀ r, owner = .parent r → agent = .task r) :
    Turn agent s (s.addTask stage owner).1 where
  now := rfl
  foreground := rfl
  size := by simp [Service.addTask]
  others hq _ := Array.getElem?_push_lt hq |>.trans (Array.getElem?_eq_getElem hq).symm
  parents hq := by
    obtain ⟨task, ht, howner⟩ := owner?_iff.mp hq
    rw [Service.addTask, Array.getElem?_push] at ht
    split at ht
    · obtain rfl := Option.some.inj ht
      exact .inr (ho _ howner)
    · exact .inl (owner?_iff.mpr ⟨task, ht, howner⟩)
  races hq := by
    obtain ⟨task, deadline, rest, ht, hstage⟩ := isRacing_iff.mp hq
    rw [Service.addTask, Array.getElem?_push] at ht
    split at ht
    · obtain rfl := Option.some.inj ht
      exact absurd hstage (hs _ deadline rest)
    · exact .inl (isRacing_iff.mpr ⟨task, deadline, rest, ht, hstage⟩)
  kept hm := hm
  set hm := .inl hm
  inOrder ho := ho
  sweepers _ := rfl
  pending hp := hp

theorem setTimer (h : Turn agent s middle) {due : Instant}
    (hd : s.world.now ≤ due ∨ ∃ id, agent = .sweeper id) :
    Turn agent s (middle.setTimer due agent) where
  now := h.now
  foreground := h.foreground
  size := h.size
  others := h.others
  parents := h.parents
  races := h.races
  kept hm := mem_insertTimer.mpr (.inr (h.kept hm))
  set hm := by
    rcases mem_insertTimer.mp hm with rfl | hm
    · exact .inr ⟨rfl, hd⟩
    · exact h.set hm
  inOrder ho := (h.inOrder ho).insertTimer due agent
  sweepers := h.sweepers
  pending := h.pending

theorem leaveGate (s : Service R) : Turn agent s s.leaveGate := by
  rw [Service.leaveGate]
  split
  · exact refl s
  · rename_i server _
    have hgate : Turn agent s
        { s with http := some { server with gate := (server.gate.give 1).1 } } :=
      of_eq rfl rfl rfl rfl (fun _ => rfl) fun _ h => h
    exact hgate.trans (enqueueAll ..)

theorem finish (s : Service R) (id : Nat) (outcome : Outcome) :
    Turn (.task id) s (s.finish id outcome) := by
  have hstage : ∀ (s : Service R) (stage : Stage), stage.isOver = true →
      Turn (.task id) s (s.setStage id stage) := fun s stage ho =>
    (refl s).setStage fun _ _ _ he => by simp [he, Stage.isOver] at ho
  have hended := hstage s (.ended outcome s.world.now) rfl
  rw [Service.finish]
  rcases s.owner? id with _ | _ | parent | ⟨incoming, found⟩ | ⟨consumer, number⟩
  · exact hended
  · exact hended
  · simp only
    split
    · exact hended.trans (enqueue ..)
    · exact hended
  · simp only
    split
    · rename_i ctx server _
      have hstats : Turn (.task id) s
          { s with http := some (server.answer found ctx.response).1 } :=
        of_eq rfl rfl rfl rfl (fun _ => rfl) fun _ h => h
      exact (hstats.trans (hstage _ (.answered _ _) rfl)).trans (leaveGate _)
    · exact hended.trans (leaveGate _)
  · simp only
    cases s.consumers[consumer]? with
    | none => exact hended
    | some c =>
      have hconsumer : Turn (.task id) (s.setStage id (.ended outcome s.world.now))
          ((s.setStage id (.ended outcome s.world.now)).setConsumer consumer
            (c.finish number outcome s.world.now).1) :=
        of_eq rfl rfl rfl rfl (fun _ => rfl) fun _ h => h
      exact (hended.trans hconsumer).trans (enqueueAll ..)

theorem spawn {stage : Stage} {owner : Owner}
    (hs : ∀ r deadline rest, stage ≠ .racing r deadline rest)
    (ho : ∀ r, owner = .parent r → agent = .task r) :
    Turn agent s (s.spawn stage owner).1 :=
  (addTask hs ho).trans (enqueue ..)

theorem arrive (s : Service R) {task : Task} (h : Newcomer task) :
    Turn agent s (s.spawn task.stage task.owner).1 := by
  cases h <;> exact spawn (fun _ _ _ => Stage.noConfusion) fun _ => Owner.noConfusion

theorem runIntake (s : Service R) (consumer : Nat) :
    Turn (.intake consumer) s (s.runIntake consumer) := by
  have hfront : ∀ s : Service R,
      Turn (.intake consumer) s { s with queue := .intake consumer :: s.queue } := fun s =>
    of_eq rfl rfl rfl rfl (fun _ => rfl) fun _ h => h.imp_left (List.mem_cons_of_mem _)
  rw [Service.runIntake]
  cases s.consumers[consumer]? with
  | none => exact refl s
  | some c =>
    have hconsumer : Turn (.intake consumer) s (s.setConsumer consumer c.advance.1) :=
      of_eq rfl rfl rfl rfl (fun _ => rfl) fun _ h => h
    simp only
    split
    · exact hconsumer
    · exact hconsumer.trans (hfront _)
    · split
      · exact (hconsumer.trans (spawn (fun _ _ _ => Stage.noConfusion)
          fun _ => Owner.noConfusion)).trans (hfront _)
      · exact hconsumer
    · exact hconsumer.trans (enqueueAll ..)

variable [Amount R]

theorem proceed (s : Service R) (id : Nat) (call : Call) :
    Turn (.task id) s (s.proceed id call) := by
  have hworld : Turn (.task id) s { s with world := (call.poll s.world).2 } :=
    of_eq (call.now_poll s.world) rfl rfl rfl (fun _ => rfl) fun _ h => h
  rw [Service.proceed]
  cases hp : call.poll s.world with
  | mk pause w =>
    rw [hp] at hworld
    have hdue {span : Duration} : s.world.now ≤ w.now + span.nanos :=
      hworld.now ▸ Nat.le_add_right _ _
    cases pause with
    | ended outcome => exact hworld.trans (finish ..)
    | asleep span rest =>
      exact (hworld.setStage fun _ _ _ he => Stage.noConfusion he).setTimer (.inl hdue)
    | racing body limit rest =>
      have hspawn : Turn (.task id) s
          (Service.spawn { s with world := w } (.ready body) (.parent id)).1 :=
        hworld.trans (spawn (fun _ _ _ => Stage.noConfusion)
          fun r he => congrArg Agent.task (Owner.parent.inj he))
      exact (hspawn.setStage fun r _ _ he => Nat.le_of_eq (Stage.racing.inj he).1).setTimer
        (.inl hdue)

theorem serve (s : Service R) (id : Nat) (i : Incoming) : Turn (.task id) s (s.serve id i) := by
  rw [Service.serve]
  cases s.http with
  | none => exact refl s
  | some server =>
    cases i.body with
    | none =>
      have hworld : Turn (.task id) s { s with
          http := some server.refuse.1
          world := s.world.report (.bodyUnreadable "error reading a body from connection") } :=
        of_eq rfl rfl rfl rfl (fun _ => rfl) fun _ h => h
      exact (hworld.setStage fun _ _ _ => Stage.noConfusion).trans (leaveGate _)
    | some body =>
      exact (setOwner fun _ => Owner.noConfusion).trans (proceed ..)

theorem runTask (s : Service R) (id : Nat) : Turn (.task id) s (s.runTask id) := by
  have hgate : ∀ server, Turn (.task id) s { s with http := some server } :=
    fun _ => of_eq rfl rfl rfl rfl (fun _ => rfl) fun _ h => h
  rw [Service.runTask]
  cases s.stage? id with
  | none => exact refl s
  | some stage =>
    cases stage with
    | arriving i =>
      cases s.http with
      | none => exact refl s
      | some server =>
        simp only
        split
        · exact (hgate { server with gate := _ }).trans (serve ..)
        · exact (hgate { server with gate := _ }).setStage fun _ _ _ => Stage.noConfusion
    | inLine i =>
      simp only
      split
      · exact refl s
      · exact serve s id i
    | unrouted delivery =>
      simp only
      repeat' split
      · exact proceed s id _
      · exact refl s
      · exact refl s
    | ready call => exact proceed s id call
    | asleep due rest =>
      simp only
      split
      · exact proceed s id rest
      · exact refl s
    | racing child deadline rest =>
      simp only
      split
      · exact proceed s id _
      · exact refl s
    | ended outcome time => exact refl s
    | answered reply time => exact refl s

theorem runSweeper (s : Service R) (id : Nat) : Turn (.sweeper id) s (s.runSweeper id) := by
  rw [Service.runSweeper]
  cases s.sweepers[id]? with
  | none => exact refl s
  | some sweeper =>
    simp only
    split
    · exact refl s
    · split
      · exact refl s
      · refine setTimer ?_ (.inr ⟨id, rfl⟩)
        exact of_eq rfl rfl rfl rfl (fun hs => absurd rfl (hs id)) fun _ h => h

/-- The frame of every turn. -/
theorem run (s : Service R) (agent : Agent) : Turn agent s (s.run agent) := by
  cases agent with
  | task id => exact runTask s id
  | intake consumer => exact runIntake s consumer
  | sweeper id => exact runSweeper s id

end Turn

end Service

end Switchboard
