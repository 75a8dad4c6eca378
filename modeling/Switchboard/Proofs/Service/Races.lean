import Switchboard.Proofs.Service.Clock

/-! Races of a task against a deadline. The one that races goes on with the end of its child, if the
child ends before the deadline, and at the deadline else. -/

namespace Switchboard

open RateLimit (Amount)
open Server

/-- The outcome of a race, when it has another one for a body that is late. -/
def Verdict.outcome (late : Outcome) : Verdict → Outcome
  | .ended outcome => outcome
  | .late => late

def Stage.works : Stage → Bool
  | .ready _ | .asleep _ _ | .racing _ _ _ => true
  | _ => false

/-- Of calls that are not made for a front end. -/
def Owner.isInner : Owner → Bool
  | .nobody | .parent _ => true
  | _ => false

namespace Service

variable {R : Type} {s next : Service R} {id : Nat} {owner : Owner} {agent : Agent}

/-- How and when a task has ended. -/
def ending (s : Service R) (id : Nat) : Option (Outcome × Instant) :=
  match s.stage? id with
  | some (.ended outcome time) => some (outcome, time)
  | _ => none

theorem ending_of_works {stage : Stage} (h : s.stage? id = some stage) (hw : stage.works = true) :
    s.ending id = none := by
  rw [ending, h]
  cases stage <;> first | rfl | exact Bool.noConfusion hw

theorem ending_of_ended {outcome : Outcome} {time : Instant}
    (h : s.stage? id = some (.ended outcome time)) : s.ending id = some (outcome, time) := by
  rw [ending, h]

@[simp] theorem owner?_setStage (s : Service R) (id q : Nat) (stage : Stage) :
    (s.setStage id stage).owner? q = s.owner? q := by
  rw [owner?, setStage, Array.getElem?_modify, owner?]
  split
  · rw [Option.map_map]
    rfl
  · rfl

theorem stage?_setStage (h : s.owner? id = some owner) (stage : Stage) :
    (s.setStage id stage).stage? id = some stage := by
  obtain ⟨task, ht, -⟩ := owner?_iff.mp h
  rw [stage?, setStage, Array.getElem?_modify, if_pos rfl, ht, Option.map_some, Option.map_some]

theorem stage?_setStage_of_ne {q : Nat} (h : q ≠ id) (stage : Stage) :
    (s.setStage id stage).stage? q = s.stage? q := by
  rw [stage?, setStage, Array.getElem?_modify, if_neg (Ne.symm h), stage?]

theorem task?_spawn (s : Service R) (stage : Stage) (owner : Owner) (q : Nat) :
    (s.spawn stage owner).1.tasks[q]? =
      if q = s.tasks.size then some ⟨stage, owner⟩ else s.tasks[q]? := by
  obtain ⟨queue, resumed, he⟩ := exists_enqueue (s.addTask stage owner).1 (.task s.tasks.size)
  rw [spawn]
  simp only [addTask] at he ⊢
  rw [he, Array.getElem?_push]

theorem owner?_spawn (s : Service R) (stage : Stage) (owner : Owner) (q : Nat) :
    (s.spawn stage owner).1.owner? q =
      if q = s.tasks.size then some owner else s.owner? q := by
  rw [owner?, task?_spawn, owner?]
  split <;> rfl

theorem stage?_spawn (s : Service R) (stage : Stage) (owner : Owner) (q : Nat) :
    (s.spawn stage owner).1.stage? q =
      if q = s.tasks.size then some stage else s.stage? q := by
  rw [stage?, task?_spawn, stage?]
  split <;> rfl

theorem lt_size_of_owner? (h : s.owner? id = some owner) : id < s.tasks.size := by
  obtain ⟨task, ht, -⟩ := owner?_iff.mp h
  exact (Array.getElem?_eq_some_iff.mp ht).1

/-- The end of a call that is not made for a front end is known to the task that races it. -/
theorem exists_finish (h : s.owner? id = some owner) (hi : owner.isInner = true)
    (outcome : Outcome) : ∃ queue resumed, s.finish id outcome =
      { s.setStage id (.ended outcome s.world.now) with queue := queue, resumed := resumed } := by
  rw [finish, h]
  cases owner with
  | nobody => exact ⟨s.queue, s.resumed, rfl⟩
  | parent q =>
    simp only
    split
    · exact exists_enqueue ..
    · exact ⟨s.queue, s.resumed, rfl⟩
  | _ => exact Bool.noConfusion hi

theorem pending_finish {q : Nat} (h : s.owner? id = some (.parent q))
    (hr : s.isRacing q id = true) (outcome : Outcome) :
    (s.finish id outcome).Pending (.task q) := by
  rw [finish, h]
  simp only [hr, if_true]
  exact pending_enqueue ..

/-- What comes of the turn of a task that is at work. -/
structure Advances (s next : Service R) (id : Nat) (owner : Owner) : Prop where
  keeps : next.owner? id = some owner
  stage : (∃ stage, next.stage? id = some stage ∧ stage.works = true) ∨
    ∃ outcome, next.stage? id = some (.ended outcome s.world.now) ∧
      ∀ q, owner = .parent q → s.isRacing q id = true → next.Pending (.task q)

/-- What a deadline makes of the end of a call. -/
def cutOff (deadline : Instant) (late : Outcome) (now : Instant) :
    Option (Outcome × Instant) → Option (Outcome × Instant)
  | some (outcome, time) => if time < deadline then some (outcome, time) else some (late, deadline)
  | none => if deadline ≤ now then some (late, deadline) else none

theorem eq_of_cutOff {deadline now time : Instant} {late outcome : Outcome}
    {ending : Option (Outcome × Instant)}
    (h : cutOff deadline late now ending = some (outcome, time)) :
    time = deadline ∨ ending = some (outcome, time) := by
  cases ending with
  | none => grind [cutOff]
  | some found => grind [cutOff]

/-- Of two deadlines with one answer the earlier decides. -/
theorem cutOff_cutOff (first second : Instant) (late : Outcome) (now : Instant)
    (ending : Option (Outcome × Instant)) :
    cutOff first late now (cutOff second late now ending) =
      cutOff (min first second) late now ending := by
  cases ending with
  | none => grind [cutOff]
  | some found => grind [cutOff]

/-- How far a race has come. -/
inductive Course (rest : Verdict → Call) (late : Outcome) (p c : Nat) (deadline : Instant)
    (s : Service R) : Prop
  | running {stage : Stage} (hp : s.stage? p = some (.racing c deadline rest))
    (hc : s.stage? c = some stage) (hw : stage.works = true)
    (ht : s.world.now < deadline ∧ (deadline, .task p) ∈ s.timers ∨
      s.world.now = deadline ∧ s.Pending (.task p))
  /-- The child has ended, and its parent will see it before any time passes. -/
  | told {outcome : Outcome} (hp : s.stage? p = some (.racing c deadline rest))
    (hc : s.stage? c = some (.ended outcome s.world.now)) (hd : s.world.now ≤ deadline)
    (ht : s.Pending (.task p))
  | won {outcome : Outcome} {time : Instant} (hp : s.stage? p = some (.ended outcome time))
    (hc : s.stage? c = some (.ended outcome time)) (hd : time ≤ deadline)
  | lost (hp : s.stage? p = some (.ended late deadline)) (hd : deadline ≤ s.world.now)
    (hc : (∃ stage, s.stage? c = some stage ∧ stage.works = true) ∨
      ∃ outcome time, s.stage? c = some (.ended outcome time) ∧ deadline ≤ time)

/-- A task that races its only child. -/
structure Race (rest : Verdict → Call) (late : Outcome) (p c : Nat) (deadline : Instant)
    (s : Service R) : Prop where
  inOrder : InOrder s.timers
  owner : ∃ owner, s.owner? p = some owner ∧ owner.isInner = true
  child {q : Nat} : s.owner? q = some (.parent p) ↔ q = c
  apart : c ≠ p
  course : Course rest late p c deadline s

variable {rest : Verdict → Call} {late : Outcome} {p c : Nat} {deadline : Instant}

theorem Course.of_eq (h : Course rest late p c deadline s) (hp : next.stage? p = s.stage? p)
    (hc : next.stage? c = s.stage? c) (hn : next.world.now = s.world.now)
    (ht : (deadline, .task p) ∈ s.timers → (deadline, .task p) ∈ next.timers)
    (hq : s.Pending (.task p) → next.Pending (.task p)) : Course rest late p c deadline next := by
  cases h with
  | running hp' hc' hw ht' =>
    exact .running (hp.trans hp') (hc.trans hc') hw (hn ▸ ht'.imp (.imp_right ht) (.imp_right hq))
  | told hp' hc' hd ht' =>
    exact .told (hp.trans hp') (hc.trans (hn ▸ hc')) (hn ▸ hd) (hq ht')
  | won hp' hc' hd => exact .won (hp.trans hp') (hc.trans hc') hd
  | lost hp' hd hc' => exact .lost (hp.trans hp') (hn ▸ hd) (hc.symm ▸ hc')

namespace Race

theorem of_turn (h : Race rest late p c deadline s) (ht : Turn agent s next)
    (hp : agent ≠ .task p) (hc : agent ≠ .task c) : Race rest late p c deadline next := by
  obtain ⟨owner, howner, hi⟩ := h.owner
  have hpt := ht.others (lt_size_of_owner? howner) hp
  have hct := ht.others (lt_size_of_owner? (h.child.mpr rfl)) hc
  refine ⟨ht.inOrder h.inOrder, ⟨owner, ?_, hi⟩, fun {q} => ⟨fun hq => ?_, ?_⟩, h.apart, ?_⟩
  · rw [owner?, hpt]
    exact howner
  · exact h.child.mp ((ht.parents hq).resolve_right hp)
  · rintro rfl
    rw [owner?, hct]
    exact h.child.mpr rfl
  · refine h.course.of_eq ?_ ?_ ht.now ht.kept ht.pending
    · rw [stage?, hpt, stage?]
    · rw [stage?, hct, stage?]

theorem popped (h : Race rest late p c deadline s) (ht : s.Takes agent next)
    (ha : agent ≠ .task p) : Race rest late p c deadline next := by
  refine ⟨ht.timers ▸ h.inOrder, ?_, fun {q} => (ht.owner? q).symm ▸ h.child, h.apart, ?_⟩
  · rw [ht.owner?]
    exact h.owner
  · exact h.course.of_eq (ht.stage? p) (ht.stage? c) ht.now
      (fun hm => ht.timers ▸ hm) (ht.pending (Ne.symm ha))

theorem of_advances (h : Race rest late p c deadline s) (ha : Advances s next c (.parent p))
    (ht : Turn (.task c) s next) (hcourse : Course rest late p c deadline next) :
    Race rest late p c deadline next := by
  obtain ⟨owner, howner, hi⟩ := h.owner
  have hne : Agent.task c ≠ .task p := fun he => h.apart (Agent.task.inj he)
  refine ⟨ht.inOrder h.inOrder, ⟨owner, ?_, hi⟩, fun {q} => ⟨fun hq => ?_, ?_⟩, h.apart, hcourse⟩
  · rw [owner?, ht.others (lt_size_of_owner? howner) hne]
    exact howner
  · exact h.child.mp ((ht.parents hq).resolve_right hne)
  · rintro rfl
    exact ha.keeps

theorem advanceTo (h : Race rest late p c deadline s) (hr : s.AtRest) {time : Instant}
    (ht : ∀ timer ∈ s.timers, time ≤ timer.1) (hn : s.world.now ≤ time) :
    Race rest late p c deadline (s.advanceTo time) := by
  obtain ⟨queue, resumed, he⟩ := exists_advanceTo s time
  have hstages : ∀ q, (s.advanceTo time).stage? q = s.stage? q := fun q => by rw [he]; rfl
  have hnow : (s.advanceTo time).world.now = time := by rw [he]
  refine ⟨?_, ?_, ?_, h.apart, ?_⟩
  · rw [he]
    exact h.inOrder.sublist (List.dropWhile_sublist _)
  · rw [he]
    exact h.owner
  · rw [he]
    exact h.child
  · cases h.course with
    | running hp hc hw htime =>
      obtain ⟨hlt, hm⟩ := htime.resolve_right fun hp => hr.not_pending _ hp.2
      refine .running ((hstages p).trans hp) ((hstages c).trans hc) hw ?_
      rw [hnow]
      rcases Nat.lt_or_eq_of_le (ht _ hm) with hlt' | heq
      · refine .inl ⟨hlt', ?_⟩
        rw [he]
        exact mem_dropWhile hm hlt'
      · exact .inr ⟨heq, pending_advanceTo h.inOrder hm (Nat.le_of_eq heq.symm)⟩
    | told _ _ _ hp => exact absurd hp (hr.not_pending _)
    | won hp hc hd => exact .won ((hstages p).trans hp) ((hstages c).trans hc) hd
    | lost hp hd hc =>
      refine .lost ((hstages p).trans hp) ?_ ?_
      · rw [hnow]
        exact Nat.le_trans hd hn
      · rw [hstages]
        exact hc

/-- When all have had their turns, a race that has come to its deadline has an answer. -/
theorem ending_eq (h : Race rest late p c deadline s) (hr : s.AtRest)
    (hd : ∀ outcome time, s.ending c = some (outcome, time) → time ≠ deadline) :
    s.ending p = cutOff deadline late s.world.now (s.ending c) := by
  cases h.course with
  | running hp hc hw htime =>
    have hlt := (htime.resolve_right fun hp => hr.not_pending _ hp.2).1
    rw [ending_of_works hc hw, ending_of_works hp rfl, cutOff, if_neg (Nat.not_le_of_lt hlt)]
  | told _ _ _ hp => exact absurd hp (hr.not_pending _)
  | won hp hc hle =>
    have hlt := Nat.lt_of_le_of_ne hle (hd _ _ (ending_of_ended hc))
    rw [ending_of_ended hc, ending_of_ended hp, cutOff, if_pos hlt]
  | lost hp hn hc =>
    rcases hc with ⟨stage, hc, hw⟩ | ⟨outcome, time, hc, hle⟩
    · rw [ending_of_works hc hw, ending_of_ended hp, cutOff, if_pos hn]
    · rw [ending_of_ended hc, ending_of_ended hp, cutOff, if_neg (Nat.not_lt_of_le hle)]

end Race

/-- A task whose first turn is to race another one. -/
structure Begins (body : Call) (limit : Duration) (rest : Verdict → Call) (c : Nat)
    (start : Instant) (s : Service R) : Prop where
  inOrder : InOrder s.timers
  owner : ∃ owner, s.owner? c = some owner ∧ owner.isInner = true
  childless {q : Nat} : s.owner? q ≠ some (.parent c)
  stage : s.stage? c = some (.ready (.race body limit rest))
  pending : s.Pending (.task c)
  now : s.world.now = start

namespace Begins

variable {body : Call} {limit : Duration} {start : Instant}

theorem of_turn (h : Begins body limit rest c start s) (ht : Turn agent s next)
    (ha : agent ≠ .task c) : Begins body limit rest c start next := by
  obtain ⟨owner, howner, hi⟩ := h.owner
  have hc := ht.others (lt_size_of_owner? howner) ha
  refine ⟨ht.inOrder h.inOrder, ⟨owner, ?_, hi⟩, fun hq => ?_, ?_, ht.pending h.pending,
    ht.now.trans h.now⟩
  · rw [owner?, hc]
    exact howner
  · exact (ht.parents hq).elim h.childless ha
  · rw [stage?, hc]
    exact h.stage

end Begins

variable [Amount R]

theorem advances_proceed (h : s.owner? id = some owner) (hi : owner.isInner = true) (call : Call) :
    Advances s (s.proceed id call) id owner := by
  have hnow := call.now_poll s.world
  rw [proceed]
  cases hp : call.poll s.world with
  | mk pause w =>
    rw [hp] at hnow
    have hw : owner? { s with world := w } id = some owner := h
    cases pause with
    | ended outcome =>
      obtain ⟨queue, resumed, he⟩ := exists_finish hw hi outcome
      have hstage := stage?_setStage hw (.ended outcome w.now)
      have howner := owner?_setStage { s with world := w } id id (.ended outcome w.now)
      refine ⟨?_, .inr ⟨outcome, ?_, fun q hq hr => ?_⟩⟩
      · simp only [he]
        exact howner.trans hw
      · simp only [he]
        rw [← hnow]
        exact hstage
      · subst hq
        exact pending_finish hw hr outcome
    | asleep span rest =>
      exact ⟨(owner?_setStage ..).trans hw, .inl ⟨_, stage?_setStage hw _, rfl⟩⟩
    | racing body limit rest =>
      have hs : (spawn { s with world := w } (.ready body)
          (.parent id)).1.owner? id = some owner := by
        rw [owner?_spawn, if_neg (Nat.ne_of_lt (lt_size_of_owner? hw)), hw]
      exact ⟨(owner?_setStage ..).trans hs, .inl ⟨_, stage?_setStage hs _, rfl⟩⟩

theorem advances_runTask (h : s.owner? id = some owner) (hi : owner.isInner = true) {stage : Stage}
    (hs : s.stage? id = some stage) (hw : stage.works = true) :
    Advances s (s.runTask id) id owner := by
  have hsame : Advances s s id owner := ⟨h, .inl ⟨stage, hs, hw⟩⟩
  rw [runTask, hs]
  cases stage with
  | ready call => exact advances_proceed h hi call
  | asleep due rest =>
    simp only
    split
    · exact advances_proceed h hi rest
    · exact hsame
  | racing child deadline rest =>
    simp only
    split
    · exact advances_proceed h hi _
    · exact hsame
  | _ => exact Bool.noConfusion hw

/-- Answers at once, however the race ends. -/
def Settles (R : Type) [Amount R] (rest : Verdict → Call) (late : Outcome) : Prop :=
  ∀ verdict (w : World R), ((rest verdict).poll w).1 = .ended (verdict.outcome late)

section Start

variable {body : Call} {limit : Duration}

theorem owner?_proceed_race (s : Service R) (p q : Nat) :
    (s.proceed p (.race body limit rest)).owner? q =
      if q = s.tasks.size then some (.parent p) else s.owner? q :=
  (owner?_setStage ..).trans (owner?_spawn s (.ready body) (.parent p) q)

theorem stage?_proceed_race (hp : s.owner? p = some owner) :
    (s.proceed p (.race body limit rest)).stage? p =
      some (.racing s.tasks.size (s.world.now + limit.nanos) rest) := by
  have hs : (s.spawn (.ready body) (.parent p)).1.owner? p = some owner := by
    rw [owner?_spawn, if_neg (Nat.ne_of_lt (lt_size_of_owner? hp)), hp]
  exact stage?_setStage hs _

/-- The child begins when its turn comes. -/
theorem child_proceed_race (hp : s.owner? p = some owner) :
    (s.proceed p (.race body limit rest)).stage? s.tasks.size = some (.ready body) ∧
      (s.proceed p (.race body limit rest)).Pending (.task s.tasks.size) := by
  have hchild := stage?_spawn s (.ready body) (.parent p) s.tasks.size
  rw [if_pos rfl] at hchild
  have hne : s.tasks.size ≠ p := Nat.ne_of_gt (lt_size_of_owner? hp)
  exact ⟨(stage?_setStage_of_ne hne _).trans hchild, pending_enqueue _ _⟩

theorem race_proceed (body : Call) (ho : InOrder s.timers)
    (hp : s.owner? p = some owner) (hi : owner.isInner = true)
    (hc : ∀ q, s.owner? q ≠ some (.parent p)) (hl : 0 < limit.nanos) :
    Race rest late p s.tasks.size (s.world.now + limit.nanos)
      (s.proceed p (.race body limit rest)) := by
  have hne : p ≠ s.tasks.size := Nat.ne_of_lt (lt_size_of_owner? hp)
  refine ⟨(Turn.proceed s p _).inOrder ho, ⟨owner, ?_, hi⟩, fun {q} => ?_, Ne.symm hne,
    .running (stage?_proceed_race hp) (child_proceed_race hp).1 rfl
      (.inl ⟨?_, mem_insertTimer.mpr (.inl rfl)⟩)⟩
  · rw [owner?_proceed_race, if_neg hne, hp]
  · rw [owner?_proceed_race]
    split
    · simp [*]
    · simp [*, hc q]
  · rw [(Turn.proceed s p _).now]
    exact Nat.lt_add_of_pos_right hl

end Start

/-- The one that races ends as soon as it sees how its race stands. -/
theorem exists_runTask_racing (h : s.owner? p = some owner) (hi : owner.isInner = true)
    (hs : Settles R rest late) (hp : s.stage? p = some (.racing c deadline rest))
    {verdict : Verdict} (hv : s.verdict? c deadline = some verdict) : ∃ w queue resumed,
      s.runTask p = { Service.setStage { s with world := w } p
        (.ended (verdict.outcome late) s.world.now) with queue := queue, resumed := resumed } ∧
      w.now = s.world.now := by
  have hnow := (rest verdict).now_poll s.world
  have hend := hs verdict s.world
  rw [runTask, hp]
  simp only [hv, proceed]
  cases hpoll : (rest verdict).poll s.world with
  | mk pause w =>
    rw [hpoll] at hnow hend
    obtain rfl : pause = .ended (verdict.outcome late) := hend
    obtain ⟨queue, resumed, he⟩ := exists_finish (s := { s with world := w }) h hi
      (verdict.outcome late)
    exact ⟨w, queue, resumed, by rw [← hnow]; exact he, hnow⟩

namespace Race

/-- A turn of the child. -/
theorem runTask_child (h : Race rest late p c deadline s) :
    Race rest late p c deadline (s.runTask c) := by
  have hc := h.child.mpr rfl
  have ht := Turn.runTask s c
  obtain ⟨owner, howner, -⟩ := h.owner
  have hp : (s.runTask c).stage? p = s.stage? p := by
    rw [stage?, ht.others (lt_size_of_owner? howner) fun he => h.apart (Agent.task.inj he), stage?]
  have hover : ∀ {outcome time}, s.stage? c = some (.ended outcome time) → s.runTask c = s := by
    intro outcome time he
    rw [Service.runTask, he]
  cases h.course with
  | running hstage hchild hw htime =>
    have ha := advances_runTask hc rfl hchild hw
    refine h.of_advances ha ht ?_
    rcases ha.stage with ⟨stage, hs, hw'⟩ | ⟨outcome, hs, hq⟩
    · refine .running (hp.trans hstage) hs hw' ?_
      rw [ht.now]
      exact htime.imp (.imp_right ht.kept) (.imp_right ht.pending)
    · have hr : s.isRacing p c = true := by simp [isRacing, hstage]
      refine .told (hp.trans hstage) (ht.now ▸ hs) ?_ (hq p rfl hr)
      rw [ht.now]
      exact htime.elim (fun hl => Nat.le_of_lt hl.1) fun he => Nat.le_of_eq he.1
  | told _ hchild => rwa [hover hchild]
  | won _ hchild => rwa [hover hchild]
  | lost hstage hd hchild =>
    rcases hchild with ⟨stage, hchild, hw⟩ | ⟨outcome, time, hchild, -⟩
    · have ha := advances_runTask hc rfl hchild hw
      refine h.of_advances ha ht (.lost (hp.trans hstage) (ht.now ▸ hd) ?_)
      rcases ha.stage with hw' | ⟨outcome, hs, -⟩
      · exact .inl hw'
      · exact .inr ⟨outcome, _, hs, hd⟩
    · rwa [hover hchild]

theorem of_same (h : Race rest late p c deadline s) (ht : s.Takes (.task p) next)
    (he : next.runTask p = next) (hcourse : Course rest late p c deadline next) :
    Race rest late p c deadline (next.runTask p) := by
  rw [he]
  refine ⟨ht.timers ▸ h.inOrder, ?_, fun {q} => (ht.owner? q).symm ▸ h.child, h.apart, hcourse⟩
  rw [ht.owner?]
  exact h.owner

theorem of_verdict (h : Race rest late p c deadline s) (hs : Settles R rest late)
    (ht : s.Takes (.task p) next) (hp : next.stage? p = some (.racing c deadline rest))
    {verdict : Verdict} (hv : next.verdict? c deadline = some verdict)
    (hcourse : ∀ r : Service R, r.world.now = s.world.now → r.stage? c = s.stage? c →
      r.stage? p = some (.ended (verdict.outcome late) s.world.now) →
        Course rest late p c deadline r) : Race rest late p c deadline (next.runTask p) := by
  obtain ⟨owner, howner, hi⟩ := h.owner
  have hnext : next.owner? p = some owner := (ht.owner? p).trans howner
  obtain ⟨w, queue, resumed, he, hw⟩ := exists_runTask_racing hnext hi hs hp hv
  have howners : ∀ q, (next.runTask p).owner? q = s.owner? q := by
    intro q
    have hset := owner?_setStage { next with world := w } p q
      (.ended (verdict.outcome late) next.world.now)
    rw [he]
    exact hset.trans (ht.owner? q)
  refine ⟨(Turn.runTask next p).inOrder (ht.timers ▸ h.inOrder),
    ⟨owner, (howners p).trans howner, hi⟩, fun {q} => (howners q).symm ▸ h.child, h.apart,
    hcourse _ ?_ ?_ ?_⟩
  · rw [he]
    exact hw.trans ht.now
  · have hset := stage?_setStage_of_ne (s := { next with world := w }) h.apart
      (.ended (verdict.outcome late) next.world.now)
    rw [he]
    exact hset.trans (ht.stage? c)
  · rw [he, ← ht.now]
    exact stage?_setStage (s := { next with world := w }) hnext _

/-- A turn of the one that races. -/
theorem runTask (h : Race rest late p c deadline s) (hs : Settles R rest late)
    (ht : s.Takes (.task p) next) : Race rest late p c deadline (next.runTask p) := by
  have hover : ∀ {outcome time}, s.stage? p = some (.ended outcome time) →
      next.runTask p = next := by
    intro outcome time he
    rw [Service.runTask, ht.stage?, he]
  cases h.course with
  | @running stage hp hc hw htime =>
    have hp' := (ht.stage? p).trans hp
    have hv : next.verdict? c deadline =
        if deadline ≤ next.world.now then some .late else none := by
      rw [verdict?, ht.stage?, hc]
      cases stage <;> first | rfl | exact Bool.noConfusion hw
    rcases htime with ⟨hlt, hm⟩ | ⟨heq, -⟩
    · rw [ht.now, if_neg (Nat.not_le_of_lt hlt)] at hv
      refine h.of_same ht ?_ (.running hp' ((ht.stage? c).trans hc) hw
        (.inl ⟨ht.now ▸ hlt, ht.timers ▸ hm⟩))
      rw [Service.runTask, hp']
      simp only [hv]
    · rw [ht.now, if_pos (Nat.le_of_eq heq.symm)] at hv
      refine h.of_verdict hs ht hp' hv fun r hr hrc hrp => .lost ?_ ?_ ?_
      · rw [hrp, heq]
        rfl
      · exact Nat.le_of_eq (hr.trans heq).symm
      · exact .inl ⟨stage, hrc.trans hc, hw⟩
  | @told outcome hp hc hd =>
    have hv : next.verdict? c deadline = some (.ended outcome) := by
      rw [verdict?, ht.stage?, hc]
    exact h.of_verdict hs ht ((ht.stage? p).trans hp) hv fun r _ hrc hrp =>
      .won hrp (hrc.trans hc) hd
  | won hp hc hd =>
    exact h.of_same ht (hover hp) (.won ((ht.stage? p).trans hp) ((ht.stage? c).trans hc) hd)
  | lost hp hd hc =>
    refine h.of_same ht (hover hp) (.lost ((ht.stage? p).trans hp) (ht.now ▸ hd) ?_)
    rw [ht.stage?]
    exact hc

theorem step (h : Race rest late p c deadline s) (hs : Settles R rest late) (hstep : s.Step next) :
    Race rest late p c deadline next := by
  rcases hstep.cases_turn with ⟨agent, popped, ht, rfl⟩ | ⟨time, hr, hn, ht, rfl⟩ | hturn
  · by_cases hp : agent = .task p
    · subst hp
      exact h.runTask hs ht
    · by_cases hc : agent = .task c
      · subst hc
        exact (h.popped ht hp).runTask_child
      · exact (h.popped ht hp).of_turn (Turn.run popped agent) hp hc
  · exact h.advanceTo hr ht hn
  · exact h.of_turn (hturn (.intake 0)) Agent.noConfusion Agent.noConfusion

theorem goes (h : Race rest late p c deadline s) (hs : Settles R rest late) (hg : s.Goes next) :
    Race rest late p c deadline next := by
  induction hg with
  | refl => exact h
  | tail _ hstep ih => exact ih.step hs hstep

end Race

namespace Begins

variable {body : Call} {limit : Duration} {start : Instant}

theorem step (h : Begins body limit rest c start s) (hl : 0 < limit.nanos) (hstep : s.Step next) :
    Begins body limit rest c start next ∨
      ∃ child, Race rest late c child (start + limit.nanos) next := by
  obtain ⟨owner, howner, hi⟩ := h.owner
  rcases hstep.cases_turn with ⟨agent, popped, ht, rfl⟩ | ⟨time, hr, -, -, -⟩ | hturn
  · have hstage := (ht.stage? c).trans h.stage
    have hnow := ht.now.trans h.now
    by_cases hc : agent = .task c
    · subst hc
      refine .inr ⟨popped.tasks.size, ?_⟩
      have hrun : popped.run (.task c) = popped.proceed c (.race body limit rest) := by
        rw [run, Service.runTask, hstage]
      rw [hrun, ← hnow]
      exact race_proceed body (ht.timers ▸ h.inOrder) ((ht.owner? c).trans howner) hi
        (fun q hq => h.childless ((ht.owner? q).symm.trans hq)) hl
    · have hpopped : Begins body limit rest c start popped :=
        ⟨ht.timers ▸ h.inOrder, ⟨owner, (ht.owner? c).trans howner, hi⟩,
          fun hq => h.childless ((ht.owner? _).symm.trans hq), hstage,
          ht.pending (Ne.symm hc) h.pending, hnow⟩
      exact .inl (hpopped.of_turn (Turn.run popped agent) hc)
  · exact absurd h.pending (hr.not_pending _)
  · exact .inl (h.of_turn (hturn (.intake 0)) Agent.noConfusion)

theorem goes (h : Begins body limit rest c start s) (hl : 0 < limit.nanos)
    (hs : Settles R rest late) (hg : s.Goes next) : Begins body limit rest c start next ∨
      ∃ child, Race rest late c child (start + limit.nanos) next := by
  induction hg with
  | refl => exact .inl h
  | tail _ hstep ih =>
    rcases ih with ih | ⟨child, ih⟩
    · exact ih.step hl hstep
    · exact .inr ⟨child, ih.step hs hstep⟩

end Begins

end Service

end Switchboard
