import Switchboard.Proofs.Service.Hiding

/-! A task that nobody waits for and that says nothing. All others fare as they do without it. -/

namespace Switchboard

open RateLimit (Amount)
open Server

/-- Ends at once, and reports nothing that is not muted. -/
def Call.EndsUnheard (mute : Event → Bool) : Call → Prop
  | .reply _ | .panic _ => True
  | .report event rest => mute event = true ∧ rest.EndsUnheard mute
  | _ => False

def Stage.Unheard (mute : Event → Bool) : Stage → Prop
  | .ended _ _ => True
  | .racing _ _ rest => ∀ verdict, (rest verdict).EndsUnheard mute
  | _ => False

variable {R : Type}

theorem Call.EndsUnheard.poll [Amount R] {mute : Event → Bool} {call : Call}
    (h : call.EndsUnheard mute) (w : World R) : ∃ outcome next,
      call.poll w = (.ended outcome, next) ∧ next.muted mute = w.muted mute := by
  induction call generalizing w with
  | reply ctx => exact ⟨.replied ctx, w, rfl, rfl⟩
  | panic fault => exact ⟨.failed fault, w, rfl, rfl⟩
  | report event rest ih =>
    obtain ⟨outcome, next, hp, hw⟩ := ih h.2 (w.report event)
    exact ⟨outcome, next, hp, hw.trans (World.muted_report_of_mute w h.1)⟩
  | _ => exact h.elim

namespace Service

variable {p : Nat} {mute : Event → Bool} {s t next : Service R} {agent : Agent}

/-- Nobody races the task, and its timers lie ahead. -/
structure Unheard (p : Nat) (mute : Event → Bool) (s : Service R) : Prop where
  task : ∃ stage, s.tasks[p]? = some ⟨stage, .nobody⟩ ∧ stage.Unheard mute
  races {q : Nat} : s.isRacing q p = false
  inOrder : InOrder s.timers
  ahead {timer : Instant × Agent} : timer ∈ s.timers → timer.2 = .task p → s.world.now ≤ timer.1

theorem setStage_self {id : Nat} {stage : Stage} (h : s.stage? id = some stage) :
    s.setStage id stage = s := by
  have htasks : s.tasks.modify id ({ · with stage := stage }) = s.tasks := by
    apply Array.ext_getElem?
    intro j
    rw [Array.getElem?_modify]
    split
    · subst_vars
      obtain ⟨task, ht, rfl⟩ := Option.map_eq_some_iff.mp h
      rw [ht, Option.map_some]
    · rfl
  exact congrArg (fun tasks => { s with tasks := tasks }) htasks

namespace Unheard

theorem lt_size (h : s.Unheard p mute) : p < s.tasks.size := by
  obtain ⟨stage, ht, -⟩ := h.task
  exact (Array.getElem?_eq_some_iff.mp ht).1

theorem of_turn (h : s.Unheard p mute) (ht : Turn agent s next) (ha : agent ≠ .task p) :
    next.Unheard p mute where
  task := by
    rw [ht.others h.lt_size ha]
    exact h.task
  races := ht.isRacing_eq_false h.lt_size h.races
  inOrder := ht.inOrder h.inOrder
  ahead hm hp := by
    rw [ht.now]
    rcases ht.set hm with hm | ⟨he, -⟩
    · exact h.ahead hm hp
    · exact absurd (he.symm.trans hp) ha

theorem of_eq (h : s.Unheard p mute) (ht : next.tasks = s.tasks) (hw : next.world = s.world)
    (htimers : next.timers = s.timers) : next.Unheard p mute where
  task := ht ▸ h.task
  races {q} := by
    have hr : next.isRacing q p = s.isRacing q p := by simp only [isRacing, stage?, ht]
    exact hr.trans h.races
  inOrder := htimers ▸ h.inOrder
  ahead hm hp := hw ▸ h.ahead (htimers ▸ hm) hp

theorem hidden (h : s.Unheard p mute) : (s.without p mute).Unheard p mute where
  task := by
    obtain ⟨stage, ht, -⟩ := h.task
    refine ⟨.gone, ?_, trivial⟩
    rw [task?_without, ht, Option.map_some, Task.without, if_pos rfl]
    rfl
  races {q} := by
    by_cases hq : q = p
    · rw [hq, isRacing_without_self]
    · rw [isRacing_without hq, h.races]
  inOrder := inOrder_without p mute h.inOrder
  ahead hm hp := h.ahead (List.mem_filter.mp hm).1 hp

theorem popped (h : s.Unheard p mute) (ht : s.Takes agent t) : t.Unheard p mute :=
  h.of_eq ht.tasks ht.world ht.timers

theorem advanceTo (h : s.Unheard p mute) {time : Instant}
    (ht : ∀ timer ∈ s.timers, time ≤ timer.1) : (s.advanceTo time).Unheard p mute := by
  obtain ⟨queue, resumed, he⟩ := exists_advanceTo s time
  rw [he]
  exact ⟨h.task, h.races, h.inOrder.sublist (List.dropWhile_sublist _),
    fun hm _ => ht _ ((List.dropWhile_sublist _).subset hm)⟩

variable [Amount R]

/-- The task itself does no more in its turn than to end. -/
theorem exists_runTask (h : s.Unheard p mute) : ∃ w stage,
    s.runTask p = Service.setStage { s with world := w } p stage ∧
      w.muted mute = s.world.muted mute ∧ stage.Unheard mute := by
  obtain ⟨stage, ht, hs⟩ := h.task
  have hstage : s.stage? p = some stage := by rw [stage?, ht, Option.map_some]
  have hsame : s.runTask p = s → ∃ w stage,
      s.runTask p = Service.setStage { s with world := w } p stage ∧
        w.muted mute = s.world.muted mute ∧ stage.Unheard mute := fun he =>
    ⟨s.world, stage, he.trans (setStage_self hstage).symm, rfl, hs⟩
  cases stage with
  | ended outcome time =>
    refine hsame ?_
    rw [Service.runTask, hstage]
  | racing child deadline rest =>
    cases hv : s.verdict? child deadline with
    | none =>
      refine hsame ?_
      rw [Service.runTask, hstage]
      simp only [hv]
    | some verdict =>
      obtain ⟨outcome, w, hp, hw⟩ := (hs verdict).poll s.world
      have howner : owner? { s with world := w } p = some .nobody := owner?_iff.mpr ⟨_, ht, rfl⟩
      refine ⟨w, .ended outcome w.now, ?_, hw, trivial⟩
      rw [Service.runTask, hstage]
      simp only [hv, proceed, hp, finish, howner]
  | _ => exact hs.elim

theorem runTask (h : s.Unheard p mute) : (s.runTask p).Unheard p mute := by
  have hturn := Turn.runTask s p
  obtain ⟨w, stage, he, -, hs⟩ := h.exists_runTask
  obtain ⟨old, ht, -⟩ := h.task
  refine ⟨⟨stage, ?_, hs⟩, hturn.isRacing_eq_false h.lt_size h.races, hturn.inOrder h.inOrder,
    fun hm hp => ?_⟩
  · rw [he, setStage, Array.getElem?_modify, if_pos rfl, ht, Option.map_some]
  · rw [hturn.now]
    rw [he] at hm
    exact h.ahead hm hp

/-- Nobody hears of the turn of the task itself. -/
theorem without_runTask (h : s.Unheard p mute) :
    (s.runTask p).without p mute = s.without p mute := by
  obtain ⟨w, stage, he, hw, -⟩ := h.exists_runTask
  rw [he, without_setStage_self]
  exact congrArg (fun world => { s.without p mute with world := world }) hw

end Unheard

/-- It is not the turn of a task. -/
def Spares (p : Nat) (s : Service R) : Prop :=
  ∀ popped, ¬ s.Takes (.task p) popped

theorem Takes.without_self {popped : Service R} (h : s.Takes (.task p) popped) :
    popped.without p mute = s.without p mute := by
  cases h with
  | queued hq => simp [without, hq]
  | resumed hq hr hf => simp [without, hf]

/-- Whoever has the turn without the task has it with the task too, when it is not the task's. -/
theorem Takes.exists_without {popped : Service R} (h : s.Takes agent popped)
    (ha : agent ≠ .task p) (he : s.without p mute = t.without p mute) (ht : t.Spares p) :
    ∃ other, t.Takes agent other ∧ popped.without p mute = other.without p mute := by
  have hqueue : s.queue.filter (· ≠ .task p) = t.queue.filter (· ≠ .task p) :=
    congrArg Service.queue he
  cases h with
  | @queued _ rest hq =>
    rw [hq, List.filter_cons_of_pos (by simpa using ha)] at hqueue
    cases htq : t.queue with
    | nil => simp [htq] at hqueue
    | cons first later =>
      have hfirst : first ≠ .task p := by
        rintro rfl
        exact ht _ (.queued htq)
      rw [htq, List.filter_cons_of_pos (by simpa using hfirst)] at hqueue
      obtain ⟨rfl, hrest⟩ := List.cons.inj hqueue
      have hpop : ({ s with queue := rest } : Service R).without p mute =
          { s.without p mute with queue := rest.filter (· ≠ Agent.task p) } := rfl
      exact ⟨_, .queued htq, by rw [hpop, he, hrest]; rfl⟩
  | @resumed id hq hr hf =>
    have hid : id ≠ p := fun hi => ha (congrArg Agent.task hi)
    have htq : t.queue = [] := by
      rw [hq] at hqueue
      cases htq : t.queue with
      | nil => rfl
      | cons first later =>
        by_cases hfirst : first = .task p
        · subst hfirst
          exact absurd (.queued htq) (ht _)
        · simp [htq, hfirst] at hqueue
    have hfore : s.foreground.filter (· ≠ p) = t.foreground.filter (· ≠ p) :=
      congrArg Service.foreground he
    have htf : t.foreground = some id := by
      rw [hf, Option.filter_some_pos (by simpa using hid)] at hfore
      exact (Option.filter_eq_some_iff.mp hfore.symm).1
    have hresumed : (s.resumed && s.foreground.any (· ≠ p)) =
        (t.resumed && t.foreground.any (· ≠ p)) := congrArg Service.resumed he
    have htr : t.resumed = true := by
      simpa [hr, hf, htf, hid] using hresumed.symm
    exact ⟨_, .resumed htq htr htf, congrArg (fun r : Service R => { r with resumed := false }) he⟩

theorem atRest_iff : s.AtRest ↔ ∀ agent popped, ¬ s.Takes agent popped := by
  constructor
  · rintro ⟨hq, hf⟩ agent popped ht
    cases ht with
    | queued hq' => exact List.cons_ne_nil _ _ (hq'.symm.trans hq)
    | resumed _ hr hf' => exact Option.some_ne_none _ (hf'.symm.trans (hf hr))
  · intro h
    have hq : s.queue = [] := by
      cases hq : s.queue with
      | nil => rfl
      | cons agent rest => exact absurd (.queued hq) (h agent _)
    refine ⟨hq, fun hr => ?_⟩
    cases hf : s.foreground with
    | none => rfl
    | some id => exact absurd (.resumed hq hr hf) (h _ _)

theorem AtRest.of_without (h : s.AtRest) (he : s.without p mute = t.without p mute)
    (ht : t.Spares p) : t.AtRest := by
  refine atRest_iff.mpr fun agent popped htakes => ?_
  have ha : agent ≠ .task p := fun ha => ht popped (ha ▸ htakes)
  obtain ⟨other, hother, -⟩ :=
    htakes.exists_without ha he.symm fun popped => atRest_iff.mp h _ popped
  exact atRest_iff.mp h _ _ hother

/-- Where nobody is due, only the clock goes on. -/
theorem advanceTo_of_early {time : Instant} (h : ∀ timer ∈ s.timers, time < timer.1) :
    s.advanceTo time = { s with world := { s.world with now := time } } := by
  have hfirst : s.timers.takeWhile (·.1 ≤ time) = [] ∧
      s.timers.dropWhile (·.1 ≤ time) = s.timers := by
    cases ht : s.timers with
    | nil => exact ⟨rfl, rfl⟩
    | cons first rest =>
      have hlt := h first (ht ▸ List.mem_cons_self)
      simp [Nat.not_le_of_lt hlt]
  rw [advanceTo, hfirst.1, hfirst.2]
  rfl

variable [Amount R]

/-- When it is no more the turn of the task, nobody has heard of the turns it had. -/
theorem Unheard.exists_spared (h : t.Unheard p mute) : ∃ later, t.Goes later ∧
    later.Unheard p mute ∧ later.without p mute = t.without p mute ∧ later.timers = t.timers ∧
      later.Spares p := by
  induction hn : t.queue.length + t.resumed.toNat using Nat.strong_induction_on generalizing t with
  | _ n ih =>
    by_cases hp : t.Spares p
    · exact ⟨t, .refl, h, rfl, rfl, hp⟩
    · obtain ⟨popped, ht⟩ : ∃ popped, t.Takes (.task p) popped := by
        simpa [Spares] using hp
      have hpopped := h.popped ht
      obtain ⟨w, stage, he, -, -⟩ := hpopped.exists_runTask
      have hless : (popped.runTask p).queue.length + (popped.runTask p).resumed.toNat < n := by
        rw [he]
        cases ht with
        | queued hq => simp [setStage, ← hn, hq]
        | resumed hq hr hf => simp [setStage, ← hn, hr]
      obtain ⟨later, hg, hl, hw, htimers, hs⟩ := ih _ hless hpopped.runTask rfl
      refine ⟨later, .head (.turn ht) hg, hl, ?_, ?_, hs⟩
      · rw [hw, hpopped.without_runTask, ht.without_self]
      · rw [htimers, he]
        exact ht.timers

omit [Amount R] in
/-- The first timer is one of the task's own, when those of the others are not yet due. -/
theorem Unheard.exists_due (h : s.Unheard p mute) {time : Instant}
    (ho : ∀ timer ∈ s.timers, timer.2 ≠ .task p → time ≤ timer.1)
    (hn : ¬ ∀ timer ∈ s.timers, time ≤ timer.1) : ∃ due, s.world.now ≤ due ∧ due < time ∧
      (∀ timer ∈ s.timers, due ≤ timer.1) ∧
        (s.advanceTo due).timers.length < s.timers.length := by
  cases htimers : s.timers with
  | nil => exact absurd (by simp [htimers]) hn
  | cons first rest =>
    rw [htimers] at ho hn
    have hfirst : ∀ timer ∈ first :: rest, first.1 ≤ timer.1 := by
      have horder : InOrder (first :: rest) := htimers ▸ h.inOrder
      intro timer hm
      rcases List.mem_cons.mp hm with rfl | hm
      · exact Nat.le_refl _
      · exact (List.pairwise_cons.mp horder).1 timer hm
    have hlt : first.1 < time := by
      refine Nat.lt_of_not_le fun hle => hn fun timer hm => ?_
      exact Nat.le_trans hle (hfirst timer hm)
    have hown : first.2 = .task p := by
      by_contra hp
      exact Nat.not_le_of_lt hlt (ho first List.mem_cons_self hp)
    refine ⟨first.1, h.ahead (htimers ▸ List.mem_cons_self) hown, hlt, hfirst, ?_⟩
    obtain ⟨queue, resumed, ha⟩ := exists_advanceTo s first.1
    have hdrop := (List.dropWhile_sublist (fun timer : Instant × Agent => timer.1 ≤ first.1)
      (l := rest)).length_le
    rw [ha, htimers]
    simp only [List.dropWhile_cons, Nat.le_refl, decide_true, if_true, List.length_cons]
    omega

/-- Time passes with the task as it does without it. The timers of the task only make it pass in
more than one step. -/
theorem Unheard.exists_passed (h : t.Unheard p mute) (hr : s.AtRest) (ho : InOrder s.timers)
    {time : Instant} (hn : s.world.now ≤ time) (hs : ∀ timer ∈ s.timers, time ≤ timer.1)
    (he : s.without p mute = t.without p mute) : ∃ later, t.Goes later ∧ later.Unheard p mute ∧
      (s.advanceTo time).without p mute = later.without p mute := by
  -- Each round uses up one of the task's own timers.
  induction hl : t.timers.length using Nat.strong_induction_on generalizing s t with
  | _ n ih =>
    obtain ⟨spared, hg, hu, hw, htimers, hspares⟩ := h.exists_spared
    have he' : s.without p mute = spared.without p mute := he.trans hw.symm
    have hrest := hr.of_without he' hspares
    have hnow : s.world.now = spared.world.now :=
      World.now_eq_of_muted (congrArg Service.world he')
    have hothers : ∀ timer ∈ spared.timers, timer.2 ≠ .task p → time ≤ timer.1 := by
      intro timer hm hp
      have htimers : s.timers.filter (·.2 ≠ .task p) = spared.timers.filter (·.2 ≠ .task p) :=
        congrArg Service.timers he'
      have hf : timer ∈ spared.timers.filter (·.2 ≠ .task p) :=
        List.mem_filter.mpr ⟨hm, by simpa using hp⟩
      rw [← htimers] at hf
      exact hs timer (List.mem_filter.mp hf).1
    by_cases hall : ∀ timer ∈ spared.timers, time ≤ timer.1
    · refine ⟨spared.advanceTo time, hg.tail (.pass hrest (hnow ▸ hn) hall), hu.advanceTo hall, ?_⟩
      rw [without_advanceTo ho, he', ← without_advanceTo hu.inOrder]
    · obtain ⟨due, hpast, hlt, hfirst, hless⟩ := hu.exists_due hothers hall
      have hpass : Step spared (spared.advanceTo due) := .pass hrest hpast hfirst
      have hearly : ∀ timer ∈ (s.without p mute).timers, due < timer.1 := fun timer hm =>
        Nat.lt_of_lt_of_le hlt (hs timer (List.mem_filter.mp hm).1)
      have hclock : Service.without p mute { s with world := { s.world with now := due } } =
          (spared.advanceTo due).without p mute := by
        rw [without_advanceTo hu.inOrder, ← he', advanceTo_of_early hearly]
        exact without_eq_of_commutes rfl
      obtain ⟨later, hgoes, hlater, hwithout⟩ := ih _ (hl ▸ htimers ▸ hless)
        (s := { s with world := { s.world with now := due } }) (hu.advanceTo hfirst) hr ho
        (Nat.le_of_lt hlt) hs hclock rfl
      exact ⟨later, hg.trans (.head hpass hgoes), hlater, hwithout⟩

/-- The task makes no difference to what the others do next. -/
theorem Unheard.exists_step (hs : s.Unheard p mute) (ht : t.Unheard p mute)
    (he : s.without p mute = t.without p mute) (h : s.Step next) : ∃ later, t.Goes later ∧
      next.Unheard p mute ∧ later.Unheard p mute ∧
        next.without p mute = later.without p mute := by
  cases h with
  | @turn popped agent htakes =>
    have hp := hs.popped htakes
    by_cases ha : agent = .task p
    · subst ha
      refine ⟨t, .refl, hp.runTask, ht, ?_⟩
      rw [run, hp.without_runTask, htakes.without_self, he]
    · obtain ⟨spared, hg, hu, hw, -, hspares⟩ := ht.exists_spared
      obtain ⟨other, hother, hwithout⟩ := htakes.exists_without ha (he.trans hw.symm) hspares
      have ho := hu.popped hother
      refine ⟨other.run agent, hg.tail (.turn hother), hp.of_turn (Turn.run _ _) ha,
        ho.of_turn (Turn.run _ _) ha, ?_⟩
      rw [without_run hp.lt_size hp.inOrder ha fun _ => hp.races, hwithout,
        ← without_run ho.lt_size ho.inOrder ha fun _ => ho.races]
  | forget hq hf =>
    refine ⟨t, .refl, hs.of_eq rfl rfl rfl, ht, ?_⟩
    rw [← he]
    simp [without, hf]
  | pass hr hn htimers =>
    obtain ⟨later, hg, hu, hw⟩ := ht.exists_passed hr hs.inOrder hn htimers he
    exact ⟨later, hg, hs.advanceTo htimers, hu, hw⟩
  | @arrive task hn =>
    have hspawn : ∀ r : Service R, Turn (.intake 0) r (r.spawn task.stage task.owner).1 :=
      fun r => .arrive r hn
    refine ⟨_, .single (.arrive t hn), hs.of_turn (hspawn s) Agent.noConfusion,
      ht.of_turn (hspawn t) Agent.noConfusion, ?_⟩
    rw [without_spawn hs.lt_size, he, ← without_spawn ht.lt_size]
  | change http consumers =>
    exact ⟨_, .single (.change t http consumers), hs.of_eq rfl rfl rfl, ht.of_eq rfl rfl rfl,
      congrArg (fun r : Service R => { r with http := http, consumers := consumers }) he⟩
  | wake consumer =>
    have hwake : ∀ r : Service R, Turn (.intake 0) r (r.enqueue (.intake consumer)) :=
      fun r => .enqueue r _
    refine ⟨_, .single (.wake t consumer), hs.of_turn (hwake s) Agent.noConfusion,
      ht.of_turn (hwake t) Agent.noConfusion, ?_⟩
    rw [without_enqueue, he, ← without_enqueue]

theorem Unheard.exists_goes (hs : s.Unheard p mute) (ht : t.Unheard p mute)
    (he : s.without p mute = t.without p mute) (h : s.Goes next) : ∃ later, t.Goes later ∧
      next.Unheard p mute ∧ later.Unheard p mute ∧
        next.without p mute = later.without p mute := by
  induction h with
  | refl => exact ⟨t, .refl, hs, ht, he⟩
  | tail _ hstep ih =>
    obtain ⟨middle, hg, hu, hu', hw⟩ := ih
    obtain ⟨later, hg', hl, hl', hw'⟩ := hu.exists_step hu' hw hstep
    exact ⟨later, hg.trans hg', hl, hl', hw'⟩

/-- What the others do with the task they do without it, and come to rest when they do with it. -/
theorem Unheard.exists_goes_atRest (hs : s.Unheard p mute) (ht : t.Unheard p mute)
    (he : s.without p mute = t.without p mute) (h : s.Goes next) : ∃ later, t.Goes later ∧
      (next.AtRest → later.AtRest) ∧ next.without p mute = later.without p mute := by
  obtain ⟨later, hg, -, hl, hw⟩ := hs.exists_goes ht he h
  obtain ⟨spared, hg', -, hw', -, hspares⟩ := hl.exists_spared
  have hwithout := hw.trans hw'.symm
  exact ⟨spared, hg.trans hg', fun hr => hr.of_without hwithout hspares, hwithout⟩

end Service

end Switchboard
