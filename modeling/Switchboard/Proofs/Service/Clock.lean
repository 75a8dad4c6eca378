import Switchboard.Proofs.Service.Turns

/-! Runs of a service in the order in which its agents take their turns. No time passes while it is
somebody's turn, and none beyond the next timer. -/

namespace Switchboard

open RateLimit (Amount)
open Server

namespace Service

variable {R : Type} {s middle next : Service R} {agent : Agent} {id : Nat}

theorem exists_advanceTo (s : Service R) (time : Instant) : ∃ queue resumed,
    s.advanceTo time = { s with
      world := { s.world with now := time }
      timers := s.timers.dropWhile (·.1 ≤ time)
      queue := queue
      resumed := resumed } :=
  exists_enqueueAll { s with
    world := { s.world with now := time }, timers := s.timers.dropWhile (·.1 ≤ time) } _

theorem pending_advanceTo (h : InOrder s.timers) {timer : Instant × Agent}
    (hm : timer ∈ s.timers) {time : Instant} (hd : timer.1 ≤ time) :
    (s.advanceTo time).Pending timer.2 :=
  pending_enqueueAll _ (.inl (List.mem_map_of_mem (h.mem_takeWhile hm hd)))

/-- The agent whose turn it is, and the service once it has it. -/
inductive Takes : Service R → Agent → Service R → Prop
  | queued {s : Service R} {agent : Agent} {rest : List Agent} (h : s.queue = agent :: rest) :
    Takes s agent { s with queue := rest }
  | resumed {s : Service R} {id : Nat} (hq : s.queue = []) (hr : s.resumed = true)
    (hf : s.foreground = some id) : Takes s (.task id) { s with resumed := false }

/-- Nobody can go on before some time passes. -/
def AtRest (s : Service R) : Prop :=
  s.queue = [] ∧ (s.resumed = true → s.foreground = none)

theorem AtRest.not_pending (h : s.AtRest) (agent : Agent) : ¬ s.Pending agent := by
  rintro (hm | ⟨hr, hf⟩)
  · rw [h.1] at hm
    exact List.not_mem_nil hm
  · rw [h.2 hr] at hf
    exact absurd hf.symm (Option.some_ne_none agent)

namespace Takes

variable {popped : Service R}

theorem world (h : Takes s agent popped) : popped.world = s.world := by
  cases h <;> rfl

theorem tasks (h : Takes s agent popped) : popped.tasks = s.tasks := by
  cases h <;> rfl

theorem timers (h : Takes s agent popped) : popped.timers = s.timers := by
  cases h <;> rfl

theorem sweepers (h : Takes s agent popped) : popped.sweepers = s.sweepers := by
  cases h <;> rfl

theorem owner? (h : Takes s agent popped) (q : Nat) : popped.owner? q = s.owner? q := by
  rw [Service.owner?, h.tasks, Service.owner?]

theorem stage? (h : Takes s agent popped) (q : Nat) : popped.stage? q = s.stage? q := by
  rw [Service.stage?, h.tasks, Service.stage?]

theorem now (h : Takes s agent popped) : popped.world.now = s.world.now :=
  congrArg World.now h.world

theorem pending (h : Takes s agent popped) {other : Agent} (ho : other ≠ agent)
    (hp : s.Pending other) : popped.Pending other := by
  cases h with
  | queued hq =>
    refine hp.imp_left fun hm => ?_
    rw [hq] at hm
    exact (List.mem_cons.mp hm).resolve_left ho
  | resumed hq hr hf =>
    rcases hp with hm | ⟨-, hp⟩
    · rw [hq] at hm
      exact absurd hm List.not_mem_nil
    · rw [hf] at hp
      exact absurd (Option.some.inj hp).symm ho

end Takes

/-- What takes no time and leaves the sweepers and their timers as they are. -/
structure KeepsTime (s next : Service R) : Prop where
  now : next.world.now = s.world.now
  sweepers : next.sweepers = s.sweepers
  inOrder : InOrder s.timers → InOrder next.timers
  kept {timer : Instant × Agent} : timer ∈ s.timers → timer ∈ next.timers
  set {timer : Instant × Agent} : timer ∈ next.timers →
    timer ∈ s.timers ∨ s.world.now ≤ timer.1
  pending {id : Nat} : s.Pending (.sweeper id) → next.Pending (.sweeper id)

namespace KeepsTime

theorem of_eq (hnow : next.world.now = s.world.now) (hs : next.sweepers = s.sweepers)
    (ht : next.timers = s.timers)
    (hp : ∀ id, s.Pending (.sweeper id) → next.Pending (.sweeper id)) : s.KeepsTime next where
  now := hnow
  sweepers := hs
  inOrder ho := ht ▸ ho
  kept hm := ht ▸ hm
  set hm := .inl (ht ▸ hm)
  pending := hp _

theorem trans (h : s.KeepsTime middle) (h' : middle.KeepsTime next) : s.KeepsTime next where
  now := h'.now.trans h.now
  sweepers := h'.sweepers.trans h.sweepers
  inOrder ho := h'.inOrder (h.inOrder ho)
  kept hm := h'.kept (h.kept hm)
  set hm := (h'.set hm).elim h.set fun hle => .inr (h.now ▸ hle)
  pending hp := h'.pending (h.pending hp)

end KeepsTime

theorem Turn.keepsTime (h : Turn agent s next) (hs : ∀ id, agent ≠ .sweeper id) :
    s.KeepsTime next where
  now := h.now
  sweepers := h.sweepers hs
  inOrder := h.inOrder
  kept := h.kept
  set hm := (h.set hm).imp_right fun hset =>
    hset.2.resolve_right fun ⟨id, he⟩ => hs id he
  pending := h.pending

theorem Takes.keepsTime {popped : Service R} (h : s.Takes agent popped)
    (hs : ∀ id, agent ≠ .sweeper id) : s.KeepsTime popped :=
  .of_eq h.now h.sweepers h.timers fun _ => h.pending fun he => hs _ he.symm

/-- Timers lie ahead in order of time, and a sweeper that is scheduled has one or is due now. -/
structure Punctual (s : Service R) : Prop where
  inOrder : InOrder s.timers
  ahead {timer : Instant × Agent} : timer ∈ s.timers → s.world.now ≤ timer.1
  sweepers {id : Nat} {sweeper : Sweeper} {due : Instant} : s.sweepers[id]? = some sweeper →
    sweeper.next = some due → (due, .sweeper id) ∈ s.timers ∨
      due = s.world.now ∧ s.Pending (.sweeper id)

namespace Punctual

/-- A turn takes away only what is due to the agent that has it. -/
theorem sweepers_popped (h : s.Punctual) {popped : Service R} {id j : Nat} {sweeper : Sweeper}
    {due : Instant} (ht : s.Takes (.sweeper id) popped) (hs : popped.sweepers[j]? = some sweeper)
    (hd : sweeper.next = some due) (hj : j ≠ id ∨ popped.world.now < due) :
    (due, .sweeper j) ∈ popped.timers ∨
      due = popped.world.now ∧ popped.Pending (.sweeper j) := by
  rw [ht.world] at hj ⊢
  rw [ht.timers]
  refine (h.sweepers (ht.sweepers ▸ hs) hd).imp_right fun hp => ⟨hp.1, ht.pending ?_ hp.2⟩
  intro he
  exact hj.elim (fun hne => hne (Agent.sweeper.inj he)) fun hlt => Nat.ne_of_gt hlt hp.1

theorem advanceTo (h : s.Punctual) (hr : s.AtRest) {time : Instant}
    (ht : ∀ timer ∈ s.timers, time ≤ timer.1) : (s.advanceTo time).Punctual := by
  obtain ⟨queue, resumed, he⟩ := exists_advanceTo s time
  refine ⟨?_, fun {timer} hm => ?_, fun {id sweeper due} hs hd => ?_⟩
  · rw [he]
    exact h.inOrder.sublist (List.dropWhile_sublist _)
  · rw [he] at hm ⊢
    exact ht timer ((List.dropWhile_sublist _).subset hm)
  · rw [he] at hs
    have hm := (h.sweepers hs hd).resolve_right fun hp => hr.not_pending _ hp.2
    rcases Nat.lt_or_eq_of_le (ht _ hm) with hlt | heq
    · refine .inl ?_
      rw [he]
      exact mem_dropWhile hm hlt
    · refine .inr ⟨?_, pending_advanceTo h.inOrder hm (Nat.le_of_eq heq.symm)⟩
      rw [he]
      exact heq.symm

theorem of_keepsTime (h : s.Punctual) (hk : s.KeepsTime next) : next.Punctual := by
  refine ⟨hk.inOrder h.inOrder, fun hm => ?_, fun hs hd => ?_⟩
  · rw [hk.now]
    exact (hk.set hm).elim h.ahead id
  · rw [hk.sweepers] at hs
    rw [hk.now]
    exact (h.sweepers hs hd).imp hk.kept fun hp => ⟨hp.1, hk.pending hp.2⟩

variable [Amount R]

theorem of_turn (h : s.Punctual) {popped : Service R} (ht : s.Takes agent popped)
    (hs : ∀ id, agent ≠ .sweeper id) : (popped.run agent).Punctual :=
  h.of_keepsTime ((ht.keepsTime hs).trans ((Turn.run popped agent).keepsTime hs))

theorem runSweeper (h : s.Punctual) {popped : Service R} {id : Nat}
    (ht : s.Takes (.sweeper id) popped) : (popped.runSweeper id).Punctual := by
  have hnow : popped.world.now = s.world.now := ht.now
  have hinOrder : InOrder popped.timers := ht.timers ▸ h.inOrder
  have hahead : ∀ {timer}, timer ∈ popped.timers → popped.world.now ≤ timer.1 := fun hm =>
    hnow ▸ h.ahead (ht.timers ▸ hm)
  rw [Service.runSweeper]
  cases hs : popped.sweepers[id]? with
  | none =>
    refine ⟨hinOrder, hahead, fun {j _ _} hs' hd => h.sweepers_popped ht hs' hd (.inl ?_)⟩
    rintro rfl
    exact absurd (hs.symm.trans hs') (Option.some_ne_none _).symm
  | some sweeper =>
    simp only
    split
    · rename_i hn
      refine ⟨hinOrder, hahead, fun {j _ _} hs' hd => h.sweepers_popped ht hs' hd (.inl ?_)⟩
      rintro rfl
      obtain rfl := Option.some.inj (hs.symm.trans hs')
      exact absurd (hn.symm.trans hd) (Option.some_ne_none _).symm
    · rename_i due hd
      split
      · rename_i hlt
        refine ⟨hinOrder, hahead, fun {j _ _} hs' hd' => h.sweepers_popped ht hs' hd' ?_⟩
        by_cases hj : j = id
        · subst hj
          obtain rfl := Option.some.inj (hs.symm.trans hs')
          exact .inr (Option.some.inj (hd.symm.trans hd') ▸ hlt)
        · exact .inl hj
      · have hle : popped.world.now ≤ due := by
          rcases h.sweepers (ht.sweepers ▸ hs) hd with hm | ⟨rfl, -⟩
          · exact hnow ▸ h.ahead hm
          · exact Nat.le_of_eq hnow
        refine ⟨hinOrder.insertTimer _ _, fun {timer} hm => ?_, fun {j found next} hs' hd' => ?_⟩
        · rcases mem_insertTimer.mp hm with rfl | hm
          · exact Nat.le_trans hle (Nat.le_add_right _ _)
          · exact hahead hm
        · have hset : (popped.sweepers.setIfInBounds id
              { sweeper with next := some (due + sweeper.period.nanos) })[j]? = some found := hs'
          by_cases hj : id = j
          · subst hj
            have hid := (Array.getElem?_eq_some_iff.mp hs).1
            rw [Array.getElem?_setIfInBounds_self_of_lt hid] at hset
            obtain rfl := Option.some.inj hset
            obtain rfl := Option.some.inj hd'
            exact .inl (mem_insertTimer.mpr (.inl rfl))
          · rw [Array.getElem?_setIfInBounds_ne hj] at hset
            exact (h.sweepers_popped ht hset hd' (.inl (Ne.symm hj))).imp_left fun hm =>
              mem_insertTimer.mpr (.inr hm)

theorem turn (h : s.Punctual) {popped : Service R} (ht : s.Takes agent popped) :
    (popped.run agent).Punctual := by
  cases agent with
  | task id => exact h.of_turn ht fun _ => Agent.noConfusion
  | intake consumer => exact h.of_turn ht fun _ => Agent.noConfusion
  | sweeper id => exact h.runSweeper ht

end Punctual

variable [Amount R]

/-- What happens next in a service: a turn, or something from outside, or that time passes, at most
until the next timer. -/
inductive Step : Service R → Service R → Prop
  | turn {s popped : Service R} {agent : Agent} (h : s.Takes agent popped) :
    Step s (popped.run agent)
  | forget {s : Service R} (hq : s.queue = []) (hf : s.foreground = none) :
    Step s { s with resumed := false }
  | pass {s : Service R} {time : Instant} (h : s.AtRest) (hn : s.world.now ≤ time)
    (ht : ∀ timer ∈ s.timers, time ≤ timer.1) : Step s (s.advanceTo time)
  | arrive (s : Service R) {task : Task} (h : Newcomer task) :
    Step s (s.spawn task.stage task.owner).1
  /-- A front end is changed. -/
  | change (s : Service R) (http : Option HttpServer) (consumers : Array Consumer) :
    Step s { s with http := http, consumers := consumers }
  | wake (s : Service R) (consumer : Nat) : Step s (s.enqueue (.intake consumer))

/-- But for the turns of its agents and for the time that passes, a service only gets new work. -/
theorem Step.cases_turn (h : s.Step next) :
    (∃ agent popped, s.Takes agent popped ∧ next = popped.run agent) ∨
    (∃ time, s.AtRest ∧ s.world.now ≤ time ∧ (∀ timer ∈ s.timers, time ≤ timer.1) ∧
      next = s.advanceTo time) ∨
    ∀ agent, Turn agent s next := by
  cases h with
  | turn ht => exact .inl ⟨_, _, ht, rfl⟩
  | pass hr hn ht => exact .inr (.inl ⟨_, hr, hn, ht, rfl⟩)
  | forget _ hf =>
    exact .inr (.inr fun _ => .of_eq rfl rfl rfl rfl (fun _ => rfl) fun _ hp =>
      hp.imp_right fun he => by simp [hf] at he)
  | arrive hn => exact .inr (.inr fun _ => .arrive s hn)
  | change => exact .inr (.inr fun _ => .of_eq rfl rfl rfl rfl (fun _ => rfl) fun _ hp => hp)
  | wake => exact .inr (.inr fun _ => .enqueue s _)

abbrev Goes : Service R → Service R → Prop :=
  Relation.ReflTransGen Step

/-- The schedule of a service is one of these runs. -/
theorem goes_drive (goal : Service R → Bool) (fuel : Nat) (h : s.Punctual) :
    s.Goes (s.drive goal fuel) := by
  induction fuel generalizing s with
  | zero => exact .refl
  | succ fuel ih =>
    have hturn : ∀ {agent : Agent} {popped : Service R}, s.Takes agent popped →
        s.Goes ((popped.run agent).drive goal fuel) := fun ht =>
      .head (.turn ht) (ih (h.turn ht))
    rw [drive]
    split
    · exact hturn (.queued ‹_›)
    · rename_i hq
      split
      · rename_i hr
        split
        · exact hturn (.resumed hq hr ‹_›)
        · rename_i hf
          have hforget : Punctual { s with resumed := false } :=
            ⟨h.inOrder, h.ahead, fun hs hd => (h.sweepers hs hd).imp_right fun hp =>
              ⟨hp.1, hp.2.imp_right fun ho => absurd ho.2 (by simp [hf])⟩⟩
          exact .head (.forget hq hf) (ih hforget)
      · rename_i hr
        have hrest : s.AtRest := ⟨hq, fun h => absurd h hr⟩
        split
        · exact .refl
        · split
          · exact .refl
          · rename_i time _ later ht
            have hfirst : ∀ timer ∈ s.timers, time ≤ timer.1 := by
              intro timer hm
              have horder := h.inOrder
              rw [ht] at hm horder
              rcases List.mem_cons.mp hm with rfl | hm
              · exact Nat.le_refl _
              · exact (List.pairwise_cons.mp horder).1 timer hm
            have hnow : s.world.now ≤ time := h.ahead (ht ▸ List.mem_cons_self)
            exact .head (.pass hrest hnow hfirst) (ih (h.advanceTo hrest hfirst))

end Service

end Switchboard
