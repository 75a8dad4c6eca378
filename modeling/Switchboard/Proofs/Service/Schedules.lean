import Switchboard.Proofs.Service.Clock
import Switchboard.Proofs.Service.Deeds

/-! The schedule of a sweeper, as its orders make it and as a service keeps to it, whatever else the
service does. -/

namespace Switchboard

open RateLimit
open Server

variable {R : Type}

/-! ### Schedules -/

/-- When a sweeper is due after what has been done. -/
def Deed.due (j : Nat) (period : Duration) (due : Option Instant) : Deed R → Option Instant
  | start id now => if id = j then some (now + period.nanos) else due
  | stop id _ => if id = j then none else due
  | sweep (some id) _ _ => if id = j then due.map (· + period.nanos) else due
  | sweep none .. | call .. => due

def dueAfter (j : Nat) (period : Duration) (due : Option Instant) (deeds : List (Deed R)) :
    Option Instant :=
  deeds.foldl (Deed.due j period) due

/-- A sweeper sweeps when it is due, and evicts the buckets that have been idle for its span. -/
def OnTime (j : Nat) (sweeper : Sweeper) : Option Instant → List (Deed R) → Prop
  | _, [] => True
  | due, deed :: rest =>
    (∀ after now, deed = .sweep (some j) after now → after = sweeper.evictAfter ∧ due = some now) ∧
      OnTime j sweeper (deed.due j sweeper.period due) rest

def Deed.sweepTime? (j : Nat) : Deed R → Option Instant
  | sweep (some id) _ now => if id = j then some now else none
  | _ => none

def Deed.starts (j : Nat) : Deed R → Bool
  | start id _ => id == j
  | _ => false

def Deed.stops (j : Nat) : Deed R → Bool
  | stop id _ => id == j
  | _ => false

variable {j : Nat} {sweeper : Sweeper} {period : Duration} {due : Option Instant}
  {deeds more : List (Deed R)} {deed : Deed R}

/-- Deeds that neither order a sweeper about nor are its own. -/
def Deed.IsOther (j : Nat) (deed : Deed R) : Prop :=
  deed.starts j = false ∧ deed.stops j = false ∧ deed.sweepTime? j = none

theorem Deed.IsOther.due_eq (h : deed.IsOther j) (period : Duration) (due : Option Instant) :
    deed.due j period due = due := by
  obtain ⟨hstart, hstop, hsweep⟩ := h
  cases deed with
  | call => rfl
  | sweep who after now =>
    cases who with
    | none => rfl
    | some id =>
      have hid : id ≠ j := by simpa [sweepTime?] using hsweep
      exact if_neg hid
  | start id now => exact if_neg (by simpa [starts] using hstart)
  | stop id now => exact if_neg (by simpa [stops] using hstop)

theorem dueAfter_of_others (h : ∀ deed ∈ deeds, deed.IsOther j) :
    dueAfter j period due deeds = due := by
  induction deeds with
  | nil => rfl
  | cons deed deeds ih =>
    rw [dueAfter, List.foldl_cons, (h deed List.mem_cons_self).due_eq]
    exact ih fun deed hm => h deed (List.mem_cons_of_mem _ hm)

theorem onTime_of_others (h : ∀ deed ∈ deeds, deed.IsOther j) : OnTime j sweeper due deeds := by
  induction deeds with
  | nil => trivial
  | cons deed deeds ih =>
    refine ⟨?_, ?_⟩
    · rintro after now rfl
      have hsweep := (h _ List.mem_cons_self).2.2
      simp [Deed.sweepTime?] at hsweep
    · rw [(h deed List.mem_cons_self).due_eq]
      exact ih fun deed hm => h deed (List.mem_cons_of_mem _ hm)

namespace Service

variable {i : Nat} {s middle next popped : Service R} {agent : Agent}

/-- The sweepers that no name leads to any more once middleware has been registered. -/
def dropped (s : Service R) (name : String) (m : Middleware) : List Nat :=
  s.registry.sweepers.filter fun id => !(s.registry.register name m).sweepers.contains id

/-- The service with a task in the foreground. -/
def attending (s : Service R) (task : Task) : Service R :=
  { (s.addTask task.stage task.owner).1 with foreground := some s.tasks.size }

variable [Amount R]

/-- What a service does next, with what that means to the buckets of a store and to the sweepers.
All that it can be asked for, and all that goes on inside it, is made up of such steps. -/
inductive Does (i : Nat) : Service R → List (Deed R) → Service R → Prop
  | turn {s popped : Service R} {agent : Agent} (h : s.Takes agent popped) :
    Does i s (popped.deeds i agent) (popped.run agent)
  | forget {s : Service R} (hq : s.queue = []) (hf : s.foreground = none) :
    Does i s [] { s with resumed := false }
  | pass {s : Service R} {time : Instant} (h : s.AtRest) (hn : s.world.now ≤ time)
    (ht : ∀ timer ∈ s.timers, time ≤ timer.1) : Does i s [] (s.advanceTo time)
  | arrive (s : Service R) {task : Task} (h : Newcomer task) :
    Does i s [] (s.spawn task.stage task.owner).1
  /-- A task from outside runs at once, in the foreground. -/
  | attend (s : Service R) {task : Task} (h : Newcomer task) :
    Does i s ((s.attending task).deeds i (.task s.tasks.size))
      ((s.attending task).run (.task s.tasks.size))
  | leave (s : Service R) : Does i s [] { s with foreground := none, resumed := false }
  /-- A front end is changed. -/
  | change (s : Service R) (http : Option HttpServer) (consumers : Array Consumer) :
    Does i s [] { s with http := http, consumers := consumers }
  | wake (s : Service R) (consumer : Nat) : Does i s [] (s.enqueue (.intake consumer))
  /-- Something is written, or the date is set. -/
  | note (s : Service R) {world : World R} (hn : world.now = s.world.now)
    (hs : world.stores = s.world.stores) : Does i s [] { s with world := world }
  | sweep (s : Service R) (l : Limiter) :
    Does i s (if l.store = i then [.sweep none l.settings.evictAfter s.world.now] else [])
      (s.sweep l).1
  | start (s : Service R) (id : Nat) : Does i s [.start id s.world.now] (s.startSweeper id)
  | stop (s : Service R) (id : Nat) : Does i s [.stop id s.world.now] (s.stopSweeper id)
  | register (s : Service R) (name : String) (m : Middleware) :
    Does i s ((s.dropped name m).map (.stop · s.world.now)) (s.register name m)
  | stopAll (s : Service R) :
    Does i s (s.registry.sweepers.map (.stop · s.world.now)) s.stopMiddleware

inductive Runs (i : Nat) (s₀ : Service R) : List (Deed R) → Service R → Prop
  | refl : Runs i s₀ [] s₀
  | tail {history deeds : List (Deed R)} {s next : Service R} (h : Runs i s₀ history s)
    (hd : s.Does i deeds next) : Runs i s₀ (history ++ deeds) next

/-! ### What sweepers are told -/

omit [Amount R] in
theorem startSweeper_cases (s : Service R) (id : Nat) :
    ((∀ sweeper, s.sweepers[id]? = some sweeper → sweeper.period.nanos = 0) ∧
      ∃ world, world.now = s.world.now ∧ world.stores = s.world.stores ∧
        s.startSweeper id = { s with world := world }) ∨
    ∃ sweeper, s.sweepers[id]? = some sweeper ∧ 0 < sweeper.period.nanos ∧
      s.startSweeper id = setTimer { s with
        sweepers := s.sweepers.setIfInBounds id
          { sweeper with next := some (s.world.now + sweeper.period.nanos) } }
        (s.world.now + sweeper.period.nanos) (.sweeper id) := by
  rw [startSweeper]
  cases hs : s.sweepers[id]? with
  | none => exact .inl ⟨nofun, s.world, rfl, rfl, rfl⟩
  | some sweeper =>
    simp only
    split
    · rename_i hz
      have hzero : sweeper.period.nanos = 0 := by simpa [Duration.isZero] using hz
      exact .inl ⟨fun found hf => Option.some.inj hf ▸ hzero,
        s.world.report (.sweepingDisabled sweeper.name), rfl, rfl, rfl⟩
    · rename_i hz
      have hpos : 0 < sweeper.period.nanos := by
        simpa [Duration.isZero, Nat.pos_iff_ne_zero] using hz
      exact .inr ⟨sweeper, rfl, hpos, rfl⟩

omit [Amount R] in
@[simp]
theorem now_startSweeper (s : Service R) (id : Nat) :
    (s.startSweeper id).world.now = s.world.now := by
  rcases startSweeper_cases s id with ⟨-, world, hn, -, he⟩ | ⟨sweeper, -, -, he⟩
  · rw [he]
    exact hn
  · rw [he]
    rfl

omit [Amount R] in
theorem exists_stopSweepers (s : Service R) (ids : List Nat) :
    ∃ sweepers, ids.foldl stopSweeper s = { s with sweepers := sweepers } ∧
      ∀ j : Nat, sweepers[j]? =
        if j ∈ ids then (s.sweepers[j]?).map ({ · with next := none }) else s.sweepers[j]? := by
  induction ids generalizing s with
  | nil => exact ⟨s.sweepers, rfl, fun j => rfl⟩
  | cons id ids ih =>
    obtain ⟨sweepers, he, hs⟩ := ih (s.stopSweeper id)
    refine ⟨sweepers, he, fun j => ?_⟩
    rw [hs, stopSweeper, Array.getElem?_modify]
    by_cases hid : id = j
    · subst hid
      cases s.sweepers[id]? <;> simp
    · simp [hid, Ne.symm hid]

omit [Amount R] in
/-- The sweepers never have their turn in the foreground. -/
theorem keepsTime_foreground (hnow : next.world.now = s.world.now)
    (hs : next.sweepers = s.sweepers) (ht : next.timers = s.timers) (hq : next.queue = s.queue) :
    s.KeepsTime next :=
  .of_eq hnow hs ht fun _ hp => .inl (hq ▸ hp.resolve_right fun ⟨_, he⟩ => by
    obtain ⟨_, _, he⟩ := Option.map_eq_some_iff.mp he
    cases he)

theorem isOther_asksAt (s : Service R) (call : Option Call) (j : Nat) :
    ∀ deed ∈ asksAt i s call, deed.IsOther j := by
  intro deed hm
  cases call with
  | none => exact absurd hm List.not_mem_nil
  | some call =>
    obtain ⟨demand, -, rfl⟩ := List.mem_map.mp hm
    exact ⟨rfl, rfl, rfl⟩

theorem isOther_deeds (hs : ∀ id, agent ≠ .sweeper id) (j : Nat) :
    ∀ deed ∈ s.deeds i agent, deed.IsOther j := by
  cases agent with
  | task id => exact isOther_asksAt s _ j
  | intake consumer => exact fun _ hm => absurd hm List.not_mem_nil
  | sweeper id => exact absurd rfl (hs id)

omit [Amount R] in
theorem isOther_sweepsAt {id : Nat} (hid : id ≠ j) :
    ∀ deed ∈ s.sweepsAt i id, deed.IsOther j := by
  intro deed hm
  rw [sweepsAt] at hm
  split at hm
  · split at hm
    · rw [List.mem_singleton.mp hm]
      exact ⟨rfl, rfl, if_neg hid⟩
    · exact absurd hm List.not_mem_nil
  · exact absurd hm List.not_mem_nil

/-- What a step is to the sweepers. -/
inductive SweeperStep (i : Nat) (s : Service R) : List (Deed R) → Service R → Prop
  | unnoticed {deeds : List (Deed R)} {next : Service R} (hk : s.KeepsTime next)
    (ho : ∀ j, ∀ deed ∈ deeds, deed.IsOther j) : SweeperStep i s deeds next
  | turn {id : Nat} {popped : Service R} (ht : s.Takes (.sweeper id) popped) :
    SweeperStep i s (popped.sweepsAt i id) (popped.runSweeper id)
  | pass {time : Instant} (hr : s.AtRest) (hn : s.world.now ≤ time)
    (ht : ∀ timer ∈ s.timers, time ≤ timer.1) : SweeperStep i s [] (s.advanceTo time)
  | start (id : Nat) : SweeperStep i s [.start id s.world.now] (s.startSweeper id)
  | stop (ids : List Nat) {middle : Service R} (hk : s.KeepsTime middle)
    (hs : middle.world.stores = s.world.stores) :
    SweeperStep i s (ids.map (.stop · s.world.now)) (ids.foldl stopSweeper middle)

theorem Does.sweeperStep {deeds : List (Deed R)} (h : s.Does i deeds next) :
    s.SweeperStep i deeds next := by
  have hnone : ∀ j, ∀ deed ∈ ([] : List (Deed R)), deed.IsOther j :=
    fun _ _ hm => absurd hm List.not_mem_nil
  have htask : ∀ (id id' : Nat), Agent.task id ≠ .sweeper id' := fun _ _ => Agent.noConfusion
  cases h with
  | @turn popped agent ht =>
    cases agent with
    | sweeper id => exact .turn ht
    | task id =>
      exact .unnoticed ((ht.keepsTime (htask id)).trans
        ((Turn.run popped _).keepsTime (htask id))) (isOther_deeds (htask id))
    | intake consumer =>
      have hintake : ∀ id, Agent.intake consumer ≠ .sweeper id := fun _ => Agent.noConfusion
      exact .unnoticed ((ht.keepsTime hintake).trans ((Turn.run popped _).keepsTime hintake))
        (isOther_deeds hintake)
  | forget hq hf =>
    exact .unnoticed (.of_eq rfl rfl rfl fun _ hp => hp.imp_right fun he => by simp [hf] at he)
      hnone
  | pass hr hn ht => exact .pass hr hn ht
  | arrive hn => exact .unnoticed ((Turn.arrive s hn).keepsTime (htask 0)) hnone
  | @attend task hn =>
    have hk : s.KeepsTime (s.attending task) := keepsTime_foreground rfl rfl rfl rfl
    exact .unnoticed (hk.trans ((Turn.run _ _).keepsTime (htask _))) (isOther_deeds (htask _))
  | leave => exact .unnoticed (keepsTime_foreground rfl rfl rfl rfl) hnone
  | change => exact .unnoticed (.of_eq rfl rfl rfl fun _ hp => hp) hnone
  | wake consumer => exact .unnoticed ((Turn.enqueue s _).keepsTime (htask 0)) hnone
  | note hn => exact .unnoticed (.of_eq hn rfl rfl fun _ hp => hp) hnone
  | sweep l =>
    refine .unnoticed (.of_eq rfl rfl rfl fun _ hp => hp) fun j deed hm => ?_
    split at hm
    · rw [List.mem_singleton.mp hm]
      exact ⟨rfl, rfl, rfl⟩
    · exact absurd hm List.not_mem_nil
  | start id => exact .start id
  | stop id => exact .stop [id] (.of_eq rfl rfl rfl fun _ hp => hp) rfl
  | register name m =>
    have hk : s.KeepsTime { s with registry := s.registry.register name m } :=
      .of_eq rfl rfl rfl fun _ hp => hp
    exact .stop (s.dropped name m) hk rfl
  | stopAll =>
    have hk : s.KeepsTime { s with world := s.world.write s.registry.stopLines } :=
      .of_eq rfl rfl rfl fun _ hp => hp
    exact .stop s.registry.sweepers hk rfl

/-! ### What a run keeps -/

omit [Amount R] in
theorem Punctual.startSweeper (h : s.Punctual) (id : Nat) : (s.startSweeper id).Punctual := by
  rcases startSweeper_cases s id with ⟨-, world, hn, -, he⟩ | ⟨sweeper, hs, -, he⟩
  · rw [he]
    exact h.of_keepsTime (.of_eq hn rfl rfl fun _ hp => hp)
  · rw [he]
    refine ⟨h.inOrder.insertTimer _ _, fun hm => ?_, fun {j found time} hf hd => ?_⟩
    · rcases mem_insertTimer.mp hm with rfl | hm
      · exact Nat.le_add_right _ _
      · exact h.ahead hm
    · have hset : (s.sweepers.setIfInBounds id
          { sweeper with next := some (s.world.now + sweeper.period.nanos) })[j]? = some found := hf
      by_cases hj : id = j
      · subst hj
        rw [Array.getElem?_setIfInBounds_self_of_lt (Array.getElem?_eq_some_iff.mp hs).1] at hset
        obtain rfl := Option.some.inj hset
        obtain rfl := Option.some.inj hd
        exact .inl (mem_insertTimer.mpr (.inl rfl))
      · rw [Array.getElem?_setIfInBounds_ne hj] at hset
        exact (h.sweepers hset hd).imp_left fun hm => mem_insertTimer.mpr (.inr hm)

omit [Amount R] in
theorem Punctual.stopSweepers (h : s.Punctual) (ids : List Nat) :
    (ids.foldl stopSweeper s).Punctual := by
  obtain ⟨sweepers, he, hs⟩ := exists_stopSweepers s ids
  rw [he]
  refine ⟨h.inOrder, h.ahead, fun {j found time} hf hd => ?_⟩
  have hfound : sweepers[j]? = some found := hf
  rw [hs] at hfound
  split at hfound
  · obtain ⟨sweeper, -, rfl⟩ := Option.map_eq_some_iff.mp hfound
    cases hd
  · exact h.sweepers hfound hd

theorem SweeperStep.punctual {deeds : List (Deed R)} (h : s.SweeperStep i deeds next)
    (hp : s.Punctual) : next.Punctual := by
  cases h with
  | unnoticed hk => exact hp.of_keepsTime hk
  | turn ht => exact hp.turn ht
  | pass hr _ ht => exact hp.advanceTo hr ht
  | start id => exact hp.startSweeper id
  | stop ids hk => exact (hp.of_keepsTime hk).stopSweepers ids

/-- How the schedule of a sweeper stands. When it is due it has its turn before any time passes. -/
structure Scheduled (j : Nat) (sweeper : Sweeper) (due : Option Instant) (s : Service R) :
    Prop where
  found : s.sweepers[j]? = some { sweeper with next := due }
  ahead {time : Instant} : due = some time →
    s.world.now < time ∨ time = s.world.now ∧ s.Pending (.sweeper j)

/-- The turn of a sweeper is a sweep if it is due, and nothing otherwise. -/
theorem Scheduled.turn {id : Nat} (h : Scheduled j sweeper due s)
    (hP : 0 < sweeper.period.nanos) (hi : sweeper.store = i) (ht : s.Takes (.sweeper id) popped) :
    Scheduled j sweeper (dueAfter j sweeper.period due (popped.sweepsAt i id))
        (popped.runSweeper id) ∧
      OnTime j sweeper due (popped.sweepsAt i id) := by
  have hfound : popped.sweepers[j]? = some { sweeper with next := due } := ht.sweepers ▸ h.found
  have hother {time : Instant} (hid : id ≠ j) (hd : due = some time) :
      popped.world.now < time ∨ time = popped.world.now ∧ popped.Pending (.sweeper j) := by
    rw [ht.now]
    exact (h.ahead hd).imp_right fun hp =>
      ⟨hp.1, ht.pending (fun he => hid (Agent.sweeper.inj he).symm) hp.2⟩
  cases hswept : popped.dueAt? id with
  | none =>
    rw [runSweeper_of_not_due hswept, sweepsAt_of_not_due hswept]
    refine ⟨⟨hfound, fun {time} hd => ?_⟩, trivial⟩
    by_cases hid : id = j
    · subst hid
      exact .inl (lt_of_not_due hswept hfound hd)
    · exact hother hid hd
  | some swept =>
    obtain ⟨time, event, hs, hnext, hle, he⟩ := runSweeper_of_due hswept
    rw [he]
    by_cases hid : id = j
    · subst hid
      obtain rfl := Option.some.inj (hs.symm.trans hfound)
      obtain rfl : due = some time := hnext
      -- It is due, and no later than it was to be.
      obtain rfl : time = popped.world.now := by
        rw [ht.now] at hle ⊢
        exact (h.ahead rfl).elim (fun hlt => absurd hle (Nat.not_le.mpr hlt)) And.left
      have hdue : dueAfter id sweeper.period (some popped.world.now)
          [(.sweep (some id) sweeper.evictAfter popped.world.now : Deed R)] =
            some (popped.world.now + sweeper.period.nanos) := if_pos rfl
      rw [sweepsAt_of_due hswept hi, hdue]
      refine ⟨⟨Array.getElem?_setIfInBounds_self_of_lt (Array.getElem?_eq_some_iff.mp hs).1,
        fun hd => .inl ?_⟩, ⟨fun after now hsweep => ?_, trivial⟩⟩
      · rw [← Option.some.inj hd]
        exact Nat.lt_add_of_pos_right hP
      · obtain ⟨-, rfl, rfl⟩ := Deed.sweep.inj hsweep
        exact ⟨rfl, rfl⟩
    · rw [dueAfter_of_others (isOther_sweepsAt hid)]
      exact ⟨⟨(Array.getElem?_setIfInBounds_ne hid).trans hfound, hother hid⟩,
        onTime_of_others (isOther_sweepsAt hid)⟩

theorem accounts_stops (h : next.world.stores = s.world.stores) (ids : List Nat) :
    Accounts i s.world next.world (ids.map fun id => (.stop id s.world.now : Deed R)) := by
  refine .of_orders h ?_ fun deed hm => ?_
  · exact List.filterMap_eq_nil_iff.mpr fun deed hm => by
      obtain ⟨id, -, rfl⟩ := List.mem_map.mp hm
      rfl
  · obtain ⟨id, -, rfl⟩ := List.mem_map.mp hm
    rfl

/-- What becomes of the store follows from the deeds of a step. -/
theorem Does.accounts {deeds : List (Deed R)} (h : s.Does i deeds next) :
    Accounts i s.world next.world deeds := by
  cases h with
  | @turn popped agent ht =>
    rw [← ht.world]
    exact accounts_run popped agent
  | forget => exact .of_stores rfl
  | @pass time =>
    obtain ⟨queue, resumed, he⟩ := exists_advanceTo s time
    rw [he]
    exact .of_stores rfl
  | arrive => exact .of_stores (congrArg World.stores (world_spawn ..))
  | @attend task => exact accounts_run (s.attending task) _
  | leave => exact .of_stores rfl
  | change => exact .of_stores rfl
  | wake => exact .of_stores (congrArg World.stores (world_enqueue ..))
  | note _ hs => exact .of_stores hs
  | sweep l => exact .evict l.store none l.settings.evictAfter
  | start id =>
    refine .of_orders ?_ rfl fun deed hm => by rw [List.mem_singleton.mp hm]; rfl
    rcases startSweeper_cases s id with ⟨-, world, -, hs, he⟩ | ⟨sweeper, -, -, he⟩
    · rw [he]
      exact hs
    · rw [he]
      rfl
  | stop id => exact accounts_stops rfl [id]
  | register name m =>
    obtain ⟨sweepers, he, -⟩ := exists_stopSweepers
      { s with registry := s.registry.register name m } (s.dropped name m)
    exact accounts_stops (congrArg (·.world.stores) he) _
  | stopAll =>
    obtain ⟨sweepers, he, -⟩ := exists_stopSweepers
      { s with world := s.world.write s.registry.stopLines } s.registry.sweepers
    exact accounts_stops (congrArg (·.world.stores) he) _

theorem SweeperStep.now_le {deeds : List (Deed R)} (h : s.SweeperStep i deeds next) :
    s.world.now ≤ next.world.now := by
  cases h with
  | unnoticed hk => exact hk.now.ge
  | turn ht => exact ((Turn.runSweeper _ _).now.trans ht.now).ge
  | @pass time hr hn =>
    obtain ⟨queue, resumed, he⟩ := exists_advanceTo s time
    rw [he]
    exact hn
  | start id => exact (now_startSweeper s id).ge
  | @stop ids middle hk =>
    obtain ⟨sweepers, he, -⟩ := exists_stopSweepers middle ids
    rw [he]
    exact hk.now.ge

namespace Runs

variable {s₀ : Service R} {history : List (Deed R)}

theorem punctual (h : s₀.Runs i history s) (hp : s₀.Punctual) : s.Punctual := by
  induction h with
  | refl => exact hp
  | tail _ hd ih => exact hd.sweeperStep.punctual ih

theorem size (h : s₀.Runs i history s) : s.world.stores.size = s₀.world.stores.size := by
  induction h with
  | refl => rfl
  | tail _ hd ih => exact hd.accounts.size.trans ih

theorem store (h : s₀.Runs i history s) (hi : i < s₀.world.stores.size) :
    s.world.storeAt i = ((s₀.world.storeAt i).run (operations history)).1 := by
  induction h with
  | refl => rfl
  | tail hr hd ih =>
    rw [hd.accounts.store (hr.size ▸ hi), ih, operations_append, Store.run_append]

/-- What is done is in order of time. -/
theorem inOrder (h : s₀.Runs i history s) :
    history.Pairwise (·.time ≤ ·.time) ∧ ∀ deed ∈ history, deed.time ≤ s.world.now := by
  induction h with
  | refl => exact ⟨.nil, fun _ hm => absurd hm List.not_mem_nil⟩
  | @tail history deeds s next hr hd ih =>
    obtain ⟨hsorted, hle⟩ := ih
    have htime : ∀ deed ∈ deeds, deed.time = s.world.now := fun _ => hd.accounts.time
    have hnow := hd.sweeperStep.now_le
    refine ⟨List.pairwise_append.mpr ⟨hsorted, ?_, fun deed hm later hl => ?_⟩, fun deed hm => ?_⟩
    · exact List.pairwise_of_forall_mem_list fun deed hm later hl =>
        ((htime deed hm).trans (htime later hl).symm).le
    · rw [htime later hl]
      exact hle deed hm
    · rcases List.mem_append.mp hm with hm | hm
      · exact (hle deed hm).trans hnow
      · exact (htime deed hm).trans_le hnow

theorem trans {more : List (Deed R)} (h : s₀.Runs i history s) (h' : s.Runs i more next) :
    s₀.Runs i (history ++ more) next := by
  induction h' with
  | refl => rwa [List.append_nil]
  | tail _ hd ih =>
    rw [← List.append_assoc]
    exact ih.tail hd

end Runs

theorem Step.exists_does (h : s.Step next) (i : Nat) : ∃ deeds, s.Does i deeds next := by
  cases h with
  | turn ht => exact ⟨_, .turn ht⟩
  | forget hq hf => exact ⟨_, .forget hq hf⟩
  | pass hr hn ht => exact ⟨_, .pass hr hn ht⟩
  | arrive hn => exact ⟨_, .arrive s hn⟩
  | change => exact ⟨_, .change s _ _⟩
  | wake => exact ⟨_, .wake s _⟩

theorem exists_runs_of_goes (h : s.Goes next) (i : Nat) : ∃ history, s.Runs i history next := by
  induction h with
  | refl => exact ⟨[], .refl⟩
  | tail _ hs ih =>
    obtain ⟨history, hr⟩ := ih
    obtain ⟨deeds, hd⟩ := hs.exists_does i
    exact ⟨history ++ deeds, hr.tail hd⟩

theorem runs_startSweepers (s : Service R) (i : Nat) (ids : List Nat) :
    s.Runs i (ids.map (.start · s.world.now)) (ids.foldl startSweeper s) := by
  induction ids generalizing s with
  | nil => exact .refl
  | cons id ids ih =>
    have hrest := ih (s.startSweeper id)
    rw [now_startSweeper] at hrest
    exact (Runs.refl.tail (.start s id)).trans hrest

/-- A service that is set up starts its sweepers at the outset. -/
theorem runs_ofSetup (i date : Nat) (setup : Setup) :
    ({ ofLimiters date setup.limiters setup.limiters.length with
        registry := setup.registry } : Service R).Runs i
      (setup.registry.sweepers.map (.start · 0)) (ofSetup date setup) :=
  runs_startSweepers _ i _

/-- A call or a request that is served to its end is one of these runs. -/
theorem exists_runs_attend (h : s.Punctual) (i : Nat) {task : Task} (hn : Newcomer task) :
    ∃ history, s.Runs i history (s.attend task.stage task.owner).1 := by
  have hbegun := Runs.refl.tail (Does.attend (i := i) s hn)
  obtain ⟨history, hr⟩ : ∃ history, s.Runs i history
      (if isOver s.tasks.size ((s.attending task).runTask s.tasks.size)
        then (s.attending task).runTask s.tasks.size
        else drive (isOver s.tasks.size) patience
          ((s.attending task).runTask s.tasks.size)) := by
    split
    · exact ⟨_, hbegun⟩
    · obtain ⟨history, hr⟩ :=
        exists_runs_of_goes (goes_drive _ patience (hbegun.punctual h)) i
      exact ⟨_, hbegun.trans hr⟩
  exact ⟨_, hr.tail (.leave _)⟩

end Service

end Switchboard
