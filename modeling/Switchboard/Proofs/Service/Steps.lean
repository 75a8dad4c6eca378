import Switchboard.Proofs.Service.Moves

/-! Runs of a service, seen from one of its consumers. Everything that can be done with a service is
done in any order, and everybody whose turn it may be takes it at any time. -/

namespace Switchboard

open RateLimit (Amount)
open Server

namespace Server.Consumer

/-- What is done with a consumer from outside, but for the claim of all slots. -/
inductive Change (c : Consumer) : Consumer → Prop
  | push {topic : String} {handler : Handler} {names lines : List String} {next : Consumer}
    (h : c.push topic handler names = .ok (next, lines)) : Change c next
  | send (d : Delivery) (hr : c.isReachable = true) (hm : c.hasRoom = true) : Change c (c.send d)
  | closeSource : Change c c.closeSource
  | start {buffer : Nat} {next : Consumer} (hi : c.intake = .idle)
    (h : c.start buffer = .ok next) : Change c next
  | signal : Change c c.signal
  /-- The intake may go on with what it has waited for although the signal is there. -/
  | overlook : Change c { c with signalled := false }

/-- How many claims of all slots are in line. -/
def drainsInLine (c : Consumer) : Nat :=
  c.gate.line.countP (·.who == .drain)

end Server.Consumer

/-- Tasks that begin from outside. -/
inductive Newcomer : Task → Prop
  | request (i : Incoming) : Newcomer ⟨.arriving i, .request i false⟩
  | delivery (j : Nat) (d : Delivery) : Newcomer ⟨.unrouted d, .delivery j none⟩
  | call (c : Call) : Newcomer ⟨.ready c, .nobody⟩

/-- A service, the deliveries that the intake of the consumer has taken so far, and how many stops
have claimed all slots and have not given them back. -/
structure Watch (R : Type) where
  service : Service R
  taken : List Nat
  stops : Nat

namespace Service

variable {R : Type}

/-- The deliveries that the intake of a consumer takes in a turn. -/
def takes (s : Service R) (i : Nat) : Agent → List Nat
  | .intake j => if j = i then (s.consumers[i]?.bind (·.next?)).toList else []
  | _ => []

@[simp] theorem floor_advanceTo (s : Service R) (time : Instant) :
    (s.advanceTo time).floor = s.floor := by
  rw [advanceTo, floor_enqueueAll]
  rfl

end Service

namespace Watch

variable {R : Type} [Amount R]

inductive Step (i : Nat) : Watch R → Watch R → Prop
  | run (w : Watch R) (agent : Agent) :
    Step i w ⟨w.service.run agent, w.taken ++ w.service.takes i agent, w.stops⟩
  | arrive (w : Watch R) {task : Task} (h : Newcomer task) :
    Step i w { w with service := (w.service.addTask task.stage task.owner).1 }
  | change {w : Watch R} {c next : Consumer} (hc : w.service.consumers[i]? = some c)
    (h : c.Change next) : Step i w { w with service := w.service.setConsumer i next }
  | beginDrain {w : Watch R} {c : Consumer} (hc : w.service.consumers[i]? = some c) :
    Step i w ⟨w.service.setConsumer i c.beginDrain, w.taken, w.stops + 1⟩
  /-- A stop that has all slots gives them back and is over. -/
  | endDrain {w : Watch R} {c : Consumer} (hc : w.service.consumers[i]? = some c)
    (h : c.drainsInLine < w.stops) :
    Step i w ⟨w.service.setConsumer i c.endDrain.1, w.taken, w.stops - 1⟩
  /-- The world, the turns and the timers, and whatever else a service has. -/
  | around {w : Watch R} {s : Service R} (ht : s.tasks = w.service.tasks)
    (hc : s.consumers[i]? = w.service.consumers[i]?)
    (hg : s.http.map (·.gate) = w.service.http.map (·.gate)) : Step i w { w with service := s }

abbrev Reaches (i : Nat) : Watch R → Watch R → Prop :=
  Relation.ReflTransGen (Step i)

theorem Step.of_floor {i : Nat} {s next : Service R} {taken : List Nat} {stops : Nat}
    (h : next.floor = s.floor) : Step i ⟨s, taken, stops⟩ ⟨next, taken, stops⟩ :=
  .around (congrArg Floor.tasks h) (congrArg (fun f => f.consumers[i]?) h) (congrArg Floor.gate h)

/-- The schedule of the service is one of these runs. -/
theorem reaches_drive (i : Nat) (goal : Service R → Bool) (fuel : Nat) (w : Watch R) :
    ∃ taken, w.Reaches i ⟨w.service.drive goal fuel, taken, w.stops⟩ := by
  induction fuel generalizing w with
  | zero => exact ⟨w.taken, .refl⟩
  | succ fuel ih =>
    obtain ⟨s, taken, stops⟩ := w
    have hturn : ∀ (next : Service R) (agent : Agent), next.floor = s.floor →
        ∃ taken', Reaches i ⟨s, taken, stops⟩
          ⟨Service.drive goal fuel (next.run agent), taken', stops⟩ := by
      intro next agent hf
      obtain ⟨taken', hr⟩ := ih ⟨next.run agent, taken ++ next.takes i agent, stops⟩
      have haround : Step i ⟨s, taken, stops⟩ ⟨next, taken, stops⟩ := .of_floor hf
      exact ⟨taken', .head haround (.head (.run _ agent) hr)⟩
    have hidle : ∀ next : Service R, next.floor = s.floor →
        ∃ taken', Reaches i ⟨s, taken, stops⟩ ⟨Service.drive goal fuel next, taken', stops⟩ := by
      intro next hf
      obtain ⟨taken', hr⟩ := ih ⟨next, taken, stops⟩
      exact ⟨taken', .head (.of_floor hf) hr⟩
    simp only [Service.drive]
    split
    · exact hturn _ _ rfl
    · split
      · split
        · exact hturn _ (.task _) rfl
        · exact hidle _ rfl
      · split
        · exact ⟨taken, .refl⟩
        · split
          · exact ⟨taken, .refl⟩
          · exact hidle _ (Service.floor_advanceTo ..)

end Watch

namespace Floor

variable {f : Floor} {id : Nat} {task : Task}

theorem countP_setTask (h : f.tasks[id]? = some task) (next : Task) (p : Task → Bool) :
    (f.setTask id next).tasks.countP p + (if p task then 1 else 0) =
      f.tasks.countP p + if p next then 1 else 0 :=
  countP_setIfInBounds h next p

theorem countP_addTask (task : Task) (p : Task → Bool) :
    (f.addTask task).tasks.countP p = f.tasks.countP p + if p task then 1 else 0 := by
  rw [addTask, Array.countP_push]

theorem getElem?_setTask_of_ne {j : Nat} (h : id ≠ j) (task : Task) :
    (f.setTask id task).tasks[j]? = f.tasks[j]? := by
  rw [setTask, Array.getElem?_setIfInBounds_ne h]

theorem getElem?_setConsumer {i : Nat} {c : Consumer} (hc : f.consumers[i]? = some c)
    (next : Consumer) : (f.setConsumer i next).consumers[i]? = some next := by
  have hi := (Array.getElem?_eq_some_iff.mp hc).1
  simp [setConsumer, hi]

/-! ### Turns of intakes and sweepers -/

/-- What the turn of an intake does. -/
def intake (f : Floor) (j : Nat) (c : Consumer) : Floor :=
  match c.next?, c.next?.bind c.advance.1.delivery? with
  | some number, some d =>
    (f.setConsumer j c.advance.1).addTask ⟨.unrouted d, .delivery j (some number)⟩
  | _, _ => f.setConsumer j c.advance.1

end Floor

namespace Service

variable {R : Type}

theorem floor_runIntake {s : Service R} {j : Nat} {c : Consumer} (h : s.consumers[j]? = some c) :
    (s.runIntake j).floor = s.floor.intake j c := by
  rw [Floor.intake, Consumer.next?]
  cases ha : c.advance with
  | mk next progress =>
    cases progress with
    | takes number =>
      cases hd : next.delivery? number with
      | none => simp [runIntake, h, ha, hd]
      | some d =>
        simp only [runIntake, h, ha, hd, Option.bind_some]
        exact floor_spawn ..
    | ends served => simp [runIntake, h, ha]
    | waits => simp [runIntake, h, ha]
    | goesOn =>
      simp only [runIntake, h, ha]
      rfl

theorem floor_runSweeper [Amount R] (s : Service R) (id : Nat) :
    (s.runSweeper id).floor = s.floor := by
  simp only [runSweeper]
  repeat' split
  all_goals rfl

theorem runIntake_of_none {s : Service R} {j : Nat} (h : s.consumers[j]? = none) :
    s.runIntake j = s := by
  simp only [runIntake, h]

end Service

/-! ### Who waits for what -/

/-- Only requests wait for a slot or have an answer, and only deliveries wait for a route. -/
def Task.Fits (t : Task) : Prop :=
  match t.stage with
  | .arriving _ | .inLine _ | .answered _ _ => ∃ i found, t.owner = .request i found
  | .unrouted _ => ∃ j number, t.owner = .delivery j number
  | _ => True

def Floor.Fits (f : Floor) : Prop :=
  ∀ t ∈ f.tasks, t.Fits

namespace Floor

variable {f : Floor}

theorem Fits.at (h : f.Fits) {id : Nat} {task : Task} (ht : f.tasks[id]? = some task) :
    task.Fits :=
  h task (Array.mem_of_getElem? ht)

theorem Fits.setTask (h : f.Fits) (id : Nat) {task : Task} (ht : task.Fits) :
    (f.setTask id task).Fits := by
  intro t hm
  rcases Array.mem_or_eq_of_mem_setIfInBounds hm with hm | rfl
  · exact h t hm
  · exact ht

theorem Fits.addTask (h : f.Fits) {task : Task} (ht : task.Fits) : (f.addTask task).Fits := by
  intro t hm
  rcases Array.mem_push.mp hm with hm | rfl
  · exact h t hm
  · exact ht

end Floor

theorem Entered.owner {gate behind : Gate Nat} {id : Nat} {i : Incoming} {stage : Stage}
    {owner : Owner} (h : Entered gate id i stage behind) (hf : Task.Fits ⟨stage, owner⟩) :
    ∃ i found, owner = .request i found := by
  cases h <;> exact hf

theorem fits_newcomer {task : Task} (h : Newcomer task) : task.Fits := by
  cases h with
  | request i => exact ⟨_, _, rfl⟩
  | delivery j d => exact ⟨_, _, rfl⟩
  | call c => trivial

theorem fits_move {f g : Floor} (h : f.Fits) (hm : Move f g) : g.Fits := by
  cases hm with
  | lineUp ht =>
    have howner := h.at ht
    exact Floor.Fits.setTask h _ howner
  | refuse ht _ he => exact h.setTask _ (he.owner (h.at ht))
  | serve => exact h.setTask _ trivial
  | route => exact h.setTask _ trivial
  | goOn ht hn => cases hn <;> exact h.setTask _ trivial
  | race =>
    refine Floor.Fits.addTask (Floor.Fits.setTask h _ ?_) ?_ <;> trivial
  | close => exact h.setTask _ trivial
  | answer ht _ hc =>
    cases hc with
    | ended => exact h.setTask _ trivial
    | answered => exact h.setTask _ ⟨_, _, rfl⟩
  | settle => exact h.setTask _ trivial

theorem fits_intake {f : Floor} (h : f.Fits) (j : Nat) (c : Consumer) : (f.intake j c).Fits := by
  rw [Floor.intake]
  split
  · exact Floor.Fits.addTask h ⟨_, _, rfl⟩
  · exact h

/-- What is kept by everything that can happen to a service, seen from one of its consumers. -/
structure Kept (i : Nat) (P : Floor → List Nat → Nat → Prop) : Prop where
  move {f g : Floor} {taken : List Nat} {stops : Nat} (hf : f.Fits) (h : P f taken stops)
    (hm : Move f g) : P g taken stops
  intake {f : Floor} {taken : List Nat} {stops : Nat} {c : Consumer} (h : P f taken stops)
    (hc : f.consumers[i]? = some c) : P (f.intake i c) (taken ++ c.next?.toList) stops
  elsewhere {f : Floor} {taken : List Nat} {stops j : Nat} (h : P f taken stops) (hj : j ≠ i)
    (d : Delivery) (number : Nat) :
    P (f.addTask ⟨.unrouted d, .delivery j (some number)⟩) taken stops
  arrive {f : Floor} {taken : List Nat} {stops : Nat} {task : Task} (h : P f taken stops)
    (hn : Newcomer task) : P (f.addTask task) taken stops
  change {f : Floor} {taken : List Nat} {stops : Nat} {c next : Consumer} (h : P f taken stops)
    (hc : f.consumers[i]? = some c) (hn : c.Change next) : P (f.setConsumer i next) taken stops
  beginDrain {f : Floor} {taken : List Nat} {stops : Nat} {c : Consumer} (h : P f taken stops)
    (hc : f.consumers[i]? = some c) : P (f.setConsumer i c.beginDrain) taken (stops + 1)
  endDrain {f : Floor} {taken : List Nat} {stops : Nat} {c : Consumer} (h : P f taken stops)
    (hc : f.consumers[i]? = some c) (hd : c.drainsInLine < stops) :
    P (f.setConsumer i c.endDrain.1) taken (stops - 1)
  around {f g : Floor} {taken : List Nat} {stops : Nat} (h : P f taken stops)
    (ht : g.tasks = f.tasks) (hc : g.consumers[i]? = f.consumers[i]?) (hg : g.gate = f.gate) :
    P g taken stops

namespace Kept

variable {R : Type} [Amount R] {i : Nat} {P : Floor → List Nat → Nat → Prop} {w w' : Watch R}

theorem intake_elsewhere (hk : Kept i P) {f : Floor} {taken : List Nat} {stops j : Nat}
    (h : P f taken stops) (hj : j ≠ i) (c : Consumer) : P (f.intake j c) taken stops := by
  have hset : ∀ next, P (f.setConsumer j next) taken stops := fun next =>
    hk.around h rfl (Array.getElem?_setIfInBounds_ne hj) rfl
  rw [Floor.intake]
  split
  · exact hk.elsewhere (hset _) hj _ _
  · exact hset _

theorem moves (hk : Kept i P) {f g : Floor} {taken : List Nat} {stops : Nat} (hf : f.Fits)
    (h : P f taken stops) (hm : Relation.ReflTransGen Move f g) : g.Fits ∧ P g taken stops := by
  induction hm with
  | refl => exact ⟨hf, h⟩
  | tail _ hm ih => exact ⟨fits_move ih.1 hm, hk.move ih.1 ih.2 hm⟩

theorem step (hk : Kept i P) (hf : w.service.floor.Fits) (hs : w.Step i w')
    (h : P w.service.floor w.taken w.stops) : P w'.service.floor w'.taken w'.stops := by
  cases hs with
  | run agent =>
    cases agent with
    | task id =>
      simp only [Service.takes, List.append_nil]
      exact (hk.moves hf h (Service.moves_runTask w.service id)).2
    | sweeper id =>
      simp only [Service.takes, List.append_nil, Service.run, Service.floor_runSweeper]
      exact h
    | intake j =>
      by_cases hj : j = i
      · subst hj
        cases hc : w.service.consumers[j]? with
        | none =>
          simp only [Service.takes, if_true, hc, Option.bind_none, Option.toList_none,
            List.append_nil, Service.run, Service.runIntake_of_none hc]
          exact h
        | some c =>
          simp only [Service.takes, if_true, hc, Option.bind_some, Service.run,
            Service.floor_runIntake hc]
          exact hk.intake h hc
      · simp only [Service.takes, if_neg hj, List.append_nil, Service.run]
        cases hc : w.service.consumers[j]? with
        | none =>
          rw [Service.runIntake_of_none hc]
          exact h
        | some c =>
          rw [Service.floor_runIntake hc]
          exact hk.intake_elsewhere h hj c
  | arrive hn => exact hk.arrive h hn
  | change hc hn => exact hk.change h hc hn
  | beginDrain hc => exact hk.beginDrain h hc
  | endDrain hc hd => exact hk.endDrain h hc hd
  | around ht hc hg => exact hk.around h ht hc hg

theorem fits (i : Nat) : Kept i fun f _ _ => f.Fits where
  move hf _ hm := fits_move hf hm
  intake h _ := fits_intake h i _
  elsewhere h _ _ _ := h.addTask ⟨_, _, rfl⟩
  arrive h hn := h.addTask (fits_newcomer hn)
  change h _ _ := h
  beginDrain h _ := h
  endDrain h _ _ := h
  around h ht _ _ := by
    rw [Floor.Fits, ht]
    exact h

theorem reaches (hk : Kept i P) (hf : w.service.floor.Fits) (hr : w.Reaches i w')
    (h : P w.service.floor w.taken w.stops) :
    w'.service.floor.Fits ∧ P w'.service.floor w'.taken w'.stops := by
  induction hr with
  | refl => exact ⟨hf, h⟩
  | tail _ hs ih => exact ⟨(Kept.fits i).step ih.1 hs ih.1, hk.step ih.1 hs ih.2⟩

end Kept

end Switchboard
