import Switchboard.Proofs.Service.Requests
import Switchboard.Proofs.Service.Views

/-! Where the slots of a service are. A slot is free, or somebody has it who gives it back: a request,
the intake of a consumer, a delivery in work, or a stop that waits until no delivery is. -/

namespace Switchboard

open Server

/-- The slots that somebody claims at a consumer: one to receive with, or all of them. -/
def Server.Claimant.want (limit : Nat) : Claimant → Nat
  | .intake => 1
  | .drain => limit

/-- The slots that an intake claims. -/
def Server.Intake.claim : Intake → Nat
  | .idle | .seeking => 0
  | .inLine | .receiving => 1

/-- Whether a task works on a delivery that a consumer has taken. -/
def Task.works (i : Nat) (t : Task) : Bool :=
  match t.owner with
  | .delivery j (some _) => j == i && !t.stage.isOver
  | _ => false

theorem Task.works_eq (i : Nat) (t : Task) :
    t.works i = ((t.job? i).join.isSome && !t.stage.isOver) := by
  obtain ⟨stage, owner⟩ := t
  cases owner with
  | delivery j number =>
    by_cases hj : j = i
    · cases number <;> simp [works, job?, hj]
    · cases number <;> simp [works, job?, hj]
  | _ => rfl

theorem Task.works_of_none {i : Nat} {t : Task} (h : ∀ n, t.job? i ≠ some (some n)) :
    t.works i = false := by
  rw [works_eq]
  cases hj : t.job? i with
  | none => rfl
  | some number =>
    cases number with
    | none => rfl
    | some n => exact absurd hj (h n)

theorem Task.Alike.works_eq {i : Nat} {t u : Task} (h : t.Alike i u) : t.works i = u.works i := by
  rw [Task.works_eq, Task.works_eq, ← h.job_eq]
  by_cases hj : t.job? i = none
  · rw [hj]
    rfl
  · rw [(h.inWork hj).1, (h.inWork hj).2]

namespace Floor

/-- The gate of a consumer keeps the account of its intake, of the stops, and of the deliveries in
work. -/
structure Works (f : Floor) (i limit stops : Nat) (c : Consumer) : Prop where
  consumer_eq : f.consumers[i]? = some c
  account : c.gate.Account (Claimant.want limit) limit
    (c.intake.claim + stops * limit + f.tasks.countP (Task.works i))
  intakes : c.gate.line.countP (·.who == .intake) ≤ if c.intake = .inLine then 1 else 0
  drains : c.drainsInLine ≤ stops
  known : ∀ number ∈ c.queue, number < c.deliveries.size

variable {f g : Floor} {i limit stops : Nat} {c : Consumer}

theorem Works.setTask (h : f.Works i limit stops c) {id : Nat} {task : Task}
    (ht : f.tasks[id]? = some task) (next : Task) (hw : next.works i = task.works i) :
    (f.setTask id next).Works i limit stops c := by
  have hcount := countP_setTask ht next (Task.works i)
  rw [hw] at hcount
  have ha := h.account
  rw [← Nat.add_right_cancel hcount] at ha
  exact ⟨h.consumer_eq, ha, h.intakes, h.drains, h.known⟩

theorem Works.addTask (h : f.Works i limit stops c) {task : Task} (hw : task.works i = false) :
    (f.addTask task).Works i limit stops c := by
  refine ⟨h.consumer_eq, ?_, h.intakes, h.drains, h.known⟩
  rw [countP_addTask, hw]
  exact h.account

theorem Works.around (h : f.Works i limit stops c) (ht : g.tasks = f.tasks)
    (hc : g.consumers[i]? = some c) : g.Works i limit stops c :=
  ⟨hc, by rw [ht]; exact h.account, h.intakes, h.drains, h.known⟩

/-- The consumer after the work on a delivery has ended. -/
theorem Works.settle (h : f.Works i limit stops c) {id : Nat} {call : Call} {number : Option Nat}
    (ht : f.tasks[id]? = some ⟨.ready call, .delivery i number⟩) (outcome : Outcome)
    (time : Instant) :
    ((f.setTask id ⟨.ended outcome time, .delivery i number⟩).setConsumer i
      (c.finish number outcome time).1).Works i limit stops (c.finish number outcome time).1 := by
  have hcount := countP_setTask ht ⟨.ended outcome time, .delivery i number⟩ (Task.works i)
  have hconsumer := getElem?_setConsumer h.consumer_eq (c.finish number outcome time).1
  have hqueue := c.queue_finish number outcome time
  have hknown : ∀ n ∈ (c.finish number outcome time).1.queue,
      n < (c.finish number outcome time).1.deliveries.size := by
    rw [hqueue, Consumer.size_finish]
    exact h.known
  have hintake := c.intake_finish number outcome time
  cases number with
  | none =>
    have ha := h.account
    have hgate := c.gate_finish_none outcome time
    simp only [Task.works, Bool.false_eq_true, if_false, Nat.add_zero] at hcount
    refine ⟨hconsumer, ?_, ?_, ?_, hknown⟩
    · rw [hgate, hintake]
      exact hcount ▸ ha
    · rw [hgate, hintake]
      exact h.intakes
    · rw [Consumer.drainsInLine, hgate]
      exact h.drains
  | some n =>
    have ha := h.account
    have hgate := c.gate_finish outcome time n
    simp only [Task.works, Stage.isOver, beq_self_eq_true, Bool.not_false, Bool.not_true,
      Bool.and_true, Bool.and_false, Bool.false_eq_true, if_true, if_false, Nat.add_zero] at hcount
    rw [← hcount, ← Nat.add_assoc] at ha
    refine ⟨hconsumer, ?_, ?_, ?_, hknown⟩
    · rw [hgate, hintake]
      exact ha.give
    · rw [hgate, hintake]
      exact (Gate.countP_give_le c.gate 1 (· == .intake)).trans h.intakes
    · rw [Consumer.drainsInLine, hgate]
      exact (Gate.countP_give_le c.gate 1 (· == .drain)).trans h.drains

theorem exists_works_move (h : f.Works i limit stops c) (hf : f.Fits) (hm : Move f g) :
    ∃ c, g.Works i limit stops c := by
  cases seen_of_move h.consumer_eq hf hm with
  | goesOn ht ha _ hg hc => exact ⟨c, (h.setTask ht _ ha.works_eq).around hg hc⟩
  | races ht ha _ hg hc => exact ⟨c, ((h.setTask ht _ ha.works_eq).addTask rfl).around hg hc⟩
  | settles ht outcome time hg => exact ⟨_, hg ▸ h.settle ht outcome time⟩

theorem Works.setConsumer (h : f.Works i limit stops c) {next : Consumer} {stops' : Nat}
    (ha : next.gate.Account (Claimant.want limit) limit
      (next.intake.claim + stops' * limit + f.tasks.countP (Task.works i)))
    (hi : next.gate.line.countP (·.who == .intake) ≤ if next.intake = .inLine then 1 else 0)
    (hd : next.drainsInLine ≤ stops') (hk : ∀ n ∈ next.queue, n < next.deliveries.size) :
    (f.setConsumer i next).Works i limit stops' next :=
  ⟨getElem?_setConsumer h.consumer_eq next, ha, hi, hd, hk⟩

theorem Works.none_in_line (h : f.Works i limit stops c) (hi : c.intake ≠ .inLine) :
    c.gate.line.countP (·.who == .intake) = 0 := by
  have hle := h.intakes
  rw [if_neg hi] at hle
  omega

theorem none_waiting (hw : c.gate.isWaiting .intake = false) :
    c.gate.line.countP (·.who == .intake) = 0 := by
  by_contra hne
  rw [Gate.isWaiting_iff_countP.mpr (Nat.pos_of_ne_zero hne)] at hw
  cases hw

theorem wanted_filter_intake (limit : Nat) (line : List (Waiter Claimant)) :
    Gate.wanted (Claimant.want limit) (line.filter (·.who == .intake)) =
      line.countP (·.who == .intake) := by
  induction line with
  | nil => rfl
  | cons w line ih =>
    cases hw : w.who with
    | intake => simp [hw, ih, Claimant.want, Nat.add_comm]
    | drain => simp [hw, ih]

theorem Works.ends (h : f.Works i limit stops c) {next : Consumer}
    (ha : next.gate.Account (Claimant.want limit) limit
      (stops * limit + f.tasks.countP (Task.works i)))
    (hi : next.gate.line.countP (·.who == .intake) = 0) (hd : next.drainsInLine ≤ stops) :
    (f.setConsumer i next.endIntake).Works i limit stops next.endIntake := by
  rw [Consumer.endIntake_eq]
  refine h.setConsumer ?_ (Nat.le_of_eq hi) hd (by simp [Consumer.queue])
  simpa [Intake.claim] using ha

theorem Works.asks (h : f.Works i limit stops c) (hi : c.intake = .seeking) :
    let next : Consumer := { c with
      gate := (c.gate.take .intake 1).1
      intake := if 1 ≤ c.gate.free then .receiving else .inLine }
    (f.setConsumer i next).Works i limit stops next := by
  intro next
  have hnone := h.none_in_line (by simp [hi])
  have ha := h.account.take .intake
  have hclaim : next.intake.claim = 1 := by
    simp only [next]
    split <;> rfl
  have hclaims : c.intake.claim + stops * limit + f.tasks.countP (Task.works i) +
      Claimant.want limit .intake =
        next.intake.claim + stops * limit + f.tasks.countP (Task.works i) := by
    rw [hclaim, hi, Intake.claim, Claimant.want]
    omega
  rw [hclaims] at ha
  refine h.setConsumer ha ?_ ?_ h.known
  · by_cases hf : 1 ≤ c.gate.free
    · simp [next, Gate.take, hf, hnone]
    · simp [next, Gate.take, hf, hnone]
  · by_cases hf : 1 ≤ c.gate.free
    · simpa [next, Consumer.drainsInLine, Gate.take, hf] using h.drains
    · simpa [next, Consumer.drainsInLine, Gate.take, hf] using h.drains

theorem Works.leaves (h : f.Works i limit stops c) (hi : c.intake = .inLine)
    (hw : c.gate.isWaiting .intake = true) :
    (f.setConsumer i { c with gate := (c.gate.leave .intake).1 }.endIntake).Works i limit stops
      { c with gate := (c.gate.leave .intake).1 }.endIntake := by
  have hone : c.gate.line.countP (·.who == .intake) = 1 := by
    have hpos := Gate.isWaiting_iff_countP.mp hw
    have hle := h.intakes
    rw [if_pos hi] at hle
    omega
  have ha := h.account
  have hclaims : c.intake.claim + stops * limit + f.tasks.countP (Task.works i) =
      stops * limit + f.tasks.countP (Task.works i) +
        Gate.wanted (Claimant.want limit) (c.gate.line.filter (·.who == .intake)) := by
    rw [wanted_filter_intake, hone, hi, Intake.claim]
    omega
  rw [hclaims] at ha
  refine h.ends ha.leave ?_ ?_
  · have hle := Gate.countP_leave_le c.gate .intake (· == .intake)
    rw [List.countP_filter] at hle
    have hzero : c.gate.line.countP (fun w => w.who == .intake && w.who != .intake) = 0 := by
      simp [bne]
    exact Nat.eq_zero_of_le_zero (hzero ▸ hle)
  · have hle := Gate.countP_leave_le c.gate .intake (· == .drain)
    have hfilter := (List.filter_sublist (p := (·.who != .intake)) (l := c.gate.line)).countP_le
      (p := (·.who == .drain))
    exact (hle.trans hfilter).trans h.drains

/-- In a turn the intake may take a slot, give it back, or leave it with the task of a delivery. -/
theorem exists_works_intake (h : f.Works i limit stops c) :
    ∃ c', (f.intake i c).Works i limit stops c' := by
  have hturn := c.turn_advance
  rw [Floor.intake]
  generalize c.advance.1 = next at hturn ⊢
  generalize c.next? = number at hturn ⊢
  cases hturn with
  | waits => exact ⟨c, h.setConsumer h.account h.intakes h.drains h.known⟩
  | ends hi =>
    have ha := h.account
    rw [hi, Intake.claim, Nat.zero_add] at ha
    exact ⟨_, h.ends ha (h.none_in_line (by simp [hi])) h.drains⟩
  | asks hi => exact ⟨_, h.asks hi⟩
  | leaves hi hw => exact ⟨_, h.leaves hi hw⟩
  | gets hi hw =>
    have ha := h.account
    rw [hi] at ha
    refine ⟨_, h.setConsumer ha ?_ h.drains h.known⟩
    simp [none_waiting hw]
  | quits hi =>
    have hclaim : c.intake.claim = 1 := by rcases hi with hi | ⟨hi, _⟩ <;> rw [hi, Intake.claim]
    have hnone : c.gate.line.countP (·.who == .intake) = 0 := by
      rcases hi with hi | ⟨_, hw⟩
      · exact h.none_in_line (by simp [hi])
      · exact none_waiting hw
    have ha := h.account
    have hclaims : c.intake.claim + stops * limit + f.tasks.countP (Task.works i) =
        stops * limit + f.tasks.countP (Task.works i) + 1 := by omega
    rw [hclaims] at ha
    refine ⟨_, h.ends ha.give ?_ ?_⟩
    · exact Nat.eq_zero_of_le_zero (hnone ▸ Gate.countP_give_le c.gate 1 (· == .intake))
    · exact (Gate.countP_give_le c.gate 1 (· == .drain)).trans h.drains
  | @takes s number rest hi hs hq =>
    have hqueue : c.queue = number :: rest := by simp [Consumer.queue, hs, hq]
    have hlt : number < c.deliveries.size := h.known number (by simp [hqueue])
    let next : Consumer := { c with source := some { s with queue := rest }, intake := .seeking }
    have hdelivery : next.delivery? number = some c.deliveries[number].1 := by
      simp [Consumer.delivery?, next, hlt]
    have hnext : next.queue = rest := by simp [Consumer.queue, next]
    have ha := h.account
    rw [hi, Intake.claim] at ha
    rw [Option.bind_some, hdelivery]
    refine ⟨next, getElem?_setConsumer h.consumer_eq next, ?_, ?_, h.drains, ?_⟩
    · have hclaims : next.intake.claim + stops * limit +
          ((f.setConsumer i next).addTask ⟨.unrouted c.deliveries[number].1,
            .delivery i (some number)⟩).tasks.countP (Task.works i) =
          1 + stops * limit + f.tasks.countP (Task.works i) := by
        rw [countP_addTask]
        simp only [Floor.setConsumer, next, Intake.claim, Task.works, beq_self_eq_true]
        simp only [Stage.isOver, Bool.not_false, Bool.and_self, if_true]
        omega
      rw [hclaims]
      exact ha
    · exact Nat.le_of_eq (h.none_in_line (by simp [hi]))
    · intro n hn
      rw [hnext] at hn
      exact h.known n (by simp [hqueue, hn])

theorem exists_works_change (h : f.Works i limit stops c) {next : Consumer} (hn : c.Change next) :
    ∃ c', (f.setConsumer i next).Works i limit stops c' := by
  refine ⟨next, ?_⟩
  cases hn with
  | push hp =>
    obtain ⟨router, rfl⟩ := Consumer.push_eq hp
    exact h.setConsumer h.account h.intakes h.drains h.known
  | send d hr hm =>
    refine h.setConsumer h.account h.intakes h.drains fun n hn => ?_
    have hsize : (c.send d).deliveries.size = c.deliveries.size + 1 := by simp [Consumer.send]
    rw [c.queue_send d hr, List.mem_append, List.mem_singleton] at hn
    rw [hsize]
    rcases hn with hn | rfl
    · exact Nat.lt_succ_of_lt (h.known n hn)
    · exact Nat.lt_succ_self _
  | closeSource =>
    refine h.setConsumer h.account h.intakes h.drains ?_
    rw [c.queue_closeSource]
    exact h.known
  | start hi hs =>
    obtain rfl := Consumer.start_eq hs
    have ha := h.account
    rw [hi] at ha
    refine h.setConsumer ha ?_ h.drains (by simp [Consumer.queue])
    exact Nat.le_of_eq (h.none_in_line (by simp [hi]))
  | signal => exact h.setConsumer h.account h.intakes h.drains h.known
  | overlook => exact h.setConsumer h.account h.intakes h.drains h.known

theorem Works.beginDrain (h : f.Works i limit stops c) :
    (f.setConsumer i c.beginDrain).Works i limit (stops + 1) c.beginDrain := by
  have ha := h.account.take .drain
  have hclaims : c.intake.claim + stops * limit + f.tasks.countP (Task.works i) +
      Claimant.want limit .drain =
        c.intake.claim + (stops + 1) * limit + f.tasks.countP (Task.works i) := by
    rw [Claimant.want, Nat.succ_mul]
    omega
  rw [hclaims] at ha
  have hlimit : Claimant.want limit .drain = c.gate.limit := h.account.limit_eq.symm
  rw [hlimit] at ha
  have hi := h.intakes
  have hd := h.drains
  rw [Consumer.drainsInLine] at hd
  refine h.setConsumer ha ?_ ?_ h.known
  · by_cases hfree : c.gate.limit ≤ c.gate.free
    · simpa [Consumer.beginDrain, Gate.take, hfree] using hi
    · simpa [Consumer.beginDrain, Gate.take, hfree] using hi
  · by_cases hfree : c.gate.limit ≤ c.gate.free
    · simp only [Consumer.drainsInLine, Consumer.beginDrain, Gate.take, hfree, if_true]
      omega
    · simp [Consumer.drainsInLine, Consumer.beginDrain, Gate.take, hfree, hd]

theorem Works.endDrain (h : f.Works i limit stops c) (hd : c.drainsInLine < stops) :
    (f.setConsumer i c.endDrain.1).Works i limit (stops - 1) c.endDrain.1 := by
  obtain ⟨rest, rfl⟩ : ∃ rest, stops = rest + 1 := ⟨stops - 1, by omega⟩
  have ha := h.account
  have hclaims : c.intake.claim + (rest + 1) * limit + f.tasks.countP (Task.works i) =
      c.intake.claim + rest * limit + f.tasks.countP (Task.works i) + c.gate.limit := by
    rw [h.account.limit_eq, Nat.succ_mul]
    omega
  rw [hclaims] at ha
  have hdrains := Gate.countP_give_le c.gate c.gate.limit (· == .drain)
  rw [Consumer.drainsInLine] at hd
  refine h.setConsumer ha.give ?_ ?_ h.known
  · exact (Gate.countP_give_le c.gate c.gate.limit (· == .intake)).trans h.intakes
  · exact hdrains.trans (by omega)

theorem Works.kept (i limit : Nat) :
    Kept i fun f _ stops => ∃ c, f.Works i limit stops c where
  move hf h hm := by
    obtain ⟨c, hw⟩ := h
    exact exists_works_move hw hf hm
  intake h hc := by
    obtain ⟨c, hw⟩ := h
    obtain rfl := Option.some.inj (hw.consumer_eq.symm.trans hc)
    exact exists_works_intake hw
  elsewhere h hj d number := by
    obtain ⟨c, hw⟩ := h
    refine ⟨c, hw.addTask (Task.works_of_none ?_)⟩
    simp [Task.job?_elsewhere hj]
  arrive h hn := by
    obtain ⟨c, hw⟩ := h
    exact ⟨c, hw.addTask (Task.works_of_none fun _ => job?_newcomer hn)⟩
  change h hc hn := by
    obtain ⟨c, hw⟩ := h
    obtain rfl := Option.some.inj (hw.consumer_eq.symm.trans hc)
    exact exists_works_change hw hn
  beginDrain h hc := by
    obtain ⟨c, hw⟩ := h
    obtain rfl := Option.some.inj (hw.consumer_eq.symm.trans hc)
    exact ⟨_, hw.beginDrain⟩
  endDrain h hc hd := by
    obtain ⟨c, hw⟩ := h
    obtain rfl := Option.some.inj (hw.consumer_eq.symm.trans hc)
    exact ⟨_, hw.endDrain hd⟩
  around h ht hc _ := by
    obtain ⟨c, hw⟩ := h
    exact ⟨c, hw.around ht (hc.trans hw.consumer_eq)⟩

end Floor

/-! ### Where the slots are -/

theorem Config.limit_bounds {owner field : String} {value limit : Nat}
    (h : Config.concurrencyLimit owner field value = .ok limit) :
    1 ≤ limit ∧ limit ≤ Config.maxConcurrency := by
  rw [Config.concurrencyLimit] at h
  split at h
  · cases h
  · obtain rfl := Except.ok.inj h
    have hmax : 1 ≤ Config.maxConcurrency := by decide
    exact ⟨Nat.le_max_right _ _, Nat.max_le.mpr ⟨by omega, hmax⟩⟩

namespace Server.Consumer

/-- The slots that the intake has. -/
def intakeSlots (c : Consumer) : Nat :=
  match c.intake with
  | .receiving => 1
  | .inLine => if c.gate.isWaiting .intake then 0 else 1
  | _ => 0

/-- The slots that stops have, in line and out of it. -/
def drainSlots (c : Consumer) (stops : Nat) : Nat :=
  Gate.gathered (c.gate.line.filter (·.who == .drain)) + (stops - c.drainsInLine) * c.gate.limit

theorem ofMode_eq {config : Config.Consumer} {mode : Mode} {registry : Registry} {c : Consumer}
    (h : ofMode config mode registry = .ok c) :
    ∃ limit router, config.limit = .ok limit ∧
      c = ⟨config.name, mode, router, .ofLimit limit, .zero, false, false, .idle, none, #[]⟩ := by
  rw [ofMode] at h
  cases hl : config.limit with
  | error e => simp [hl, bind, Except.bind] at h
  | ok limit =>
    cases hr : (Router.empty registry []).withBase
        (config.baseMiddleware.getD (defaultBase registry)) with
    | error e => simp [hl, hr, bind, Except.bind] at h
    | ok router =>
      simp only [hl, hr, bind, Except.bind, pure, Except.pure] at h
      exact ⟨limit, router, rfl, (Except.ok.inj h).symm⟩

end Server.Consumer

theorem Server.HttpServer.ofConfig_eq {config : Config.Http} {registry : Registry}
    {server : HttpServer} (h : HttpServer.ofConfig config registry = .ok server) :
    ∃ limit, config.limit = .ok limit ∧ server.gate = .ofLimit limit := by
  rw [HttpServer.ofConfig] at h
  cases hr : (MethodRouter.empty registry).withBase config.baseMiddleware with
  | error e => simp [hr, bind, Except.bind] at h
  | ok router =>
    cases hl : config.limit with
    | error e => simp [hl, hr, bind, Except.bind] at h
    | ok limit =>
      simp only [hl, hr, bind, Except.bind, pure, Except.pure] at h
      obtain rfl := Except.ok.inj h
      exact ⟨limit, rfl, rfl⟩

namespace Floor

variable {f : Floor} {i limit stops : Nat} {c : Consumer}

theorem wanted_eq (limit : Nat) (line : List (Waiter Claimant)) :
    Gate.wanted (Claimant.want limit) line =
      line.countP (·.who == .intake) + line.countP (·.who == .drain) * limit := by
  induction line with
  | nil => simp
  | cons w line ih =>
    cases hw : w.who with
    | intake =>
      simp [hw, ih, Claimant.want]
      omega
    | drain =>
      simp [hw, ih, Claimant.want, Nat.succ_mul]
      omega

/-- What the intake claims it has, or waits for in line. -/
theorem Works.claim_eq (h : f.Works i limit stops c) :
    c.intake.claim = c.intakeSlots + c.gate.line.countP (·.who == .intake) := by
  rw [Consumer.intakeSlots]
  cases hi : c.intake with
  | inLine =>
    cases hw : c.gate.isWaiting .intake with
    | true =>
      have hpos := Gate.isWaiting_iff_countP.mp hw
      have hle := h.intakes
      rw [if_pos hi] at hle
      simp only [Intake.claim, if_true]
      omega
    | false => simp [Intake.claim, none_waiting hw]
  | idle => simp [Intake.claim, h.none_in_line (by simp [hi])]
  | seeking => simp [Intake.claim, h.none_in_line (by simp [hi])]
  | receiving => simp [Intake.claim, h.none_in_line (by simp [hi])]

/-- The slots of a consumer are free or with those who have them. -/
theorem Works.conserved (h : f.Works i limit stops c) :
    c.gate.free + c.intakeSlots + c.drainSlots stops + f.tasks.countP (Task.works i) = limit := by
  have hbalance := h.account.balance
  have hnone := h.account.gathered_filter (p := (· == .intake)) (by
    intro who hp
    rw [eq_of_beq hp, Claimant.want])
  have hsplit := Gate.gathered_partition (fun w => w.who == .intake) c.gate.line
  have hothers : c.gate.line.filter (fun w => !(w.who == .intake)) =
      c.gate.line.filter (·.who == .drain) := by
    refine List.filter_congr fun w _ => ?_
    cases w.who <;> rfl
  have hintake := h.claim_eq
  have hstops : (stops - c.drainsInLine) * limit + c.drainsInLine * limit = stops * limit := by
    rw [← Nat.add_mul, Nat.sub_add_cancel h.drains]
  rw [hnone, hothers, Nat.zero_add] at hsplit
  rw [wanted_eq] at hbalance
  rw [Consumer.drainSlots, h.account.limit_eq]
  rw [Consumer.drainsInLine] at hstops ⊢
  omega

theorem works_ofMode {config : Config.Consumer} {mode : Mode} {registry : Registry}
    (hc : Consumer.ofMode config mode registry = .ok c) (hi : f.consumers[i]? = some c)
    (ht : f.tasks = #[]) : ∃ limit, config.limit = .ok limit ∧ f.Works i limit 0 c := by
  obtain ⟨limit, router, hl, rfl⟩ := Consumer.ofMode_eq hc
  refine ⟨limit, hl, hi, ?_, ?_, ?_, ?_⟩
  · rw [ht, Nat.zero_mul]
    exact Gate.account_ofLimit _ limit
  · simp [Gate.ofLimit]
  · simp [Consumer.drainsInLine, Gate.ofLimit]
  · simp [Consumer.queue]

theorem serves_ofConfig {config : Config.Http} {registry : Registry} {server : HttpServer}
    (hs : HttpServer.ofConfig config registry = .ok server) (hg : f.gate = some server.gate)
    (ht : f.tasks = #[]) : ∃ limit, config.limit = .ok limit ∧ f.Serves limit server.gate := by
  obtain ⟨limit, hl, hgate⟩ := HttpServer.ofConfig_eq hs
  refine ⟨limit, hl, hg, ?_, ?_, ?_⟩
  · rw [ht, hgate]
    exact Gate.account_ofLimit _ limit
  · simp [hgate, Gate.ofLimit]
  · simp [hgate, Gate.ofLimit]

/-- Without a stop nobody has slots on behalf of one. -/
theorem Works.drainSlots_eq_zero (h : f.Works i limit 0 c) : c.drainSlots 0 = 0 := by
  have hdrains := Nat.eq_zero_of_le_zero h.drains
  have hnobody : c.gate.line.filter (·.who == .drain) = [] := by
    rw [List.filter_eq_nil_iff]
    exact List.countP_eq_zero.mp hdrains
  rw [Consumer.drainSlots, hnobody, Nat.zero_sub, Nat.zero_mul]
  rfl

end Floor

theorem fits_of_empty {f : Floor} (ht : f.tasks = #[]) : f.Fits := by
  intro t hm
  simp [ht] at hm

/-- How many deliveries that a consumer has taken are in work. -/
def Service.inWork {R : Type} (s : Service R) (i : Nat) : Nat :=
  s.tasks.countP (Task.works i)

/-- However a service runs, no slot of a consumer or of the HTTP front end is lost or there twice. -/
theorem slots_conserved {R : Type} [RateLimit.Amount R] {i : Nat} {s₀ : Service R} {w : Watch R}
    (ht : s₀.tasks = #[]) (hw : Watch.Reaches i ⟨s₀, [], 0⟩ w) :
    (∀ config mode registry c₀, Consumer.ofMode config mode registry = .ok c₀ →
      s₀.consumers[i]? = some c₀ →
      ∃ limit c, config.limit = .ok limit ∧ 1 ≤ limit ∧ limit ≤ 4294967295 ∧
        w.service.consumers[i]? = some c ∧ c.gate.limit = limit ∧
        c.gate.free + c.intakeSlots + w.service.inWork i + c.drainSlots w.stops = limit ∧
        w.service.inWork i ≤ limit ∧
        (w.service.inWork i = 0 → c.intakeSlots = 0 → w.stops = 0 → c.gate.free = limit)) ∧
    (∀ config registry server₀, HttpServer.ofConfig config registry = .ok server₀ →
      s₀.http = some server₀ →
      ∃ limit server, config.limit = .ok limit ∧ 1 ≤ limit ∧ limit ≤ 4294967295 ∧
        w.service.http = some server ∧ server.gate.limit = limit ∧
        server.gate.free + w.service.slotHolders.card = limit ∧
        w.service.slotHolders.card ≤ limit ∧
        (w.service.slotHolders = ∅ → server.gate.free = limit)) := by
  have hfits : s₀.floor.Fits := fits_of_empty ht
  constructor
  · intro config mode registry c₀ hc hi
    obtain ⟨limit, hl, hworks⟩ := Floor.works_ofMode (f := s₀.floor) hc hi ht
    obtain ⟨-, c, hc'⟩ := (Floor.Works.kept i limit).reaches hfits hw ⟨c₀, hworks⟩
    obtain ⟨hone, hmax⟩ := Config.limit_bounds hl
    have hconserved := hc'.conserved
    refine ⟨limit, c, hl, hone, hmax, hc'.consumer_eq, hc'.account.limit_eq, ?_, ?_, ?_⟩
    · rw [Service.inWork, ← hconserved]
      exact Nat.add_right_comm ..
    · rw [Service.inWork, ← hconserved]
      exact Nat.le_add_left ..
    · intro hnone hintake hstops
      have hdrains : c.drainSlots w.stops = 0 := by
        rw [hstops] at hc' ⊢
        exact hc'.drainSlots_eq_zero
      rw [Service.inWork] at hnone
      have hnone' : w.service.floor.tasks.countP (Task.works i) = 0 := hnone
      omega
  · intro config registry server₀ hs hhttp
    have hgate : s₀.floor.gate = some server₀.gate := by
      rw [Service.floor, hhttp, Option.map_some]
    obtain ⟨limit, hl, hserves⟩ := Floor.serves_ofConfig hs hgate ht
    obtain ⟨hf, gate, hgate'⟩ :=
      (Floor.Serves.kept i limit).reaches hfits hw ⟨server₀.gate, hserves⟩
    obtain ⟨server, hserver, rfl⟩ := Option.map_eq_some_iff.mp hgate'.gate_eq
    obtain ⟨hone, hmax⟩ := Config.limit_bounds hl
    have hcard := Service.card_slotHolders hserver hf hgate'
    have hconserved : server.gate.free + w.service.slotHolders.card = limit := by
      have hbalance := hgate'.account.balance
      have hnone := hgate'.account.gathered_filter (p := fun _ => true) (fun _ _ => rfl)
      rw [List.filter_true] at hnone
      rw [Gate.wanted_one, hnone] at hbalance
      have hclaims : w.service.floor.tasks.countP Task.claims =
        w.service.tasks.countP Task.claims := rfl
      omega
    refine ⟨limit, server, hl, hone, hmax, hserver, hgate'.account.limit_eq, hconserved,
      by omega, fun hempty => ?_⟩
    rw [hempty, Finset.card_empty] at hconserved
    exact hconserved

/-- A consumer and the HTTP front end with a delivery in work. -/
theorem slots_conserved_job :
    let c : Consumer :=
      ⟨"jobs", .kafka, .empty .empty [], .ofLimit 2, .zero, false, false, .idle, none, #[]⟩
    let server : HttpServer := ⟨.default, .empty .empty, .ofLimit 1024, .zero, false⟩
    let s : Service Rat := { Service.fresh 0 with consumers := #[c], http := some server }
    ∃ w c' server', Watch.Reaches 0 ⟨s, [], 0⟩ w ∧ w.taken = [0] ∧
      w.service.consumers[0]? = some c' ∧
      c'.gate.free + c'.intakeSlots + w.service.inWork 0 + c'.drainSlots w.stops = 2 ∧
      w.service.http = some server' ∧ server'.gate.free + w.service.slotHolders.card = 1024 := by
  intro c server s
  let d : Delivery := ⟨"orders", .empty, [], none⟩
  let c₁ : Consumer :=
    { c with running := true, intake := .seeking, source := some ⟨1, [], true⟩ }
  let c₂ : Consumer := { c₁ with gate := ⟨2, 1, []⟩, intake := .receiving }
  let started : Watch Rat := ⟨s.setConsumer 0 c₁, [], 0⟩
  let asked : Watch Rat := ⟨started.service.run (.intake 0), [], 0⟩
  let sent : Watch Rat := ⟨asked.service.setConsumer 0 (c₂.send d), [], 0⟩
  let taken : Watch Rat := ⟨sent.service.run (.intake 0), [0], 0⟩
  have hc₁ : c.start 1 = .ok c₁ := rfl
  have hstart : Watch.Step 0 ⟨s, [], 0⟩ started := .change (c := c) rfl (.start rfl hc₁)
  have hask : Watch.Step 0 started asked := .run started (.intake 0)
  have hsend : Watch.Step 0 asked sent := .change (c := c₂) rfl (.send d rfl rfl)
  have htake : Watch.Step 0 sent taken := .run sent (.intake 0)
  have hreaches : Watch.Reaches 0 ⟨s, [], 0⟩ taken :=
    .tail (.tail (.tail (.single hstart) hask) hsend) htake
  have ht : s.tasks = #[] := rfl
  obtain ⟨hconsumer, hhttp⟩ := slots_conserved ht hreaches
  obtain ⟨limit, c', hl, -, -, hc', -, hslots, -⟩ :=
    hconsumer ⟨"jobs", none, none, 2⟩ .kafka .empty c rfl rfl
  obtain rfl : 2 = limit := Except.ok.inj hl
  obtain ⟨limit, server', hl, -, -, hserver', -, hrequests, -⟩ :=
    hhttp .default .empty server rfl rfl
  obtain rfl : 1024 = limit := Except.ok.inj hl
  exact ⟨taken, c', server', hreaches, rfl, hc', hslots, hserver', hrequests⟩

end Switchboard
