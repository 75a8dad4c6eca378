import Switchboard.Proofs.RateLimit.Interleaving
import Switchboard.Proofs.RateLimit.Isolation
import Switchboard.Proofs.Service.Statistics
import Switchboard.Proofs.Service.Turns

/-! What happens to the buckets of a store while a service is at work: the calls that ask for a
token and the sweeps, in their order. What the store holds follows from them alone. -/

namespace Switchboard

open RateLimit
open Server

inductive Deed (R : Type) where
  | call (demand : Demand R) (now : Instant)
  /-- Sweeps are by a sweeper or by hand. -/
  | sweep (sweeper : Option Nat) (after : Duration) (now : Instant)
  | start (sweeper : Nat) (now : Instant)
  | stop (sweeper : Nat) (now : Instant)

variable {R : Type} {i : Nat}

namespace Deed

def op? : Deed R → Option (Op R)
  | call demand now => some (.acquire demand.key demand.capacity demand.rate now)
  | sweep _ after now => some (.evict after now)
  | start .. | stop .. => none

def time : Deed R → Instant
  | call _ now | sweep _ _ now | start _ now | stop _ now => now

end Deed

theorem Deed.time_of_op? {deed : Deed R} {op : Op R} (h : deed.op? = some op) :
    op.time = deed.time := by
  cases deed <;> cases h <;> rfl

def operations (deeds : List (Deed R)) : List (Op R) :=
  deeds.filterMap Deed.op?

theorem operations_append (deeds more : List (Deed R)) :
    operations (deeds ++ more) = operations deeds ++ operations more :=
  List.filterMap_append

variable [Amount R]

/-- What a call asks of a store before it has to wait. -/
def Call.asks (i : Nat) : Call → World R → List (Demand R)
  | .reply _, _ | .panic _, _ | .race .., _ => []
  | .journal line rest, w => rest.asks i (w.write [line])
  | .report event rest, w => rest.asks i (w.report event)
  | .clock rest, w => (rest w.now).asks i w
  | .today rest, w => (rest w.date).asks i w
  | .sleep span rest, w => if span.isZero then rest.asks i w else []
  | .acquire store key capacity pace rest, w =>
    let asked := if store = i then [⟨key, capacity, pace.rate R⟩] else []
    match (w.storeAt store).acquire key capacity (pace.rate R) w.now with
    | (s, some decision) => asked ++ (rest decision).asks i (w.setStore store s)
    | (_, none) => asked
  | .rescue body rest, w =>
    match body.poll w with
    | (.ended outcome, next) => body.asks i w ++ (rest outcome).asks i next
    | _ => body.asks i w

/-- What becomes of a store in which these things happen. -/
structure Accounts (i : Nat) (w next : World R) (deeds : List (Deed R)) : Prop where
  size : next.stores.size = w.stores.size
  store : i < w.stores.size → next.storeAt i = ((w.storeAt i).run (operations deeds)).1
  time {deed : Deed R} : deed ∈ deeds → deed.time = w.now

namespace Accounts

variable {w middle next : World R} {deeds more : List (Deed R)}

theorem of_orders (h : next.stores = w.stores) (ho : operations deeds = [])
    (ht : ∀ deed ∈ deeds, deed.time = w.now) : Accounts i w next deeds where
  size := congrArg Array.size h
  store _ := by
    rw [ho]
    exact congrArg (·.getD i .empty) h
  time := ht _

theorem of_stores (h : next.stores = w.stores) : Accounts i w next [] :=
  of_orders h rfl fun _ hm => absurd hm List.not_mem_nil

theorem trans (h : Accounts i w middle deeds) (hn : middle.now = w.now)
    (h' : Accounts i middle next more) : Accounts i w next (deeds ++ more) where
  size := h'.size.trans h.size
  store hi := by
    rw [h'.store (h.size ▸ hi), h.store hi, operations_append, Store.run_append]
  time hm := (List.mem_append.mp hm).elim h.time fun hm => hn ▸ h'.time hm

theorem acquire (store : Nat) (key : String) (capacity : Nat) (rate : R) :
    Accounts i w (w.setStore store ((w.storeAt store).acquire key capacity rate w.now).1)
      ((if store = i then [⟨key, capacity, rate⟩] else []).map (.call · w.now)) where
  size := Array.size_setIfInBounds
  store hi := by
    split
    · rename_i he
      subst he
      rw [World.storeAt_setStore, if_pos hi]
      rfl
    · rename_i hne
      exact World.storeAt_setStore_of_ne hne _
  time hm := by
    obtain ⟨demand, -, rfl⟩ := List.mem_map.mp hm
    rfl

theorem evict (store : Nat) (sweeper : Option Nat) (after : Duration) :
    Accounts i w (w.evict store after).1
      (if store = i then [.sweep sweeper after w.now] else []) where
  size := Array.size_setIfInBounds
  store hi := by
    split
    · rename_i he
      subst he
      rw [World.evict, World.storeAt_setStore, if_pos hi]
      rfl
    · rename_i hne
      exact World.storeAt_setStore_of_ne hne _
  time hm := by
    split at hm
    · rw [List.mem_singleton.mp hm, Deed.time]
    · exact absurd hm List.not_mem_nil

theorem poll (call : Call) (w : World R) :
    Accounts i w (call.poll w).2 ((call.asks i w).map (.call · w.now)) := by
  induction call generalizing w with
  | reply ctx => exact .of_stores rfl
  | panic fault => exact .of_stores rfl
  | journal line rest ih =>
    have hwrite : Accounts i w (w.write [line]) [] := .of_stores rfl
    exact hwrite.trans rfl (ih (w.write [line]))
  | report event rest ih =>
    have hreport : Accounts i w (w.report event) [] := .of_stores rfl
    exact hreport.trans rfl (ih (w.report event))
  | clock rest ih => exact ih w.now w
  | today rest ih => exact ih w.date w
  | sleep span rest ih =>
    rw [Call.poll, Call.asks]
    split
    · exact ih w
    · exact .of_stores rfl
  | acquire store key capacity pace rest ih =>
    have hasked := Accounts.acquire (i := i) (w := w) store key capacity (pace.rate R)
    rw [Call.poll, Call.asks]
    cases ha : (w.storeAt store).acquire key capacity (pace.rate R) w.now with
    | mk s answer =>
      rw [ha] at hasked
      cases answer with
      | some decision =>
        rw [List.map_append]
        exact hasked.trans rfl (ih decision (w.setStore store s))
      | none => exact hasked
  | rescue body rest ihb ih =>
    have hbody := ihb w
    have hnow := body.now_poll w
    rw [Call.poll, Call.asks]
    cases hp : body.poll w with
    | mk pause next =>
      rw [hp] at hbody hnow
      cases pause with
      | ended outcome =>
        rw [List.map_append]
        exact hbody.trans hnow (hnow ▸ ih outcome next)
      | asleep span inner => exact hbody
      | racing racer limit inner => exact hbody
  | race body limit rest => exact .of_stores rfl

end Accounts

/-- The call of a request, unless its body cannot be read. -/
def Server.HttpServer.callOf? (server : HttpServer) (i : Incoming) : Option Call :=
  i.body.map fun body => dispatch (server.route i) (.ofRequest (i.request body))

namespace Service

variable {s next : Service R} {id : Nat}

omit [Amount R] in
theorem world_enqueueAll (s : Service R) (agents : List Agent) :
    (s.enqueueAll agents).world = s.world := by
  obtain ⟨queue, resumed, he⟩ := exists_enqueueAll s agents
  rw [he]

omit [Amount R] in
theorem world_leaveGate (s : Service R) : s.leaveGate.world = s.world := by
  rw [leaveGate]
  split
  · rfl
  · exact world_enqueueAll ..

omit [Amount R] in
theorem world_finish (s : Service R) (id : Nat) (outcome : Outcome) :
    (s.finish id outcome).world = s.world := by
  simp only [finish]
  split
  · split
    · exact world_enqueue ..
    · rfl
  · split
    · exact world_leaveGate _
    · exact world_leaveGate _
  · split
    · exact world_enqueueAll ..
    · rfl
  · rfl

theorem world_proceed (s : Service R) (id : Nat) (call : Call) :
    (s.proceed id call).world = (call.poll s.world).2 := by
  rw [proceed]
  cases call.poll s.world with
  | mk pause w =>
    cases pause with
    | ended outcome => exact world_finish ..
    | asleep span rest => rfl
    | racing body limit rest => exact world_spawn ..

/-- The call that a task goes on with in its turn. -/
def callAt? (s : Service R) (id : Nat) : Option Call :=
  match s.stage? id with
  | some (.arriving i) =>
    s.http.bind fun server => if 1 ≤ server.gate.free then server.callOf? i else none
  | some (.inLine i) =>
    s.http.bind fun server => if server.gate.isWaiting id then none else server.callOf? i
  | some (.unrouted delivery) =>
    match s.owner? id with
    | some (.delivery consumer _) => (s.consumers[consumer]?).map (·.process delivery)
    | _ => none
  | some stage => s.goesOn? stage
  | none => none

def asksAt (i : Nat) (s : Service R) : Option Call → List (Deed R)
  | some call => (call.asks i s.world).map (.call · s.world.now)
  | none => []

theorem accounts_serve {server : HttpServer} (hs : s.http = some server) (incoming : Incoming) :
    Accounts i s.world (s.serve id incoming).world (asksAt i s (server.callOf? incoming)) := by
  simp only [serve, hs]
  cases hb : incoming.body with
  | none =>
    have hcall : server.callOf? incoming = none := by rw [HttpServer.callOf?, hb, Option.map_none]
    rw [hcall]
    refine .of_stores ?_
    simp only [world_leaveGate]
    rfl
  | some body =>
    have hcall : server.callOf? incoming =
        some (dispatch (server.route incoming) (.ofRequest (incoming.request body))) := by
      rw [HttpServer.callOf?, hb, Option.map_some]
    rw [hcall]
    simp only [world_proceed]
    exact .poll _ _

theorem accounts_runTask (s : Service R) (id : Nat) :
    Accounts i s.world (s.runTask id).world (asksAt i s (s.callAt? id)) := by
  rw [runTask, callAt?]
  cases s.stage? id with
  | none => exact .of_stores rfl
  | some stage =>
    cases stage with
    | arriving incoming =>
      cases hs : s.http with
      | none => exact .of_stores rfl
      | some server =>
        by_cases hfree : 1 ≤ server.gate.free
        · simp only [Gate.take, hfree, if_true, Option.bind_some]
          exact accounts_serve (s := { s with http := some { server with gate := _ } }) rfl incoming
        · simp only [Gate.take, hfree, if_false, Option.bind_some]
          exact .of_stores rfl
    | inLine incoming =>
      cases hs : s.http with
      | none =>
        simp only [serve, hs]
        exact .of_stores (by split <;> rfl)
      | some server =>
        simp only [Option.any_some, Option.bind_some]
        split
        · exact .of_stores rfl
        · exact accounts_serve hs incoming
    | unrouted delivery =>
      simp only
      cases s.owner? id with
      | none => exact .of_stores rfl
      | some owner =>
        cases owner with
        | delivery consumer number =>
          simp only
          cases s.consumers[consumer]? with
          | none => exact .of_stores rfl
          | some c =>
            simp only [world_proceed, Option.map_some]
            exact .poll _ _
        | nobody => exact .of_stores rfl
        | parent task => exact .of_stores rfl
        | request incoming found => exact .of_stores rfl
    | ready call =>
      simp only [world_proceed, goesOn?]
      exact .poll call s.world
    | asleep due rest =>
      simp only [goesOn?]
      split
      · rw [world_proceed]
        exact .poll rest s.world
      · exact .of_stores rfl
    | racing child deadline rest =>
      simp only [goesOn?]
      cases s.verdict? child deadline with
      | some verdict =>
        simp only [world_proceed, Option.map_some]
        exact .poll _ _
      | none => exact .of_stores rfl
    | ended outcome time => exact .of_stores rfl
    | answered reply time => exact .of_stores rfl

omit [Amount R] in
theorem world_runIntake (s : Service R) (consumer : Nat) :
    (s.runIntake consumer).world = s.world := by
  rw [runIntake]
  cases s.consumers[consumer]? with
  | none => rfl
  | some c =>
    simp only
    split
    · rfl
    · rfl
    · split
      · exact world_spawn ..
      · rfl
    · exact world_enqueueAll ..

/-- The sweeper that sweeps in its turn. -/
def dueAt? (s : Service R) (id : Nat) : Option Sweeper :=
  (s.sweepers[id]?).filter fun sweeper => sweeper.next.any (· ≤ s.world.now)

omit [Amount R] in
theorem lt_of_not_due (h : s.dueAt? id = none) {sweeper : Sweeper} {due : Instant}
    (hs : s.sweepers[id]? = some sweeper) (hd : sweeper.next = some due) : s.world.now < due := by
  simpa [dueAt?, hs, hd, Option.filter] using h

theorem runSweeper_of_not_due (h : s.dueAt? id = none) : s.runSweeper id = s := by
  rw [runSweeper]
  cases hs : s.sweepers[id]? with
  | none => rfl
  | some sweeper =>
    cases hd : sweeper.next with
    | none => simp only [hd]
    | some due => simp only [hd, lt_of_not_due h hs hd, if_true]

theorem runSweeper_of_due {sweeper : Sweeper} (h : s.dueAt? id = some sweeper) :
    ∃ due event, s.sweepers[id]? = some sweeper ∧ sweeper.next = some due ∧ due ≤ s.world.now ∧
      s.runSweeper id = setTimer { s with
        world := (s.world.evict sweeper.store sweeper.evictAfter).1.report event
        sweepers := s.sweepers.setIfInBounds id
          { sweeper with next := some (due + sweeper.period.nanos) } }
        (due + sweeper.period.nanos) (.sweeper id) := by
  obtain ⟨hs, hany⟩ := Option.filter_eq_some_iff.mp h
  obtain ⟨due, hd, hle⟩ := (Option.any_eq_true _ _).mp hany
  have hle : due ≤ s.world.now := of_decide_eq_true hle
  have hrun : ∃ event, s.runSweeper id = setTimer { s with
      world := (s.world.evict sweeper.store sweeper.evictAfter).1.report event
      sweepers := s.sweepers.setIfInBounds id
        { sweeper with next := some (due + sweeper.period.nanos) } }
      (due + sweeper.period.nanos) (.sweeper id) := by
    simp only [runSweeper, hs, hd, Nat.not_lt.mpr hle, if_false]
    exact ⟨_, rfl⟩
  obtain ⟨event, he⟩ := hrun
  exact ⟨due, event, hs, hd, hle, he⟩

def sweepsAt (i : Nat) (s : Service R) (id : Nat) : List (Deed R) :=
  match s.dueAt? id with
  | some sweeper =>
    if sweeper.store = i then [.sweep (some id) sweeper.evictAfter s.world.now] else []
  | none => []

omit [Amount R] in
theorem sweepsAt_of_not_due (h : s.dueAt? id = none) : s.sweepsAt i id = [] := by
  rw [sweepsAt, h]

omit [Amount R] in
theorem sweepsAt_of_due {sweeper : Sweeper} (h : s.dueAt? id = some sweeper)
    (hi : sweeper.store = i) :
    s.sweepsAt i id = [.sweep (some id) sweeper.evictAfter s.world.now] := by
  simp only [sweepsAt, h, if_pos hi]

/-- What the turn of an agent does in a store. -/
def deeds (i : Nat) (s : Service R) : Agent → List (Deed R)
  | .task id => asksAt i s (s.callAt? id)
  | .intake _ => []
  | .sweeper id => s.sweepsAt i id

theorem accounts_runSweeper (s : Service R) (id : Nat) :
    Accounts i s.world (s.runSweeper id).world (s.sweepsAt i id) := by
  rw [sweepsAt]
  cases h : s.dueAt? id with
  | none =>
    rw [runSweeper_of_not_due h]
    exact .of_stores rfl
  | some sweeper =>
    obtain ⟨due, event, -, -, -, hrun⟩ := runSweeper_of_due h
    have hreport : Accounts i (s.world.evict sweeper.store sweeper.evictAfter).1
        (s.runSweeper id).world [] := .of_stores (by rw [hrun]; rfl)
    have hevict := Accounts.evict (i := i) (w := s.world) sweeper.store (some id) sweeper.evictAfter
    simpa using hevict.trans rfl hreport

/-- Of a store nothing else is asked in a turn. -/
theorem accounts_run (s : Service R) (agent : Agent) :
    Accounts i s.world (s.run agent).world (s.deeds i agent) := by
  cases agent with
  | task id => exact accounts_runTask s id
  | intake consumer => exact .of_stores (congrArg World.stores (world_runIntake s consumer))
  | sweeper id => exact accounts_runSweeper s id

end Service

end Switchboard
