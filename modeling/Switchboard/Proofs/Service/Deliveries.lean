import Switchboard.Proofs.Server.Receipts
import Switchboard.Proofs.Service.Views

/-! What becomes of the deliveries of a consumer: in the source, with the task that the intake hands
them to, and after the end of that task. -/

namespace Switchboard

open Server

/-- The number of the delivery that a task works on for a consumer. -/
def Task.number? (i : Nat) (t : Task) : Option Nat :=
  (t.job? i).join

/-- What has become of the delivery of a task. -/
def Stage.receipt : Stage → Receipt
  | .ended outcome time => Consumer.receiptOf outcome time
  | _ => .pending

/-- Whether a task has answered a delivery that was not sent, with such a status. -/
def Task.answersDirectly (i : Nat) (p : Nat → Bool) (t : Task) : Bool :=
  t.stage.receipt.passes p && t.job? i == some none

theorem Stage.receipt_of_not_over {stage : Stage} (h : stage.isOver = false) :
    stage.receipt = .pending := by
  cases stage with
  | ended => cases h
  | _ => rfl

namespace Task

variable {i : Nat} {t u : Task}

theorem number?_delivery (i : Nat) (stage : Stage) (number : Option Nat) :
    number? i ⟨stage, .delivery i number⟩ = number := by
  rw [number?, job?_delivery]
  rfl

theorem job?_of_number? {n : Nat} (h : t.number? i = some n) : t.job? i = some (some n) :=
  Option.join_eq_some_iff.mp h

theorem Alike.number?_eq (h : t.Alike i u) : t.number? i = u.number? i :=
  congrArg Option.join h.job_eq

theorem Alike.receipt_eq (h : t.Alike i u) (hj : t.job? i ≠ none) :
    t.stage.receipt = u.stage.receipt := by
  have hover := h.inWork hj
  rw [Stage.receipt_of_not_over hover.1, Stage.receipt_of_not_over hover.2]

theorem Alike.answersDirectly_eq (h : t.Alike i u) (p : Nat → Bool) :
    t.answersDirectly i p = u.answersDirectly i p := by
  rw [answersDirectly, answersDirectly, ← h.job_eq]
  by_cases hj : t.job? i = none
  · simp [hj]
  · rw [h.receipt_eq hj]

end Task

theorem number?_newcomer {i : Nat} {task : Task} (h : Newcomer task) : task.number? i = none := by
  cases hn : task.number? i with
  | none => rfl
  | some n => exact absurd (Task.job?_of_number? hn) (job?_newcomer h)

theorem eq_of_nodup_filterMap {α β : Type} {l : List α} {f : α → Option β} {a b : Nat} {x y : α}
    {v : β} (h : (l.filterMap f).Nodup) (ha : l[a]? = some x) (hx : f x = some v)
    (hb : l[b]? = some y) (hy : f y = some v) : a = b := by
  induction l generalizing a b with
  | nil => cases ha
  | cons z l ih =>
    -- The head of the list is not there twice.
    have hhead : ∀ {n : Nat} {w : α}, l[n]? = some w → f w = some v → f z ≠ some v := by
      intro n w hn hw hz
      rw [List.filterMap_cons_some hz, List.nodup_cons] at h
      exact h.1 (List.mem_filterMap.mpr ⟨w, List.mem_of_getElem? hn, hw⟩)
    have htail : (l.filterMap f).Nodup := h.sublist ((List.sublist_cons_self z l).filterMap f)
    cases a with
    | zero =>
      cases b with
      | zero => rfl
      | succ b =>
        obtain rfl : z = x := Option.some.inj ha
        exact absurd hx (hhead hb hy)
    | succ a =>
      cases b with
      | zero =>
        obtain rfl : z = y := Option.some.inj hb
        exact absurd hy (hhead ha hx)
      | succ b => rw [ih htail ha hb]

namespace Floor

/-- The numbers of the deliveries that tasks of a consumer work on or have worked on. -/
def carried (f : Floor) (i : Nat) : List Nat :=
  f.tasks.toList.filterMap (Task.number? i)

/-- How many deliveries that were not sent have been answered with such a status. -/
def directly (f : Floor) (i : Nat) (p : Nat → Bool) : Nat :=
  f.tasks.countP (Task.answersDirectly i p)

structure Books (f : Floor) (i : Nat) (taken : List Nat) (c : Consumer) : Prop where
  consumer_eq : f.consumers[i]? = some c
  carried_eq : f.carried i = taken
  distinct : (taken ++ c.queue).Nodup
  known : ∀ n ∈ taken ++ c.queue, n < c.deliveries.size
  queued : ∀ n ∈ c.queue, c.receipt? n = some .pending
  worked {id : Nat} {task : Task} {n : Nat} (ht : f.tasks[id]? = some task)
    (hn : task.number? i = some n) : c.receipt? n = some task.stage.receipt
  unrouted {id : Nat} {d : Delivery} {owner : Owner} {n : Nat}
    (ht : f.tasks[id]? = some ⟨.unrouted d, owner⟩)
    (hn : Task.number? i ⟨.unrouted d, owner⟩ = some n) : c.delivery? n = some d
  replied {n : Nat} {reply : Reply} {time : Instant}
    (hr : c.receipt? n = some (.replied reply time)) : n ∈ taken
  idle : c.intake = .idle → c.source = none

variable {f g : Floor} {i : Nat} {taken : List Nat} {c : Consumer} {id : Nat} {task : Task}

theorem carried_setTask (h : f.tasks[id]? = some task) {next : Task}
    (hn : next.number? i = task.number? i) : (f.setTask id next).carried i = f.carried i := by
  have hfilter : ∀ tasks : List Task,
      tasks.filterMap (Task.number? i) = (tasks.map (Task.number? i)).filterMap (fun n => n) := by
    intro tasks
    rw [List.filterMap_map]
    rfl
  have hid : (f.tasks.toList.map (Task.number? i))[id]? = some (task.number? i) := by
    rw [List.getElem?_map, Array.getElem?_toList, h, Option.map_some]
  rw [carried, carried, hfilter, hfilter, setTask, Array.toList_setIfInBounds, List.map_set, hn]
  congr 1
  apply List.ext_getElem?
  intro j
  rw [List.getElem?_set]
  split
  · subst_vars
    rw [hid, if_pos (List.getElem?_eq_some_iff.mp hid).1]
  · rfl

theorem carried_addTask (f : Floor) (task : Task) :
    (f.addTask task).carried i = f.carried i ++ (task.number? i).toList := by
  rw [carried, carried, addTask, Array.toList_push, List.filterMap_append]
  cases h : task.number? i <;> simp [h]

/-- No two tasks work on the same delivery. -/
theorem Books.carrier_unique (h : f.Books i taken c) {id' : Nat} {task' : Task} {n : Nat}
    (ht : f.tasks[id]? = some task) (hn : task.number? i = some n)
    (ht' : f.tasks[id']? = some task') (hn' : task'.number? i = some n) : id = id' := by
  have hnodup : (f.carried i).Nodup := by
    rw [h.carried_eq]
    exact (List.nodup_append.mp h.distinct).1
  rw [← Array.getElem?_toList] at ht ht'
  exact eq_of_nodup_filterMap hnodup ht hn ht' hn'

theorem Books.mem_taken (h : f.Books i taken c) {n : Nat} (ht : f.tasks[id]? = some task)
    (hn : task.number? i = some n) : n ∈ taken := by
  rw [← h.carried_eq, carried, List.mem_filterMap]
  exact ⟨task, Array.mem_toList_iff.mpr (Array.mem_of_getElem? ht), hn⟩

theorem getElem?_setTask_cases {j : Nat} {next found : Task}
    (h : (f.setTask id next).tasks[j]? = some found) :
    (j = id ∧ found = next) ∨ (j ≠ id ∧ f.tasks[j]? = some found) := by
  rw [setTask, Array.getElem?_setIfInBounds] at h
  split at h
  · split at h
    · exact .inl ⟨by omega, (Option.some.inj h).symm⟩
    · cases h
  · exact .inr ⟨by omega, h⟩

theorem getElem?_addTask_cases {j : Nat} {found : Task}
    (h : (f.addTask task).tasks[j]? = some found) :
    (j = f.tasks.size ∧ found = task) ∨ f.tasks[j]? = some found := by
  rw [addTask, Array.getElem?_push] at h
  split at h
  · rename_i hj
    exact .inl ⟨hj, (Option.some.inj h).symm⟩
  · exact .inr h

/-- A task that goes on with its delivery, or has none, leaves the books as they are. -/
theorem Books.setTask (h : f.Books i taken c) (ht : f.tasks[id]? = some task) (next : Task)
    (hn : next.number? i = task.number? i)
    (hr : ∀ n, next.number? i = some n → next.stage.receipt = task.stage.receipt)
    (hu : ∀ d, next.stage ≠ .unrouted d) : (f.setTask id next).Books i taken c := by
  refine ⟨h.consumer_eq, ?_, h.distinct, h.known, h.queued, ?_, ?_, h.replied, h.idle⟩
  · rw [carried_setTask ht hn, h.carried_eq]
  · intro j found n hj hnumber
    rcases getElem?_setTask_cases hj with ⟨rfl, rfl⟩ | ⟨-, hj⟩
    · rw [hr n hnumber]
      exact h.worked ht (hn.symm.trans hnumber)
    · exact h.worked hj hnumber
  · intro j d owner n hj hnumber
    rcases getElem?_setTask_cases hj with ⟨rfl, rfl⟩ | ⟨-, hj⟩
    · cases hu d rfl
    · exact h.unrouted hj hnumber

theorem Books.addTask (h : f.Books i taken c) (hn : task.number? i = none) :
    (f.addTask task).Books i taken c := by
  refine ⟨h.consumer_eq, ?_, h.distinct, h.known, h.queued, ?_, ?_, h.replied, h.idle⟩
  · rw [carried_addTask, hn, h.carried_eq]
    exact List.append_nil taken
  · intro j found n hj hnumber
    rcases getElem?_addTask_cases hj with ⟨-, rfl⟩ | hj
    · rw [hn] at hnumber
      cases hnumber
    · exact h.worked hj hnumber
  · intro j d owner n hj hnumber
    rcases getElem?_addTask_cases hj with ⟨-, rfl⟩ | hj
    · rw [hn] at hnumber
      cases hnumber
    · exact h.unrouted hj hnumber

/-- The books do not depend on the slots. -/
theorem Books.setConsumer (h : f.Books i taken c) (next : Consumer)
    (hd : next.deliveries = c.deliveries) (hq : next.queue = c.queue)
    (hi : next.intake = .idle → next.source = none) :
    (f.setConsumer i next).Books i taken next := by
  have hreceipt : next.receipt? = c.receipt? := by
    funext n
    rw [Consumer.receipt?, hd, Consumer.receipt?]
  have hdelivery : next.delivery? = c.delivery? := by
    funext n
    rw [Consumer.delivery?, hd, Consumer.delivery?]
  refine ⟨getElem?_setConsumer h.consumer_eq next, h.carried_eq, ?_, ?_, ?_, ?_, ?_, ?_, hi⟩
  · rw [hq]
    exact h.distinct
  · rw [hq, hd]
    exact h.known
  · rw [hq, hreceipt]
    exact h.queued
  · rw [hreceipt]
    exact h.worked
  · rw [hdelivery]
    exact h.unrouted
  · rw [hreceipt]
    exact h.replied

theorem Books.idle_finish (h : f.Books i taken c) (number : Option Nat) (outcome : Outcome)
    (time : Instant) (hi : (c.finish number outcome time).1.intake = .idle) :
    (c.finish number outcome time).1.source = none := by
  rw [Consumer.intake_finish] at hi
  rw [Consumer.source_finish]
  exact h.idle hi

theorem Books.settle_direct (h : f.Books i taken c) {call : Call}
    (ht : f.tasks[id]? = some ⟨.ready call, .delivery i none⟩) (outcome : Outcome) (time : Instant) :
    ((f.setTask id ⟨.ended outcome time, .delivery i none⟩).setConsumer i
      (c.finish none outcome time).1).Books i taken (c.finish none outcome time).1 := by
  have hnone : ∀ stage, Task.number? i ⟨stage, .delivery i none⟩ = none := fun stage =>
    Task.number?_delivery i stage none
  have hset : (f.setTask id ⟨.ended outcome time, .delivery i none⟩).Books i taken c := by
    refine h.setTask ht _ ((hnone _).trans (hnone _).symm) (fun n hn => ?_) (by simp)
    cases (hnone _).symm.trans hn
  exact hset.setConsumer _ (c.deliveries_finish_none outcome time) (c.queue_finish none outcome time)
    (h.idle_finish none outcome time)

/-- The delivery of a task gets its receipt when the task ends, and no other delivery does. -/
theorem Books.settle_sent (h : f.Books i taken c) {call : Call} {n : Nat}
    (ht : f.tasks[id]? = some ⟨.ready call, .delivery i (some n)⟩) (outcome : Outcome)
    (time : Instant) :
    ((f.setTask id ⟨.ended outcome time, .delivery i (some n)⟩).setConsumer i
      (c.finish (some n) outcome time).1).Books i taken (c.finish (some n) outcome time).1 := by
  have hqueue := c.queue_finish (some n) outcome time
  have hnumber : ∀ stage, Task.number? i ⟨stage, .delivery i (some n)⟩ = some n := fun stage =>
    Task.number?_delivery i stage (some n)
  have hpending := h.worked ht (hnumber _)
  have htaken := h.mem_taken ht (hnumber _)
  have hreceipt := c.receipt?_finish outcome time n
  have hother : ∀ m, n ≠ m →
      (c.finish (some n) outcome time).1.receipt? m = c.receipt? m := by
    intro m hne
    rw [hreceipt, if_neg hne]
  refine ⟨getElem?_setConsumer h.consumer_eq _, ?_, ?_, ?_, ?_, ?_, ?_, ?_,
    h.idle_finish (some n) outcome time⟩
  · have hcarried := carried_setTask ht
      ((hnumber (.ended outcome time)).trans (hnumber (.ready call)).symm)
    exact hcarried.trans h.carried_eq
  · rw [hqueue]
    exact h.distinct
  · rw [hqueue, Consumer.size_finish]
    exact h.known
  · intro m hm
    rw [hqueue] at hm
    have hne : n ≠ m := by
      rintro rfl
      exact (List.nodup_append.mp h.distinct).2.2 n htaken n hm rfl
    rw [hother m hne]
    exact h.queued m hm
  · intro j found m hj hm
    rcases getElem?_setTask_cases hj with ⟨rfl, rfl⟩ | ⟨hne, hj⟩
    · obtain rfl : n = m := Option.some.inj ((hnumber _).symm.trans hm)
      rw [hreceipt, if_pos rfl, hpending]
      rfl
    · have hnm : n ≠ m := by
        rintro rfl
        exact hne (h.carrier_unique hj hm ht (hnumber _))
      rw [hother m hnm]
      exact h.worked hj hm
  · intro j d owner m hj hm
    rw [Consumer.delivery?_finish]
    rcases getElem?_setTask_cases hj with ⟨-, he⟩ | ⟨-, hj⟩
    · cases he
    · exact h.unrouted hj hm
  · intro m reply t hm
    by_cases hnm : n = m
    · exact hnm ▸ htaken
    · rw [hother m hnm] at hm
      exact h.replied hm

theorem Books.endIntake (h : f.Books i taken c) :
    (f.setConsumer i c.endIntake).Books i taken c.endIntake := by
  have hreceipt : ∀ n ∈ taken, c.endIntake.receipt? n = c.receipt? n := by
    intro n hn
    have hq : n ∉ c.queue := fun hq => (List.nodup_append.mp h.distinct).2.2 n hn n hq rfl
    rw [c.receipt?_endIntake, if_neg hq]
  refine ⟨getElem?_setConsumer h.consumer_eq _, h.carried_eq, ?_, ?_, ?_, ?_, ?_, ?_, ?_⟩
  · rw [c.queue_endIntake, List.append_nil]
    exact (List.nodup_append.mp h.distinct).1
  · rw [c.queue_endIntake, List.append_nil, c.size_endIntake]
    exact fun n hn => h.known n (List.mem_append_left _ hn)
  · rw [c.queue_endIntake]
    simp
  · intro id task n ht hn
    have hid : f.tasks[id]? = some task := ht
    rw [hreceipt n (h.mem_taken hid hn)]
    exact h.worked ht hn
  · intro id d owner n ht hn
    rw [c.delivery?_endIntake]
    exact h.unrouted ht hn
  · intro n reply time hr
    rw [c.receipt?_endIntake] at hr
    split at hr
    · cases hn : c.receipt? n <;> simp [hn] at hr
    · exact h.replied hr
  · intro _
    rw [c.endIntake_eq]

theorem setConsumer_setConsumer (f : Floor) (i : Nat) (first second : Consumer) :
    (f.setConsumer i first).setConsumer i second = f.setConsumer i second := by
  simp [Floor.setConsumer]

theorem Books.takes (h : f.Books i taken c) {s : Source} {number : Nat} {rest : List Nat}
    (hs : c.source = some s) (hq : s.queue = number :: rest) {d : Delivery}
    (hd : c.delivery? number = some d) :
    let next : Consumer := { c with source := some { s with queue := rest }, intake := .seeking }
    ((f.setConsumer i next).addTask ⟨.unrouted d, .delivery i (some number)⟩).Books i
      (taken ++ [number]) next := by
  intro next
  have hqueue : c.queue = number :: rest := by simp [Consumer.queue, hs, hq]
  have hnext : next.queue = rest := by simp [Consumer.queue, next]
  have hlist : taken ++ [number] ++ next.queue = taken ++ c.queue := by
    rw [hnext, hqueue, List.append_assoc, List.singleton_append]
  have hnumber : Task.number? i ⟨.unrouted d, .delivery i (some number)⟩ = some number :=
    Task.number?_delivery i _ _
  refine ⟨getElem?_setConsumer h.consumer_eq next, ?_, ?_, ?_, ?_, ?_, ?_, ?_, ?_⟩
  · rw [carried_addTask, hnumber, ← h.carried_eq]
    rfl
  · rw [hlist]
    exact h.distinct
  · rw [hlist]
    exact h.known
  · intro n hn
    rw [hnext] at hn
    exact h.queued n (hqueue ▸ List.mem_cons_of_mem number hn)
  · intro id task n ht hn
    rcases getElem?_addTask_cases ht with ⟨-, rfl⟩ | ht
    · obtain rfl : number = n := Option.some.inj (hnumber.symm.trans hn)
      exact h.queued number (hqueue ▸ List.mem_cons_self)
    · exact h.worked ht hn
  · intro id d' owner n ht hn
    rcases getElem?_addTask_cases ht with ⟨-, he⟩ | ht
    · obtain ⟨hstage, rfl⟩ := Task.mk.inj he
      obtain rfl := Stage.unrouted.inj hstage
      obtain rfl : number = n := Option.some.inj (hnumber.symm.trans hn)
      exact hd
    · exact h.unrouted ht hn
  · intro n reply time hr
    exact List.mem_append_left _ (h.replied hr)
  · intro hi
    cases hi

theorem Books.send (h : f.Books i taken c) (d : Delivery) (hr : c.isReachable = true) :
    (f.setConsumer i (c.send d)).Books i taken (c.send d) := by
  have hqueue : taken ++ (c.send d).queue = taken ++ c.queue ++ [c.deliveries.size] := by
    rw [c.queue_send d hr, List.append_assoc]
  have hsize : (c.send d).deliveries.size = c.deliveries.size + 1 := by simp [Consumer.send]
  have hreceipt : ∀ n ∈ taken ++ c.queue, (c.send d).receipt? n = c.receipt? n := by
    intro n hn
    rw [Consumer.receipt?_send, if_neg (Nat.ne_of_lt (h.known n hn))]
  refine ⟨getElem?_setConsumer h.consumer_eq _, h.carried_eq, ?_, ?_, ?_, ?_, ?_, ?_, ?_⟩
  · rw [hqueue, List.nodup_append]
    refine ⟨h.distinct, by simp, fun n hn m hm => ?_⟩
    rw [List.mem_singleton.mp hm]
    exact Nat.ne_of_lt (h.known n hn)
  · intro n hn
    rw [hqueue, List.mem_append, List.mem_singleton] at hn
    rw [hsize]
    rcases hn with hn | rfl
    · exact Nat.lt_succ_of_lt (h.known n hn)
    · exact Nat.lt_succ_self _
  · intro n hn
    rw [c.queue_send d hr, List.mem_append, List.mem_singleton] at hn
    rcases hn with hn | rfl
    · rw [hreceipt n (List.mem_append_right _ hn)]
      exact h.queued n hn
    · rw [Consumer.receipt?_send, if_pos rfl]
  · intro id task n ht hn
    have hid : f.tasks[id]? = some task := ht
    rw [hreceipt n (List.mem_append_left _ (h.mem_taken hid hn))]
    exact h.worked ht hn
  · intro id d' owner n ht hn
    exact Consumer.delivery?_send (h.unrouted ht hn)
  · intro n reply time hr'
    rw [Consumer.receipt?_send] at hr'
    split at hr'
    · cases hr'
    · exact h.replied hr'
  · intro hi
    have hsource : c.source = none := h.idle hi
    simp [Consumer.send, hsource]

theorem Books.around (h : f.Books i taken c) (ht : g.tasks = f.tasks)
    (hc : g.consumers[i]? = some c) : g.Books i taken c := by
  refine ⟨hc, ?_, h.distinct, h.known, h.queued, ?_, ?_, h.replied, h.idle⟩
  · rw [carried, ht]
    exact h.carried_eq
  · rw [ht]
    exact h.worked
  · rw [ht]
    exact h.unrouted

/-- How the books go on from one floor to a later one. -/
structure Continues (i : Nat) (f : Floor) (taken : List Nat) (c : Consumer) (g : Floor)
    (taken' : List Nat) (c' : Consumer) : Prop where
  books : g.Books i taken' c'
  grows : Consumer.Grows taken c taken' c'
  tally : c.Tallies (f.directly i) → c'.Tallies (g.directly i)

theorem Continues.refl (h : f.Books i taken c) : Continues i f taken c f taken c :=
  ⟨h, .refl taken c, id⟩

theorem Continues.trans {f' : Floor} {taken' taken'' : List Nat} {c' c'' : Consumer}
    (h : Continues i f taken c f' taken' c') (h' : Continues i f' taken' c' g taken'' c'') :
    Continues i f taken c g taken'' c'' :=
  ⟨h'.books, h.grows.trans h'.grows, h'.tally ∘ h.tally⟩

theorem directly_setTask (h : f.tasks[id]? = some task) {next : Task} {p : Nat → Bool}
    (hn : next.answersDirectly i p = task.answersDirectly i p) :
    (f.setTask id next).directly i p = f.directly i p := by
  have hcount := countP_setTask h next (Task.answersDirectly i p)
  rw [hn] at hcount
  exact Nat.add_right_cancel hcount

theorem directly_addTask (hp : task.stage.receipt = .pending) (p : Nat → Bool) :
    (f.addTask task).directly i p = f.directly i p := by
  rw [directly, countP_addTask, Task.answersDirectly, hp]
  rfl

theorem Books.goesOn (h : f.Books i taken c) (ht : f.tasks[id]? = some task) (next : Task)
    (ha : next.Alike i task) (hu : ∀ d, next.stage ≠ .unrouted d) :
    Continues i f taken c (f.setTask id next) taken c where
  books := by
    refine h.setTask ht next ha.number?_eq (fun n hn => ha.receipt_eq ?_) hu
    simp [Task.job?_of_number? hn]
  grows := .refl taken c
  tally hc := hc.congr rfl fun p => by rw [directly_setTask ht (ha.answersDirectly_eq p)]

theorem Continues.addTask (h : Continues i f taken c g taken c) (hn : task.number? i = none)
    (hp : task.stage.receipt = .pending) :
    Continues i f taken c (g.addTask task) taken c where
  books := h.books.addTask hn
  grows := h.grows
  tally hc := (h.tally hc).congr rfl fun p => by rw [directly_addTask hp]

theorem Continues.around {f' : Floor} {taken' : List Nat} {c' : Consumer}
    (h : Continues i f taken c f' taken' c') (ht : g.tasks = f'.tasks)
    (hc : g.consumers[i]? = some c') : Continues i f taken c g taken' c' where
  books := h.books.around ht hc
  grows := h.grows
  tally ha := (h.tally ha).congr rfl fun p => by rw [directly, ht, directly]

theorem Books.replace (h : f.Books i taken c) (next : Consumer)
    (hd : next.deliveries = c.deliveries) (hq : next.queue = c.queue)
    (hi : next.intake = .idle → next.source = none) (hs : next.stats = c.stats) :
    Continues i f taken c (f.setConsumer i next) taken next where
  books := h.setConsumer next hd hq hi
  grows := .of_deliveries_eq hd (by rw [hq])
  tally ha := ha.congr hs fun p => by
    rw [Consumer.answered, hd]
    rfl

theorem Books.finishes (h : f.Books i taken c) {call : Call} {number : Option Nat}
    (ht : f.tasks[id]? = some ⟨.ready call, .delivery i number⟩) (outcome : Outcome)
    (time : Instant) :
    Continues i f taken c
      ((f.setTask id ⟨.ended outcome time, .delivery i number⟩).setConsumer i
        (c.finish number outcome time).1) taken (c.finish number outcome time).1 := by
  have hpending : ∀ n, number = some n → c.receipt? n = some .pending := by
    rintro n rfl
    exact h.worked ht (Task.number?_delivery i _ _)
  refine ⟨?_, Consumer.grows_finish number outcome time hpending, fun ha => ?_⟩
  · cases number with
    | none => exact h.settle_direct ht outcome time
    | some n => exact h.settle_sent ht outcome time
  refine ha.finish number outcome time fun p => ?_
  have hcount := countP_setTask ht ⟨.ended outcome time, .delivery i number⟩
    (Task.answersDirectly i p)
  have hready : Task.answersDirectly i p ⟨.ready call, .delivery i number⟩ = false := rfl
  have hdirectly : ((f.setTask id ⟨.ended outcome time, .delivery i number⟩).setConsumer i
      (c.finish number outcome time).1).directly i p =
    (f.setTask id ⟨.ended outcome time, .delivery i number⟩).tasks.countP
      (Task.answersDirectly i p) := rfl
  rw [hready, if_neg Bool.false_ne_true, Nat.add_zero] at hcount
  rw [hdirectly, hcount]
  cases number with
  | none =>
    have hended : Task.answersDirectly i p ⟨.ended outcome time, .delivery i none⟩ =
        (Consumer.receiptOf outcome time).passes p := by
      simp [Task.answersDirectly, Task.job?_delivery, Stage.receipt]
    rw [hended, Consumer.answered, c.deliveries_finish_none]
    exact (Nat.add_assoc ..).symm
  | some n =>
    have hended : Task.answersDirectly i p ⟨.ended outcome time, .delivery i (some n)⟩ = false := by
      simp [Task.answersDirectly, Task.job?_delivery]
    rw [hended, Consumer.answered_finish outcome time (hpending n rfl)]
    exact Nat.add_right_comm ..

theorem exists_continues_move (h : f.Books i taken c) (hf : f.Fits) (hm : Move f g) :
    ∃ c', Continues i f taken c g taken c' := by
  cases seen_of_move h.consumer_eq hf hm with
  | goesOn ht ha hu hg hc => exact ⟨c, (h.goesOn ht _ ha hu).around hg hc⟩
  | races ht ha hu hg hc => exact ⟨c, ((h.goesOn ht _ ha hu).addTask rfl rfl).around hg hc⟩
  | settles ht outcome time hg => exact ⟨_, hg ▸ h.finishes ht outcome time⟩

theorem Books.drops (h : f.Books i taken c) :
    Continues i f taken c (f.setConsumer i c.endIntake) taken c.endIntake where
  books := h.endIntake
  grows := Consumer.grows_endIntake h.queued
  tally ha := by
    refine ha.congr (by rw [c.endIntake_eq]) fun p => ?_
    rw [Consumer.answered_endIntake]
    · rfl
    · intro n hn reply time hr
      rw [h.queued n hn] at hr
      cases hr

theorem exists_continues_intake (h : f.Books i taken c) :
    ∃ c', Continues i f taken c (f.intake i c) (taken ++ c.next?.toList) c' := by
  have hturn := c.turn_advance
  rw [Floor.intake]
  generalize c.advance.1 = next at hturn ⊢
  generalize c.next? = number at hturn ⊢
  have hdrops : ∀ gate, Continues i f taken c (f.setConsumer i { c with gate := gate }.endIntake)
      taken { c with gate := gate }.endIntake := by
    intro gate
    have hgate := h.replace { c with gate := gate } rfl rfl h.idle rfl
    have hends := hgate.trans hgate.books.drops
    rwa [setConsumer_setConsumer] at hends
  cases hturn with
  | waits =>
    rw [Option.toList_none, List.append_nil]
    exact ⟨c, h.replace c rfl rfl h.idle rfl⟩
  | ends hi =>
    rw [Option.toList_none, List.append_nil]
    exact ⟨_, h.drops⟩
  | asks hi =>
    rw [Option.toList_none, List.append_nil]
    refine ⟨_, h.replace _ rfl rfl (fun hidle => ?_) rfl⟩
    simp only at hidle
    split at hidle <;> cases hidle
  | leaves hi hw =>
    rw [Option.toList_none, List.append_nil]
    exact ⟨_, hdrops _⟩
  | gets hi hw =>
    rw [Option.toList_none, List.append_nil]
    exact ⟨_, h.replace _ rfl rfl (fun hidle => by cases hidle) rfl⟩
  | quits hi =>
    rw [Option.toList_none, List.append_nil]
    exact ⟨_, hdrops _⟩
  | @takes s number rest hi hs hq =>
    let next : Consumer := { c with source := some { s with queue := rest }, intake := .seeking }
    have hqueue : c.queue = number :: rest := by simp [Consumer.queue, hs, hq]
    have hlt : number < c.deliveries.size :=
      h.known number (List.mem_append_right _ (by simp [hqueue]))
    have hdelivery : next.delivery? number = some c.deliveries[number].1 := by
      simp [Consumer.delivery?, next, hlt]
    have hlist : taken ++ [number] ++ next.queue = taken ++ c.queue := by
      rw [hqueue, List.append_assoc]
      rfl
    rw [Option.toList_some, Option.bind_some, hdelivery]
    refine ⟨next, h.takes hs hq hdelivery, .of_deliveries_eq rfl hlist, fun ha => ?_⟩
    refine ha.congr rfl fun p => ?_
    rw [directly_addTask rfl]
    rfl

theorem exists_continues_change (h : f.Books i taken c) {next : Consumer} (hn : c.Change next) :
    ∃ c', Continues i f taken c (f.setConsumer i next) taken c' := by
  refine ⟨next, ?_⟩
  cases hn with
  | push hp =>
    obtain ⟨router, rfl⟩ := Consumer.push_eq hp
    exact h.replace _ rfl rfl h.idle rfl
  | send d hr hm =>
    refine ⟨h.send d hr, Consumer.grows_send d hr, fun ha => ?_⟩
    refine ha.congr rfl fun p => ?_
    rw [Consumer.answered_send]
    rfl
  | closeSource =>
    refine h.replace _ rfl c.queue_closeSource (fun hi => ?_) rfl
    have hsource : c.source = none := h.idle hi
    rw [Consumer.closeSource, hsource, Option.map_none]
  | start hi hs =>
    obtain rfl := Consumer.start_eq hs
    have hqueue : c.queue = [] := by rw [Consumer.queue, h.idle hi, Option.map_none, Option.getD_none]
    exact h.replace _ rfl (by rw [hqueue]; rfl) (fun hidle => by cases hidle) rfl
  | signal => exact h.replace _ rfl rfl h.idle rfl
  | overlook => exact h.replace _ rfl rfl h.idle rfl

/-- The books go on from a floor whatever happens. -/
theorem Continues.kept (i : Nat) (f : Floor) (taken : List Nat) (c : Consumer) :
    Kept i fun g taken' _ => ∃ c', Continues i f taken c g taken' c' where
  move hf h hm := by
    obtain ⟨c₁, h⟩ := h
    obtain ⟨c₂, h'⟩ := exists_continues_move h.books hf hm
    exact ⟨c₂, h.trans h'⟩
  intake h hc := by
    obtain ⟨c₁, h⟩ := h
    obtain rfl := Option.some.inj (h.books.consumer_eq.symm.trans hc)
    obtain ⟨c₂, h'⟩ := exists_continues_intake h.books
    exact ⟨c₂, h.trans h'⟩
  elsewhere h hj d number := by
    obtain ⟨c₁, h⟩ := h
    have hjob := Task.job?_elsewhere hj (.unrouted d) (some number)
    exact ⟨c₁, h.trans ((Continues.refl h.books).addTask (congrArg Option.join hjob) rfl)⟩
  arrive h hn := by
    obtain ⟨c₁, h⟩ := h
    have hadd := (Continues.refl h.books).addTask (number?_newcomer hn) (by cases hn <;> rfl)
    exact ⟨c₁, h.trans hadd⟩
  change h hc hn := by
    obtain ⟨c₁, h⟩ := h
    obtain rfl := Option.some.inj (h.books.consumer_eq.symm.trans hc)
    obtain ⟨c₂, h'⟩ := exists_continues_change h.books hn
    exact ⟨c₂, h.trans h'⟩
  beginDrain h hc := by
    obtain ⟨c₁, h⟩ := h
    obtain rfl := Option.some.inj (h.books.consumer_eq.symm.trans hc)
    exact ⟨_, h.trans (h.books.replace _ rfl rfl h.books.idle rfl)⟩
  endDrain h hc _ := by
    obtain ⟨c₁, h⟩ := h
    obtain rfl := Option.some.inj (h.books.consumer_eq.symm.trans hc)
    exact ⟨_, h.trans (h.books.replace _ rfl rfl h.books.idle rfl)⟩
  around h ht hc _ := by
    obtain ⟨c₁, h⟩ := h
    exact ⟨c₁, h.around ht (hc.trans h.books.consumer_eq)⟩

end Floor

end Switchboard
