import Mathlib.Data.Finset.Card
import Switchboard.Proofs.Server.Slots
import Switchboard.Proofs.Service.Steps

/-! The slots of the HTTP front end, and the requests that have them or wait for them. -/

namespace Switchboard

open Server

def Owner.isRequest : Owner → Bool
  | .request _ _ => true
  | _ => false

/-- Stages of a request that has asked for a slot and has no answer yet. -/
def Stage.claims : Stage → Bool
  | .inLine _ | .ready _ | .asleep _ _ | .racing _ _ _ => true
  | _ => false

def Task.claims (t : Task) : Bool :=
  t.owner.isRequest && t.stage.claims

@[simp] theorem claims_request (stage : Stage) (i : Incoming) (found : Bool) :
    Task.claims ⟨stage, .request i found⟩ = stage.claims := rfl

namespace Floor

/-- The gate of the HTTP front end keeps the account of the requests, who wait for one slot each. -/
structure Serves (f : Floor) (limit : Nat) (gate : Gate Nat) : Prop where
  gate_eq : f.gate = some gate
  account : gate.Account (fun _ => 1) limit (f.tasks.countP Task.claims)
  distinct : (gate.line.map (·.who)).Nodup
  waiting : ∀ id ∈ gate.line.map (·.who), ∃ i owner, f.tasks[id]? = some ⟨.inLine i, owner⟩

variable {f g : Floor} {limit : Nat} {gate behind : Gate Nat} {id : Nat} {task next : Task}

theorem isWaiting_iff : gate.isWaiting id = true ↔ id ∈ gate.line.map (·.who) := by
  simp [Gate.isWaiting]

theorem Serves.notMem (h : f.Serves limit gate) (ht : f.tasks[id]? = some task)
    (hs : ∀ i, task.stage ≠ .inLine i) : id ∉ gate.line.map (·.who) := by
  intro hm
  obtain ⟨i, owner, hi⟩ := h.waiting id hm
  rw [ht] at hi
  obtain rfl := Option.some.inj hi
  exact hs i rfl

theorem Serves.setTask (h : f.Serves limit gate) (hid : id ∉ gate.line.map (·.who))
    (ha : behind.Account (fun _ => 1) limit ((f.setTask id next).tasks.countP Task.claims))
    (hl : (behind.line.map (·.who)).Sublist (gate.line.map (·.who))) :
    ((f.setTask id next).setGate behind).Serves limit behind := by
  refine ⟨rfl, ha, h.distinct.sublist hl, fun j hj => ?_⟩
  have hne : id ≠ j := fun he => hid (he ▸ hl.subset hj)
  obtain ⟨i, owner, hi⟩ := h.waiting j (hl.subset hj)
  exact ⟨i, owner, (getElem?_setTask_of_ne hne next).trans hi⟩

/-- A task that claims a slot as much as before leaves the gate as it is. -/
theorem Serves.setTask_same (h : f.Serves limit gate) (ht : f.tasks[id]? = some task)
    (hs : ∀ i, task.stage ≠ .inLine i) (next : Task) (hc : next.claims = task.claims) :
    (f.setTask id next).Serves limit gate := by
  have hcount := countP_setTask ht next Task.claims
  rw [hc] at hcount
  have ha := h.account
  rw [← Nat.add_right_cancel hcount] at ha
  have hset := h.setTask (h.notMem ht hs) ha (List.Sublist.refl _)
  have hgate : (f.setTask id next).setGate gate = f.setTask id next := by
    rw [setGate, ← h.gate_eq]
    rfl
  rwa [hgate] at hset

theorem Serves.addTask (h : f.Serves limit gate) (hc : task.claims = false) :
    (f.addTask task).Serves limit gate := by
  refine ⟨h.gate_eq, ?_, h.distinct, fun j hj => ?_⟩
  · rw [countP_addTask, hc]
    exact h.account
  · obtain ⟨i, owner, hi⟩ := h.waiting j hj
    have hlt := (Array.getElem?_eq_some_iff.mp hi).1
    refine ⟨i, owner, ?_⟩
    rw [Floor.addTask, Array.getElem?_push, if_neg (Nat.ne_of_lt hlt), hi]

theorem Serves.lineUp {i : Incoming} {owner : Owner} (h : f.Serves limit gate)
    (ht : f.tasks[id]? = some ⟨.arriving i, owner⟩) (ho : owner.isRequest = true)
    (hfull : gate.free < 1) :
    ((f.setTask id ⟨.inLine i, owner⟩).setGate (gate.take id 1).1).Serves limit
      (gate.take id 1).1 := by
  have hid := h.notMem ht (by simp)
  have hline : (gate.take id 1).1.line.map (·.who) = gate.line.map (·.who) ++ [id] := by
    rw [Gate.take, if_neg (by omega)]
    simp
  have hcount := countP_setTask ht ⟨.inLine i, owner⟩ Task.claims
  simp only [Task.claims, ho, Stage.claims, Bool.and_false, Bool.and_true, Bool.false_eq_true,
    if_false, if_true, Nat.add_zero] at hcount
  refine ⟨rfl, ?_, ?_, fun j hj => ?_⟩
  · have ha := h.account.take id
    rwa [← hcount] at ha
  · rw [hline]
    exact List.Nodup.append h.distinct (List.nodup_singleton id) (by simpa using hid)
  · by_cases hne : id = j
    · subst hne
      exact ⟨i, owner, Service.getElem?_setTask f ht _⟩
    · have hj' : j ∈ gate.line.map (·.who) := by
        rw [hline] at hj
        simpa [Ne.symm hne] using hj
      obtain ⟨i', owner', hi⟩ := h.waiting j hj'
      exact ⟨i', owner', (getElem?_setTask_of_ne hne _).trans hi⟩

/-- The gate that a request leaves behind counts it among those that claim a slot. -/
theorem Serves.entered {i : Incoming} {stage : Stage} {owner : Owner} (h : f.Serves limit gate)
    (ht : f.tasks[id]? = some ⟨stage, owner⟩) (he : Entered gate id i stage behind) :
    id ∉ gate.line.map (·.who) ∧ behind.line = gate.line ∧
      behind.Account (fun _ => 1) limit
        (f.tasks.countP Task.claims + if stage.claims then 0 else 1) := by
  cases he with
  | atOnce hfree =>
    refine ⟨h.notMem ht (by simp), ?_, h.account.take id⟩
    rw [Gate.take, if_pos hfree]
  | called hw =>
    refine ⟨fun hm => ?_, rfl, h.account⟩
    rw [isWaiting_iff.mpr hm] at hw
    cases hw

theorem Serves.setConsumer (h : f.Serves limit gate) (j : Nat) (c : Consumer) :
    (f.setConsumer j c).Serves limit gate :=
  ⟨h.gate_eq, h.account, h.distinct, h.waiting⟩

theorem exists_serves_move (h : f.Serves limit gate) (hf : f.Fits) (hm : Move f g) :
    ∃ gate, g.Serves limit gate := by
  cases hm with
  | lineUp ht hg hfull =>
    obtain rfl := Option.some.inj (h.gate_eq.symm.trans hg)
    obtain ⟨i, found, rfl⟩ := hf.at ht
    exact ⟨_, h.lineUp ht rfl hfull⟩
  | @refuse id i stage owner _ behind ht hg he reply time =>
    obtain rfl := Option.some.inj (h.gate_eq.symm.trans hg)
    obtain ⟨i', found, rfl⟩ := he.owner (hf.at ht)
    obtain ⟨hid, hline, ha⟩ := h.entered ht he
    have hcount := countP_setTask ht ⟨.answered reply time, .request i' found⟩ Task.claims
    have hclaims : f.tasks.countP Task.claims + (if stage.claims then 0 else 1) =
        (f.setTask id ⟨.answered reply time, .request i' found⟩).tasks.countP Task.claims + 1 := by
      have hanswered : (Stage.answered reply time).claims = false := rfl
      cases hs : stage.claims <;> simp [hs, hanswered] at hcount ⊢ <;> omega
    rw [hclaims] at ha
    refine ⟨_, h.setTask hid ha.give ?_⟩
    rw [← hline]
    exact Gate.who_give_sublist behind 1
  | @serve id i stage owner _ behind ht hg he call found =>
    obtain rfl := Option.some.inj (h.gate_eq.symm.trans hg)
    obtain ⟨i', found', rfl⟩ := he.owner (hf.at ht)
    obtain ⟨hid, hline, ha⟩ := h.entered ht he
    have hcount := countP_setTask ht ⟨.ready call, .request i found⟩ Task.claims
    have hclaims : f.tasks.countP Task.claims + (if stage.claims then 0 else 1) =
        (f.setTask id ⟨.ready call, .request i found⟩).tasks.countP Task.claims := by
      have hready : (Stage.ready call).claims = true := rfl
      cases hs : stage.claims <;> simp [hs, hready] at hcount ⊢ <;> omega
    rw [hclaims] at ha
    refine ⟨_, h.setTask hid ha ?_⟩
    rw [hline]
  | route ht hc => exact ⟨gate, h.setTask_same ht (by simp) _ rfl⟩
  | goOn ht hn => cases hn <;> exact ⟨gate, h.setTask_same ht (by simp) _ rfl⟩
  | race ht deadline hr =>
    exact ⟨gate, Serves.addTask (h.setTask_same ht (by simp) _ rfl) rfl⟩
  | @close id call owner _ _ ht time hr hn hd =>
    refine ⟨gate, h.setTask_same ht (by simp) _ ?_⟩
    cases owner with
    | request i found =>
      rw [h.gate_eq] at hn
      cases hn i found rfl
    | _ => rfl
  | @answer id call stage i found _ ht hg hc =>
    obtain rfl := Option.some.inj (h.gate_eq.symm.trans hg)
    have hcount := countP_setTask ht ⟨stage, .request i found⟩ Task.claims
    have hclaims : f.tasks.countP Task.claims =
        (f.setTask id ⟨stage, .request i found⟩).tasks.countP Task.claims + 1 := by
      have hready : (Stage.ready call).claims = true := rfl
      have hover : stage.claims = false := by cases hc <;> rfl
      simp [hready, hover] at hcount
      omega
    have ha := h.account
    rw [hclaims] at ha
    exact ⟨_, h.setTask (h.notMem ht (by simp)) ha.give (Gate.who_give_sublist _ 1)⟩
  | settle ht hc time hr =>
    refine ⟨gate, Serves.setConsumer ?_ _ _⟩
    exact h.setTask_same ht (by simp) _ rfl

theorem Serves.intake (h : f.Serves limit gate) (j : Nat) (c : Consumer) :
    (f.intake j c).Serves limit gate := by
  rw [Floor.intake]
  split
  · exact (h.setConsumer j _).addTask rfl
  · exact h.setConsumer j _

theorem Serves.kept (i limit : Nat) : Kept i fun f _ _ => ∃ gate, f.Serves limit gate where
  move hf h hm := by
    obtain ⟨gate, hs⟩ := h
    exact exists_serves_move hs hf hm
  intake h _ := by
    obtain ⟨gate, hs⟩ := h
    exact ⟨gate, hs.intake i _⟩
  elsewhere h _ _ _ := by
    obtain ⟨gate, hs⟩ := h
    exact ⟨gate, hs.addTask rfl⟩
  arrive h hn := by
    obtain ⟨gate, hs⟩ := h
    exact ⟨gate, hs.addTask (by cases hn <;> rfl)⟩
  change h _ _ := by
    obtain ⟨gate, hs⟩ := h
    exact ⟨gate, hs.setConsumer i _⟩
  beginDrain h _ := by
    obtain ⟨gate, hs⟩ := h
    exact ⟨gate, hs.setConsumer i _⟩
  endDrain h _ _ := by
    obtain ⟨gate, hs⟩ := h
    exact ⟨gate, hs.setConsumer i _⟩
  around h ht _ hg := by
    obtain ⟨gate, hgate, ha, hd, hw⟩ := h
    exact ⟨gate, hg.trans hgate, by rwa [ht], hd, by rwa [ht]⟩

theorem card_filter_range (tasks : List Task) (p : Task → Bool) :
    ((Finset.range tasks.length).filter fun id => (tasks[id]?).any p).card = tasks.countP p := by
  induction tasks using List.reverseRecOn with
  | nil => rfl
  | append_singleton tasks task ih =>
    have hrest : (Finset.range tasks.length).filter
        (fun id => ((tasks ++ [task])[id]?).any p) =
        (Finset.range tasks.length).filter fun id => (tasks[id]?).any p := by
      refine Finset.filter_congr fun id hid => ?_
      rw [List.getElem?_append_left (Finset.mem_range.mp hid)]
    rw [List.length_append, List.length_singleton, Finset.range_add_one, Finset.filter_insert,
      hrest, List.countP_append, List.countP_singleton, List.getElem?_concat_length, ← ih]
    cases hp : p task with
    | false => simp [hp]
    | true =>
      rw [if_pos (by simpa using hp), Finset.card_insert_of_notMem (by simp)]
      rfl

end Floor

namespace Service

variable {R : Type}

/-- A request that has been given a slot and has not left it. -/
def holdsSlot (s : Service R) (id : Nat) : Bool :=
  (s.tasks[id]?).any Task.claims && !s.http.any (·.gate.isWaiting id)

def slotHolders (s : Service R) : Finset Nat :=
  (Finset.range s.tasks.size).filter (s.holdsSlot ·)

/-- Those who claim a slot and are not in line have one. -/
theorem card_slotHolders {s : Service R} {server : HttpServer} {limit : Nat}
    (hs : s.http = some server) (hf : s.floor.Fits) (h : s.floor.Serves limit server.gate) :
    s.slotHolders.card + server.gate.line.length = s.tasks.countP Task.claims := by
  let claiming := (Finset.range s.tasks.size).filter fun id => (s.tasks[id]?).any Task.claims
  have hclaiming : claiming.card = s.tasks.countP Task.claims := by
    have hcard := Floor.card_filter_range s.tasks.toList Task.claims
    simpa using hcard
  have hin : claiming.filter (server.gate.isWaiting · = true) =
      (server.gate.line.map (·.who)).toFinset := by
    ext id
    rw [Finset.mem_filter, Floor.isWaiting_iff, List.mem_toFinset]
    refine and_iff_right_of_imp fun hid => ?_
    obtain ⟨i, owner, hi⟩ := h.waiting id hid
    have htask : s.tasks[id]? = some ⟨.inLine i, owner⟩ := hi
    obtain ⟨i', found, rfl⟩ := hf.at hi
    have hlt := (Array.getElem?_eq_some_iff.mp htask).1
    exact Finset.mem_filter.mpr ⟨Finset.mem_range.mpr hlt, by rw [htask]; rfl⟩
  have hout : claiming.filter (¬ server.gate.isWaiting · = true) = s.slotHolders := by
    ext id
    simp [claiming, slotHolders, holdsSlot, hs, and_assoc]
  have hsplit := Finset.card_filter_add_card_filter_not (s := claiming) (server.gate.isWaiting · = true)
  rw [hin, hout, List.toFinset_card_of_nodup h.distinct, List.length_map, hclaiming] at hsplit
  omega

end Service

end Switchboard
