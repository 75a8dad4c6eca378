import Switchboard.Proofs.Service.Steps

/-! What a move is for one consumer: a task goes on, or the work on a delivery ends. -/

namespace Switchboard

open Server

def Stage.isOver : Stage → Bool
  | .ended _ _ | .answered _ _ => true
  | _ => false

namespace Task

/-- The delivery of a consumer that a task is for, with its number if it was sent. -/
def job? (i : Nat) (t : Task) : Option (Option Nat) :=
  match t.owner with
  | .delivery j number => if j = i then some number else none
  | _ => none

variable {i j : Nat} {t u : Task}

theorem job?_delivery (i : Nat) (stage : Stage) (number : Option Nat) :
    job? i ⟨stage, .delivery i number⟩ = some number := by
  simp [job?]

theorem job?_elsewhere (hj : j ≠ i) (stage : Stage) (number : Option Nat) :
    job? i ⟨stage, .delivery j number⟩ = none := by
  simp [job?, hj]

theorem owner_of_job? {number : Option Nat} (h : t.job? i = some number) :
    t.owner = .delivery i number := by
  obtain ⟨stage, owner⟩ := t
  cases owner with
  | delivery j m =>
    by_cases hj : j = i
    · subst hj
      rw [job?_delivery] at h
      rw [Option.some.inj h]
    · rw [job?_elsewhere hj] at h
      cases h
  | _ => cases h

/-- Two tasks are for the same delivery of a consumer, which is in work with both, or for none. -/
structure Alike (i : Nat) (t u : Task) : Prop where
  job_eq : t.job? i = u.job? i
  inWork (h : t.job? i ≠ none) : t.stage.isOver = false ∧ u.stage.isOver = false

theorem Alike.of_none (h : t.job? i = none) (h' : u.job? i = none) : t.Alike i u :=
  ⟨h.trans h'.symm, fun hne => absurd h hne⟩

theorem Alike.of_owner {stage next : Stage} (h : next.isOver = false) (h' : stage.isOver = false)
    (owner : Owner) : Alike i ⟨next, owner⟩ ⟨stage, owner⟩ :=
  ⟨rfl, fun _ => ⟨h, h'⟩⟩

end Task

theorem job?_newcomer {i : Nat} {task : Task} {n : Nat} (h : Newcomer task) :
    task.job? i ≠ some (some n) := by
  intro hj
  cases h with
  | delivery j d => cases Task.owner_of_job? hj
  | _ => cases hj

namespace Floor

/-- What a move is for a consumer. -/
inductive Seen (f : Floor) (i : Nat) (c : Consumer) (g : Floor) : Prop
  | goesOn {id : Nat} {task next : Task} (ht : f.tasks[id]? = some task) (ha : next.Alike i task)
    (hu : ∀ d, next.stage ≠ .unrouted d) (hg : g.tasks = (f.setTask id next).tasks)
    (hc : g.consumers[i]? = some c)
  | races {id : Nat} {task next : Task} {body : Call} (ht : f.tasks[id]? = some task)
    (ha : next.Alike i task) (hu : ∀ d, next.stage ≠ .unrouted d)
    (hg : g.tasks = ((f.setTask id next).addTask ⟨.ready body, .parent id⟩).tasks)
    (hc : g.consumers[i]? = some c)
  | settles {id : Nat} {call : Call} {number : Option Nat}
    (ht : f.tasks[id]? = some ⟨.ready call, .delivery i number⟩) (outcome : Outcome) (time : Instant)
    (hg : g = (f.setTask id ⟨.ended outcome time, .delivery i number⟩).setConsumer i
      (c.finish number outcome time).1)

theorem seen_of_move {f g : Floor} {i : Nat} {c : Consumer} (hc : f.consumers[i]? = some c)
    (hf : f.Fits) (hm : Move f g) : f.Seen i c g := by
  cases hm with
  | lineUp ht hg hfull =>
    obtain ⟨i', found, rfl⟩ := hf.at ht
    exact .goesOn ht (.of_none rfl rfl) (by simp) rfl hc
  | refuse ht hg he reply time =>
    obtain ⟨i', found, rfl⟩ := he.owner (hf.at ht)
    exact .goesOn ht (.of_none rfl rfl) (by simp) rfl hc
  | serve ht hg he call found =>
    obtain ⟨i', found', rfl⟩ := he.owner (hf.at ht)
    exact .goesOn ht (.of_none rfl rfl) (by simp) rfl hc
  | route ht _ => exact .goesOn ht (.of_owner rfl rfl _) (by simp) rfl hc
  | goOn ht hn => cases hn <;> exact .goesOn ht (.of_owner rfl rfl _) (by simp) rfl hc
  | race ht deadline hr => exact .races ht (.of_owner rfl rfl _) (by simp) rfl hc
  | @close id call owner _ _ ht time hr hn hd =>
    -- The consumer is there, so that the task is not for one of its deliveries.
    have hnone : ∀ stage : Stage, Task.job? i ⟨stage, owner⟩ = none := by
      intro stage
      cases owner with
      | delivery j number =>
        have hj : j ≠ i := by
          rintro rfl
          rw [hd j number rfl] at hc
          cases hc
        exact Task.job?_elsewhere hj stage number
      | _ => rfl
    exact .goesOn ht (.of_none (hnone _) (hnone _)) (by simp) rfl hc
  | answer ht hg hcl =>
    exact .goesOn ht (.of_none rfl rfl) (by cases hcl <;> simp) rfl hc
  | @settle id j call number c' trace outcome ht hc' time hr =>
    by_cases hj : j = i
    · subst hj
      obtain rfl := Option.some.inj (hc.symm.trans hc')
      exact .settles ht outcome time rfl
    · have hnone : ∀ stage, Task.job? i ⟨stage, .delivery j number⟩ = none := fun stage =>
        Task.job?_elsewhere hj stage number
      refine .goesOn ht (.of_none (hnone _) (hnone _)) (by simp) rfl ?_
      exact (Array.getElem?_setIfInBounds_ne hj).trans hc

end Floor

end Switchboard
