import Switchboard.World

/-! Calls on a date. The date of a world stays the same while calls act on it, so that a call may be
told it in advance, and calls that differ only in what they would do on other dates are alike. -/

namespace Switchboard

namespace Call

/-- The call that remains when the date is known. -/
def onDate (date : Nat) : Call → Call
  | reply ctx => reply ctx
  | panic fault => panic fault
  | journal line rest => journal line (rest.onDate date)
  | report event rest => report event (rest.onDate date)
  | clock rest => clock fun now => (rest now).onDate date
  | today rest => (rest date).onDate date
  | sleep span rest => sleep span (rest.onDate date)
  | acquire store key capacity pace rest =>
    acquire store key capacity pace fun decision => (rest decision).onDate date
  | rescue body rest => rescue (body.onDate date) fun outcome => (rest outcome).onDate date
  | race body limit rest => race (body.onDate date) limit fun verdict => (rest verdict).onDate date

@[simp] theorem onDate_onDate (date : Nat) (call : Call) :
    (call.onDate date).onDate date = call.onDate date := by
  induction call with
  | reply ctx => rfl
  | panic fault => rfl
  | journal line rest ih => rw [onDate, onDate, ih]
  | report event rest ih => rw [onDate, onDate, ih]
  | clock rest ih => rw [onDate, onDate, funext ih]
  | today rest ih => exact ih date
  | sleep span rest ih => rw [onDate, onDate, ih]
  | acquire store key capacity pace rest ih => rw [onDate, onDate, funext ih]
  | rescue body rest ihb ih => rw [onDate, onDate, ihb, funext ih]
  | race body limit rest ihb ih => rw [onDate, onDate, ihb, funext ih]

theorem onDate_andThen (date : Nat) (call : Call) (next : Context → Call) :
    (call.andThen next).onDate date =
      (call.onDate date).andThen fun ctx => (next ctx).onDate date := by
  induction call with
  | reply ctx => rfl
  | panic fault => rfl
  | journal line rest ih => rw [andThen, onDate, onDate, andThen, ih]
  | report event rest ih => rw [andThen, onDate, onDate, andThen, ih]
  | clock rest ih => rw [andThen, onDate, onDate, andThen, funext ih]
  | today rest ih => exact ih date
  | sleep span rest ih => rw [andThen, onDate, onDate, andThen, ih]
  | acquire store key capacity pace rest ih => rw [andThen, onDate, onDate, andThen, funext ih]
  | rescue body rest _ ih => rw [andThen, onDate, onDate, andThen, funext ih]
  | race body limit rest _ ih => rw [andThen, onDate, onDate, andThen, funext ih]

end Call

def Pause.onDate (date : Nat) : Pause → Pause
  | .ended outcome => .ended outcome
  | .asleep span rest => .asleep span (rest.onDate date)
  | .racing body limit rest => .racing (body.onDate date) limit fun v => (rest v).onDate date

variable {R : Type} [RateLimit.Amount R]

/-- A call that has been told the date gets as far, and does the same to the world. -/
theorem Call.poll_onDate (call : Call) (w : World R) :
    (call.onDate w.date).poll w = ((call.poll w).1.onDate w.date, (call.poll w).2) ∧
      (call.poll w).2.date = w.date := by
  induction call generalizing w with
  | reply ctx => exact ⟨rfl, rfl⟩
  | panic fault => exact ⟨rfl, rfl⟩
  | journal line rest ih => exact ih (w.write [line])
  | report event rest ih => exact ih (w.report event)
  | clock rest ih => exact ih w.now w
  | today rest ih => exact ih w.date w
  | sleep span rest ih =>
    rw [onDate, poll, poll]
    split
    · exact ih w
    · exact ⟨rfl, rfl⟩
  | acquire store key capacity pace rest ih =>
    rw [onDate, poll, poll]
    split
    · exact ih _ (w.setStore store _)
    · exact ⟨rfl, rfl⟩
  | rescue body rest ihb ih =>
    obtain ⟨hbody, hdate⟩ := ihb w
    rw [onDate, poll, poll, hbody]
    cases hp : body.poll w with
    | mk pause next =>
      have hnext : next.date = w.date := by rw [hp] at hdate; exact hdate
      cases pause with
      | ended outcome =>
        have hrest := ih outcome next
        rw [hnext] at hrest
        exact hrest
      | asleep span inner => exact ⟨rfl, hnext⟩
      | racing racer limit inner => exact ⟨rfl, hnext⟩
  | race body limit rest => exact ⟨rfl, rfl⟩

end Switchboard
