import Mathlib.Data.List.Induction
import Switchboard.Proofs.RateLimit.StoreView

/-! Runs of operations on a store, with what each of them answered. -/

namespace Switchboard.RateLimit

inductive Op (R : Type) where
  | acquire (key : String) (capacity : Nat) (rate : R) (now : Instant)
  | evict (after : Duration) (now : Instant)

namespace Op

variable {R : Type}

def time : Op R → Instant
  | acquire _ _ _ now => now
  | evict _ now => now

def key? : Op R → Option String
  | acquire key _ _ _ => some key
  | evict _ _ => none

def isCall : Op R → Bool
  | acquire .. => true
  | evict .. => false

end Op

abbrev Log (R : Type) := List (Op R × Option Decision)

variable {R : Type}

def callTimes (key : String) (ops : List (Op R)) : List Instant :=
  (ops.filter (·.key? == some key)).map (·.time)

def admittedTimes (key : String) (log : Log R) : List Instant :=
  log.filterMap fun
    | (.acquire k _ _ now, some (.admitted _)) => if k = key then some now else none
    | _ => none

/-- The answers to the calls. -/
def decisions (log : Log R) : List (Option Decision) :=
  (log.filter (·.1.isCall)).map (·.2)

namespace Store

variable [Amount R]

def perform (s : Store R) : Op R → Store R × Option Decision
  | .acquire key capacity rate now => s.acquire key capacity rate now
  | .evict after now => ((s.evict after now).1, none)

def run (s : Store R) (ops : List (Op R)) : Store R × Log R :=
  ops.foldl (fun state op =>
    ((state.1.perform op).1, state.2 ++ [(op, (state.1.perform op).2)])) (s, [])

theorem run_concat (s : Store R) (ops : List (Op R)) (op : Op R) :
    s.run (ops ++ [op]) =
      (((s.run ops).1.perform op).1,
        (s.run ops).2 ++ [(op, ((s.run ops).1.perform op).2)]) := by
  simp [run]

theorem run_append (s : Store R) (ops more : List (Op R)) :
    (s.run (ops ++ more)).1 = ((s.run ops).1.run more).1 := by
  induction more using List.reverseRecOn with
  | nil => rw [List.append_nil]; rfl
  | append_singleton more op ih => rw [← List.append_assoc, run_concat, run_concat, ih]

theorem Valid.perform {s : Store R} (h : s.Valid) (op : Op R) : (s.perform op).1.Valid := by
  cases op with
  | acquire key capacity rate now =>
    by_cases hr : isUsable rate = true
    · exact (acquire_spec h hr key capacity now).1
    · simpa [Store.perform, acquire, hr] using h
  | evict after now => exact h.evict after now

theorem Valid.run {s : Store R} (h : s.Valid) (ops : List (Op R)) : (s.run ops).1.Valid := by
  induction ops using List.reverseRecOn with
  | nil => exact h
  | append_singleton ops op ih =>
    rw [run_concat]
    exact ih.perform op

/-- An operation that is not about a key leaves its bucket as it is or takes it away. -/
theorem bucketOf_perform_other {s : Store R} (h : s.Valid) {key : String} {op : Op R}
    (hk : op.key? ≠ some key) :
    (s.perform op).1.bucketOf key = s.bucketOf key ∨ (s.perform op).1.bucketOf key = none := by
  cases op with
  | acquire other capacity rate now =>
    left
    by_cases hr : isUsable rate = true
    · have hne : key ≠ other := fun he => hk (by rw [he]; rfl)
      rw [perform, (acquire_spec h hr other capacity now).2.2, if_neg hne]
    · simp [perform, acquire, hr]
  | evict after now =>
    rw [perform, bucketOf_evict]
    cases hb : s.bucketOf key with
    | none => exact .inl rfl
    | some b => cases hs : b.isStale after now <;> simp [Option.filter, hs]

end Store

theorem callTimes_append (key : String) (ops more : List (Op R)) :
    callTimes key (ops ++ more) = callTimes key ops ++ callTimes key more := by
  simp [callTimes]

theorem callTimes_concat (key : String) (ops : List (Op R)) (op : Op R) :
    callTimes key (ops ++ [op]) =
      callTimes key ops ++ if op.key? = some key then [op.time] else [] := by
  by_cases h : op.key? = some key <;> simp [callTimes, h]

theorem admittedTimes_concat_other {key : String} {log : Log R} {op : Op R}
    {answer : Option Decision} (h : op.key? ≠ some key) :
    admittedTimes key (log ++ [(op, answer)]) = admittedTimes key log := by
  cases op with
  | acquire k capacity rate now =>
    have hk : k ≠ key := fun he => h (by rw [he]; rfl)
    rcases answer with _ | _ | _ <;> simp [admittedTimes, hk]
  | evict after now => simp [admittedTimes]

theorem admittedTimes_concat_admitted {key : String} {log : Log R} {capacity : Nat} {rate : R}
    {now : Instant} {answer : Option Decision}
    (h : ∃ remaining, answer = some (.admitted remaining)) :
    admittedTimes key (log ++ [(.acquire key capacity rate now, answer)]) =
      admittedTimes key log ++ [now] := by
  obtain ⟨remaining, rfl⟩ := h
  simp [admittedTimes]

theorem admittedTimes_concat_rejected {key : String} {log : Log R} {capacity : Nat} {rate : R}
    {now : Instant} {answer : Option Decision}
    (h : ¬ ∃ remaining, answer = some (.admitted remaining)) :
    admittedTimes key (log ++ [(.acquire key capacity rate now, answer)]) =
      admittedTimes key log := by
  rcases answer with _ | remaining | _
  · simp [admittedTimes]
  · exact absurd ⟨remaining, rfl⟩ h
  · simp [admittedTimes]

end Switchboard.RateLimit
