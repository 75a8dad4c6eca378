import Switchboard.Proofs.RateLimit.Capacities
import Switchboard.Proofs.RateLimit.History
import Switchboard.Proofs.RateLimit.Isolation

/-! When a bucket is taken away. A bucket keeps the time of the last admitted call on its key, and
goes in the first sweep that finds this time too long ago. -/

namespace Switchboard.RateLimit

section Operations

variable {R : Type}

/-- Whether an operation is a sweep that takes away a bucket that was last used at a given time. -/
def Op.outdates (used : Instant) : Op R → Bool
  | .acquire .. => false
  | .evict after now => after.nanos ≤ now - used

/-- The time of the last admitted call on a key. -/
def lastAdmitted (key : String) (log : Log R) : Option Instant :=
  (admittedTimes key log).getLast?

theorem exists_of_mem_admittedTimes {key : String} {log : Log R} {time : Instant}
    (h : time ∈ admittedTimes key log) : ∃ entry ∈ log, entry.1.time = time := by
  obtain ⟨⟨op, answer⟩, hm, hs⟩ := List.mem_filterMap.mp h
  refine ⟨_, hm, ?_⟩
  rcases op with ⟨k, capacity, rate, now⟩ | ⟨after, now⟩ <;>
    rcases answer with _ | ⟨remaining⟩ | _ <;> simp_all [Op.time]

def Store.usedAt (s : Store R) (key : String) : Option Instant :=
  (s.bucketOf key).map (·.used)

variable [Amount R] {s : Store R} {key : String} {op : Op R} {ops more : List (Op R)}
  {capacity : Nat} {rate : R} {now : Instant} {b : Bucket R}

/-- A call that is admitted where it finds a full bucket. -/
def Op.Opens : Op R → Prop
  | .acquire _ capacity _ _ => Amount.atMost (Amount.ofNat 1) (Amount.ofNat capacity : R) = true
  | .evict _ _ => True

theorem Bucket.decide_full
    (h : Amount.atMost (Amount.ofNat 1) (Amount.ofNat capacity : R) = true) (rate : R)
    (now : Instant) :
    (Bucket.full capacity now).decide capacity rate now =
      (⟨Amount.ofNat capacity - Amount.ofNat 1, now, now⟩,
        some (.admitted (Amount.floor (Amount.ofNat capacity - Amount.ofNat 1 : R)))) := by
  rw [decide, refill_of_le (Nat.le_refl now), take, full, if_pos h]

namespace Store

theorem mem_of_mem_run {entry : Op R × Option Decision} (h : entry ∈ (s.run ops).2) :
    entry.1 ∈ ops := by
  induction ops using List.reverseRecOn with
  | nil => exact absurd h List.not_mem_nil
  | append_singleton ops op ih =>
    rw [run_concat] at h
    rcases List.mem_append.mp h with h | h
    · exact List.mem_append_left _ (ih h)
    · rw [List.mem_singleton.mp h]
      exact List.mem_concat_self

theorem acquire_of_no_bucket (hv : s.Valid) (hb : s.bucketOf key = none)
    (hr : isUsable rate = true)
    (h : Amount.atMost (Amount.ofNat 1) (Amount.ofNat capacity : R) = true) (now : Instant) :
    (s.acquire key capacity rate now).2 =
        some (.admitted (Amount.floor (Amount.ofNat capacity - Amount.ofNat 1 : R))) ∧
      (s.acquire key capacity rate now).1.bucketOf key =
        some ⟨Amount.ofNat capacity - Amount.ofNat 1, now, now⟩ := by
  obtain ⟨-, hanswer, hbuckets⟩ := acquire_spec hv hr key capacity now
  rw [hanswer, hbuckets, if_pos rfl, verdict, hb, Option.getD_none, Bucket.decide_full h]
  exact ⟨rfl, rfl⟩

/-- An operation that admits a call on a key sets the time of its bucket. Any other leaves the time
as it is, unless it takes the bucket away. -/
theorem usedAt_perform (hv : s.Valid) (ho : op.Opens) (key : String) (log : Log R) :
    admittedTimes key (log ++ [(op, (s.perform op).2)]) = admittedTimes key log ++ [op.time] ∧
        (s.perform op).1.usedAt key = some op.time ∨
      admittedTimes key (log ++ [(op, (s.perform op).2)]) = admittedTimes key log ∧
        (s.perform op).1.usedAt key = (s.usedAt key).filter (!op.outdates ·) := by
  cases op with
  | evict after now =>
    refine .inr ⟨admittedTimes_concat_other nofun, ?_⟩
    rw [usedAt, perform, bucketOf_evict, usedAt]
    cases s.bucketOf key with
    | none => rfl
    | some b =>
      rw [Option.map_some, Option.filter_some, Option.filter_some, Op.outdates, ← Bucket.isStale]
      split <;> rfl
  | acquire other capacity rate now =>
    have hkept : ∀ found : Option Instant,
        found.filter (!(Op.acquire other capacity rate now).outdates ·) = found := fun found => by
      cases found <;> rfl
    rw [hkept]
    by_cases hk : other = key
    · subst hk
      by_cases hr : isUsable rate = true
      · obtain ⟨-, hanswer, hbuckets⟩ := acquire_spec hv hr other capacity now
        cases hb : s.bucketOf other with
        | none =>
          obtain ⟨hadmitted, hopened⟩ := acquire_of_no_bucket hv hb hr ho now
          exact .inl ⟨admittedTimes_concat_admitted ⟨_, hadmitted⟩, by
            rw [usedAt, perform, hopened, Option.map_some, Op.time]⟩
        | some b =>
          have hbucket : (s.perform (.acquire other capacity rate now)).1.usedAt other =
              some (b.decide capacity rate now).1.used := by
            rw [usedAt, perform, hbuckets, if_pos rfl, verdict, hb, Option.getD_some,
              Option.map_some]
          have hdecision : (s.perform (.acquire other capacity rate now)).2 =
              (b.decide capacity rate now).2 := by
            rw [perform, hanswer, verdict, hb, Option.getD_some]
          rw [hbucket, hdecision, usedAt, hb, Option.map_some]
          rcases b.used_decide capacity rate now with ⟨n, hn, hu⟩ | ⟨hn, hu⟩
          · exact .inl ⟨admittedTimes_concat_admitted ⟨n, hn⟩, by rw [hu, Op.time]⟩
          · refine .inr ⟨admittedTimes_concat_rejected ?_, by rw [hu]⟩
            rintro ⟨n, he⟩
            exact hn n he
      · refine .inr ⟨admittedTimes_concat_rejected ?_, by simp [perform, acquire, hr]⟩
        simp [perform, acquire, hr]
    · have hne : (Op.acquire other capacity rate now).key? ≠ some key := by
        simpa [Op.key?] using hk
      refine .inr ⟨admittedTimes_concat_other hne, ?_⟩
      rw [usedAt, bucketOf_perform_call hv rfl hne, usedAt]

/-- A bucket that is there was used last by the last admitted call on its key. -/
theorem lastAdmitted_of_bucket (ho : ∀ op ∈ ops, op.Opens)
    (hb : ((empty : Store R).run ops).1.bucketOf key = some b) :
    lastAdmitted key ((empty : Store R).run ops).2 = some b.used := by
  have hused : ((empty : Store R).run ops).1.usedAt key = some b.used := by
    rw [usedAt, hb, Option.map_some]
  clear hb
  induction ops using List.reverseRecOn with
  | nil => simp [run, empty, usedAt, bucketOf, Table.get?] at hused
  | append_singleton ops op ih =>
    rw [run_concat] at hused ⊢
    rcases usedAt_perform (empty_valid.run ops) (ho op List.mem_concat_self) key
      (empty.run ops).2 with ⟨ha, hu⟩ | ⟨ha, hu⟩
    · rw [lastAdmitted, ha, List.getLast?_concat, ← hu, hused]
    · rw [hu] at hused
      rw [lastAdmitted, ha]
      exact ih (fun op hop => ho op (List.mem_append_left _ hop))
        (Option.filter_eq_some_iff.mp hused).1

end Store

end Operations

/-! ### Counting in doubles -/

section Doubles

open Double

variable {capacity : Nat}

end Doubles

end Switchboard.RateLimit
