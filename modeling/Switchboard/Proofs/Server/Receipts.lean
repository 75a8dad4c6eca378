import Switchboard.Proofs.Server.Consumers

/-! What stays as it is when a consumer goes on, and how many replies its statistics count. -/

namespace Switchboard.Server

/-- Whether there is a reply with such a status. -/
def Receipt.passes (p : Nat → Bool) : Receipt → Bool
  | .replied reply _ => p reply.status
  | _ => false

namespace Consumer

/-- How many deliveries that were sent have a reply with such a status. -/
def answered (c : Consumer) (p : Nat → Bool) : Nat :=
  c.deliveries.countP fun entry => entry.2.passes p

/-- What has been taken from one consumer to a later one. Nothing gets into the source that was not
there before, or was not sent before. -/
structure Grows (taken : List Nat) (c : Consumer) (taken' : List Nat) (c' : Consumer) : Prop where
  size_le : c.deliveries.size ≤ c'.deliveries.size
  delivery {n : Nat} {d : Delivery} (h : c.delivery? n = some d) : c'.delivery? n = some d
  receipt {n : Nat} {receipt : Receipt} (h : c.receipt? n = some receipt)
    (hp : receipt ≠ .pending) : c'.receipt? n = some receipt
  missed {n : Nat} (h : n < c.deliveries.size) (hm : n ∈ taken' ++ c'.queue) : n ∈ taken ++ c.queue

variable {taken taken' taken'' : List Nat} {c c' c'' : Consumer}

theorem Grows.refl (taken : List Nat) (c : Consumer) : Grows taken c taken c :=
  ⟨Nat.le_refl _, id, fun h _ => h, fun _ hm => hm⟩

theorem Grows.trans (h : Grows taken c taken' c') (h' : Grows taken' c' taken'' c'') :
    Grows taken c taken'' c'' where
  size_le := Nat.le_trans h.size_le h'.size_le
  delivery hd := h'.delivery (h.delivery hd)
  receipt hr hp := h'.receipt (h.receipt hr hp) hp
  missed hn hm := h.missed hn (h'.missed (Nat.lt_of_lt_of_le hn h.size_le) hm)

theorem Grows.of_deliveries_eq (hd : c'.deliveries = c.deliveries)
    (hq : taken' ++ c'.queue = taken ++ c.queue) : Grows taken c taken' c' where
  size_le := Nat.le_of_eq (congrArg Array.size hd.symm)
  delivery h := by rwa [delivery?, hd]
  receipt h _ := by rwa [receipt?, hd]
  missed _ hm := hq ▸ hm

theorem grows_finish (number : Option Nat) (outcome : Outcome) (time : Instant)
    (hp : ∀ n, number = some n → c.receipt? n = some .pending) :
    Grows taken c taken (c.finish number outcome time).1 := by
  have hqueue := c.queue_finish number outcome time
  cases number with
  | none => exact .of_deliveries_eq (c.deliveries_finish_none outcome time) (by rw [hqueue])
  | some n =>
    refine ⟨Nat.le_of_eq (c.size_finish ..).symm, ?_, ?_, ?_⟩
    · intro m d h
      rwa [delivery?_finish]
    · intro m receipt h hne
      rw [receipt?_finish]
      split
      · subst_vars
        rw [hp _ rfl] at h
        exact absurd (Option.some.inj h).symm hne
      · exact h
    · intro m _ hm
      rwa [hqueue] at hm

theorem grows_endIntake (hq : ∀ n ∈ c.queue, c.receipt? n = some .pending) :
    Grows taken c taken c.endIntake where
  size_le := Nat.le_of_eq c.size_endIntake.symm
  delivery h := by rwa [delivery?_endIntake]
  receipt := by
    intro n receipt h hp
    rw [receipt?_endIntake]
    split
    · rename_i hm
      rw [hq n hm] at h
      exact absurd (Option.some.inj h).symm hp
    · exact h
  missed _ hm := by
    rw [queue_endIntake, List.append_nil] at hm
    exact List.mem_append_left _ hm

theorem delivery?_send {n : Nat} {d d' : Delivery} (h : c.delivery? n = some d) :
    (c.send d').delivery? n = some d := by
  obtain ⟨entry, he, rfl⟩ := Option.map_eq_some_iff.mp h
  have hlt : n < c.deliveries.size := (Array.getElem?_eq_some_iff.mp he).1
  rw [delivery?, send, Array.getElem?_push, if_neg (Nat.ne_of_lt hlt), he, Option.map_some]

theorem receipt?_send (d : Delivery) (n : Nat) :
    (c.send d).receipt? n = if n = c.deliveries.size then some .pending else c.receipt? n := by
  rw [receipt?, send, Array.getElem?_push]
  split <;> rfl

theorem lt_size_of_receipt? {n : Nat} {receipt : Receipt} (h : c.receipt? n = some receipt) :
    n < c.deliveries.size := by
  obtain ⟨entry, he, -⟩ := Option.map_eq_some_iff.mp h
  exact (Array.getElem?_eq_some_iff.mp he).1

theorem grows_send (d : Delivery) (hr : c.isReachable = true) :
    Grows taken c taken (c.send d) where
  size_le := by simp [send]
  delivery h := delivery?_send h
  receipt h _ := by
    rw [receipt?_send, if_neg (Nat.ne_of_lt (lt_size_of_receipt? h))]
    exact h
  missed := by
    intro n hn hm
    rw [c.queue_send d hr, ← List.append_assoc, List.mem_append, List.mem_singleton] at hm
    rcases hm with hm | rfl
    · exact hm
    · exact absurd hn (Nat.lt_irrefl _)

/-! ### The statistics -/

variable {n : Nat} {p : Nat → Bool}

theorem answered_settle {receipt : Receipt} (h : c.receipt? n = some receipt) (next : Receipt) :
    (c.settle n next).answered p + (if receipt.passes p then 1 else 0) =
      c.answered p + if next.passes p then 1 else 0 := by
  obtain ⟨entry, he, rfl⟩ := Option.map_eq_some_iff.mp h
  rw [answered, settle, modify_eq_set he]
  exact countP_setIfInBounds he (entry.1, next) _

theorem answered_dropAll (numbers : List Nat)
    (h : ∀ n ∈ numbers, ∀ reply time, c.receipt? n ≠ some (.replied reply time)) :
    (c.dropAll numbers).answered p = c.answered p := by
  induction numbers generalizing c with
  | nil => rfl
  | cons n numbers ih =>
    have hdrop : (c.settle n .dropped).answered p = c.answered p := by
      cases hr : c.receipt? n with
      | none =>
        have hnone : c.deliveries[n]? = none := Option.map_eq_none_iff.mp hr
        have hsame : (c.settle n .dropped).deliveries = c.deliveries := by
          apply Array.ext_getElem?
          intro m
          rw [settle, Array.getElem?_modify]
          split
          · subst_vars
            rw [hnone, Option.map_none]
          · rfl
        rw [answered, hsame, answered]
      | some receipt =>
        have hsettle := answered_settle (p := p) hr .dropped
        cases receipt with
        | replied reply time => exact absurd hr (h n List.mem_cons_self reply time)
        | pending => simpa [Receipt.passes] using hsettle
        | dropped => simpa [Receipt.passes] using hsettle
    rw [dropAll_cons, ih, hdrop]
    intro m hm reply time hr
    rw [receipt?_settle] at hr
    split at hr
    · obtain ⟨_, _, he⟩ := Option.map_eq_some_iff.mp hr
      cases he
    · exact h m (List.mem_cons_of_mem n hm) reply time hr

theorem answered_endIntake
    (h : ∀ n ∈ c.queue, ∀ reply time, c.receipt? n ≠ some (.replied reply time)) :
    c.endIntake.answered p = c.answered p := by
  rw [endIntake_eq]
  exact answered_dropAll c.queue h

theorem answered_send (d : Delivery) : (c.send d).answered p = c.answered p := by
  simp [answered, send, Receipt.passes]

theorem stats_finish (number : Option Nat) (outcome : Outcome) (time : Instant) :
    (c.finish number outcome time).1.stats =
      match outcome with
      | .replied ctx => c.stats.record ctx.response.status
      | .failed _ => c.stats := by
  cases outcome <;> cases number <;> rfl

theorem answered_finish (outcome : Outcome) (time : Instant)
    (h : c.receipt? n = some .pending) :
    (c.finish (some n) outcome time).1.answered p =
      c.answered p + if (receiptOf outcome time).passes p then 1 else 0 := by
  have hsettle := answered_settle (p := p) h (receiptOf outcome time)
  rw [if_neg (by simp [Receipt.passes]), Nat.add_zero] at hsettle
  rw [← hsettle]
  cases outcome <;> rfl

/-- The statistics count the replies to deliveries that were sent, and others of which there are so
many. -/
structure Tallies (c : Consumer) (others : (Nat → Bool) → Nat) : Prop where
  handled : c.stats.handled = c.answered (fun _ => true) + others fun _ => true
  failed : c.stats.failed = c.answered (400 ≤ ·) + others (400 ≤ ·)

variable {others others' : (Nat → Bool) → Nat}

theorem Tallies.congr (h : c.Tallies others) (hs : c'.stats = c.stats)
    (ha : ∀ p, c'.answered p + others' p = c.answered p + others p) : c'.Tallies others' := by
  constructor
  · rw [hs, ha]
    exact h.handled
  · rw [hs, ha]
    exact h.failed

theorem Tallies.finish (h : c.Tallies others) (number : Option Nat) (outcome : Outcome)
    (time : Instant)
    (ha : ∀ p, (c.finish number outcome time).1.answered p + others' p =
      c.answered p + others p + if (receiptOf outcome time).passes p then 1 else 0) :
    (c.finish number outcome time).1.Tallies others' := by
  have hstats := c.stats_finish number outcome time
  cases outcome with
  | failed fault => exact h.congr hstats ha
  | replied ctx =>
    constructor
    · rw [hstats, ha, ← h.handled]
      rfl
    · rw [hstats, ha, ← h.failed]
      by_cases hs : 400 ≤ ctx.response.status
      · simp [Stats.record, hs, receiptOf, Receipt.passes]
      · simp [Stats.record, hs, receiptOf, Receipt.passes]

end Consumer

end Switchboard.Server
