import Switchboard.Proofs.RateLimit.Capacities
import Switchboard.Proofs.RateLimit.Isolation

/-! What an admitted call is told remains is what the next calls at the same instant get. -/

namespace Switchboard.RateLimit

variable {key : String} {now : Instant} {capacity n : Nat} {rate : Float} {ops : List (Op Float)}

/-- A bucket with whole tokens for so many calls at an instant that it has been refilled for. -/
def Bucket.Lasts (b : Bucket Float) (n : Nat) (now : Instant) : Prop :=
  ∃ v, b.Holds v ∧ v ≤ 2 ^ 53 ∧ ⌊v⌋₊ = n ∧ now ≤ b.refilled

/-- The answer to a call that no token is left for. Where even the wait for a whole token can be
said, the call is told to wait. -/
def Unserved (rate : Float) (answer : Option Decision) : Prop :=
  (∀ remaining, answer ≠ some (.admitted remaining)) ∧
    (Amount.toDuration? (Amount.ofNat 1 / rate) ≠ none →
      ∃ wait retry, answer = some (.rejected wait retry))

theorem Bucket.Lasts.decide_succ {b : Bucket Float} (hb : b.Lasts (n + 1) now) (capacity : Nat)
    (rate : Float) :
    (b.decide capacity rate now).2 = some (.admitted n) ∧
      (b.decide capacity rate now).1.Lasts n now := by
  obtain ⟨v, hv, hle, hfloor, hnow⟩ := hb
  have hone : 1 ≤ v := by
    have := Nat.floor_le (Double.value_nonneg hv)
    have hn : (0 : ℚ) ≤ n := Nat.cast_nonneg n
    rw [hfloor] at this
    push_cast at this
    linarith
  have hrest : ⌊v - 1⌋₊ = n := by rw [Nat.floor_sub_one, hfloor, Nat.add_sub_cancel]
  obtain ⟨hanswer, hholds, hrefilled⟩ := hv.take_of_le hone hle rate now
  rw [decide, refill_of_le hnow]
  rw [hrest] at hanswer
  exact ⟨hanswer, v - 1, hholds, by linarith, hrest, hnow.trans_eq hrefilled.symm⟩

theorem Bucket.Lasts.decide_zero {b : Bucket Float} (hb : b.Lasts 0 now) (capacity : Nat)
    (hr : Store.isUsable rate = true) :
    Unserved rate (b.decide capacity rate now).2 ∧ (b.decide capacity rate now).1.Lasts 0 now := by
  obtain ⟨v, hv, hle, hfloor, hnow⟩ := hb
  have hone : v < 1 := Nat.floor_eq_zero.mp hfloor
  rw [decide, refill_of_le hnow, hv.take_of_lt hone]
  refine ⟨⟨fun remaining => by simp, fun hsay => ?_⟩, v, hv, hle, hfloor, hnow⟩
  obtain ⟨longest, hl, hlt⟩ := Amount.value?_of_toDuration? hsay
  obtain ⟨w, hw, hwait⟩ := hv.wait_le hone hr hl
  rw [(Amount.isNumber_double hwait).toDuration?, if_pos (hw.trans_lt hlt)]
  exact ⟨_, _, rfl⟩

/-- An admitted call leaves whole tokens for as many calls as it is told remain. -/
theorem Bucket.Capped.lasts {b : Bucket Float} (hb : b.Capped key ops) (h : ∀ op ∈ ops, op.Proper)
    (hop : Op.acquire key capacity rate now ∈ ops)
    (hadmitted : (b.decide capacity rate now).2 = some (.admitted n)) :
    (b.decide capacity rate now).1.Lasts n now := by
  obtain ⟨w, hw, hle, -⟩ := hb.refill h hop
  obtain ⟨hone, hfloor⟩ := hw.admitted hle hadmitted
  obtain ⟨-, hholds, hrefilled⟩ := hw.take_of_le hone hle rate now
  rw [refilled_refill] at hrefilled
  exact ⟨w - 1, hholds, by linarith, hfloor, (le_max_right _ _).trans_eq hrefilled.symm⟩

/-- Calls on a key at one instant, between operations that do not take its bucket away. -/
structure AtInstant (s : Store Float) (key : String) (now : Instant) (ops : List (Op Float)) :
    Prop where
  proper : ∀ op ∈ ops, op.Proper
  same : ∀ op ∈ ops, op.key? = some key → op.time = now
  kept : ∀ before op, before ++ [op] <+: ops → (s.run before).1.bucketOf key ≠ none →
    (s.run (before ++ [op])).1.bucketOf key ≠ none

theorem AtInstant.init {s : Store Float} {op : Op Float} (h : AtInstant s key now (ops ++ [op])) :
    AtInstant s key now ops :=
  ⟨fun o ho => h.proper o (by simp [ho]), fun o ho => h.same o (by simp [ho]),
    fun before o hp => h.kept before o (hp.trans (List.prefix_append _ _))⟩

theorem atInstant_of_calls {s : Store Float} (hv : s.Valid) (hproper : ∀ op ∈ ops, op.Proper)
    (hsame : ∀ op ∈ ops, op.key? = some key → op.time = now)
    (hcalls : ∀ op ∈ ops, op.isCall = true) : AtInstant s key now ops := by
  refine ⟨hproper, hsame, fun before op hp hb => ?_⟩
  have hop : op ∈ ops := hp.subset (by simp)
  have hvalid := hv.run before
  rw [Store.run_concat]
  by_cases hk : op.key? = some key
  · cases op with
    | evict after time => cases hk
    | acquire other capacity rate time =>
      obtain rfl : other = key := by simpa [Op.key?] using hk
      rw [Store.perform, (Store.acquire_spec hvalid (hproper _ hop).2 other capacity time).2.2,
        if_pos rfl]
      simp
  · rwa [Store.bucketOf_perform_call hvalid (hcalls op hop) hk]

/-- What the calls on a key are to be told when there are tokens for so many of them. -/
def CountsDown (n : Nat) (calls : Log Float) : Prop :=
  ∀ i k capacity rate time answer, calls[i]? = some (.acquire k capacity rate time, answer) →
    (i < n → answer = some (.admitted (n - 1 - i))) ∧ (n ≤ i → Unserved rate answer)

theorem CountsDown.concat {calls : Log Float} {k : String} {time : Instant}
    {answer : Option Decision} (h : CountsDown n calls)
    (hleft : calls.length < n → answer = some (.admitted (n - 1 - calls.length)))
    (hnone : n ≤ calls.length → Unserved rate answer) :
    CountsDown n (calls ++ [(.acquire k capacity rate time, answer)]) := by
  intro i k' capacity' rate' time' answer' hi
  rcases lt_trichotomy i calls.length with hlt | rfl | hgt
  · rw [List.getElem?_append_left hlt] at hi
    exact h i k' capacity' rate' time' answer' hi
  · rw [List.getElem?_concat_length] at hi
    cases hi
    exact ⟨hleft, hnone⟩
  · rw [List.getElem?_eq_none (by simp; omega)] at hi
    cases hi

namespace Store

/-- Calls at one instant take the whole tokens of a bucket one by one. -/
theorem run_lasts {s : Store Float} (hv : s.Valid) {b : Bucket Float} (hb : s.bucketOf key = some b)
    (hl : b.Lasts n now) (h : AtInstant s key now ops) :
    (∃ b, (s.run ops).1.bucketOf key = some b ∧
      b.Lasts (n - (answersTo key (s.run ops).2).length) now) ∧
    CountsDown n (answersTo key (s.run ops).2) := by
  -- From the last operation: what the calls before it left decides its answer.
  induction ops using List.reverseRecOn with
  | nil =>
    refine ⟨⟨b, hb, hl⟩, fun i k capacity rate time answer hi => ?_⟩
    simp [run, answersTo] at hi
  | append_singleton ops op ih =>
    obtain ⟨⟨b', hb', hl'⟩, hcalls⟩ := ih h.init
    have hvalid := hv.run ops
    have hkept := h.kept ops op List.prefix_rfl (by rw [hb']; simp)
    rw [run_concat] at hkept ⊢
    by_cases hk : op.key? = some key
    · cases op with
      | evict after time => cases hk
      | acquire other capacity rate time =>
        obtain rfl : other = key := by simpa [Op.key?] using hk
        obtain rfl : time = now := h.same (.acquire other capacity rate time) (by simp) rfl
        have hrate := (h.proper (.acquire other capacity rate time) (by simp)).2
        obtain ⟨-, hanswer, hbuckets⟩ := acquire_spec hvalid hrate other capacity time
        rw [verdict, hb', Option.getD_some] at hanswer hbuckets
        rw [answersTo_concat, if_pos hk, perform, hanswer, hbuckets, if_pos rfl, List.length_append,
          List.length_singleton]
        generalize answersTo other (s.run ops).2 = calls at hl' hcalls ⊢
        rcases Nat.lt_or_ge calls.length n with hlt | hge
        · rw [show n - calls.length = n - 1 - calls.length + 1 by omega] at hl'
          obtain ⟨hadmitted, hlast⟩ := hl'.decide_succ capacity rate
          refine ⟨⟨_, rfl, by rwa [Nat.sub_add_eq, Nat.sub_right_comm]⟩, ?_⟩
          exact hcalls.concat (fun _ => hadmitted) fun hn => absurd hlt (not_lt.mpr hn)
        · rw [show n - calls.length = 0 by omega] at hl'
          obtain ⟨hunserved, hlast⟩ := hl'.decide_zero capacity hrate
          refine ⟨⟨_, rfl, by rwa [show n - (calls.length + 1) = 0 by omega]⟩, ?_⟩
          exact hcalls.concat (fun hn => absurd hn (not_lt.mpr hge)) fun _ => hunserved
    · rw [answersTo_concat, if_neg hk, List.append_nil]
      rcases bucketOf_perform_other hvalid hk with he | he
      · exact ⟨⟨b', by rw [he, hb'], hl'⟩, hcalls⟩
      · exact absurd he hkept

/-- What an admitted call is told remains is how many of the next calls on its key at the same
instant are admitted. -/
theorem remaining_counts_next_calls {earlier later : List (Op Float)}
    (h : ∀ op ∈ earlier ++ [Op.acquire key capacity rate now], op.Proper)
    (hadmitted : (((empty : Store Float).run earlier).1.acquire key capacity rate now).2 =
      some (.admitted n))
    (hlater : AtInstant (((empty : Store Float).run earlier).1.acquire key capacity rate now).1 key
      now later) :
    CountsDown n (answersTo key
      ((((empty : Store Float).run earlier).1.acquire key capacity rate now).1.run later).2) := by
  obtain ⟨found, hfound, hvalid, hanswer, hbucket⟩ := acquire_run_capped h
  have hlasts := hfound.lasts h List.mem_concat_self (hanswer.symm.trans hadmitted)
  exact (run_lasts hvalid hbucket hlasts hlater).2

/-- One key is called to its last token and beyond, another in between. -/
def countdown : List (Op Float) :=
  [.acquire "k" 3 1.0 0, .acquire "other" 1 2.0 0, .acquire "k" 7 0.5 0, .acquire "k" 3 1.0 0]

theorem countdown_proper : ∀ op ∈ [Op.acquire "k" 3 1.0 0] ++ countdown, op.Proper := by
  have hrate : isUsable (1.0 : Float) = true ∧ isUsable (2.0 : Float) = true ∧
      isUsable (0.5 : Float) = true := by decide +kernel
  intro op hop
  simp only [countdown, List.cons_append, List.nil_append, List.mem_cons, List.not_mem_nil,
    or_false] at hop
  rcases hop with rfl | rfl | rfl | rfl | rfl
  · exact ⟨by decide, hrate.1⟩
  · exact ⟨by decide, hrate.1⟩
  · exact ⟨by decide, hrate.2.1⟩
  · exact ⟨by decide, hrate.2.2⟩
  · exact ⟨by decide, hrate.1⟩

theorem remaining_counts_next_calls_countdown :
    (((empty : Store Float).run []).1.acquire "k" 3 1.0 0).2 = some (.admitted 2) ∧
      CountsDown 2 (answersTo "k"
        ((((empty : Store Float).run []).1.acquire "k" 3 1.0 0).1.run countdown).2) := by
  have hadmitted : (((empty : Store Float).run []).1.acquire "k" 3 1.0 0).2 =
      some (.admitted 2) := by decide +kernel
  have hproper := countdown_proper
  have hvalid : (((empty : Store Float).run []).1.acquire "k" 3 1.0 0).1.Valid :=
    (empty_valid.run []).perform (.acquire "k" 3 1.0 0)
  refine ⟨hadmitted, remaining_counts_next_calls (fun op ho => hproper op ?_) hadmitted
    (atInstant_of_calls hvalid (fun op ho => hproper op (List.mem_append_right _ ho)) ?_ ?_)⟩
  · exact List.mem_append_left _ ho
  · decide
  · decide

/-- The wait of a call that finds no token may be too long to be said. It has no answer then. -/
theorem unsayable_wait_is_not_rejected :
    ¬ ∀ (earlier later : List (Op Float)) (key : String) (capacity : Nat) (rate : Float)
        (now : Instant) (n : Nat) (answer : Option Decision),
      (∀ op ∈ earlier ++ [Op.acquire key capacity rate now], op.Proper) →
      (((empty : Store Float).run earlier).1.acquire key capacity rate now).2 =
        some (.admitted n) →
      AtInstant (((empty : Store Float).run earlier).1.acquire key capacity rate now).1 key now
        later →
      ((answersTo key ((((empty : Store Float).run earlier).1.acquire key capacity rate
        now).1.run later).2).map (·.2))[n]? = some answer →
      ∃ wait retry, answer = some (.rejected wait retry) := by
  intro hall
  have hrate : isUsable (1e-300 : Float) = true := by decide +kernel
  have hproper : ∀ op ∈ [Op.acquire "k" 1 1e-300 0], op.Proper := by
    intro op hop
    cases List.mem_singleton.mp hop
    exact ⟨by decide, hrate⟩
  have hvalid : (((empty : Store Float).run []).1.acquire "k" 1 1e-300 0).1.Valid :=
    (empty_valid.run []).perform (.acquire "k" 1 1e-300 0)
  have hlater : AtInstant (((empty : Store Float).run []).1.acquire "k" 1 1e-300 0).1 "k" 0
      [.acquire "k" 1 1e-300 0] :=
    atInstant_of_calls hvalid hproper (by decide) (by decide)
  obtain ⟨wait, retry, hanswer⟩ := hall [] [.acquire "k" 1 1e-300 0] "k" 1 1e-300 0 0 none hproper
    (by decide +kernel) hlater (by decide +kernel)
  cases hanswer

end Store

end Switchboard.RateLimit
