import Mathlib.Algebra.Order.Field.Rat
import Mathlib.Data.Nat.Cast.Order.Field
import Mathlib.Tactic.FieldSimp
import Mathlib.Tactic.Linarith
import Mathlib.Tactic.Positivity
import Mathlib.Tactic.Ring
import Switchboard.Proofs.RateLimit.StoreView

/-! Buckets that count in rational numbers. The level of a bucket is what it holds at a time,
refilled up to that time. Refills in between do not change it. -/

namespace Switchboard.RateLimit

/-- The length of a span of nanoseconds in seconds. -/
def seconds (nanos : Nat) : ℚ :=
  nanos / 1000000000

theorem seconds_zero : seconds 0 = 0 := by simp [seconds]

theorem seconds_nonneg (nanos : Nat) : 0 ≤ seconds nanos := by
  unfold seconds
  positivity

theorem seconds_mono {a b : Nat} (h : a ≤ b) : seconds a ≤ seconds b := by
  have hc : (a : ℚ) ≤ b := Nat.cast_le.mpr h
  unfold seconds
  linarith

theorem seconds_sub_add {a b c : Nat} (hab : a ≤ b) (hbc : b ≤ c) :
    seconds (c - b) + seconds (b - a) = seconds (c - a) := by
  unfold seconds
  rw [Nat.cast_sub hab, Nat.cast_sub hbc, Nat.cast_sub (hab.trans hbc)]
  ring

theorem gain_nonneg {rate : ℚ} (h : 0 ≤ rate) (nanos : Nat) : 0 ≤ rate * seconds nanos :=
  mul_nonneg h (seconds_nonneg nanos)

theorem gain_mono {rate : ℚ} (h : 0 ≤ rate) {a b : Nat} (hab : a ≤ b) :
    rate * seconds a ≤ rate * seconds b :=
  mul_le_mul_of_nonneg_left (seconds_mono hab) h

theorem gain_sub_add (rate : ℚ) {a b c : Nat} (hab : a ≤ b) (hbc : b ≤ c) :
    rate * seconds (c - a) = rate * seconds (b - a) + rate * seconds (c - b) := by
  rw [← seconds_sub_add hab hbc]
  ring

theorem amountMin_eq (a b : ℚ) : Amount.min a b = min a b := by
  by_cases h : a ≤ b
  · simp [Amount.min, Amount.atMost, h]
  · have hle : b ≤ a := le_of_lt (not_le.mp h)
    simp [Amount.min, Amount.atMost, h, hle]

theorem Amount.floor_le {x : ℚ} (h : 0 ≤ x) : ((Amount.floor x : Nat) : ℚ) ≤ x := by
  have hf : Amount.floor x = x.num.toNat / x.den := by simp [Amount.floor, Amount.fraction?, h]
  have hn : ((x.num.toNat : Nat) : ℚ) = x.num := by
    exact_mod_cast congrArg (Int.cast (R := ℚ)) (Int.toNat_of_nonneg (Rat.num_nonneg.mpr h))
  rw [hf]
  calc ((x.num.toNat / x.den : Nat) : ℚ) ≤ x.num.toNat / x.den := Nat.cast_div_le
    _ = x := by rw [hn, Rat.num_div_den]

theorem isUsable_of_pos {rate : ℚ} (h : 0 < rate) : Store.isUsable rate = true := by
  simp [Store.isUsable, Amount.fraction?, Amount.atMost, Amount.ofNat, h.le, h]

namespace Bucket

variable {b : Bucket ℚ} {capacity : Nat} {rate : ℚ} {now later : Instant}

def level (b : Bucket ℚ) (capacity : Nat) (rate : ℚ) (now : Instant) : ℚ :=
  min (b.tokens + rate * seconds (now - b.refilled)) capacity

/-- A bucket that holds no more than it can and has not been refilled ahead of the time. -/
structure Sound (b : Bucket ℚ) (capacity : Nat) (now : Instant) : Prop where
  tokens_le : b.tokens ≤ capacity
  refilled_le : b.refilled ≤ now

/-- The answer to a call that finds so many tokens. -/
def answer (tokens rate : ℚ) : Option Decision :=
  if 1 ≤ tokens then some (.admitted (Amount.floor (tokens - 1)))
  else (Amount.toDuration? ((1 - tokens) / rate)).map fun wait =>
    .rejected wait (Amount.wholeSeconds ℚ wait)

def after (b : Bucket ℚ) (capacity : Nat) (rate : ℚ) (now : Instant) : Bucket ℚ :=
  if 1 ≤ b.level capacity rate now then ⟨b.level capacity rate now - 1, now, now⟩
  else ⟨b.level capacity rate now, now, b.used⟩

theorem level_le : b.level capacity rate now ≤ capacity :=
  min_le_right _ _

theorem Sound.mono (h : b.Sound capacity now) (hl : now ≤ later) : b.Sound capacity later :=
  ⟨h.tokens_le, h.refilled_le.trans hl⟩

theorem level_at_refill (h : b.tokens ≤ capacity) :
    b.level capacity rate b.refilled = b.tokens := by
  simp [level, seconds_zero, h]

theorem refill_eq (h : b.Sound capacity now) :
    b.refill capacity rate now = { b with tokens := b.level capacity rate now, refilled := now } := by
  by_cases hlt : b.refilled < now
  · simp only [refill, hlt, if_true]
    congr 1
    rw [level, mul_comm rate]
    exact amountMin_eq _ _
  · obtain rfl : b.refilled = now := le_antisymm h.refilled_le (not_lt.mp hlt)
    simp [refill, level_at_refill h.tokens_le]

theorem decide_eq (h : b.Sound capacity now) :
    b.decide capacity rate now =
      (b.after capacity rate now, answer (b.level capacity rate now) rate) := by
  rw [decide, refill_eq h]
  by_cases hl : 1 ≤ b.level capacity rate now
  · simp only [take, after, answer, hl, if_true, Amount.atMost, Amount.ofNat]
    simp [hl]
  · simp only [take, after, answer, hl, if_false, Amount.atMost, Amount.ofNat]
    simp [hl]

/-- Refilling in two steps gives the same as refilling in one. -/
theorem level_later (h : b.Sound capacity now) (hr : 0 ≤ rate) (hl : now ≤ later) :
    b.level capacity rate later =
      min (b.level capacity rate now + rate * seconds (later - now)) capacity := by
  have hgain := gain_nonneg hr (later - now)
  unfold level
  rw [gain_sub_add rate h.refilled_le hl]
  rcases le_total (b.tokens + rate * seconds (now - b.refilled)) capacity with hc | hc
  · rw [min_eq_left hc, add_assoc]
  · rw [min_eq_right hc, min_eq_right (by linarith), min_eq_right (by linarith)]

theorem level_full (capacity : Nat) (rate : ℚ) (now : Instant) :
    (full capacity now : Bucket ℚ).level capacity rate now = capacity := by
  simp [level, full, Amount.ofNat, seconds_zero]

theorem full_sound (capacity : Nat) (now : Instant) :
    (full capacity now : Bucket ℚ).Sound capacity now :=
  ⟨le_refl _, le_refl _⟩

theorem after_of_le (h : 1 ≤ b.level capacity rate now) :
    b.after capacity rate now = ⟨b.level capacity rate now - 1, now, now⟩ :=
  if_pos h

theorem after_of_lt (h : ¬ 1 ≤ b.level capacity rate now) :
    b.after capacity rate now = ⟨b.level capacity rate now, now, b.used⟩ :=
  if_neg h

theorem after_sound (b : Bucket ℚ) (capacity : Nat) (rate : ℚ) (now : Instant) :
    (b.after capacity rate now).Sound capacity now := by
  have hle : b.level capacity rate now ≤ capacity := level_le
  by_cases h : 1 ≤ b.level capacity rate now
  · rw [after_of_le h]
    exact ⟨by simp only; linarith, le_refl _⟩
  · rw [after_of_lt h]
    exact ⟨hle, le_refl _⟩

theorem level_after_of_le (h : 1 ≤ b.level capacity rate now) :
    (b.after capacity rate now).level capacity rate now = b.level capacity rate now - 1 := by
  have hs := (after_sound b capacity rate now).tokens_le
  rw [after_of_le h] at hs ⊢
  exact level_at_refill hs

/-- A rejected call refills a bucket and thereby changes nothing. -/
theorem level_after_of_lt (h : ¬ 1 ≤ b.level capacity rate now) :
    (b.after capacity rate now).level capacity rate now = b.level capacity rate now := by
  have hs := (after_sound b capacity rate now).tokens_le
  rw [after_of_lt h] at hs ⊢
  exact level_at_refill hs

theorem isAdmitted_answer_iff {tokens rate : ℚ} :
    (∃ remaining, answer tokens rate = some (.admitted remaining)) ↔ 1 ≤ tokens := by
  by_cases h : 1 ≤ tokens
  · simp [answer, h]
  · simp [answer, h]

end Bucket

/-- What a call answers and leaves, from the level of the bucket that it finds. -/
theorem Store.acquire_eq {s : Store ℚ} (hv : s.Valid) {rate : ℚ} (hr : 0 < rate) {key : String}
    {capacity : Nat} {now : Instant} {b : Bucket ℚ}
    (hb : (s.bucketOf key).getD (.full capacity now) = b) (hs : b.Sound capacity now) :
    (s.acquire key capacity rate now).2 = Bucket.answer (b.level capacity rate now) rate ∧
      ∀ other, (s.acquire key capacity rate now).1.bucketOf other =
        if other = key then some (b.after capacity rate now) else s.bucketOf other := by
  obtain ⟨_, ha, hbuckets⟩ := acquire_spec hv (isUsable_of_pos hr) key capacity now
  rw [verdict, hb, Bucket.decide_eq hs] at ha hbuckets
  exact ⟨ha, hbuckets⟩

end Switchboard.RateLimit
