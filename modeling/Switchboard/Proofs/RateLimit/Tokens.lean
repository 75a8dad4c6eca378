import Switchboard.Proofs.RateLimit.Amounts
import Switchboard.Proofs.RateLimit.Operations

/-! Buckets that count in doubles. What a bucket holds is a number that is not negative, of which a
call takes exactly one. Only refills are rounded, and they stop at the capacity. -/

namespace Switchboard.RateLimit

open Double

namespace Bucket

variable {b : Bucket Float} {v : ℚ} {capacity : Nat} {rate : Float} {now : Instant}

def Holds (b : Bucket Float) (v : ℚ) : Prop :=
  value? b.tokens = some v

theorem holds_full (h : capacity ≤ 2 ^ 53) : (full capacity now : Bucket Float).Holds capacity :=
  value?_ofNat h

theorem Holds.refill (hb : b.Holds v) (hr : Store.isUsable rate = true) (hc : capacity ≤ 2 ^ 53)
    (h : b.refilled < now) :
    ∃ w ≤ (capacity : ℚ), (b.refill capacity rate now).Holds w := by
  obtain ⟨r, hr, -⟩ := Amount.isUsable_iff.mp hr
  obtain ⟨s, hs⟩ := Amount.exists_value?_ofDuration ⟨now - b.refilled⟩
  have hgained := isRounded_mul hs hr
  have hsum : (∃ p, value? (b.tokens + Amount.ofDuration ⟨now - b.refilled⟩ * rate) = some p) ∨
      IsInfinite (b.tokens + Amount.ofDuration ⟨now - b.refilled⟩ * rate) := by
    rcases hgained.finite_or_infinite with ⟨g, hg⟩ | hg
    · exact (isRounded_add hb hg).finite_or_infinite
    · exact .inr (hg.add hb)
  -- What is too large for a double is cut to the capacity all the same.
  obtain ⟨w, hw, hvalue⟩ := Amount.min_ofNat hsum hc
  refine ⟨w, hw, ?_⟩
  rw [Holds, Bucket.refill, if_pos h]
  exact hvalue

theorem Holds.one_le_iff (hb : b.Holds v) :
    Amount.atMost (Amount.ofNat 1) b.tokens = true ↔ 1 ≤ v := by
  have hone : value? (Amount.ofNat 1 : Float) = some 1 := value?_one
  rw [Amount.atMost_eq hone hb, decide_eq_true_iff]

/-- A token that is there is taken, exactly. -/
theorem Holds.take_of_le (hb : b.Holds v) (hone : 1 ≤ v) (hv : v ≤ 2 ^ 53) (rate : Float)
    (now : Instant) :
    (b.take rate now).2 = some (.admitted ⌊v - 1⌋₊) ∧ (b.take rate now).1.Holds (v - 1) ∧
      (b.take rate now).1.refilled = b.refilled := by
  have hrest : value? (b.tokens - Amount.ofNat 1) = some (v - 1) := value?_sub_one hb hone hv
  have htake : b.take rate now =
      ({ b with tokens := b.tokens - Amount.ofNat 1, used := now },
        some (.admitted (Amount.floor (b.tokens - Amount.ofNat 1)))) := by
    rw [take, if_pos (hb.one_le_iff.mpr hone)]
  rw [htake, (Amount.isNumber_double hrest).floor]
  exact ⟨rfl, hrest, rfl⟩

/-- Where there is no token, the bucket stays as it is. -/
theorem Holds.take_of_lt (hb : b.Holds v) (hone : v < 1) (rate : Float) (now : Instant) :
    b.take rate now = (b, (Amount.toDuration? ((Amount.ofNat 1 - b.tokens) / rate)).map fun wait =>
      .rejected wait (Amount.wholeSeconds Float wait)) := by
  rw [take, if_neg (mt hb.one_le_iff.mp (not_le.mpr hone))]

theorem Holds.refill_cases (hb : b.Holds v) (hr : Store.isUsable rate = true)
    (hc : capacity ≤ 2 ^ 53) (now : Instant) :
    ∃ w, (b.refill capacity rate now).Holds w ∧
      (w = v ∧ now ≤ b.refilled ∨ w ≤ capacity ∧ b.refilled < now) := by
  rcases lt_or_ge b.refilled now with h | h
  · obtain ⟨w, hw, hholds⟩ := hb.refill hr hc h
    exact ⟨w, hholds, .inr ⟨hw, h⟩⟩
  · exact ⟨v, by rwa [refill_of_le h], .inl ⟨rfl, h⟩⟩

theorem Holds.admitted (hb : b.Holds v) (hv : v ≤ 2 ^ 53) {n : Nat}
    (h : (b.take rate now).2 = some (.admitted n)) : 1 ≤ v ∧ ⌊v - 1⌋₊ = n := by
  rcases le_or_gt 1 v with hone | hone
  · rw [(hb.take_of_le hone hv rate now).1] at h
    exact ⟨hone, by simpa using h⟩
  · rw [hb.take_of_lt hone] at h
    simp at h

theorem Holds.take (hb : b.Holds v) (hv : v ≤ 2 ^ 53) (rate : Float) (now : Instant) :
    (b.take rate now).1.refilled = b.refilled ∧ ∃ u ≤ v, (b.take rate now).1.Holds u := by
  rcases le_or_gt 1 v with hone | hone
  · obtain ⟨-, hholds, hrefilled⟩ := hb.take_of_le hone hv rate now
    exact ⟨hrefilled, v - 1, by linarith, hholds⟩
  · rw [hb.take_of_lt hone]
    exact ⟨rfl, v, le_rfl, hb⟩

/-- A call that finds a part of a token has to wait no longer than one that finds nothing. -/
theorem Holds.wait_le (hb : b.Holds v) (hone : v < 1) (hr : Store.isUsable rate = true)
    {longest : ℚ} (hl : value? (Amount.ofNat 1 / rate) = some longest) :
    ∃ w ≤ longest, value? ((Amount.ofNat 1 - b.tokens) / rate) = some w := by
  obtain ⟨r, hr, hpos⟩ := Amount.isUsable_iff.mp hr
  have hv := value_nonneg hb
  have hneeded : value? (Amount.ofNat 1 - b.tokens) = some (nearest (1 - v)) :=
    (isRounded_sub value?_one hb hone.le).value_of_le (by linarith)
      ((by linarith : (1 : ℚ) - v ≤ 1).trans (one_le_pow₀ (by norm_num)))
  have hle : nearest (1 - v) ≤ 1 := (nearest_mono (by linarith) (by linarith)).trans_eq nearest_one
  obtain ⟨rfl, hfinite⟩ := (isRounded_div value?_one hr hpos).eq_nearest hl
  have hwait : nearest (nearest (1 - v) / r) ≤ nearest (1 / r) := by
    refine nearest_mono (div_nonneg (nearest_nonneg _) hpos.le) ?_
    gcongr
  exact ⟨_, hwait, (isRounded_div hneeded hr hpos).value (hwait.trans_lt hfinite)⟩

end Bucket

end Switchboard.RateLimit
