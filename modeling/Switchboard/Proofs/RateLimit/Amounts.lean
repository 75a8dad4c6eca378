import Mathlib.Algebra.Order.Floor.Semifield
import Switchboard.Proofs.Double.Arithmetic
import Switchboard.RateLimit.Store

/-! The numbers that amounts stand for: what is read off them, exactly where the amounts are
rational numbers and rounded where they are doubles. -/

namespace Switchboard

theorem ceilDiv_eq_ceil (num : ℕ) {den : ℕ} (h : 0 < den) :
    ceilDiv num den = ⌈(num : ℚ) / den⌉₊ := by
  refine eq_of_forall_ge_iff fun n => ?_
  have hden : (0 : ℚ) < den := Nat.cast_pos.mpr h
  have hle : num ≤ n * den ↔ (num : ℚ) / den ≤ n := by
    rw [div_le_iff₀ hden]
    exact_mod_cast Iff.rfl
  rw [Nat.ceil_le, ← hle, ceilDiv, Nat.div_le_iff_le_mul_add_pred h, mul_comm]
  omega

namespace RateLimit.Amount

section Numbers

variable {R : Type} [Amount R] {x : R} {p q : ℚ} {d : Duration}

/-- An amount that is finite and not negative, with the number that it stands for. -/
inductive IsNumber : R → ℚ → Prop
  | intro {x : R} {num den : ℕ} (h : fraction? x = some (num, den)) (hden : 0 < den) :
    IsNumber x (num / den)

theorem IsNumber.floor (h : IsNumber x p) : floor x = ⌊p⌋₊ := by
  cases h with
  | intro hf hden =>
    rw [Nat.floor_div_eq_div]
    simp only [Amount.floor, hf]

theorem IsNumber.toDuration? (h : IsNumber x p) :
    toDuration? x = if p < 2 ^ 64 then some ⟨nearestEven (p * 1000000000)⟩ else none := by
  cases h with
  | @intro num den hf hden =>
    have hpos : (0 : ℚ) < den := Nat.cast_pos.mpr hden
    have hlt : num < Word.size64 * den ↔ (num : ℚ) / den < 2 ^ 64 := by
      rw [div_lt_iff₀ hpos]
      exact_mod_cast Iff.rfl
    simp only [Amount.toDuration?, hf, hlt, roundHalfEven_eq_nearestEven _ hden]
    push_cast
    rw [div_mul_eq_mul_div]

theorem IsNumber.wholeSeconds (h : IsNumber (ofDuration d : R) p) :
    wholeSeconds R d = Nat.min (Nat.max ⌈p⌉₊ 1) (Word.half64 - 1) := by
  cases h with
  | intro hf hden =>
    simp only [Amount.wholeSeconds, hf, ceilDiv_eq_ceil _ hden]

end Numbers

theorem isNumber_rat {x : ℚ} (h : 0 ≤ x) : IsNumber x x := by
  have hf : fraction? x = some (x.num.toNat, x.den) := if_pos h
  have hnum : ((x.num.toNat : ℕ) : ℚ) = x.num := by
    exact_mod_cast congrArg (Int.cast (R := ℚ)) (Int.toNat_of_nonneg (Rat.num_nonneg.mpr h))
  have hx := IsNumber.intro hf x.den_pos
  rwa [hnum, Rat.num_div_den] at hx

theorem isNumber_double {x : Float} {p : ℚ} (h : Double.value? x = some p) : IsNumber x p := by
  obtain ⟨⟨num, den⟩, hf, rfl⟩ := Option.map_eq_some_iff.mp h
  exact .intro hf (Double.den_pos_of_fraction hf)

section Doubles

open Double

variable {x y : Float} {p q : ℚ}

theorem atMost_eq (hx : value? x = some p) (hy : value? y = some q) :
    atMost x y = decide (p ≤ q) :=
  decide_eq_decide.mpr (le_iff hx hy)

theorem isUsable_iff : Store.isUsable x = true ↔ ∃ p, value? x = some p ∧ 0 < p := by
  have hzero : value? (ofNat 0 : Float) = some 0 := value?_ofNat (n := 0) (by norm_num)
  cases hf : Double.fraction? x with
  | none => simp [Store.isUsable, fraction?, value?, hf]
  | some f =>
    have hx : value? x = some ((f.1 : ℚ) / f.2) := by rw [value?, hf, Option.map_some]
    simp [Store.isUsable, fraction?, hf, atMost_eq hx hzero, hx]

theorem value?_billion : value? 1000000000.0 = some 1000000000 := by
  have hf : Double.fraction? 1000000000.0 = some (1000000000 * 2 ^ 23, 2 ^ 23) := by decide +kernel
  rw [value?, hf]
  norm_num

theorem value?_subsecond (d : Duration) :
    value? (Double.ofNat d.subsecond / 1000000000.0) =
      some (nearest (d.subsecond / 1000000000)) := by
  have hlt : d.subsecond < 1000000000 := Nat.mod_lt _ (by norm_num)
  have hcast : (d.subsecond : ℚ) ≤ 1000000000 := by exact_mod_cast hlt.le
  refine (isRounded_div (value?_ofNat (hlt.le.trans (by norm_num))) value?_billion
    (by norm_num)).value_of_le (by positivity) ?_
  calc (d.subsecond : ℚ) / 1000000000 ≤ 1 := by
        rw [div_le_one (by norm_num)]
        exact hcast
    _ ≤ 2 ^ 1023 := one_le_pow₀ (by norm_num)

theorem subsecond_lt_one (d : Duration) : nearest (d.subsecond / 1000000000) < 1 := by
  have hlt : d.subsecond < 1000000000 := Nat.mod_lt _ (by norm_num)
  have hle : (d.subsecond : ℚ) / 1000000000 ≤ (2 ^ 30 - 1 : ℕ) * 2 ^ (-30 : ℤ) := by
    have hcast : (d.subsecond : ℚ) ≤ 999999999 := by
      exact_mod_cast (by omega : d.subsecond ≤ 999999999)
    rw [div_le_iff₀ (by norm_num)]
    norm_num
    linarith
  refine (nearest_mono (by positivity) hle).trans_lt ?_
  rw [nearest_eq_self (by norm_num) (by norm_num)]
  norm_num

theorem value?_ofDuration {d : Duration} {s : ℚ} (hs : value? (Double.ofNat d.seconds) = some s)
    (hle : s ≤ 2 ^ 64) :
    value? (ofDuration d : Float) = some (nearest (s + nearest (d.subsecond / 1000000000))) := by
  have hsub := (subsecond_lt_one d).le
  refine (isRounded_add hs (value?_subsecond d)).value_of_le ?_ ?_
  · exact add_nonneg (value_nonneg hs) (nearest_nonneg _)
  · calc s + nearest (d.subsecond / 1000000000) ≤ 2 ^ 65 := by linarith
      _ ≤ 2 ^ 1023 := pow_le_pow_right₀ (by norm_num) (by norm_num)

theorem nearest_le_of_lt_size64 {n : ℕ} (h : n < 2 ^ 64) : nearest n ≤ 2 ^ 64 := by
  have hle : (n : ℚ) ≤ 2 ^ (64 : ℤ) := by exact_mod_cast h.le
  exact_mod_cast nearest_le_two_zpow (by norm_num) (Nat.cast_nonneg n) hle

theorem value?_ofDuration_mono {d d' : Duration} (h : d.nanos ≤ d'.nanos)
    (hlt : d'.seconds < 2 ^ 64) :
    ∃ s s', value? (ofDuration d : Float) = some s ∧ value? (ofDuration d' : Float) = some s' ∧
      s ≤ s' := by
  have hsec : d.seconds ≤ d'.seconds := Nat.div_le_div_right h
  have hlt' : d.seconds < 2 ^ 64 := hsec.trans_lt hlt
  refine ⟨_, _, value?_ofDuration (value?_ofNat_of_lt hlt') (nearest_le_of_lt_size64 hlt'),
    value?_ofDuration (value?_ofNat_of_lt hlt) (nearest_le_of_lt_size64 hlt), ?_⟩
  have hpos : ∀ d : Duration, (0 : ℚ) ≤ nearest (d.subsecond / 1000000000) :=
    fun d => nearest_nonneg _
  -- Within a second, the rounded fractions are in order, and none is rounded up to a whole second.
  rcases hsec.eq_or_lt with heq | hless
  · have hsub : d.subsecond ≤ d'.subsecond := by
      simp only [Duration.seconds, Duration.subsecond] at heq ⊢
      omega
    rw [heq]
    refine nearest_mono (add_nonneg (nearest_nonneg _) (hpos d)) ?_
    gcongr
    exact nearest_mono (by positivity) (by gcongr)
  · calc nearest (nearest d.seconds + nearest (d.subsecond / 1000000000))
        ≤ nearest (d.seconds + 1) := nearest_add_le _ (hpos d) (subsecond_lt_one d)
      _ ≤ nearest d'.seconds := nearest_mono (by positivity) (by exact_mod_cast hless)
      _ = nearest (nearest d'.seconds) := (nearest_nearest (Nat.cast_nonneg _)).symm
      _ ≤ nearest (nearest d'.seconds + nearest (d'.subsecond / 1000000000)) :=
          nearest_mono (nearest_nonneg _) (by linarith [hpos d'])

/-- The rounded length of a span is neither zero nor too large to divide by. -/
theorem value?_ofDuration_of_ne_zero {d : Duration} (h : d.nanos ≠ 0) (hlt : d.seconds < 2 ^ 64) :
    ∃ s, value? (ofDuration d : Float) = some s ∧ 2 ^ (-30 : ℤ) ≤ s ∧ s ≤ 2 ^ (65 : ℤ) := by
  have hseconds := nearest_le_of_lt_size64 hlt
  have hrest := nearest_nonneg (d.subsecond / 1000000000)
  have hless := subsecond_lt_one d
  refine ⟨_, value?_ofDuration (value?_ofNat_of_lt hlt) hseconds,
    two_zpow_le_nearest (by norm_num) ?_,
    nearest_le_two_zpow (by norm_num) (add_nonneg (nearest_nonneg _) hrest) ?_⟩
  · rcases Nat.eq_zero_or_pos d.seconds with hzero | hpos
    · have hsub : 1 ≤ d.subsecond := by
        simp only [Duration.seconds, Duration.subsecond] at hzero ⊢
        omega
      have hle : (2 : ℚ) ^ (-30 : ℤ) ≤ d.subsecond / 1000000000 := by
        rw [le_div_iff₀ (by norm_num)]
        have hcast : (1 : ℚ) ≤ d.subsecond := by exact_mod_cast hsub
        norm_num
        linarith
      exact (two_zpow_le_nearest (by norm_num) hle).trans (le_add_of_nonneg_left (nearest_nonneg _))
    · have hle : (2 : ℚ) ^ (0 : ℤ) ≤ d.seconds := by exact_mod_cast hpos
      have hone := two_zpow_le_nearest (by norm_num) hle
      norm_num at hone ⊢
      linarith
  · norm_num at hseconds ⊢
    linarith

theorem value?_of_toDuration? (h : toDuration? x ≠ none) :
    ∃ p, value? x = some p ∧ p < 2 ^ 64 := by
  cases hf : Double.fraction? x with
  | none => exact absurd (by simp [toDuration?, fraction?, hf]) h
  | some f =>
    have hx : value? x = some ((f.1 : ℚ) / f.2) := by rw [value?, hf, Option.map_some]
    refine ⟨_, hx, ?_⟩
    by_contra hge
    exact h (by rw [(isNumber_double hx).toDuration?, if_neg hge])

theorem exists_value?_ofDuration (d : Duration) : ∃ s, value? (ofDuration d : Float) = some s := by
  have hlt : d.seconds % 2 ^ 64 < 2 ^ 64 := Nat.mod_lt _ (by norm_num)
  have hmod : Double.ofNat d.seconds = Double.ofNat (d.seconds % 2 ^ 64) := by
    have htoNat : d.seconds.toUInt64 = (d.seconds % 2 ^ 64).toUInt64 :=
      UInt64.toNat_inj.mp (by simp)
    rw [Double.ofNat, htoNat, Double.ofNat]
  exact ⟨_, value?_ofDuration (by rw [hmod]; exact value?_ofNat_of_lt hlt)
    (nearest_le_of_lt_size64 hlt)⟩

/-- The smaller of a sum that may be too large for a double and a count. -/
theorem min_ofNat {n : ℕ} (hx : (∃ p, value? x = some p) ∨ IsInfinite x) (hn : n ≤ 2 ^ 53) :
    ∃ w ≤ (n : ℚ), value? (Amount.min x (ofNat n)) = some w := by
  have hcap : value? (ofNat n : Float) = some (n : ℚ) := value?_ofNat hn
  rcases hx with ⟨p, hvalue⟩ | hinfinite
  · by_cases hle : p ≤ n
    · refine ⟨p, hle, ?_⟩
      rw [Amount.min, atMost_eq hvalue hcap, if_pos (decide_eq_true hle), hvalue]
    · refine ⟨n, le_rfl, ?_⟩
      rw [Amount.min, atMost_eq hvalue hcap, if_neg (by simpa using hle), hcap]
  · have hnot : atMost x (ofNat n) = false := decide_eq_false (hinfinite.not_le hcap)
    refine ⟨n, le_rfl, ?_⟩
    rw [Amount.min, hnot, if_neg (by simp), hcap]

end Doubles

end RateLimit.Amount

end Switchboard
