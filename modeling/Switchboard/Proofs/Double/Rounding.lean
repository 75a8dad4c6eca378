import Switchboard.Proofs.Double.Bits

/-! The rounding of doubles in parts. A mantissa with two more bits stands for a number between it
and the next, and the mantissa that it is rounded to is the natural number next to that number. -/

namespace Switchboard.Double

open Float.Model Float.Model.UnpackedFloat

/-- What a mantissa and the bit after it come to. -/
def leading (em : ExtendedMantissa) : ℚ :=
  em.mantissa + if em.roundBit then 1 / 2 else 0

/-- A number that begins with a mantissa and the bit after it. The last bit says if more follows. -/
structure Stands (em : ExtendedMantissa) (y : ℚ) : Prop where
  leading_le : leading em ≤ y
  lt_leading : y < leading em + 1 / 2
  sticky : em.stickyBit = false ↔ y = leading em

theorem leading_shiftRightOne (em : ExtendedMantissa) :
    leading em.shiftRightOne = em.mantissa / 2 := by
  have hm : (em.mantissa : ℚ) = 2 * (em.mantissa / 2 : ℕ) + (em.mantissa % 2 : ℕ) := by
    exact_mod_cast (Nat.div_add_mod em.mantissa 2).symm
  rcases Nat.mod_two_eq_zero_or_one em.mantissa with h | h
  · simp only [leading, ExtendedMantissa.shiftRightOne, h, hm]
    simp
  · simp only [leading, ExtendedMantissa.shiftRightOne, h, hm]
    simp
    ring

namespace Stands

variable {em : ExtendedMantissa} {y : ℚ}

theorem le (h : Stands em y) : em.mantissa ≤ y := by
  have := h.leading_le
  unfold leading at this
  split at this <;> linarith

theorem lt (h : Stands em y) : y < em.mantissa + 1 := by
  have := h.lt_leading
  unfold leading at this
  split at this <;> linarith

theorem shiftRightOne (h : Stands em y) : Stands em.shiftRightOne (y / 2) := by
  have hle := h.le
  have hlt := h.lt
  refine ⟨?_, ?_, ?_⟩
  · rw [leading_shiftRightOne]
    linarith
  · rw [leading_shiftRightOne]
    linarith
  · have hy : y / 2 = em.mantissa / 2 ↔ y = em.mantissa := by
      rw [div_left_inj' (by norm_num)]
    rw [leading_shiftRightOne, hy]
    have hsticky := h.sticky
    have hge := h.leading_le
    cases hr : em.roundBit with
    | false => simpa [ExtendedMantissa.shiftRightOne, leading, hr] using hsticky
    | true =>
      have hne : y ≠ em.mantissa := by
        simp only [leading, hr, if_true] at hge
        intro he
        linarith
      simp [ExtendedMantissa.shiftRightOne, hr, hne]

theorem shiftRight (h : Stands em y) (n : ℕ) : Stands (em >>> n) (y / 2 ^ n) := by
  induction n with
  | zero =>
    rw [pow_zero, div_one]
    exact h
  | succ n ih =>
    rw [pow_succ, ← div_div]
    exact ih.shiftRightOne

theorem isNearestEven (h : Stands em y) : IsNearestEven y em.roundedMantissa := by
  obtain ⟨m, round, sticky⟩ := em
  obtain ⟨hge, hlt, hsticky⟩ := h
  obtain ⟨f, rfl⟩ : ∃ f, y = m + f := ⟨y - m, by ring⟩
  cases round <;> cases sticky <;> simp [leading] at hge hlt hsticky
  · subst hsticky
    exact .down le_rfl (by norm_num) fun htie => by norm_num at htie
  · have hhalf : f < 1 / 2 := by linarith
    exact .down hge hhalf.le fun htie => absurd htie hhalf.ne
  · -- Just in the middle, the last bit of the mantissa decides.
    have hhalf : f = 1 / 2 := by linarith
    show IsNearestEven _ (m + m % 2)
    rcases Nat.mod_two_eq_zero_or_one m with hm | hm
    · rw [hm]
      exact .down (by linarith) hhalf.le fun _ => Nat.even_iff.mpr hm
    · rw [hm]
      exact .up hhalf.ge (by linarith) fun _ => Nat.even_iff.mpr (by omega)
  · have hhalf : 1 / 2 < f := lt_of_le_of_ne (by linarith) fun htie => hsticky (by linarith)
    exact .up hhalf.le (by linarith) fun htie => absurd htie hhalf.ne'

theorem roundedMantissa (h : Stands em y) : em.roundedMantissa = nearestEven y :=
  h.isNearestEven.unique (isNearestEven_nearestEven ((Nat.cast_nonneg _).trans h.le))

theorem exact (m : ℕ) : Stands (.ofMantissaAndAccuracy m .exact) m :=
  ⟨by simp [leading, ExtendedMantissa.ofMantissaAndAccuracy],
    by simp [leading, ExtendedMantissa.ofMantissaAndAccuracy],
    by simp [leading, ExtendedMantissa.ofMantissaAndAccuracy]⟩

/-- A quotient begins with the quotient in whole numbers, and the rest says what follows. -/
theorem quotient (m : ℕ) {n : ℕ} (hn : 0 < n) :
    Stands (.ofMantissaAndAccuracy (m / n) (accuracyOfFraction (m % n) n)) (m / n) := by
  have hrest : ((m % n : ℕ) : ℚ) / n < 1 := by
    rw [div_lt_one (Nat.cast_pos.mpr hn)]
    exact_mod_cast Nat.mod_lt m hn
  rw [div_eq_div_add_mod_div m hn]
  generalize m / n = k at *
  generalize m % n = r at *
  rcases Nat.eq_zero_or_pos r with rfl | hr
  · simpa [accuracyOfFraction] using exact k
  have hrpos : (0 : ℚ) < r / n := by positivity
  have hle := div_le_half_iff r hn
  have hge := half_le_div_iff r hn
  rcases lt_trichotomy (2 * r) n with h | h | h
  · have hacc : accuracyOfFraction r n = .inexact .lt := by
      rw [accuracyOfFraction, if_neg hr.ne', compare_lt_iff_lt.mpr h]
    have hhalf : (r : ℚ) / n < 1 / 2 := lt_of_not_ge fun h' => h.not_ge (hge.mp h')
    rw [hacc]
    refine ⟨?_, ?_, ?_⟩ <;> simp [leading, ExtendedMantissa.ofMantissaAndAccuracy]
    · linarith
    · linarith
    · exact ⟨hr.ne', hn.ne'⟩
  · have hacc : accuracyOfFraction r n = .inexact .eq := by
      rw [accuracyOfFraction, if_neg hr.ne', compare_eq_iff_eq.mpr h]
    have hhalf : (r : ℚ) / n = 1 / 2 := le_antisymm (hle.mpr h.le) (hge.mpr h.ge)
    rw [hacc, hhalf]
    refine ⟨?_, ?_, ?_⟩ <;> simp [leading, ExtendedMantissa.ofMantissaAndAccuracy]
  · have hacc : accuracyOfFraction r n = .inexact .gt := by
      rw [accuracyOfFraction, if_neg hr.ne', compare_gt_iff_gt.mpr h]
    have hhalf : 1 / 2 < (r : ℚ) / n := lt_of_not_ge fun h' => h.not_ge (hle.mp h')
    rw [hacc]
    refine ⟨?_, ?_, ?_⟩ <;> simp [leading, ExtendedMantissa.ofMantissaAndAccuracy]
    · linarith
    · linarith
    · linarith

end Stands

theorem mantissa_ofMantissaAndAccuracy (m : ℕ) (acc : Accuracy) :
    (ExtendedMantissa.ofMantissaAndAccuracy m acc).mantissa = m := by
  rcases acc with _ | o
  · rfl
  · cases o <;> rfl

theorem shiftToExponent_of_le {m : ℕ} {e target : ℤ} {acc : Accuracy} {y : ℚ}
    (h : Stands (.ofMantissaAndAccuracy m acc) y) (he : e ≤ target) :
    Stands (shiftToExponent m e acc target).1 (y * 2 ^ e / 2 ^ target) ∧
      (shiftToExponent m e acc target).2 = target := by
  obtain ⟨n, hn⟩ := Int.eq_ofNat_of_zero_le (sub_nonneg.mpr he)
  obtain rfl : target = e + n := by omega
  have hy : y * 2 ^ e / 2 ^ (e + n) = y / 2 ^ n := by
    rw [zpow_add₀ (by norm_num), zpow_natCast]
    field_simp
  have hshift : (e + n - e).toNat = n := by omega
  simp only [shiftToExponent, hshift, hy]
  exact ⟨h.shiftRight n, trivial⟩

theorem targetExponent_totalExponent (m : ℕ) (e : ℤ) :
    Format.binary64.targetExponent (totalExponent m e) = max (m.log2 + e - 52) (-1074) := by
  simp only [Format.targetExponent, totalExponent, Format.minExponent, Format.mantissaBits]
  norm_num
  omega

theorem log_eq_log2 {m : ℕ} {e : ℤ} {y : ℚ} (hm : 0 < m) (hle : (m : ℚ) ≤ y) (hlt : y < m + 1) :
    Int.log 2 (y * 2 ^ e) = m.log2 + e := by
  have hy : 0 < y := (Nat.cast_pos.mpr hm).trans_le hle
  have hlow : (2 : ℚ) ^ (m.log2 : ℤ) ≤ y := by
    rw [zpow_natCast]
    exact le_trans (by exact_mod_cast Nat.log2_self_le hm.ne') hle
  have hhigh : y < 2 ^ ((m.log2 : ℤ) + 1) := by
    refine hlt.trans_le ?_
    exact_mod_cast (Nat.lt_log2_self : m < 2 ^ (m.log2 + 1))
  refine le_antisymm (Int.lt_add_one_iff.mp ?_) ?_
  · rw [← Int.lt_zpow_iff_log_lt (by norm_num) (by positivity)]
    push_cast
    rw [add_right_comm, zpow_add₀ (by norm_num)]
    gcongr
  · rw [← Int.zpow_le_iff_le_log (by norm_num) (by positivity)]
    push_cast
    rw [zpow_add₀ (by norm_num)]
    gcongr

theorem targetExponent_eq {m : ℕ} {e : ℤ} {y : ℚ} (hy : 0 < y) (hle : (m : ℚ) ≤ y) (hlt : y < m + 1)
    (he : e ≤ lastExponent (y * 2 ^ e)) :
    Format.binary64.targetExponent (totalExponent m e) = lastExponent (y * 2 ^ e) := by
  rw [targetExponent_totalExponent]
  rcases Nat.eq_zero_or_pos m with rfl | hm
  · -- A number below the last place of its mantissa is subnormal.
    have hlog : Int.log 2 (y * 2 ^ e) < e := by
      rw [← Int.lt_zpow_iff_log_lt (by norm_num) (by positivity)]
      have hone : y < 1 := by simpa using hlt
      calc y * 2 ^ e < 1 * 2 ^ e := by gcongr
        _ = ((2 : ℕ) : ℚ) ^ e := by simp
    unfold lastExponent at he ⊢
    simp only [Nat.log2_zero]
    omega
  · rw [lastExponent, log_eq_log2 hm hle hlt]

theorem shiftToExponent_of_ge {m : ℕ} {e target : ℤ} {acc : Accuracy} (he : target ≤ e) :
    shiftToExponent m e acc target = (.ofMantissaAndAccuracy m acc, e) := by
  have hshift : (target - e).toNat = 0 := by omega
  simp only [shiftToExponent, hshift]
  rw [Nat.cast_zero, add_zero]
  rfl

/-- A mantissa and an exponent as parts, with a zero for the mantissa zero. -/
def ofParts (m : ℕ) (e : ℤ) : UnpackedFloat :=
  if h : m = 0 then .zero .positive else .finite .positive m e (Nat.pos_of_ne_zero h)

theorem canonical_ofParts {m : ℕ} {e : ℤ} (h : Fits m e) : Canonical (ofParts m e) (m * 2 ^ e) := by
  unfold ofParts
  split
  · rename_i hm
    rw [hm, Nat.cast_zero, zero_mul]
    exact .zero _
  · exact .finite _ h

/-- Rounding up to one more bit moves the exponent by one. -/
theorem canonical_carry {m : ℕ} {e : ℤ} (hm : m ≤ 2 ^ 53) (hge : -1074 ≤ e)
    (hnormal : e = -1074 ∨ 2 ^ 52 ≤ m) :
    Canonical (ofParts (shiftToTargetExponent Format.binary64 m e .exact).1.mantissa
      (shiftToTargetExponent Format.binary64 m e .exact).2) (m * 2 ^ e) := by
  rw [shiftToTargetExponent, targetExponent_totalExponent]
  rcases hm.eq_or_lt with rfl | hlt
  · have hlog : (2 ^ 53 : ℕ).log2 = 53 := Nat.log2_two_pow
    have htarget : max (((2 ^ 53 : ℕ).log2 : ℤ) + e - 52) (-1074) = e + 1 := by
      rw [hlog]
      omega
    have hshift : shiftToExponent (2 ^ 53) e .exact (e + 1) =
        (⟨2 ^ 52, false, false⟩, e + 1) := by
      simp only [shiftToExponent, add_sub_cancel_left]
      rfl
    have hvalue : ((2 ^ 53 : ℕ) : ℚ) * 2 ^ e = (2 ^ 52 : ℕ) * 2 ^ (e + 1) := by
      rw [zpow_add₀ (by norm_num)]
      push_cast
      ring
    rw [htarget, hshift, hvalue]
    exact canonical_ofParts ⟨by norm_num, by omega, .inr le_rfl⟩
  · have hlog : m.log2 ≤ 52 := by
      rcases Nat.eq_zero_or_pos m with rfl | hpos
      · simp
      · exact Nat.lt_succ_iff.mp ((Nat.log2_lt hpos.ne').mpr hlt)
    rw [shiftToExponent_of_ge (by omega)]
    exact canonical_ofParts ⟨hlt, hge, hnormal⟩

theorem canonical_roundWithAccuracy {m : ℕ} {e : ℤ} {acc : Accuracy} {y : ℚ}
    (h : Stands (.ofMantissaAndAccuracy m acc) y) (hy : 0 < y)
    (he : e ≤ lastExponent (y * 2 ^ e)) :
    Canonical (roundWithAccuracy Format.binary64 .positive m e acc) (nearest (y * 2 ^ e)) := by
  have hq : 0 < y * 2 ^ e := by positivity
  have hle := h.le
  have hlt := h.lt
  rw [mantissa_ofMantissaAndAccuracy] at hle hlt
  -- The first shift leaves the bits there is room for. The second is for the carry of the rounding.
  obtain ⟨hstands, htarget⟩ := shiftToExponent_of_le h he
  have hround : roundWithAccuracy Format.binary64 .positive m e acc =
      ofParts (shiftToTargetExponent Format.binary64
          (nearestEven (y * 2 ^ e / 2 ^ lastExponent (y * 2 ^ e)))
          (lastExponent (y * 2 ^ e)) .exact).1.mantissa
        (shiftToTargetExponent Format.binary64
          (nearestEven (y * 2 ^ e / 2 ^ lastExponent (y * 2 ^ e)))
          (lastExponent (y * 2 ^ e)) .exact).2 := by
    rw [← hstands.roundedMantissa, roundWithAccuracy]
    simp only [shiftToTargetExponent.eq_1 _ m, targetExponent_eq hy hle hlt he, htarget]
    rfl
  rw [hround, nearest]
  refine canonical_carry (nearestEven_le hq.le) (le_max_right _ _) ?_
  by_cases hsub : lastExponent (y * 2 ^ e) = -1074
  · exact .inl hsub
  · exact .inr (le_nearestEven hq (lt_of_le_of_ne (le_max_right _ _) (Ne.symm hsub)))

theorem decreaseExponent_value (m : ℕ) (e target : ℤ) :
    ((decreaseExponent m e target).1 : ℚ) * 2 ^ (decreaseExponent m e target).2 = m * 2 ^ e := by
  simp only [decreaseExponent, Nat.shiftLeft_eq, Nat.cast_mul, Nat.cast_pow, Nat.cast_ofNat]
  rw [mul_assoc, ← zpow_natCast, ← zpow_add₀ (by norm_num)]
  congr 2
  omega

theorem canonical_round {m : ℕ} (e : ℤ) (hm : 0 < m) :
    Canonical (UnpackedFloat.round Format.binary64 .positive m e) (nearest (m * 2 ^ e)) := by
  have hpos : (0 : ℚ) < m := Nat.cast_pos.mpr hm
  have htarget : Format.binary64.targetExponent (totalExponent m e) = lastExponent (m * 2 ^ e) := by
    rw [targetExponent_totalExponent, lastExponent, log_eq_log2 hm le_rfl (by simp)]
  have hvalue := decreaseExponent_value m e (lastExponent (m * 2 ^ e))
  have hexp : (decreaseExponent m e (lastExponent (m * 2 ^ e))).2 ≤ lastExponent (m * 2 ^ e) := by
    simp only [decreaseExponent]
    omega
  have hmantissa : (0 : ℚ) < (decreaseExponent m e (lastExponent (m * 2 ^ e))).1 := by
    simp only [decreaseExponent, Nat.shiftLeft_eq]
    positivity
  simp only [UnpackedFloat.round, htarget]
  have hc := canonical_roundWithAccuracy (.exact _) hmantissa (hexp.trans_eq (by rw [hvalue]))
  rwa [hvalue] at hc

theorem canonical_normalize (n : ℕ) (e : ℤ) :
    Canonical (UnpackedFloat.normalize Format.binary64 n e .positive) (nearest (n * 2 ^ e)) := by
  rcases Nat.eq_zero_or_pos n with rfl | hn
  · have hzero : ((0 : ℕ) : ℚ) * 2 ^ e = 0 := by simp
    rw [hzero, nearest_zero]
    exact .zero _
  · have hcompare : compare (n : ℤ) 0 = .gt := compare_gt_iff_gt.mpr (by exact_mod_cast hn)
    simp only [UnpackedFloat.normalize, hcompare, Int.toNat_natCast]
    exact canonical_round e hn

end Switchboard.Double
