import Mathlib.Algebra.Order.Field.Power
import Mathlib.Algebra.Order.Field.Rat
import Mathlib.Algebra.Order.Round
import Mathlib.Data.Int.Log
import Mathlib.Data.Nat.Cast.Order.Field
import Mathlib.Data.Rat.Floor
import Mathlib.Tactic.FieldSimp
import Mathlib.Tactic.Linarith
import Mathlib.Tactic.Positivity
import Mathlib.Tactic.Ring
import Switchboard.Double

/-! Rounding to the nearest: of a quotient to a natural number, and of a number to one with 53
significant bits. Both keep the order, and both leave alone what is already of the form they round
to. -/

namespace Switchboard

theorem div_eq_div_add_mod_div (num : ℕ) {den : ℕ} (h : 0 < den) :
    (num : ℚ) / den = (num / den : ℕ) + (num % den : ℕ) / den := by
  have hden : (den : ℚ) ≠ 0 := Nat.cast_ne_zero.mpr h.ne'
  have hnum : (num : ℚ) = (num / den : ℕ) * den + (num % den : ℕ) := by
    exact_mod_cast (Nat.div_add_mod' num den).symm
  rw [div_eq_iff hden, add_mul, div_mul_cancel₀ _ hden]
  exact hnum

theorem div_le_half_iff (r : ℕ) {n : ℕ} (h : 0 < n) : (r : ℚ) / n ≤ 1 / 2 ↔ 2 * r ≤ n := by
  rw [div_le_div_iff₀ (Nat.cast_pos.mpr h) (by norm_num), mul_comm, one_mul]
  exact_mod_cast Iff.rfl

theorem half_le_div_iff (r : ℕ) {n : ℕ} (h : 0 < n) : 1 / 2 ≤ (r : ℚ) / n ↔ n ≤ 2 * r := by
  rw [div_le_div_iff₀ (by norm_num) (Nat.cast_pos.mpr h), mul_comm (r : ℚ), one_mul]
  exact_mod_cast Iff.rfl

/-- The natural number next to a number, and of two that are equally near the even one. -/
structure IsNearestEven (y : ℚ) (n : ℕ) : Prop where
  near : |y - n| ≤ 1 / 2
  even_of_tie : |y - n| = 1 / 2 → Even n

namespace IsNearestEven

variable {y z f : ℚ} {m n : ℕ}

theorem mono (hm : IsNearestEven y m) (hn : IsNearestEven z n) (h : y ≤ z) : m ≤ n := by
  by_contra hlt
  have hsucc : (n : ℚ) + 1 ≤ m := by exact_mod_cast not_le.mp hlt
  have hy := abs_le.mp hm.near
  have hz := abs_le.mp hn.near
  -- Only the middle between two neighbours can be rounded to both, and one of them is odd.
  have hym : y - m = -(1 / 2) := by linarith
  have hzn : z - n = 1 / 2 := by linarith
  have heven : Even m := hm.even_of_tie (by rw [hym, abs_neg, abs_of_nonneg (by norm_num)])
  have heven' : Even n := hn.even_of_tie (by rw [hzn, abs_of_nonneg (by norm_num)])
  have hmn : m = n + 1 := by
    have hcast : (m : ℚ) = n + 1 := by linarith
    exact_mod_cast hcast
  rw [hmn] at heven
  exact (Nat.even_add_one.mp heven) heven'

theorem unique (hm : IsNearestEven y m) (hn : IsNearestEven y n) : m = n :=
  le_antisymm (hm.mono hn le_rfl) (hn.mono hm le_rfl)

theorem natCast (n : ℕ) : IsNearestEven n n :=
  ⟨by simp, fun h => by norm_num at h⟩

theorem down (hf : 0 ≤ f) (hle : f ≤ 1 / 2) (htie : f = 1 / 2 → Even n) :
    IsNearestEven (n + f) n := by
  have habs : |(n : ℚ) + f - n| = f := by rw [add_sub_cancel_left, abs_of_nonneg hf]
  exact ⟨habs.trans_le hle, fun h => htie (habs.symm.trans h)⟩

theorem up (hge : 1 / 2 ≤ f) (hf : f ≤ 1) (htie : f = 1 / 2 → Even (n + 1)) :
    IsNearestEven (n + f) (n + 1) := by
  have habs : |(n : ℚ) + f - (n + 1 : ℕ)| = 1 - f := by
    rw [Nat.cast_add, Nat.cast_one, add_sub_add_left_eq_sub, abs_of_nonpos (by linarith), neg_sub]
  refine ⟨by rw [habs]; linarith, fun h => htie ?_⟩
  rw [habs] at h
  linarith

end IsNearestEven

theorem isNearestEven_roundHalfEven (num : ℕ) {den : ℕ} (h : 0 < den) :
    IsNearestEven (num / den) (roundHalfEven num den) := by
  have hle := div_le_half_iff (num % den) h
  have hge := half_le_div_iff (num % den) h
  rw [div_eq_div_add_mod_div num h]
  by_cases hdown : 2 * (num % den) < den ∨ 2 * (num % den) = den ∧ num / den % 2 = 0
  · have hr : roundHalfEven num den = num / den := by simp [roundHalfEven, hdown]
    rw [hr]
    refine .down (by positivity) (hle.mpr (by omega)) fun htie => Nat.even_iff.mpr ?_
    have htwice := hge.mp htie.ge
    omega
  · have hr : roundHalfEven num den = num / den + 1 := by simp [roundHalfEven, hdown]
    have hlt : ((num % den : ℕ) : ℚ) / den < 1 := by
      rw [div_lt_one (Nat.cast_pos.mpr h)]
      exact_mod_cast Nat.mod_lt num h
    rw [hr]
    refine .up (hge.mpr (by omega)) hlt.le fun htie => Nat.even_iff.mpr ?_
    have htwice := hle.mp htie.le
    omega

/-- The natural number next to a number that is not negative. -/
def nearestEven (y : ℚ) : ℕ :=
  roundHalfEven y.num.toNat y.den

theorem isNearestEven_nearestEven {y : ℚ} (h : 0 ≤ y) : IsNearestEven y (nearestEven y) := by
  have hnum : ((y.num.toNat : ℕ) : ℚ) = y.num := by
    exact_mod_cast congrArg (Int.cast (R := ℚ)) (Int.toNat_of_nonneg (Rat.num_nonneg.mpr h))
  have hy : ((y.num.toNat : ℕ) : ℚ) / y.den = y := by rw [hnum, Rat.num_div_den]
  have hn := isNearestEven_roundHalfEven y.num.toNat y.den_pos
  rwa [hy] at hn

theorem nearestEven_natCast (n : ℕ) : nearestEven n = n :=
  (isNearestEven_nearestEven (Nat.cast_nonneg n)).unique (.natCast n)

theorem nearestEven_mono {y z : ℚ} (hy : 0 ≤ y) (h : y ≤ z) : nearestEven y ≤ nearestEven z :=
  (isNearestEven_nearestEven hy).mono (isNearestEven_nearestEven (hy.trans h)) h

theorem roundHalfEven_eq_nearestEven (num : ℕ) {den : ℕ} (h : 0 < den) :
    roundHalfEven num den = nearestEven (num / den) :=
  (isNearestEven_roundHalfEven num h).unique (isNearestEven_nearestEven (by positivity))

namespace Double

/-- The exponent of the last of 53 significant bits, as far down as doubles go. -/
def lastExponent (q : ℚ) : ℤ :=
  max (Int.log 2 q - 52) (-1074)

/-- The number next to `q` that has no more than 53 significant bits. -/
def nearest (q : ℚ) : ℚ :=
  nearestEven (q / 2 ^ lastExponent q) * 2 ^ lastExponent q

variable {p q : ℚ}

theorem two_zpow_pos (e : ℤ) : (0 : ℚ) < 2 ^ e := by positivity

theorem nearest_zero : nearest 0 = 0 := by
  have h := nearestEven_natCast 0
  rw [Nat.cast_zero] at h
  simp [nearest, h]

theorem nearest_nonneg (q : ℚ) : 0 ≤ nearest q := by
  unfold nearest
  positivity

theorem lt_two_zpow_lastExponent (q : ℚ) : q < 2 ^ (lastExponent q + 53) := by
  have hlog := Int.lt_zpow_succ_log_self (b := 2) (by norm_num) q
  have hle : Int.log 2 q + 1 ≤ lastExponent q + 53 := by
    have := le_max_left (Int.log 2 q - 52) (-1074)
    unfold lastExponent
    omega
  exact_mod_cast hlog.trans_le (zpow_le_zpow_right₀ (by norm_num) hle)

theorem le_of_lastExponent (h : 0 < q) (he : -1074 < lastExponent q) :
    2 ^ (lastExponent q + 52) ≤ q := by
  have hlog : ((2 : ℕ) : ℚ) ^ Int.log 2 q ≤ q := Int.zpow_log_le_self (by norm_num) h
  have heq : lastExponent q + 52 = Int.log 2 q := by
    unfold lastExponent at he ⊢
    omega
  rw [heq]
  exact_mod_cast hlog

theorem nearestEven_le (h : 0 ≤ q) : nearestEven (q / 2 ^ lastExponent q) ≤ 2 ^ 53 := by
  have hpos := two_zpow_pos (lastExponent q)
  have hlt := lt_two_zpow_lastExponent q
  rw [zpow_add₀ (by norm_num), mul_comm] at hlt
  have hle : q / 2 ^ lastExponent q ≤ ((2 ^ 53 : ℕ) : ℚ) := by
    rw [div_le_iff₀ hpos]
    exact_mod_cast hlt.le
  have hn := nearestEven_mono (by positivity) hle
  rwa [nearestEven_natCast] at hn

theorem le_nearestEven (h : 0 < q) (he : -1074 < lastExponent q) :
    2 ^ 52 ≤ nearestEven (q / 2 ^ lastExponent q) := by
  have hpos := two_zpow_pos (lastExponent q)
  have hle := le_of_lastExponent h he
  rw [zpow_add₀ (by norm_num), mul_comm] at hle
  have hge : ((2 ^ 52 : ℕ) : ℚ) ≤ q / 2 ^ lastExponent q := by
    rw [le_div_iff₀ hpos]
    exact_mod_cast hle
  have hn := nearestEven_mono (Nat.cast_nonneg _) hge
  rwa [nearestEven_natCast] at hn

theorem lastExponent_mono (hp : 0 < p) (h : p ≤ q) : lastExponent p ≤ lastExponent q := by
  have hlog : Int.log 2 p ≤ Int.log 2 q := Int.log_mono_right hp h
  unfold lastExponent
  omega

theorem nearest_mono (hp : 0 ≤ p) (h : p ≤ q) : nearest p ≤ nearest q := by
  rcases hp.eq_or_lt with rfl | hp
  · rw [nearest_zero]
    exact nearest_nonneg q
  have hq := hp.trans_le h
  rcases (lastExponent_mono hp h).eq_or_lt with he | he
  · unfold nearest
    rw [he]
    have hdiv : p / 2 ^ lastExponent q ≤ q / 2 ^ lastExponent q := by gcongr
    have hn := nearestEven_mono (by positivity) hdiv
    gcongr
  · -- A power of two lies between the two, on both grids.
    have hge : -1074 < lastExponent q := (le_max_right _ _).trans_lt he
    calc nearest p ≤ 2 ^ 53 * 2 ^ lastExponent p := by
          unfold nearest
          gcongr
          exact_mod_cast nearestEven_le hp.le
      _ = 2 ^ (lastExponent p + 1) * 2 ^ 52 := by
          rw [zpow_add₀ (by norm_num)]
          ring
      _ ≤ 2 ^ lastExponent q * 2 ^ 52 := by
          gcongr
          · norm_num
          · omega
      _ ≤ nearest q := by
          unfold nearest
          rw [mul_comm]
          gcongr
          exact_mod_cast le_nearestEven hq hge

theorem lastExponent_le_of_lt {e : ℤ} (hq : 0 < q) (he : -1074 ≤ e) (h : q < 2 ^ (e + 53)) :
    lastExponent q ≤ e := by
  have hlog : Int.log 2 q < e + 53 :=
    (Int.lt_zpow_iff_log_lt (by norm_num) hq).mp (by exact_mod_cast h)
  unfold lastExponent
  omega

theorem nearest_eq_self_of_lt {m : ℕ} {e : ℤ} (hm : m < 2 ^ 53) (he : -1074 ≤ e) :
    nearest (m * 2 ^ e) = m * 2 ^ e := by
  rcases Nat.eq_zero_or_pos m with rfl | hpos
  · simp [nearest_zero]
  have hlt : (m : ℚ) * 2 ^ e < 2 ^ (e + 53) := by
    rw [zpow_add₀ (by norm_num), mul_comm]
    gcongr
    exact_mod_cast hm
  have hlast : lastExponent (m * 2 ^ e) ≤ e := lastExponent_le_of_lt (by positivity) he hlt
  obtain ⟨k, hk⟩ := Int.eq_ofNat_of_zero_le (sub_nonneg.mpr hlast)
  have hdiv : (m : ℚ) * 2 ^ e / 2 ^ lastExponent (m * 2 ^ e) = (m * 2 ^ k : ℕ) := by
    rw [mul_div_assoc, ← zpow_sub₀ (by norm_num), hk]
    simp
  rw [nearest, hdiv, nearestEven_natCast, ← hdiv, div_mul_cancel₀ _ (by positivity)]

theorem nearest_eq_self {m : ℕ} {e : ℤ} (hm : m ≤ 2 ^ 53) (he : -1074 ≤ e) :
    nearest (m * 2 ^ e) = m * 2 ^ e := by
  rcases hm.eq_or_lt with rfl | hlt
  · have hshift : ((2 ^ 53 : ℕ) : ℚ) * 2 ^ e = (2 ^ 52 : ℕ) * 2 ^ (e + 1) := by
      rw [zpow_add₀ (by norm_num)]
      push_cast
      ring
    rw [hshift, nearest_eq_self_of_lt (by norm_num) (by omega)]
  · exact nearest_eq_self_of_lt hlt he

theorem nearest_natCast {n : ℕ} (h : n ≤ 2 ^ 53) : nearest n = n := by
  have hn := nearest_eq_self h (e := 0) (by norm_num)
  simpa using hn

theorem nearest_one : nearest 1 = 1 := by
  have hn := nearest_natCast (n := 1) (by norm_num)
  rwa [Nat.cast_one] at hn

theorem nearest_two_zpow {e : ℤ} (he : -1074 ≤ e) : nearest (2 ^ e) = 2 ^ e := by
  have hn := nearest_eq_self (m := 1) (by norm_num) he
  rwa [Nat.cast_one, one_mul] at hn

theorem two_zpow_le_nearest {e : ℤ} (he : -1074 ≤ e) (h : 2 ^ e ≤ q) : 2 ^ e ≤ nearest q := by
  have hn := nearest_mono (by positivity) h
  rwa [nearest_two_zpow he] at hn

theorem nearest_le_two_zpow {e : ℤ} (he : -1074 ≤ e) (hq : 0 ≤ q) (h : q ≤ 2 ^ e) :
    nearest q ≤ 2 ^ e := by
  have hn := nearest_mono hq h
  rwa [nearest_two_zpow he] at hn

theorem nearest_nearest (hq : 0 ≤ q) : nearest (nearest q) = nearest q :=
  nearest_eq_self (nearestEven_le hq) (le_max_right _ _)

/-- What exceeds a number with 53 significant bits by less than half of its last place is rounded
down. -/
theorem nearest_le_of_lt_half {m : ℕ} {e : ℤ} (hm : 2 ^ 52 ≤ m) (hlt : m < 2 ^ 53) (he : -1074 ≤ e)
    (hq : 0 ≤ q) (h : q < (m + 1 / 2) * 2 ^ e) : nearest q ≤ m * 2 ^ e := by
  rcases hq.eq_or_lt with rfl | hpos
  · rw [nearest_zero]
    positivity
  have hself : nearest (m * 2 ^ e) = m * 2 ^ e := nearest_eq_self hlt.le he
  have hlast : lastExponent q ≤ e := by
    refine lastExponent_le_of_lt hpos he (h.trans ?_)
    rw [add_comm e, zpow_add₀ (by norm_num)]
    gcongr
    have hcast : (m : ℚ) + 1 ≤ 2 ^ 53 := by exact_mod_cast hlt
    norm_num at hcast ⊢
    linarith
  rcases hlast.eq_or_lt with heq | hsmall
  · have hy : q / 2 ^ e < m + 1 / 2 := by rwa [div_lt_iff₀ (two_zpow_pos e)]
    have hnear := (isNearestEven_nearestEven (y := q / 2 ^ e) (by positivity)).near
    have hle : nearestEven (q / 2 ^ e) ≤ m := by
      have hcast : (nearestEven (q / 2 ^ e) : ℚ) < m + 1 := by
        have := (abs_le.mp hnear).1
        linarith
      exact Nat.lt_succ_iff.mp (by exact_mod_cast hcast)
    rw [nearest, heq]
    gcongr
  · refine (nearest_mono hq ?_).trans_eq hself
    calc q ≤ 2 ^ (lastExponent q + 53) := (lt_two_zpow_lastExponent q).le
      _ ≤ 2 ^ (52 + e) := zpow_le_zpow_right₀ (by norm_num) (by omega)
      _ = 2 ^ 52 * 2 ^ e := by rw [zpow_add₀ (by norm_num)]; norm_num
      _ ≤ m * 2 ^ e := by
          gcongr
          exact_mod_cast hm

/-- A large number is rounded to one with exactly 53 significant bits, all of them whole. -/
theorem nearest_eq_of_le (h : 2 ^ 53 ≤ q) :
    ∃ (m : ℕ) (e : ℤ), 2 ^ 52 ≤ m ∧ m < 2 ^ 53 ∧ 1 ≤ e ∧ nearest q = m * 2 ^ e := by
  have hpos : 0 < q := lt_of_lt_of_le (by positivity) h
  have hlog : 53 ≤ Int.log 2 q := by
    rw [← Int.zpow_le_iff_le_log (by norm_num) hpos]
    exact_mod_cast h
  have hlast : 1 ≤ lastExponent q := by
    unfold lastExponent
    omega
  rcases (nearestEven_le hpos.le).eq_or_lt with heq | hlt
  · refine ⟨2 ^ 52, lastExponent q + 1, le_rfl, by norm_num, by omega, ?_⟩
    rw [nearest, heq, zpow_add₀ (by norm_num)]
    push_cast
    ring
  · exact ⟨_, _, le_nearestEven hpos (by omega), hlt, hlast, rfl⟩

/-- Less than one more does not bring a rounded number beyond the next one. -/
theorem nearest_add_le (n : ℕ) {f : ℚ} (hf : 0 ≤ f) (hlt : f < 1) :
    nearest (nearest n + f) ≤ nearest (n + 1) := by
  have hnext : nearest n ≤ nearest (n + 1) := nearest_mono (Nat.cast_nonneg n) (by linarith)
  rcases Nat.lt_or_ge n (2 ^ 53) with hn | hn
  · rw [nearest_natCast hn.le]
    exact nearest_mono (by positivity) (by linarith)
  · obtain ⟨m, e, hm, hm', he, heq⟩ := nearest_eq_of_le (q := n) (by exact_mod_cast hn)
    rw [heq] at hnext ⊢
    refine (nearest_le_of_lt_half hm hm' (by omega) (by positivity) ?_).trans hnext
    have htwo : (2 : ℚ) ≤ 2 ^ e := by
      calc (2 : ℚ) = 2 ^ (1 : ℤ) := by norm_num
        _ ≤ 2 ^ e := zpow_le_zpow_right₀ (by norm_num) he
    rw [add_mul]
    linarith

end Double

end Switchboard
