import Switchboard.Proofs.Double.Rounding

/-! The operations on doubles that are not negative. Each gives the result on numbers, rounded once,
and infinity where that is too large for a double. -/

namespace Switchboard.Double

open Float.Model Float.Model.UnpackedFloat

section Parts

variable {u v : UnpackedFloat} {p q : ℚ}

theorem decreaseExponent_of_le (m : ℕ) {e target : ℤ} (h : target ≤ e) :
    (m : ℚ) * 2 ^ e = (decreaseExponent m e target).1 * 2 ^ target := by
  have htarget : (decreaseExponent m e target).2 = target := by
    simp only [decreaseExponent]
    omega
  have hvalue := decreaseExponent_value m e target
  rw [htarget] at hvalue
  exact hvalue.symm

theorem canonical_add (hu : Canonical u p) (hv : Canonical v q) :
    Canonical (add Format.binary64 u v) (nearest (p + q)) := by
  cases hu with
  | zero sign =>
    rw [zero_add, hv.nearest_eq]
    cases hv with
    | zero sign' =>
      show Canonical (if sign == sign' then .zero sign else .zero .positive) 0
      split <;> exact .zero _
    | finite hn h => exact .finite hn h
  | @finite m e hm h =>
    cases hv with
    | zero sign =>
      rw [add_zero, (Canonical.finite hm h).nearest_eq]
      exact .finite hm h
    | @finite n f hn h' =>
      have hp := decreaseExponent_of_le m (min_le_left e f)
      have hq := decreaseExponent_of_le n (min_le_right e f)
      rw [hp, hq, ← add_mul, ← Nat.cast_add]
      exact canonical_normalize _ _

theorem canonical_sub (hu : Canonical u p) (hv : Canonical v q) (hle : q ≤ p) :
    Canonical (sub Format.binary64 u v) (nearest (p - q)) := by
  cases hu with
  | zero sign =>
    cases hv with
    | zero sign' =>
      rw [sub_zero, nearest_zero]
      show Canonical (if sign == -sign' then .zero sign else .zero .positive) 0
      split <;> exact .zero _
    | @finite n f hn h =>
      have hpos : (0 : ℚ) < n * 2 ^ f := by positivity
      exact absurd hle (not_le.mpr hpos)
  | @finite m e hm h =>
    cases hv with
    | zero sign =>
      rw [sub_zero, (Canonical.finite hm h).nearest_eq]
      exact .finite hm h
    | @finite n f hn h' =>
      have hp := decreaseExponent_of_le m (min_le_left e f)
      have hq := decreaseExponent_of_le n (min_le_right e f)
      have hmn : (decreaseExponent n f (min e f)).1 ≤ (decreaseExponent m e (min e f)).1 := by
        rw [hp, hq] at hle
        exact_mod_cast le_of_mul_le_mul_right hle (two_zpow_pos _)
      rw [hp, hq, ← sub_mul, ← Nat.cast_sub hmn]
      have hn := canonical_normalize
        ((decreaseExponent m e (min e f)).1 - (decreaseExponent n f (min e f)).1) (min e f)
      rw [Nat.cast_sub (R := ℤ) hmn] at hn
      exact hn

theorem add_le_lastExponent {m n : ℕ} {e f : ℤ} (hm : 0 < m) (hn : 0 < n) (h : Fits m e)
    (h' : Fits n f) : e + f ≤ lastExponent ((m * n : ℕ) * 2 ^ (e + f)) := by
  have hpos : 0 < m * n := Nat.mul_pos hm hn
  rw [lastExponent, log_eq_log2 hpos le_rfl (by simp)]
  have hlog : 2 ^ 52 ≤ m * n → 52 ≤ (m * n).log2 := fun hge =>
    (Nat.le_log2 hpos.ne').mpr hge
  rcases h.normal with he | he
  · rcases h'.normal with hf | hf
    · omega
    · have := hlog (hf.trans (Nat.le_mul_of_pos_left n hm))
      omega
  · have := hlog (he.trans (Nat.le_mul_of_pos_right m hn))
    omega

theorem canonical_mul (hu : Canonical u p) (hv : Canonical v q) :
    Canonical (mul Format.binary64 u v) (nearest (p * q)) := by
  cases hu with
  | zero sign =>
    rw [zero_mul, nearest_zero]
    cases hv <;> exact .zero _
  | @finite m e hm h =>
    cases hv with
    | zero sign =>
      rw [mul_zero, nearest_zero]
      exact .zero _
    | @finite n f hn h' =>
      have hvalue : (m : ℚ) * 2 ^ e * (n * 2 ^ f) = (m * n : ℕ) * 2 ^ (e + f) := by
        rw [zpow_add₀ (by norm_num)]
        push_cast
        ring
      -- The product of the mantissas is exact and has bits enough, so it is rounded only once.
      rw [hvalue]
      exact canonical_roundWithAccuracy (.exact _) (by positivity) (add_le_lastExponent hm hn h h')

theorem targetExponent_le_lastExponent {m n : ℕ} {e f : ℤ} (hm : 0 < m) (hn : 0 < n) :
    Format.binary64.targetExponent (totalExponent m e - totalExponent n f) ≤
      lastExponent (m * 2 ^ e / (n * 2 ^ f)) := by
  have htarget : Format.binary64.targetExponent (totalExponent m e - totalExponent n f) =
      max ((m.log2 + e - (n.log2 + 1 + f)) - 52) (-1074) := by
    simp only [Format.targetExponent, totalExponent, Format.minExponent, Format.mantissaBits]
    norm_num
    omega
  have hlow : (2 : ℚ) ^ (m.log2 : ℤ) ≤ m := by
    rw [zpow_natCast]
    exact_mod_cast Nat.log2_self_le hm.ne'
  have hhigh : (n : ℚ) ≤ 2 ^ ((n.log2 : ℤ) + 1) := by
    exact_mod_cast (Nat.lt_log2_self : n < 2 ^ (n.log2 + 1)).le
  have hlog : (m.log2 + e - (n.log2 + 1 + f) : ℤ) ≤ Int.log 2 ((m : ℚ) * 2 ^ e / (n * 2 ^ f)) := by
    rw [← Int.zpow_le_iff_le_log (by norm_num) (by positivity)]
    push_cast
    rw [zpow_sub₀ (by norm_num), zpow_add₀ (by norm_num), zpow_add₀ (by norm_num) _ f]
    gcongr
  rw [htarget, lastExponent]
  omega

theorem canonical_div (hu : Canonical u p) (hv : Canonical v q) (hpos : 0 < q) :
    Canonical (div Format.binary64 u v) (nearest (p / q)) := by
  cases hv with
  | zero => exact absurd hpos (lt_irrefl 0)
  | @finite n f hn h' =>
    cases hu with
    | zero sign =>
      rw [zero_div, nearest_zero]
      exact .zero _
    | @finite m e hm h =>
      have htarget := targetExponent_le_lastExponent (e := e) (f := f) hm hn
      generalize hbits :
        Format.binary64.targetExponent (totalExponent m e - totalExponent n f) = bits at htarget
      -- The dividend is shifted so far that the quotient comes out at the lesser exponent.
      obtain ⟨k, hk⟩ := Int.eq_ofNat_of_zero_le (sub_nonneg.mpr (min_le_left (e - f) bits))
      have hvalue : (m : ℚ) * 2 ^ e / (n * 2 ^ f) =
          (m <<< k : ℕ) / n * 2 ^ min (e - f) bits := by
        have hsplit : e = f + k + min (e - f) bits := by omega
        rw [Nat.shiftLeft_eq]
        nth_rewrite 1 [hsplit]
        rw [zpow_add₀ (by norm_num), zpow_add₀ (by norm_num)]
        push_cast
        rw [zpow_natCast]
        field_simp
      rw [hvalue] at htarget ⊢
      have hdiv : div Format.binary64 (.finite .positive m e hm) (.finite .positive n f hn) =
          roundWithAccuracy Format.binary64 .positive (m <<< k / n) (min (e - f) bits)
            (accuracyOfFraction (m <<< k % n) n) := by
        simp only [UnpackedFloat.div, divCore, hbits, hk, Int.toNat_natCast]
        rfl
      rw [hdiv]
      have hshift : 0 < m <<< k := by
        rw [Nat.shiftLeft_eq]
        positivity
      exact canonical_roundWithAccuracy (.quotient _ hn) (by positivity)
        ((min_le_right _ _).trans htarget)

end Parts

/-- A double that a number is rounded to: the nearest with 53 significant bits, and infinity where
that is too large. -/
structure IsRounded (x : Float) (q : ℚ) : Prop where
  value : nearest q < 2 ^ 1024 → value? x = some (nearest q)
  infinite : 2 ^ 1024 ≤ nearest q → IsInfinite x

variable {x y : Float} {p q : ℚ}

theorem IsRounded.finite_or_infinite (h : IsRounded x q) :
    (∃ p, value? x = some p) ∨ IsInfinite x :=
  (lt_or_ge (nearest q) (2 ^ 1024)).imp (fun hlt => ⟨_, h.value hlt⟩) h.infinite

theorem IsRounded.eq_nearest (h : IsRounded x q) (hx : value? x = some p) :
    nearest q = p ∧ nearest q < 2 ^ 1024 := by
  rcases lt_or_ge (nearest q) (2 ^ 1024) with hlt | hge
  · exact ⟨Option.some.inj ((h.value hlt).symm.trans hx), hlt⟩
  · rw [(h.infinite hge).value_eq_none] at hx
    cases hx

theorem IsRounded.value?_congr (hx : IsRounded x q) (hy : IsRounded y q) : value? x = value? y := by
  rcases lt_or_ge (nearest q) (2 ^ 1024) with hlt | hge
  · rw [hx.value hlt, hy.value hlt]
  · rw [(hx.infinite hge).value_eq_none, (hy.infinite hge).value_eq_none]

theorem isRounded_pack {u : UnpackedFloat} (h : Canonical u (nearest q)) :
    IsRounded (.ofModel (Float.Model.pack u)) q := by
  have hu := unpack_pack h
  constructor
  · intro hlt
    rw [if_pos hlt] at hu
    exact value?_eq_some_iff.mpr ⟨by rw [hu]; exact h, hlt⟩
  · intro hle
    rw [if_neg (not_lt.mpr hle)] at hu
    exact hu

theorem isRounded_add (hx : value? x = some p) (hy : value? y = some q) :
    IsRounded (x + y) (p + q) :=
  isRounded_pack (canonical_add (value?_eq_some_iff.mp hx).1 (value?_eq_some_iff.mp hy).1)

theorem isRounded_sub (hx : value? x = some p) (hy : value? y = some q) (h : q ≤ p) :
    IsRounded (x - y) (p - q) :=
  isRounded_pack (canonical_sub (value?_eq_some_iff.mp hx).1 (value?_eq_some_iff.mp hy).1 h)

theorem isRounded_mul (hx : value? x = some p) (hy : value? y = some q) :
    IsRounded (x * y) (p * q) :=
  isRounded_pack (canonical_mul (value?_eq_some_iff.mp hx).1 (value?_eq_some_iff.mp hy).1)

theorem isRounded_div (hx : value? x = some p) (hy : value? y = some q) (h : 0 < q) :
    IsRounded (x / y) (p / q) :=
  isRounded_pack (canonical_div (value?_eq_some_iff.mp hx).1 (value?_eq_some_iff.mp hy).1 h)

theorem isRounded_ofNat {n : ℕ} (h : n < 2 ^ 64) : IsRounded (ofNat n) n := by
  have hn : n.toUInt64.toNat = n := Nat.mod_eq_of_lt h
  refine isRounded_pack (u := ofUInt64 Format.binary64 n.toUInt64) ?_
  show Canonical (UnpackedFloat.normalize Format.binary64 (n.toUInt64.toNat : ℤ) 0 .positive)
    (nearest n)
  rw [hn]
  simpa using canonical_normalize n 0

theorem IsInfinite.add (hx : value? x = some p) (hy : IsInfinite y) : IsInfinite (x + y) := by
  replace hx := (value?_eq_some_iff.mp hx).1
  show (Float.Model.pack (UnpackedFloat.add Format.binary64 x.toModel.unpack
    y.toModel.unpack)).unpack = .infinity .positive
  rw [hy]
  generalize x.toModel.unpack = u at hx
  cases hx <;> exact unpack_packedInfinity .positive

theorem IsRounded.value_of_le (h : IsRounded x q) (hq : 0 ≤ q) (hle : q ≤ 2 ^ 1023) :
    value? x = some (nearest q) := by
  refine h.value ?_
  have hn := nearest_le_two_zpow (e := 1023) (by norm_num) hq (by exact_mod_cast hle)
  refine hn.trans_lt ?_
  rw [← zpow_natCast]
  exact zpow_lt_zpow_right₀ (by norm_num) (by norm_num)

theorem value?_ofNat_of_lt {n : ℕ} (h : n < 2 ^ 64) : value? (ofNat n) = some (nearest n) := by
  refine (isRounded_ofNat h).value_of_le (Nat.cast_nonneg n) ?_
  have hn : (n : ℚ) ≤ 2 ^ 64 := by exact_mod_cast h.le
  exact hn.trans (pow_le_pow_right₀ (by norm_num) (by norm_num))

theorem value?_ofNat {n : ℕ} (h : n ≤ 2 ^ 53) : value? (ofNat n) = some (n : ℚ) := by
  rw [value?_ofNat_of_lt (h.trans_lt (by norm_num)), nearest_natCast h]

theorem value?_one : value? (ofNat 1) = some 1 := by
  have hone := value?_ofNat (n := 1) (by norm_num)
  rwa [Nat.cast_one] at hone

/-- One less than a count of no more than 53 bits is not rounded, whatever its fraction. -/
theorem Canonical.nearest_sub_one {u : UnpackedFloat} (h : Canonical u p) (hone : 1 ≤ p)
    (hle : p ≤ 2 ^ 53) : nearest (p - 1) = p - 1 := by
  cases h with
  | zero => norm_num at hone
  | @finite m e hm h =>
    rcases lt_or_ge 0 e with he | he
    · have hnormal := h.normal.resolve_left (by omega)
      have hge : (2 : ℚ) ^ 53 ≤ m * 2 ^ e := by
        calc (2 : ℚ) ^ 53 = 2 ^ 52 * 2 ^ (1 : ℤ) := by norm_num
          _ ≤ (m : ℚ) * 2 ^ e := by
              gcongr
              · exact_mod_cast hnormal
              · norm_num
              · omega
      have hsub : (m : ℚ) * 2 ^ e - 1 = (2 ^ 53 - 1 : ℕ) := by
        rw [le_antisymm hle hge]
        norm_num
      rw [hsub, nearest_natCast (by norm_num)]
    · obtain ⟨k, rfl⟩ : ∃ k : ℕ, e = -k := ⟨(-e).toNat, by omega⟩
      have hk : (0 : ℚ) < 2 ^ k := by positivity
      have hge : 2 ^ k ≤ m := by
        rw [zpow_neg, zpow_natCast, ← div_eq_mul_inv, le_div_iff₀ hk] at hone
        exact_mod_cast (one_mul ((2 : ℚ) ^ k)).symm.trans_le hone
      have hsub : (m : ℚ) * 2 ^ (-k : ℤ) - 1 = (m - 2 ^ k : ℕ) * 2 ^ (-k : ℤ) := by
        rw [Nat.cast_sub hge, zpow_neg, zpow_natCast]
        push_cast
        field_simp
      rw [hsub, nearest_eq_self ((Nat.sub_le _ _).trans h.lt.le) h.ge]

theorem value?_sub_one (hx : value? x = some p) (hone : 1 ≤ p) (hle : p ≤ 2 ^ 53) :
    value? (x - ofNat 1) = some (p - 1) := by
  have hsub := isRounded_sub hx value?_one hone
  rw [hsub.value_of_le (by linarith) ?_, (value?_eq_some_iff.mp hx).1.nearest_sub_one hone hle]
  calc p - 1 ≤ 2 ^ 53 := by linarith
    _ ≤ 2 ^ 1023 := pow_le_pow_right₀ (by norm_num) (by norm_num)

end Switchboard.Double
