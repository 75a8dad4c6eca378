import Mathlib
import Switchboard.Proofs.Double.Nearest

/-! The values of doubles that are finite and not negative, read off their bits, and their order. A
double in parts is a sign, a mantissa and an exponent. -/

namespace Switchboard.Double

open Float.Model Float.Model.UnpackedFloat

/-- The value of a finite double that is not negative. -/
def value? (x : Float) : Option ℚ :=
  (fraction? x).map fun f => (f.1 : ℚ) / f.2

theorem den_pos_of_fraction {x : Float} {num den : ℕ} (h : fraction? x = some (num, den)) :
    0 < den := by
  unfold fraction? at h
  grind [Nat.pow_eq, Nat.two_pow_pos]

/-- The value of a number in parts, if it is finite and not negative. -/
def magnitude? : UnpackedFloat → Option ℚ
  | .zero _ => some 0
  | .finite .positive m e _ => some (m * 2 ^ e)
  | _ => none

theorem toNat_unpackExponent (b : BitVec Format.binary64.numBits) :
    (unpackExponent b).toNat = b.toNat / 2 ^ 52 % 2048 := by
  simp [unpackExponent_def, Nat.shiftRight_eq_div_pow]

theorem toNat_unpackMantissa (b : BitVec Format.binary64.numBits) :
    (unpackMantissa b).toNat = b.toNat % 2 ^ 52 := by
  simp [unpackMantissa_def]

theorem toNat_unpackSign (b : BitVec Format.binary64.numBits) :
    (unpackSign b).toNat = b.toNat / 2 ^ 63 := by
  have h : b.toNat < 2 ^ 64 := b.isLt
  simp [unpackSign_def, Nat.shiftRight_eq_div_pow]
  omega

/-- The parts that the exponent and the fraction of the bits stand for. -/
def parts (sign : Sign) (exponent fraction : ℕ) : UnpackedFloat :=
  if exponent = 2047 then if fraction = 0 then .infinity sign else .notANumber
  else if exponent = 0 then
    if h : fraction = 0 then .zero sign else .finite sign fraction (-1074) (Nat.pos_of_ne_zero h)
  else .finite sign (2 ^ 52 + fraction) ((exponent : ℤ) - 1075) (Nat.add_pos_left (by norm_num) _)

def signOf (bits : ℕ) : Sign :=
  if bits / 2 ^ 63 = 0 then .positive else .negative

theorem unpack_eq_parts (b : BitVec Format.binary64.numBits) :
    UnpackedFloat.unpack Format.binary64 b =
      parts (signOf b.toNat) (b.toNat / 2 ^ 52 % 2048) (b.toNat % 2 ^ 52) := by
  have hexponent := toNat_unpackExponent b
  have hfraction := toNat_unpackMantissa b
  have hlt := (unpackMantissa b).isLt
  have hsign : Sign.ofBitVec (unpackSign b) = signOf b.toNat := by
    rw [Sign.ofBitVec, signOf, ← toNat_unpackSign]
    congr 1
    exact propext BitVec.toNat_inj.symm
  have hinf : unpackExponent b = -1#_ ↔ b.toNat / 2 ^ 52 % 2048 = 2047 := by
    rw [← hexponent]
    exact BitVec.toNat_inj.symm
  have hzero : unpackExponent b = 0#_ ↔ b.toNat / 2 ^ 52 % 2048 = 0 := by
    rw [← hexponent]
    exact BitVec.toNat_inj.symm
  have hnone : unpackMantissa b = 0#_ ↔ b.toNat % 2 ^ 52 = 0 := by
    rw [← hfraction]
    exact BitVec.toNat_inj.symm
  have hnormal : (1#1 ++ unpackMantissa b).toNat = 2 ^ 52 + b.toNat % 2 ^ 52 := by
    rw [BitVec.toNat_append, ← Nat.shiftLeft_add_eq_or_of_lt hlt, hfraction]
    rfl
  rw [UnpackedFloat.unpack, parts]
  simp only [hinf, hzero, hnone, hsign, hexponent, hnormal, hfraction, Format.exponentBias]
  split
  · rfl
  · split
    · rename_i hz
      split
      · rfl
      · rename_i hf
        simp only [hz]
        norm_num
    · norm_num

theorem quotient_of_scale (m scale : ℕ) :
    (if 1075 ≤ scale then some (m * 2 ^ (scale - 1075), 1)
      else some (m, 2 ^ (1075 - scale))).map (fun p : ℕ × ℕ => (p.1 : ℚ) / p.2) =
      some ((m : ℚ) * 2 ^ ((scale : ℤ) - 1075)) := by
  by_cases h : 1075 ≤ scale
  · have he : (scale : ℤ) - 1075 = (scale - 1075 : ℕ) := by omega
    rw [if_pos h, he, Option.map_some, zpow_natCast, Nat.cast_one, div_one]
    push_cast
    rfl
  · have he : (scale : ℤ) - 1075 = -(1075 - scale : ℕ) := by omega
    rw [if_neg h, he, Option.map_some, zpow_neg, zpow_natCast, ← div_eq_mul_inv]
    push_cast
    rfl

theorem value?_eq_magnitude? (x : Float) : value? x = magnitude? x.toModel.unpack := by
  have hu : x.toModel.unpack = parts (signOf x.toBits.toNat) (x.toBits.toNat / 2 ^ 52 % 2048)
      (x.toBits.toNat % 2 ^ 52) := unpack_eq_parts x.toModel.toBits.toBitVec
  have hlt : x.toBits.toNat < 2 ^ 64 := x.toBits.toNat_lt
  have hsign : x.toBits.toNat / 2 ^ 63 = 0 ∨ x.toBits.toNat / 2 ^ 63 = 1 := by omega
  simp only [hu, value?, fraction?, signOf, Nat.pow_eq]
  generalize x.toBits.toNat / 2 ^ 63 = sign at *
  generalize x.toBits.toNat / 2 ^ 52 % 2048 = exponent at *
  generalize x.toBits.toNat % 2 ^ 52 = fraction at *
  generalize hscale : Nat.max exponent 1 = scale
  by_cases hinf : exponent = 2047
  · by_cases hf : fraction = 0 <;> simp [hinf, hf, parts, magnitude?]
  by_cases hsub : exponent = 0
  · have he : (scale : ℤ) - 1075 = -1074 := by
      rw [← hscale, hsub]
      rfl
    have hq := quotient_of_scale fraction scale
    rw [he] at hq
    by_cases hf : fraction = 0
    · simpa [hsub, hf, parts, magnitude?] using hq
    · rcases hsign with rfl | rfl
      · simpa [hsub, hf, parts, magnitude?] using hq
      · simp [hsub, hf, parts, magnitude?]
  · have he : scale = exponent :=
      hscale.symm.trans (Nat.max_eq_left (Nat.one_le_iff_ne_zero.mpr hsub))
    have hq := quotient_of_scale (fraction + 2 ^ 52) exponent
    rcases hsign with rfl | rfl
    · simpa [hinf, hsub, he, parts, magnitude?, add_comm] using hq
    · simp [hinf, hsub, parts, magnitude?]

/-- The parts of a double: 53 bits, or fewer with the least exponent. -/
structure Fits (m : ℕ) (e : ℤ) : Prop where
  lt : m < 2 ^ 53
  ge : -1074 ≤ e
  normal : e = -1074 ∨ 2 ^ 52 ≤ m

theorem parts_finite {sign sign' : Sign} {exponent fraction m : ℕ} {e : ℤ} {hm : 0 < m}
    (hx : exponent < 2048) (hf : fraction < 2 ^ 52)
    (h : parts sign exponent fraction = .finite sign' m e hm) : Fits m e ∧ e ≤ 971 := by
  unfold parts at h
  split at h
  · split at h <;> cases h
  · split at h
    · split at h
      · cases h
      · cases h
        exact ⟨⟨by omega, le_rfl, .inl rfl⟩, by norm_num⟩
    · cases h
      exact ⟨⟨by omega, by omega, .inr (by omega)⟩, by omega⟩

theorem unpack_packComponents (sign : Sign) (exponent : BitVec 11) (mantissa : BitVec 52) :
    UnpackedFloat.unpack Format.binary64
        (packComponents Format.binary64 sign exponent mantissa) =
      parts sign exponent.toNat mantissa.toNat := by
  rw [unpack_eq_parts, ← toNat_unpackExponent, ← toNat_unpackMantissa, signOf,
    ← toNat_unpackSign, unpackSign_packComponents, unpackExponent_packComponents,
    unpackMantissa_packComponents]
  cases sign <;> rfl

theorem unpack_packedInfinity (sign : Sign) :
    UnpackedFloat.unpack Format.binary64 (packedInfinity Format.binary64 sign) =
      .infinity sign := by
  rw [packedInfinity, unpack_packComponents]
  rfl

theorem unpack_pack_finite {sign : Sign} {m : ℕ} {e : ℤ} (hm : 0 < m) (h : Fits m e) :
    (Float.Model.pack (.finite sign m e hm)).unpack =
      if e ≤ 971 then .finite sign m e hm else .infinity sign := by
  have hge := h.ge
  have hlt := h.lt
  have hlog : m.log2 + 1 = 53 ↔ 2 ^ 52 ≤ m := by
    rw [show m.log2 + 1 = 53 ↔ m.log2 = 52 by omega, Nat.log2_eq_iff hm.ne']
    omega
  show UnpackedFloat.unpack Format.binary64
    (UnpackedFloat.pack Format.binary64 (.finite sign m e hm)) = _
  have hbiased : (e + (Format.binary64.exponentBias : ℕ) + (52 : ℕ)).toNat = (e + 1075).toNat := by
    norm_num [Format.exponentBias]
    omega
  rw [UnpackedFloat.pack]
  simp only [hbiased, Format.mantissaBits]
  by_cases he : e ≤ 971
  · -- A mantissa of 53 bits is packed without its first one, a shorter one is subnormal.
    rw [if_neg (by omega), if_pos he]
    by_cases hnormal : 2 ^ 52 ≤ m
    · have hx : (BitVec.ofNat 11 (e + 1075).toNat).toNat = (e + 1075).toNat := by
        rw [BitVec.toNat_ofNat, Nat.mod_eq_of_lt (by omega)]
      have hf : 2 ^ 52 + (BitVec.ofNat 52 m).toNat = m := by
        rw [BitVec.toNat_ofNat]
        omega
      rw [if_pos (by omega), unpack_packComponents, parts, hx, if_neg (by omega),
        if_neg (by omega)]
      congr 1
      omega
    · have hf : (BitVec.ofNat 52 m).toNat = m := by
        rw [BitVec.toNat_ofNat]
        omega
      obtain rfl := h.normal.resolve_right hnormal
      rw [if_neg (by omega), unpack_packComponents, parts]
      simp [hf, hm.ne']
  · rw [if_pos (by omega), if_neg he, unpack_packedInfinity]

/-- Parts of a number that is not negative, as doubles have them if it is not too large. -/
inductive Canonical : UnpackedFloat → ℚ → Prop
  | zero (sign : Sign) : Canonical (.zero sign) 0
  | finite {m : ℕ} {e : ℤ} (hm : 0 < m) (h : Fits m e) :
    Canonical (.finite .positive m e hm) (m * 2 ^ e)

theorem Fits.le_iff {m n : ℕ} {e f : ℤ} (hm : Fits m e) (hn : Fits n f) :
    (m : ℚ) * 2 ^ e ≤ n * 2 ^ f ↔ e < f ∨ e = f ∧ m ≤ n := by
  have hlt : ∀ {m n : ℕ} {e f : ℤ}, Fits m e → Fits n f → e < f → (m : ℚ) * 2 ^ e < n * 2 ^ f := by
    intro m n e f hm hn hef
    have hge := hm.ge
    have hnormal := hn.normal.resolve_left (by omega)
    calc (m : ℚ) * 2 ^ e < 2 ^ 53 * 2 ^ e := by
          gcongr
          exact_mod_cast hm.lt
      _ = 2 ^ 52 * 2 ^ (e + 1) := by
          rw [zpow_add₀ (by norm_num)]
          ring
      _ ≤ n * 2 ^ f := by
          gcongr
          · exact_mod_cast hnormal
          · norm_num
          · omega
  rcases lt_trichotomy e f with h | rfl | h
  · exact iff_of_true (hlt hm hn h).le (.inl h)
  · rw [mul_le_mul_iff_left₀ (two_zpow_pos e)]
    simp
  · refine iff_of_false (not_le.mpr (hlt hn hm h)) ?_
    omega

theorem Fits.lt_iff {m : ℕ} {e : ℤ} (h : Fits m e) : (m : ℚ) * 2 ^ e < 2 ^ 1024 ↔ e ≤ 971 := by
  have htop : Fits (2 ^ 52) 972 := ⟨by norm_num, by norm_num, .inr le_rfl⟩
  have hcast : ((2 ^ 52 : ℕ) : ℚ) * 2 ^ (972 : ℤ) = 2 ^ 1024 := by
    rw [Nat.cast_pow, Nat.cast_ofNat, ← zpow_natCast, ← zpow_natCast, ← zpow_add₀ (by norm_num)]
    rfl
  rw [← hcast, ← not_le, htop.le_iff h]
  have := h.normal
  omega

variable {x y : Float} {u : UnpackedFloat} {p q : ℚ}

theorem Canonical.nonneg (h : Canonical u p) : 0 ≤ p := by
  cases h <;> positivity

theorem Canonical.nearest_eq (h : Canonical u p) : nearest p = p := by
  cases h with
  | zero => exact nearest_zero
  | finite hm h => exact nearest_eq_self h.lt.le h.ge

/-- Below a power of two, doubles end a last place before it. -/
theorem Canonical.le_of_lt {e : ℤ} (h : Canonical u p) (he : -1074 ≤ e) (hlt : p < 2 ^ (e + 53)) :
    p ≤ (2 ^ 53 - 1 : ℕ) * 2 ^ e := by
  cases h with
  | zero => positivity
  | @finite m f hm h =>
    have hpower : Fits (2 ^ 52) (e + 1) := ⟨by norm_num, by omega, .inr le_rfl⟩
    have hlast : Fits (2 ^ 53 - 1) e := ⟨by norm_num, he, .inr (by norm_num)⟩
    have hcast : (2 : ℚ) ^ (e + 53) = (2 ^ 52 : ℕ) * 2 ^ (e + 1) := by
      rw [zpow_add₀ (by norm_num), zpow_add₀ (by norm_num)]
      push_cast
      ring
    rw [hcast, ← not_le, hpower.le_iff h] at hlt
    rw [h.le_iff hlast]
    have hge := h.normal
    have hbits := h.lt
    omega

theorem value?_eq_some_iff :
    value? x = some p ↔ Canonical x.toModel.unpack p ∧ p < 2 ^ 1024 := by
  have hu : x.toModel.unpack = parts (signOf x.toBits.toNat) (x.toBits.toNat / 2 ^ 52 % 2048)
      (x.toBits.toNat % 2 ^ 52) := unpack_eq_parts x.toModel.toBits.toBitVec
  rw [value?_eq_magnitude?]
  generalize x.toModel.unpack = u at hu
  constructor
  · intro h
    cases u with
    | infinity sign => cases h
    | notANumber => cases h
    | zero sign =>
      cases h
      exact ⟨.zero sign, by positivity⟩
    | finite sign m e hm =>
      cases sign with
      | negative => cases h
      | positive =>
        cases h
        obtain ⟨hfits, he⟩ := parts_finite (Nat.mod_lt _ (by norm_num))
          (Nat.mod_lt _ (by norm_num)) hu.symm
        exact ⟨.finite hm hfits, hfits.lt_iff.mpr he⟩
  · rintro ⟨h, -⟩
    cases h <;> rfl

theorem value_nonneg (h : value? x = some p) : 0 ≤ p :=
  (value?_eq_some_iff.mp h).1.nonneg

theorem le_iff_unpack : x ≤ y ↔ x.toModel.unpack.le y.toModel.unpack = true := by
  show decide (x.toModel.unpack.le y.toModel.unpack = true) = true ↔ _
  rw [decide_eq_true_iff]

theorem le_iff (hx : value? x = some p) (hy : value? y = some q) : x ≤ y ↔ p ≤ q := by
  replace hx := (value?_eq_some_iff.mp hx).1
  replace hy := (value?_eq_some_iff.mp hy).1
  rw [le_iff_unpack]
  generalize x.toModel.unpack = u at hx
  generalize y.toModel.unpack = v at hy
  cases hx with
  | zero =>
    cases hy with
    | zero => simp [UnpackedFloat.le, UnpackedFloat.compare]
    | finite hm h => simp [UnpackedFloat.le, UnpackedFloat.compare]; positivity
  | finite hm h =>
    cases hy with
    | zero => simp [UnpackedFloat.le, UnpackedFloat.compare, hm]; positivity
    | finite hn h' =>
      rw [h.le_iff h']
      simp only [UnpackedFloat.le, UnpackedFloat.compare, Option.any_some,
        Ordering.isLE_then_iff_or, compare_lt_iff_lt, compare_eq_iff_eq, Nat.isLE_compare]

def IsInfinite (x : Float) : Prop :=
  x.toModel.unpack = .infinity .positive

theorem IsInfinite.not_le (hx : IsInfinite x) (hy : value? y = some q) : ¬ x ≤ y := by
  replace hy := (value?_eq_some_iff.mp hy).1
  rw [le_iff_unpack, hx]
  generalize y.toModel.unpack = v at hy
  cases hy <;> simp [UnpackedFloat.le, UnpackedFloat.compare]

theorem IsInfinite.value_eq_none (hx : IsInfinite x) : value? x = none := by
  rw [value?_eq_magnitude?, hx]
  rfl

/-- What the parts of a number are packed to is the number, or infinity if it is too large. -/
theorem unpack_pack (h : Canonical u q) :
    (Float.Model.pack u).unpack = if q < 2 ^ 1024 then u else .infinity .positive := by
  cases h with
  | zero sign =>
    rw [if_pos (by positivity)]
    exact unpack_packedZero
  | finite hm h => simp only [unpack_pack_finite hm h, h.lt_iff]

end Switchboard.Double
