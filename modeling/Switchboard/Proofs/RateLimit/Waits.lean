import Switchboard.Proofs.RateLimit.Capacities
import Switchboard.RateLimit.Settings

/-! How long rejected calls have to wait, and which waits can be said: as a span, in whole seconds
of 63 bits, and as the date that they end at. The longest wait is the one for a whole token. -/

namespace Switchboard

namespace RateLimit

open Double

namespace Amount

variable {x y : Float} {p q : ℚ}

theorem toDuration?_mono (hx : value? x = some p) (hy : value? y = some q) (h : p ≤ q)
    (hq : q < 2 ^ 64) :
    ∃ d d', toDuration? x = some d ∧ toDuration? y = some d' ∧ d.nanos ≤ d'.nanos ∧
      d'.seconds < 2 ^ 64 := by
  refine ⟨_, _, by rw [(isNumber_double hx).toDuration?, if_pos (h.trans_lt hq)],
    by rw [(isNumber_double hy).toDuration?, if_pos hq], ?_, ?_⟩
  · have hp := value_nonneg hx
    exact nearestEven_mono (by positivity) (by gcongr)
  · have hle := (value?_eq_some_iff.mp hy).1.le_of_lt (e := 11) (by norm_num) (by exact_mod_cast hq)
    have hnanos : q * 1000000000 ≤ ((2 ^ 53 - 1) * 2 ^ 11 * 1000000000 : ℕ) := by
      push_cast at hle ⊢
      linarith
    have hn := nearestEven_mono (mul_nonneg (value_nonneg hy) (by norm_num)) hnanos
    rw [nearestEven_natCast] at hn
    simp only [Duration.seconds]
    omega

theorem toDuration?_congr (h : value? x = value? y) : toDuration? x = toDuration? y := by
  cases hx : value? x with
  | none =>
    have hnone : ∀ z : Float, value? z = none → toDuration? z = none := fun z hz => by
      simp [toDuration?, fraction?, Option.map_eq_none_iff.mp hz]
    rw [hnone x hx, hnone y (h ▸ hx)]
  | some p => rw [(isNumber_double hx).toDuration?, (isNumber_double (h ▸ hx)).toDuration?]

end Amount

/-- The whole seconds of a wait, rounded up and at least one, without a limit. -/
def unlimitedSeconds (wait : Duration) : Option Nat :=
  (Amount.fraction? (Amount.ofDuration wait : Float)).map fun f => max (ceilDiv f.1 f.2) 1

/-- An answer that a limiter can pass on at a date: a wait can be said, its whole seconds are not
cut off at 63 bits, and the date that they end at has no more. -/
def InRange (date : Nat) : Option Decision → Prop
  | none => False
  | some (.admitted _) => True
  | some (.rejected wait retry) => unlimitedSeconds wait = some retry ∧ date + retry < Word.half64

instance (date : Nat) (answer : Option Decision) : Decidable (InRange date answer) :=
  match answer with
  | none => inferInstanceAs (Decidable False)
  | some (.admitted _) => inferInstanceAs (Decidable True)
  | some (.rejected wait retry) =>
    inferInstanceAs (Decidable (unlimitedSeconds wait = some retry ∧ date + retry < Word.half64))

/-- The answer to a call that has to wait for so many seconds. -/
def rejection (wait : Float) : Option Decision :=
  (Amount.toDuration? wait).map fun d => .rejected d (Amount.wholeSeconds Float d)

variable {x y rate : Float} {p q v : ℚ} {date : Nat} {now : Instant} {b : Bucket Float}

theorem unlimitedSeconds_eq {wait : Duration} (h : value? (Amount.ofDuration wait) = some p) :
    unlimitedSeconds wait = some (max ⌈p⌉₊ 1) := by
  obtain ⟨⟨num, den⟩, hf, rfl⟩ := Option.map_eq_some_iff.mp h
  rw [unlimitedSeconds, show Amount.fraction? _ = some (num, den) from hf, Option.map_some,
    ceilDiv_eq_ceil _ (den_pos_of_fraction hf)]

theorem value?_of_inRange (hr : InRange date (rejection y)) :
    ∃ q, value? y = some q ∧ q < 2 ^ 64 := by
  refine Amount.value?_of_toDuration? fun hnone => ?_
  rw [rejection, hnone] at hr
  exact hr

theorem inRange_rejection_mono (hx : value? x = some p) (hy : value? y = some q) (h : p ≤ q)
    (hr : InRange date (rejection y)) : InRange date (rejection x) := by
  obtain ⟨q', hy', hq⟩ := value?_of_inRange hr
  obtain rfl := Option.some.inj (hy'.symm.trans hy)
  obtain ⟨d, d', hd, hd', hnanos, hlt⟩ := Amount.toDuration?_mono hx hy h hq
  obtain ⟨s, s', hs, hs', hle⟩ := Amount.value?_ofDuration_mono hnanos hlt
  have hwhole := (Amount.isNumber_double hs).wholeSeconds
  have hwhole' := (Amount.isNumber_double hs').wholeSeconds
  have hceil : max ⌈s⌉₊ 1 ≤ max ⌈s'⌉₊ 1 := max_le_max_right 1 (Nat.ceil_le_ceil hle)
  rw [rejection, hd', Option.map_some] at hr
  obtain ⟨heq, hdate⟩ := hr
  rw [unlimitedSeconds_eq hs'] at heq
  rw [← Option.some.inj heq] at hdate
  -- The longer wait has the more seconds, and they are not cut off.
  have hhalf : max ⌈s⌉₊ 1 ≤ Word.half64 - 1 := by omega
  have hretry : Amount.wholeSeconds Float d = max ⌈s⌉₊ 1 := by
    rw [hwhole]
    exact min_eq_left hhalf
  rw [rejection, hd, Option.map_some]
  exact ⟨by rw [unlimitedSeconds_eq hs, hretry], by omega⟩

theorem inRange_take (hb : b.Holds v) (hv : v ≤ 2 ^ 53) (hr : Store.isUsable rate = true)
    (hl : InRange date (rejection (Amount.ofNat 1 / rate))) (now : Instant) :
    InRange date (b.take rate now).2 := by
  rcases le_or_gt 1 v with hone | hone
  · rw [(hb.take_of_le hone hv rate now).1]
    trivial
  · obtain ⟨longest, hlongest, -⟩ := value?_of_inRange hl
    obtain ⟨w, hw, hwait⟩ := hb.wait_le hone hr hlongest
    rw [hb.take_of_lt hone]
    exact inRange_rejection_mono hwait hlongest hw hl

theorem take_of_empty (hb : b.Holds 0) (hr : Store.isUsable rate = true) (now : Instant) :
    (b.take rate now).2 = rejection (Amount.ofNat 1 / rate) := by
  obtain ⟨r, hrate, hpos⟩ := Amount.isUsable_iff.mp hr
  have hneeded : value? (Amount.ofNat 1 - b.tokens) = some 1 := by
    have hsub := isRounded_sub value?_one hb (by norm_num)
    rw [sub_zero] at hsub
    have hvalue := hsub.value_of_le (by norm_num) (one_le_pow₀ (by norm_num))
    rwa [nearest_one] at hvalue
  have hcongr :=
    (isRounded_div hneeded hrate hpos).value?_congr (isRounded_div value?_one hrate hpos)
  rw [hb.take_of_lt (by norm_num), Amount.toDuration?_congr hcongr]
  rfl

/-- The second of two calls at one instant, with room for one token, finds nothing. -/
theorem second_call_eq (hr : Store.isUsable rate = true) (key : String) (now : Instant) :
    (((Store.empty : Store Float).run [.acquire key 1 rate now]).1.acquire key 1 rate now).2 =
      rejection (Amount.ofNat 1 / rate) := by
  obtain ⟨-, hholds, hrefilled⟩ :=
    Bucket.Holds.take_of_le (b := Bucket.full 1 now) value?_one le_rfl (by norm_num) rate now
  rw [sub_self] at hholds
  have hnow : now ≤ ((Bucket.full 1 now : Bucket Float).take rate now).1.refilled := hrefilled.ge
  obtain ⟨hvalid, -, hbuckets⟩ := Store.acquire_spec Store.empty_valid hr key 1 now
  have hverdict : (Store.empty : Store Float).verdict key 1 rate now =
      (Bucket.full 1 now : Bucket Float).take rate now := by
    show (Bucket.full 1 now : Bucket Float).decide 1 rate now = _
    rw [Bucket.decide, Bucket.refill_of_le (show now ≤ now from le_rfl)]
  show (((Store.empty : Store Float).acquire key 1 rate now).1.acquire key 1 rate now).2 = _
  rw [(Store.acquire_spec hvalid hr key 1 now).2.1, Store.verdict, hbuckets, if_pos rfl, hverdict,
    Option.getD_some, Bucket.decide, Bucket.refill_of_le hnow]
  exact take_of_empty hholds hr now

/-- The rate of a pace that is not degenerate is a number, and not a small one. -/
theorem value?_rate {pace : Pace} (hd : pace.isDegenerate = false)
    (hrequests : pace.requests < Word.size32) (hinterval : pace.interval.seconds < Word.size64) :
    ∃ s, value? (Amount.ofDuration pace.interval : Float) = some s ∧ 0 < s ∧
      2 ^ (-65 : ℤ) ≤ pace.requests / s ∧
      value? (pace.rate Float) = some (nearest (pace.requests / s)) := by
  obtain ⟨hzero, hsome⟩ : pace.interval.nanos ≠ 0 ∧ pace.requests ≠ 0 := by
    simpa [Pace.isDegenerate, Duration.isZero] using hd
  obtain ⟨s, hs, hlow, hhigh⟩ := Amount.value?_ofDuration_of_ne_zero hzero hinterval
  have hpos : 0 < s := (two_zpow_pos (-30)).trans_le hlow
  have hone : (1 : ℚ) ≤ pace.requests := by exact_mod_cast Nat.one_le_iff_ne_zero.mpr hsome
  have hmin : (2 : ℚ) ^ (-65 : ℤ) ≤ pace.requests / s := by
    rw [le_div_iff₀ hpos]
    calc (2 : ℚ) ^ (-65 : ℤ) * s ≤ 2 ^ (-65 : ℤ) * 2 ^ (65 : ℤ) := by gcongr
      _ = 1 := by norm_num
      _ ≤ pace.requests := hone
  have hmax : (pace.requests : ℚ) / s ≤ 2 ^ 1023 := by
    have hsize : (pace.requests : ℚ) ≤ 2 ^ 32 := by exact_mod_cast hrequests.le
    rw [div_le_iff₀ hpos]
    calc (pace.requests : ℚ) ≤ 2 ^ 62 * 2 ^ (-30 : ℤ) := by norm_num at hsize ⊢; linarith
      _ ≤ 2 ^ 1023 * s := by
          gcongr
          · norm_num
          · norm_num
  have hrate : pace.rate Float = Amount.ofNat pace.requests / Amount.ofDuration pace.interval := by
    simp [Pace.rate, Duration.isZero, hzero]
  have hquot := isRounded_div (value?_ofNat (hrequests.le.trans (by decide))) hs hpos
  exact ⟨s, hs, hpos, hmin, hrate ▸ hquot.value_of_le (by positivity) hmax⟩

theorem isUsable_rate {pace : Pace} (hd : pace.isDegenerate = false)
    (hrequests : pace.requests < Word.size32) (hinterval : pace.interval.seconds < Word.size64) :
    Store.isUsable (pace.rate Float) = true := by
  obtain ⟨s, -, -, hmin, hrate⟩ := value?_rate hd hrequests hinterval
  exact Amount.isUsable_iff.mpr
    ⟨_, hrate, (two_zpow_pos (-65)).trans_le (two_zpow_le_nearest (by norm_num) hmin)⟩

/-- The rejected calls of a limiter all stay in range at a date just if the wait for a whole token
does, whatever calls and sweeps there were before. -/
theorem rejections_in_range_iff {s : Settings} (hd : s.pace.isDegenerate = false)
    (hrequests : s.requests < Word.size32) (hinterval : s.interval.seconds < Word.size64)
    (date : Nat) :
    (∀ (ops : List (Op Float)) (key : String) (capacity : Nat) (now : Instant),
      (∀ op ∈ ops ++ [Op.acquire key capacity (s.pace.rate Float) now], op.Proper) →
      InRange date
        (((Store.empty : Store Float).run ops).1.acquire key capacity (s.pace.rate Float) now).2) ↔
      InRange date (rejection (Amount.ofNat 1 / s.pace.rate Float)) := by
  have hrate := isUsable_rate hd hrequests hinterval
  constructor
  · intro hall
    rw [← second_call_eq hrate "k" 0]
    refine hall [.acquire "k" 1 (s.pace.rate Float) 0] "k" 1 0 fun op hop => ?_
    obtain rfl : op = .acquire "k" 1 (s.pace.rate Float) 0 := by simpa using hop
    exact ⟨by decide, hrate⟩
  · intro hlongest ops key capacity now hproper
    obtain ⟨found, hfound, -, hanswer, -⟩ := Store.acquire_run_capped hproper
    obtain ⟨w, hw, hle, -⟩ := hfound.refill hproper List.mem_concat_self
    rw [hanswer]
    exact inRange_take hw hle hrate hlongest now

/-- One request in the longest interval that can be written in seconds. -/
def slowest : Settings :=
  .ofPace 1 (.ofSeconds 18446744073709551615)

theorem ofConfig_slowest : Settings.ofConfig "rate_limit"
    { Config.RateLimit.default with
      requests := some 1
      interval := some "18446744073709551615s" } = .ok slowest := by
  decide +kernel

/-- Of two calls in the longest interval, the second has no answer: its wait is rounded up to `2^64`
seconds. -/
theorem longest_interval_out_of_range :
    ¬ ∀ (name : String) (c : Config.RateLimit) (s : Settings) (date : Nat),
      Settings.ofConfig name c = .ok s → s.pace.isDegenerate = false →
      s.requests < Word.size32 → s.interval.seconds < Word.size64 →
      ∀ (ops : List (Op Float)) (key : String) (capacity : Nat) (now : Instant),
        (∀ op ∈ ops ++ [Op.acquire key capacity (s.pace.rate Float) now], op.Proper) →
        InRange date (((Store.empty : Store Float).run ops).1.acquire key capacity
          (s.pace.rate Float) now).2 := by
  intro hall
  have hrate : Store.isUsable (slowest.pace.rate Float) = true := by decide +kernel
  have hsecond := hall _ _ slowest 0 ofConfig_slowest (by decide) (by decide) (by decide)
    [.acquire "k" 1 (slowest.pace.rate Float) 0] "k" 1 0 fun op hop => by
      obtain rfl : op = .acquire "k" 1 (slowest.pace.rate Float) 0 := by simpa using hop
      exact ⟨by decide, hrate⟩
  have hnone : rejection (Amount.ofNat 1 / slowest.pace.rate Float) = none := by decide +kernel
  rw [second_call_eq hrate, hnone] at hsecond
  exact hsecond

/-- A pace of a token in less than `2^62` seconds stays in range for as long as the date does. -/
theorem inRange_of_interval_lt {s : Settings} (hd : s.pace.isDegenerate = false)
    (hrequests : s.requests < Word.size32) (hinterval : s.interval.seconds < Word.size64)
    (hpace : s.interval.seconds < s.requests * 2 ^ 62) {date : Nat} (hdate : date < 2 ^ 62) :
    InRange date (rejection (Amount.ofNat 1 / s.pace.rate Float)) := by
  obtain ⟨len, hlen, hpos, -, hrate⟩ := value?_rate hd hrequests hinterval
  have hle : len ≤ s.requests * 2 ^ 62 := by
    have hlength := Amount.value?_ofDuration (value?_ofNat_of_lt hinterval)
      (Amount.nearest_le_of_lt_size64 hinterval)
    obtain rfl := Option.some.inj (hlength.symm.trans hlen)
    refine (nearest_add_le _ (nearest_nonneg _) (Amount.subsecond_lt_one _)).trans ?_
    have hnext : (s.interval.seconds : ℚ) + 1 ≤ s.requests * 2 ^ (62 : ℤ) := by exact_mod_cast hpace
    refine (nearest_mono (by positivity) hnext).trans_eq ?_
    rw [nearest_eq_self (hrequests.le.trans (by decide)) (by norm_num)]
    norm_num
  have hslow : (2 : ℚ) ^ (-62 : ℤ) ≤ nearest (s.requests / len) := by
    refine two_zpow_le_nearest (by norm_num) ?_
    rw [le_div_iff₀ hpos]
    norm_num at hle ⊢
    linarith
  have hrpos := (two_zpow_pos (-62)).trans_le hslow
  have hwait : 1 / nearest (s.requests / len) ≤ 2 ^ (62 : ℤ) := by
    rw [div_le_iff₀ hrpos]
    norm_num at hslow ⊢
    linarith
  have hlongest := (isRounded_div value?_one hrate hrpos).value_of_le (by positivity)
    (hwait.trans (by exact_mod_cast pow_le_pow_right₀ (by norm_num) (by norm_num)))
  have hbound : value? (Double.ofNat (2 ^ 62)) = some (2 ^ (62 : ℤ)) := by
    rw [value?_ofNat_of_lt (by norm_num)]
    exact_mod_cast congrArg some (nearest_two_zpow (e := 62) (by norm_num))
  refine inRange_rejection_mono hlongest hbound
    (nearest_le_two_zpow (by norm_num) (by positivity) hwait) ?_
  have hsaid : rejection (Double.ofNat (2 ^ 62)) =
      some (.rejected (.ofSeconds (2 ^ 62)) (2 ^ 62)) := by decide +kernel
  have hexact : unlimitedSeconds (.ofSeconds (2 ^ 62)) = some (2 ^ 62) := by decide +kernel
  rw [hsaid]
  exact ⟨hexact, by simp only [Word.half64]; omega⟩

theorem rejections_in_range_iff_default :
    Settings.default.pace.isDegenerate = false ∧ Settings.default.requests < Word.size32 ∧
      Settings.default.interval.seconds < Word.size64 ∧
      ∀ (ops : List (Op Float)) (key : String) (capacity : Nat) (now : Instant),
        (∀ op ∈ ops ++ [Op.acquire key capacity (Settings.default.pace.rate Float) now],
          op.Proper) →
        InRange 1700000000 (((Store.empty : Store Float).run ops).1.acquire key capacity
          (Settings.default.pace.rate Float) now).2 :=
  ⟨rfl, by decide, by decide, (rejections_in_range_iff rfl (by decide) (by decide) 1700000000).mpr
    (inRange_of_interval_lt rfl (by decide) (by decide) (by decide) (by decide))⟩

end RateLimit

end Switchboard
