import Switchboard.Proofs.RateLimit.Level
import Switchboard.Proofs.RateLimit.Operations
import Switchboard.RateLimit.Settings

/-! Sweeping removes idle buckets. Callers notice nothing of it exactly if a bucket that has been
idle for long enough to be removed is full again. -/

namespace Switchboard.RateLimit

variable {capacity : Nat} {rate : ℚ} {now later : Instant} {idle : Duration}

theorem Amount.floor_natCast (n : Nat) : Amount.floor (n : ℚ) = n := by
  simp [Amount.floor, Amount.fraction?]

namespace Bucket

variable {b : Bucket ℚ}

/-- A bucket that has gained all there was to gain since it was last used. -/
structure Rested (b : Bucket ℚ) (capacity : Nat) (rate : ℚ) (now : Instant) : Prop where
  sound : b.Sound capacity now
  used_le : b.used ≤ now
  gained : min (rate * seconds (now - b.used)) capacity ≤ b.level capacity rate now

theorem full_rested (capacity : Nat) (rate : ℚ) (now : Instant) :
    (full capacity now : Bucket ℚ).Rested capacity rate now := by
  refine ⟨full_sound capacity now, le_refl _, ?_⟩
  rw [level_full]
  exact min_le_right _ _

theorem Rested.at_later (h : b.Rested capacity rate now) (hr : 0 ≤ rate) (hl : now ≤ later) :
    b.Rested capacity rate later := by
  refine ⟨h.sound.mono hl, h.used_le.trans hl, ?_⟩
  have hgained := h.gained
  have hgain := gain_nonneg hr (later - now)
  rw [level_later h.sound hr hl, gain_sub_add rate h.used_le hl]
  refine le_min ?_ (min_le_right _ _)
  rcases le_total (rate * seconds (now - b.used)) capacity with hc | hc
  · rw [min_eq_left hc] at hgained
    exact (min_le_left _ _).trans (by linarith)
  · rw [min_eq_right hc] at hgained
    exact (min_le_right _ _).trans (by linarith)

theorem Rested.after_call (h : b.Rested capacity rate now) :
    (b.after capacity rate now).Rested capacity rate now := by
  by_cases hl : 1 ≤ b.level capacity rate now
  · refine ⟨after_sound b capacity rate now, ?_, ?_⟩
    · rw [after_of_le hl]
    · rw [level_after_of_le hl, after_of_le hl]
      simp only [Nat.sub_self, seconds_zero, mul_zero]
      exact (min_le_left _ _).trans (by linarith)
  · refine ⟨after_sound b capacity rate now, ?_, ?_⟩
    · rw [after_of_lt hl]
      exact h.used_le
    · rw [level_after_of_lt hl, after_of_lt hl]
      exact h.gained

theorem Rested.level_of_stale (h : b.Rested capacity rate now) (hr : 0 ≤ rate)
    (hi : (capacity : ℚ) ≤ rate * seconds idle.nanos) (hs : b.isStale idle now = true) :
    b.level capacity rate now = capacity := by
  have hlong : idle.nanos ≤ now - b.used := by simpa [isStale] using hs
  have hfull : (capacity : ℚ) ≤ rate * seconds (now - b.used) :=
    hi.trans (gain_mono hr hlong)
  have hgained := h.gained
  rw [min_eq_right hfull] at hgained
  exact le_antisymm level_le hgained

end Bucket

/-- What two stores hold for a key, the first of which has been swept. -/
inductive Swept (capacity : Nat) (rate : ℚ) (now : Instant) :
    Option (Bucket ℚ) → Option (Bucket ℚ) → Prop
  | absent : Swept capacity rate now none none
  | kept {b : Bucket ℚ} (h : b.Rested capacity rate now) :
    Swept capacity rate now (some b) (some b)
  | removed {b : Bucket ℚ} (h : b.Rested capacity rate now)
    (hfull : b.level capacity rate now = capacity) : Swept capacity rate now none (some b)

namespace Swept

variable {found found' : Option (Bucket ℚ)}

theorem at_later (h : Swept capacity rate now found found') (hr : 0 ≤ rate) (hl : now ≤ later) :
    Swept capacity rate later found found' := by
  cases h with
  | absent => exact .absent
  | kept h => exact .kept (h.at_later hr hl)
  | removed h hfull =>
    refine .removed (h.at_later hr hl) ?_
    have hgain := gain_nonneg hr (later - now)
    rw [Bucket.level_later h.sound hr hl, hfull]
    exact min_eq_right (by linarith)

theorem sweep (h : Swept capacity rate now found found') (hr : 0 ≤ rate)
    (hi : (capacity : ℚ) ≤ rate * seconds idle.nanos) :
    Swept capacity rate now (found.filter fun b => !b.isStale idle now) found' := by
  cases h with
  | absent => exact .absent
  | removed h hfull => exact .removed h hfull
  | @kept b h =>
    cases hs : b.isStale idle now with
    | false =>
      rw [Option.filter_some_pos (by simp [hs])]
      exact .kept h
    | true =>
      rw [Option.filter_some_neg (by simp [hs])]
      exact .removed h (h.level_of_stale hr hi hs)

/-- A call gets the same from a bucket that was removed as from a new one. -/
theorem call (h : Swept capacity rate now found found') (hc : 1 ≤ capacity) :
    (found.getD (.full capacity now)).decide capacity rate now =
        (found'.getD (.full capacity now)).decide capacity rate now ∧
      ((found.getD (.full capacity now)).decide capacity rate now).1.Rested capacity rate now := by
  have hfull : (Bucket.full capacity now : Bucket ℚ).Rested capacity rate now :=
    Bucket.full_rested capacity rate now
  cases h with
  | absent =>
    rw [Option.getD_none, Bucket.decide_eq hfull.sound]
    exact ⟨rfl, hfull.after_call⟩
  | kept h =>
    rw [Option.getD_some, Bucket.decide_eq h.sound]
    exact ⟨rfl, h.after_call⟩
  | @removed b h hlevel =>
    -- Both buckets are full, and an admitted call leaves nothing of what they were before.
    have hone : (1 : ℚ) ≤ capacity := by exact_mod_cast hc
    rw [Option.getD_none, Option.getD_some, Bucket.decide_eq hfull.sound,
      Bucket.decide_eq h.sound, Bucket.after_of_le (by rw [Bucket.level_full]; exact hone),
      Bucket.after_of_le (by rw [hlevel]; exact hone), Bucket.level_full, hlevel]
    refine ⟨rfl, ?_⟩
    have ha := hfull.after_call
    rwa [Bucket.after_of_le (by rw [Bucket.level_full]; exact hone), Bucket.level_full] at ha

end Swept

/-- Two stores that callers cannot tell apart, the first of which has been swept. -/
structure Alike (capacity : Nat) (rate : ℚ) (now : Instant) (s s' : Store ℚ) : Prop where
  valid : s.Valid
  valid' : s'.Valid
  swept : ∀ key, Swept capacity rate now (s.bucketOf key) (s'.bucketOf key)

namespace Alike

variable {s s' : Store ℚ}

theorem start (capacity : Nat) (rate : ℚ) (now : Instant) :
    Alike capacity rate now .empty .empty :=
  ⟨Store.empty_valid, Store.empty_valid, fun _ => .absent⟩

theorem at_later (h : Alike capacity rate now s s') (hr : 0 ≤ rate) (hl : now ≤ later) :
    Alike capacity rate later s s' :=
  ⟨h.valid, h.valid', fun key => (h.swept key).at_later hr hl⟩

theorem evict (h : Alike capacity rate now s s') (hr : 0 ≤ rate)
    (hi : (capacity : ℚ) ≤ rate * seconds idle.nanos) :
    Alike capacity rate now (s.evict idle now).1 s' := by
  refine ⟨h.valid.evict idle now, h.valid', fun key => ?_⟩
  rw [Store.bucketOf_evict]
  exact (h.swept key).sweep hr hi

theorem acquire (h : Alike capacity rate now s s') (hc : 1 ≤ capacity) (hr : 0 < rate)
    (key : String) :
    Alike capacity rate now (s.acquire key capacity rate now).1
        (s'.acquire key capacity rate now).1 ∧
      (s.acquire key capacity rate now).2 = (s'.acquire key capacity rate now).2 := by
  obtain ⟨hv, ha, hb⟩ := Store.acquire_spec h.valid (isUsable_of_pos hr) key capacity now
  obtain ⟨hv', ha', hb'⟩ := Store.acquire_spec h.valid' (isUsable_of_pos hr) key capacity now
  obtain ⟨hsame, hrested⟩ := (h.swept key).call hc
  have hverdict : s.verdict key capacity rate now = s'.verdict key capacity rate now := hsame
  refine ⟨⟨hv, hv', fun other => ?_⟩, by rw [ha, ha', hverdict]⟩
  rw [hb, hb', ← hverdict]
  by_cases ho : other = key
  · rw [if_pos ho, if_pos ho]
    exact .kept hrested
  · rw [if_neg ho, if_neg ho]
    exact h.swept other

end Alike

/-- Calls and sweeps in the order of their times, with one capacity, one rate and one idle time. -/
structure Uniform (capacity : Nat) (rate : ℚ) (idle : Duration) (ops : List (Op ℚ)) : Prop where
  same : ∀ op ∈ ops, (∃ key, op = .acquire key capacity rate op.time) ∨ op = .evict idle op.time
  ordered : ops.Pairwise fun op later => op.time ≤ later.time

/-- Every call gets the answer that it would get if there were no sweeps. -/
def Invisible (capacity : Nat) (rate : ℚ) (idle : Duration) : Prop :=
  ∀ ops, Uniform capacity rate idle ops →
    decisions (Store.empty.run ops).2 = decisions (Store.empty.run (ops.filter Op.isCall)).2

theorem Uniform.init {ops : List (Op ℚ)} {op : Op ℚ}
    (h : Uniform capacity rate idle (ops ++ [op])) : Uniform capacity rate idle ops :=
  ⟨fun o ho => h.same o (by simp [ho]), (List.pairwise_append.mp h.ordered).1⟩

theorem Uniform.time_le {ops : List (Op ℚ)} {op : Op ℚ}
    (h : Uniform capacity rate idle (ops ++ [op])) : ∀ o ∈ ops, o.time ≤ op.time :=
  fun o ho => (List.pairwise_append.mp h.ordered).2.2 o ho op (List.mem_singleton_self _)

theorem decisions_concat_acquire {R : Type} (log : Log R) (key : String) (capacity : Nat)
    (rate : R) (now : Instant) (answer : Option Decision) :
    decisions (log ++ [(.acquire key capacity rate now, answer)]) = decisions log ++ [answer] := by
  simp [decisions, Op.isCall]

theorem decisions_concat_evict {R : Type} (log : Log R) (idle : Duration) (now : Instant)
    (answer : Option Decision) :
    decisions (log ++ [(.evict idle now, answer)]) = decisions log := by
  simp [decisions, Op.isCall]

theorem Uniform.alike (hc : 1 ≤ capacity) (hr : 0 < rate)
    (hi : (capacity : ℚ) ≤ rate * seconds idle.nanos) {ops : List (Op ℚ)}
    (h : Uniform capacity rate idle ops) (hl : ∀ op ∈ ops, op.time ≤ now) :
    Alike capacity rate now (Store.empty.run ops).1
        (Store.empty.run (ops.filter Op.isCall)).1 ∧
      decisions (Store.empty.run ops).2 =
        decisions (Store.empty.run (ops.filter Op.isCall)).2 := by
  induction ops using List.reverseRecOn generalizing now with
  | nil => exact ⟨.start capacity rate now, rfl⟩
  | append_singleton ops op ih =>
    obtain ⟨halike, hsame⟩ := ih h.init h.time_le
    have hnow : op.time ≤ now := hl op (by simp)
    rcases h.same op (by simp) with ⟨key, hop⟩ | hop
    · generalize op.time = time at hop halike hnow
      subst hop
      obtain ⟨hnext, hanswer⟩ := halike.acquire hc hr key
      rw [List.filter_append, List.filter_cons_of_pos rfl, List.filter_nil, Store.run_concat,
        Store.run_concat]
      refine ⟨hnext.at_later hr.le hnow, ?_⟩
      rw [decisions_concat_acquire, decisions_concat_acquire, hsame]
      exact congrArg (_ ++ [·]) hanswer
    · generalize op.time = time at hop halike hnow
      subst hop
      rw [List.filter_append, List.filter_cons_of_neg (by simp [Op.isCall]), List.filter_nil,
        List.append_nil, Store.run_concat]
      refine ⟨(halike.evict hr.le hi).at_later hr.le hnow, ?_⟩
      rw [decisions_concat_evict, hsame]

/-- So many calls at once that all tokens of a new bucket are used up. -/
def drain (key : String) (capacity : Nat) (rate : ℚ) : List (Op ℚ) :=
  List.replicate capacity (.acquire key capacity rate 0)

/-- A key that has used up its tokens, is removed, and comes back. -/
def bypass (key : String) (capacity : Nat) (rate : ℚ) (idle : Duration) : List (Op ℚ) :=
  drain key capacity rate ++ [.evict idle idle.nanos] ++ [.acquire key capacity rate idle.nanos]

theorem bypass_uniform (key : String) (capacity : Nat) (rate : ℚ) (idle : Duration) :
    Uniform capacity rate idle (bypass key capacity rate idle) := by
  constructor
  · intro op ho
    simp only [bypass, drain, List.mem_append, List.mem_replicate, List.mem_singleton] at ho
    rcases ho with (⟨_, rfl⟩ | rfl) | rfl
    · exact .inl ⟨key, rfl⟩
    · exact .inr rfl
    · exact .inl ⟨key, rfl⟩
  · refine List.pairwise_append.mpr ⟨List.pairwise_append.mpr ⟨?_, by simp, ?_⟩, by simp, ?_⟩
    · exact List.pairwise_replicate.mpr (.inr (le_refl _))
    · intro op ho other hother
      obtain ⟨_, rfl⟩ := List.mem_replicate.mp ho
      exact Nat.zero_le _
    · intro op ho other hother
      obtain rfl := List.mem_singleton.mp hother
      rcases List.mem_append.mp ho with ho | ho
      · obtain ⟨_, rfl⟩ := List.mem_replicate.mp ho
        exact Nat.zero_le _
      · obtain rfl := List.mem_singleton.mp ho
        exact le_refl _

theorem bucketOf_replicate (hr : 0 < rate) (key : String) {n : Nat} (hn : n < capacity) :
    ((Store.empty : Store ℚ).run
        (List.replicate (n + 1) (.acquire key capacity rate 0))).1.bucketOf key =
      some ⟨capacity - (n + 1 : Nat), 0, 0⟩ := by
  have htake : ∀ {s : Store ℚ} {b : Bucket ℚ} {tokens : ℚ}, s.Valid →
      (s.bucketOf key).getD (.full capacity 0) = b → b.Sound capacity 0 →
      b.level capacity rate 0 = tokens → 1 ≤ tokens →
      (s.acquire key capacity rate 0).1.bucketOf key = some ⟨tokens - 1, 0, 0⟩ := by
    rintro s b _ hv hb hs rfl hl
    rw [(Store.acquire_eq hv hr hb hs).2, if_pos rfl, Bucket.after_of_le hl]
  induction n with
  | zero =>
    have hone : (1 : ℚ) ≤ capacity := by exact_mod_cast hn
    rw [Store.run, List.replicate_one, List.foldl_cons, List.foldl_nil, Store.perform,
      htake Store.empty_valid rfl (Bucket.full_sound capacity 0)
        (Bucket.level_full capacity rate 0) hone]
    simp
  | succ n ih =>
    have hle : ((n + 1 : Nat) : ℚ) + 1 ≤ capacity := by exact_mod_cast hn
    have hs : (⟨capacity - (n + 1 : Nat), 0, 0⟩ : Bucket ℚ).Sound capacity 0 :=
      ⟨by simp only; linarith, le_refl _⟩
    rw [List.replicate_succ', Store.run_concat, Store.perform,
      htake (Store.empty_valid.run _) (by rw [ih (by omega)]; rfl) hs
        (Bucket.level_at_refill hs.tokens_le) (by simp only; linarith)]
    congr 2
    push_cast
    ring

theorem bucketOf_drained (hc : 1 ≤ capacity) (hr : 0 < rate) (key : String) :
    (Store.empty.run (drain key capacity rate)).1.bucketOf key = some ⟨0, 0, 0⟩ := by
  have h := bucketOf_replicate hr key (Nat.sub_lt hc one_pos)
  rwa [Nat.sub_add_cancel hc, sub_self] at h

/-- The key that was removed is answered from a full bucket. -/
theorem decisions_bypass (hc : 1 ≤ capacity) (hr : 0 < rate) (key : String) (idle : Duration) :
    ∃ answers,
      decisions (Store.empty.run (bypass key capacity rate idle)).2 =
        answers ++ [Bucket.answer capacity rate] ∧
      decisions (Store.empty.run ((bypass key capacity rate idle).filter Op.isCall)).2 =
        answers ++ [Bucket.answer (min (rate * seconds idle.nanos) capacity) rate] := by
  have hdrained := bucketOf_drained hc hr key
  have hv := (Store.empty_valid (R := ℚ)).run (drain key capacity rate)
  have hcalls : (bypass key capacity rate idle).filter Op.isCall =
      drain key capacity rate ++ [.acquire key capacity rate idle.nanos] := by
    simp [bypass, drain, Op.isCall, List.filter_replicate]
  have hremoved : ((Store.empty.run (drain key capacity rate)).1.evict idle
      idle.nanos).1.bucketOf key = none := by
    rw [Store.bucketOf_evict, hdrained]
    simp [Option.filter, Bucket.isStale]
  have hs : (⟨0, 0, 0⟩ : Bucket ℚ).Sound capacity idle.nanos :=
    ⟨Nat.cast_nonneg _, Nat.zero_le _⟩
  refine ⟨decisions (Store.empty.run (drain key capacity rate)).2, ?_, ?_⟩
  · have ha := Store.acquire_eq (hv.evict idle idle.nanos) hr (by rw [hremoved]; rfl)
      (Bucket.full_sound capacity idle.nanos)
    rw [bypass, Store.run_concat, Store.run_concat, Store.perform, Store.perform,
      decisions_concat_acquire, decisions_concat_evict, ha.1, Bucket.level_full]
  · have ha := Store.acquire_eq hv hr (by rw [hdrained]; rfl) hs
    rw [hcalls, Store.run_concat, Store.perform, decisions_concat_acquire, ha.1]
    simp [Bucket.level]

theorem le_of_answer_eq {tokens : ℚ} (hc : 1 ≤ capacity)
    (h : Bucket.answer capacity rate = Bucket.answer tokens rate) : (capacity : ℚ) ≤ tokens := by
  have hone : (1 : ℚ) ≤ capacity := by exact_mod_cast hc
  have hrest : (capacity : ℚ) - 1 = (capacity - 1 : Nat) := by
    rw [Nat.cast_sub hc, Nat.cast_one]
  have hl : 1 ≤ tokens := by
    apply Bucket.isAdmitted_answer_iff.mp
    rw [← h]
    exact Bucket.isAdmitted_answer_iff.mpr hone
  rw [Bucket.answer, Bucket.answer, if_pos hl, if_pos hone, hrest, Amount.floor_natCast] at h
  have hfloor : capacity - 1 = Amount.floor (tokens - 1) := by simpa using h
  have hle := Amount.floor_le (sub_nonneg.mpr hl)
  rw [← hfloor, ← hrest] at hle
  linarith

/-- The pace of settings refills a bucket in the idle time exactly if it lets as many requests
through in that time as the burst has. -/
theorem refills_iff {s : Settings} (hr : 0 < s.pace.rate ℚ) :
    (s.burst : ℚ) ≤ s.pace.rate ℚ * seconds s.evictAfter.nanos ↔
      s.burst * s.interval.nanos ≤ s.requests * s.evictAfter.nanos := by
  by_cases hz : s.interval.isZero = true
  · simp [Pace.rate, Settings.pace, hz, Amount.ofNat] at hr
  · have hpos : (0 : ℚ) < s.interval.nanos := by
      have hne : s.interval.nanos ≠ 0 := by simpa [Duration.isZero] using hz
      exact_mod_cast Nat.pos_of_ne_zero hne
    have hrate : s.pace.rate ℚ * seconds s.evictAfter.nanos =
        s.requests * s.evictAfter.nanos / s.interval.nanos := by
      rw [Pace.rate, Settings.pace, if_neg hz]
      simp only [Amount.ofNat, Amount.ofDuration, seconds]
      field_simp
    rw [hrate, le_div_iff₀ hpos]
    exact_mod_cast Iff.rfl

/-- Sweeps are invisible exactly if a bucket fills up in the time after which it is removed. -/
theorem invisible_iff_refills (hc : 1 ≤ capacity) (hr : 0 < rate) (idle : Duration) :
    (Invisible capacity rate idle ↔ (capacity : ℚ) ≤ rate * seconds idle.nanos) ∧
      ∀ s : Settings, s.burst = capacity → s.pace.rate ℚ = rate → s.evictAfter = idle →
        (Invisible capacity rate idle ↔
          s.burst * s.interval.nanos ≤ s.requests * s.evictAfter.nanos) := by
  have hiff : Invisible capacity rate idle ↔ (capacity : ℚ) ≤ rate * seconds idle.nanos := by
    constructor
    · intro h
      obtain ⟨answers, hswept, hkept⟩ := decisions_bypass hc hr "" idle
      have hsame := h _ (bypass_uniform "" capacity rate idle)
      rw [hswept, hkept] at hsame
      have hanswer := List.singleton_inj.mp (List.append_cancel_left hsame)
      exact (le_of_answer_eq hc hanswer).trans (min_le_left _ _)
    · intro hi ops h
      have hle : ∀ op ∈ ops, op.time ≤ (ops.map Op.time).sum := fun op ho =>
        List.single_le_sum (fun _ _ => Nat.zero_le _) _ (List.mem_map_of_mem ho)
      exact (h.alike hc hr hi hle).2
  refine ⟨hiff, ?_⟩
  rintro s rfl rfl rfl
  exact hiff.trans (refills_iff hr)

/-- A bucket of two, with a token a second, may not be removed after a second, but it may be after
the quarter of an hour that is the default. -/
theorem invisible_by_default :
    let s := (Settings.ofPace 1 (.ofSeconds 1)).withBurst 2
    1 ≤ s.burst ∧ 0 < s.pace.rate ℚ ∧ ¬ Invisible s.burst (s.pace.rate ℚ) (.ofSeconds 1) ∧
      Invisible s.burst (s.pace.rate ℚ) s.evictAfter := by
  intro s
  have hc : 1 ≤ s.burst := by decide
  have hr : 0 < s.pace.rate ℚ := by decide +kernel
  refine ⟨hc, hr, ?_, ?_⟩
  · rw [(invisible_iff_refills hc hr (.ofSeconds 1)).1]
    decide +kernel
  · exact ((invisible_iff_refills hc hr s.evictAfter).2 s rfl rfl rfl).mpr (by decide)

end Switchboard.RateLimit
