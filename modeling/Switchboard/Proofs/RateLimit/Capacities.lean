import Switchboard.Proofs.RateLimit.Tokens

/-! Runs in which the calls on a key name capacities of their own. A bucket is cut to a capacity
when it is created or refilled, and not again at the same instant. -/

namespace Switchboard.RateLimit

/-- A call with a capacity of 32 bits and a rate that is positive and finite. -/
def Op.Proper : Op Float → Prop
  | .acquire _ capacity rate _ => capacity < Word.size32 ∧ Store.isUsable rate = true
  | .evict _ _ => True

/-- The capacities that the calls on a key name at an instant. -/
def capacitiesAt {R : Type} (key : String) (now : Instant) (ops : List (Op R)) : List Nat :=
  ops.filterMap fun
    | .acquire k capacity _ time => if k = key ∧ time = now then some capacity else none
    | .evict _ _ => none

variable {key : String} {now : Instant} {capacity : Nat} {rate : Float} {ops : List (Op Float)}
  {b : Bucket Float}

theorem mem_capacitiesAt :
    capacity ∈ capacitiesAt key now ops ↔ ∃ rate, Op.acquire key capacity rate now ∈ ops := by
  constructor
  · intro h
    obtain ⟨op, hop, hsome⟩ := List.mem_filterMap.mp h
    cases op with
    | acquire k c rate time =>
      by_cases hk : k = key ∧ time = now
      · obtain ⟨rfl, rfl⟩ := hk
        obtain rfl : c = capacity := by simpa using hsome
        exact ⟨rate, hop⟩
      · simp [hk] at hsome
    | evict after time => simp at hsome
  · rintro ⟨rate, hop⟩
    exact List.mem_filterMap.mpr ⟨_, hop, by simp⟩

theorem capacitiesAt_subset {more : List (Op Float)} :
    capacitiesAt key now ops ⊆ capacitiesAt key now (ops ++ more) := by
  intro c hc
  obtain ⟨rate, hop⟩ := mem_capacitiesAt.mp hc
  exact mem_capacitiesAt.mpr ⟨rate, List.mem_append_left _ hop⟩

theorem le_of_mem_capacitiesAt (h : ∀ op ∈ ops, op.Proper)
    (hc : capacity ∈ capacitiesAt key now ops) : capacity ≤ 2 ^ 53 := by
  obtain ⟨rate, hop⟩ := mem_capacitiesAt.mp hc
  exact (h _ hop).1.le.trans (by decide)

/-- A bucket that holds no more than a capacity that was named when it was last refilled. -/
def Bucket.Capped (b : Bucket Float) (key : String) (ops : List (Op Float)) : Prop :=
  ∃ v, b.Holds v ∧ ∃ capacity ∈ capacitiesAt key b.refilled ops, v ≤ capacity

/-- A call cuts a bucket that it refills to its own capacity, and one that it does not refill has
been cut to a capacity of the instant that it is at. -/
theorem Bucket.Capped.refill (hb : b.Capped key ops) (h : ∀ op ∈ ops, op.Proper)
    (hop : Op.acquire key capacity rate now ∈ ops) :
    ∃ w, (b.refill capacity rate now).Holds w ∧ w ≤ 2 ^ 53 ∧
      ∃ c ∈ capacitiesAt key (max b.refilled now) ops, w ≤ c := by
  obtain ⟨v, hv, c, hc, hle⟩ := hb
  obtain ⟨hcapacity, hrate⟩ := h _ hop
  have hown : capacity ∈ capacitiesAt key now ops := mem_capacitiesAt.mpr ⟨rate, hop⟩
  obtain ⟨w, hw, hcases⟩ := hv.refill_cases hrate (le_of_mem_capacitiesAt h hown) now
  obtain ⟨c', hc', hwc⟩ : ∃ c' ∈ capacitiesAt key (max b.refilled now) ops, w ≤ c' := by
    rcases hcases with ⟨rfl, hn⟩ | ⟨hwc, hn⟩
    · rw [max_eq_left hn]
      exact ⟨c, hc, hle⟩
    · rw [max_eq_right hn.le]
      exact ⟨capacity, hown, hwc⟩
  have hbound : (c' : ℚ) ≤ 2 ^ 53 := by exact_mod_cast le_of_mem_capacitiesAt h hc'
  exact ⟨w, hw, hwc.trans hbound, c', hc', hwc⟩

theorem Bucket.Capped.decide (hb : b.Capped key ops) (h : ∀ op ∈ ops, op.Proper)
    (hop : Op.acquire key capacity rate now ∈ ops) :
    (b.decide capacity rate now).1.refilled = max b.refilled now ∧
      ∃ u, (b.decide capacity rate now).1.Holds u ∧
        ∃ c ∈ capacitiesAt key (max b.refilled now) ops, u ≤ c ∧
          ∀ n, (b.decide capacity rate now).2 = some (.admitted n) → n + 1 ≤ c := by
  obtain ⟨w, hw, hbound, c, hc, hwc⟩ := hb.refill h hop
  obtain ⟨hrefilled, u, hu, hholds⟩ := hw.take hbound rate now
  rw [refilled_refill] at hrefilled
  refine ⟨hrefilled, u, hholds, c, hc, hu.trans hwc, fun n hn => ?_⟩
  obtain ⟨hone, rfl⟩ := hw.admitted hbound hn
  have hfloor := Nat.floor_le (sub_nonneg.mpr hone)
  exact_mod_cast (by linarith : (⌊w - 1⌋₊ : ℚ) + 1 ≤ c)

theorem Bucket.Capped.append (hb : b.Capped key ops) (more : List (Op Float)) :
    b.Capped key (ops ++ more) := by
  obtain ⟨v, hv, c, hc, hle⟩ := hb
  exact ⟨v, hv, c, capacitiesAt_subset hc, hle⟩

theorem full_capped (h : ∀ op ∈ ops, op.Proper) (hop : Op.acquire key capacity rate now ∈ ops) :
    (Bucket.full capacity now : Bucket Float).Capped key ops := by
  have hown : capacity ∈ capacitiesAt key now ops := mem_capacitiesAt.mpr ⟨rate, hop⟩
  exact ⟨capacity, Bucket.holds_full (le_of_mem_capacitiesAt h hown), capacity, hown, le_rfl⟩

namespace Store

theorem acquire_capped {s : Store Float} (hv : s.Valid)
    (hs : ∀ b, s.bucketOf key = some b → b.Capped key ops)
    (h : ∀ op ∈ ops ++ [Op.acquire key capacity rate now], op.Proper) :
    ∃ found : Bucket Float, found.Capped key (ops ++ [Op.acquire key capacity rate now]) ∧
      (s.acquire key capacity rate now).1.Valid ∧
      (s.acquire key capacity rate now).2 = (found.decide capacity rate now).2 ∧
      (s.acquire key capacity rate now).1.bucketOf key =
        some (found.decide capacity rate now).1 := by
  obtain ⟨hvalid, hanswer, hbuckets⟩ :=
    acquire_spec hv (h _ List.mem_concat_self).2 key capacity now
  refine ⟨(s.bucketOf key).getD (.full capacity now), ?_, hvalid, hanswer, by
    rw [hbuckets, if_pos rfl, verdict]⟩
  cases hb : s.bucketOf key with
  | none => exact full_capped h List.mem_concat_self
  | some b => exact (hs b hb).append _

/-- In every store that calls lead to, the buckets are cut to capacities that were named. -/
theorem run_capped (h : ∀ op ∈ ops, op.Proper)
    (hb : ((empty : Store Float).run ops).1.bucketOf key = some b) : b.Capped key ops := by
  -- From the last operation: a call on the key cuts what it finds, a sweep may take it away.
  induction ops using List.reverseRecOn generalizing b with
  | nil => simp [run, empty, bucketOf, Table.get?] at hb
  | append_singleton ops op ih =>
    have hvalid : ((empty : Store Float).run ops).1.Valid := empty_valid.run ops
    have hbefore : ∀ b, ((empty : Store Float).run ops).1.bucketOf key = some b →
        b.Capped key ops := fun b => ih fun o ho => h o (List.mem_append_left _ ho)
    rw [run_concat] at hb
    by_cases hk : op.key? = some key
    · cases op with
      | evict after now => cases hk
      | acquire other capacity rate now =>
        obtain rfl : other = key := by simpa [Op.key?] using hk
        obtain ⟨found, hfound, -, -, hbucket⟩ := acquire_capped hvalid hbefore h
        obtain ⟨hrefilled, u, hu, c, hc, hle, -⟩ := hfound.decide h List.mem_concat_self
        obtain rfl := Option.some.inj (hbucket.symm.trans hb)
        exact ⟨u, hu, c, by rwa [hrefilled], hle⟩
    · rcases bucketOf_perform_other hvalid hk with he | he
      · rw [he] at hb
        exact (hbefore b hb).append _
      · rw [he] at hb
        cases hb

theorem acquire_run_capped (h : ∀ op ∈ ops ++ [Op.acquire key capacity rate now], op.Proper) :
    ∃ found : Bucket Float, found.Capped key (ops ++ [Op.acquire key capacity rate now]) ∧
      (((empty : Store Float).run ops).1.acquire key capacity rate now).1.Valid ∧
      (((empty : Store Float).run ops).1.acquire key capacity rate now).2 =
        (found.decide capacity rate now).2 ∧
      (((empty : Store Float).run ops).1.acquire key capacity rate now).1.bucketOf key =
        some (found.decide capacity rate now).1 :=
  acquire_capped (empty_valid.run ops)
    (fun _ => run_capped fun o ho => h o (List.mem_append_left _ ho)) h

theorem le_of_capacitiesAt {time : Instant}
    (hordered : (callTimes key (ops ++ [Op.acquire key capacity rate now])).Pairwise (· ≤ ·))
    {c : Nat} (hc : c ∈ capacitiesAt key time (ops ++ [Op.acquire key capacity rate now])) :
    time ≤ now := by
  obtain ⟨r, hop⟩ := mem_capacitiesAt.mp hc
  rw [callTimes_concat, if_pos (show (Op.acquire key capacity rate now).key? = some key from rfl)]
    at hordered
  rcases List.mem_append.mp hop with hop | hop
  · have htime : time ∈ callTimes key ops :=
      List.mem_map.mpr ⟨_, List.mem_filter.mpr ⟨hop, by simp [Op.key?]⟩, rfl⟩
    exact (List.pairwise_append.mp hordered).2.2 time htime now (List.mem_singleton_self _)
  · cases List.mem_singleton.mp hop
    exact le_rfl

/-- After a call at the latest instant, the bucket of its key holds no more than a capacity that was
named for the key at that instant, and the call is told of fewer tokens than that. -/
theorem tokens_le_capacity_of_instant
    (h : ∀ op ∈ ops ++ [Op.acquire key capacity rate now], op.Proper)
    (hordered : (callTimes key (ops ++ [Op.acquire key capacity rate now])).Pairwise (· ≤ ·)) :
    ∃ b u, (((empty : Store Float).run ops).1.acquire key capacity rate now).1.bucketOf key =
        some b ∧ Double.value? b.tokens = some u ∧ 0 ≤ u ∧
      ∃ c ∈ capacitiesAt key now (ops ++ [Op.acquire key capacity rate now]), u ≤ c ∧
        ∀ n, (((empty : Store Float).run ops).1.acquire key capacity rate now).2 =
          some (.admitted n) → n + 1 ≤ c := by
  obtain ⟨found, hfound, -, hanswer, hbucket⟩ := acquire_run_capped h
  obtain ⟨-, u, hu, c, hc, hle, hadmitted⟩ := hfound.decide h List.mem_concat_self
  rw [le_antisymm (le_of_capacitiesAt hordered hc) (le_max_right _ _)] at hc
  rw [hanswer]
  exact ⟨_, u, hbucket, hu, Double.value_nonneg hu, c, hc, hle, hadmitted⟩

/-- Two calls at one instant, of which the second names a smaller capacity. -/
def narrowing : List (Op Float) :=
  [.acquire "k" 10 1.0 0, .acquire "k" 1 1.0 0]

theorem narrowing_proper : ∀ op ∈ narrowing, op.Proper := by
  have hrate : isUsable (1.0 : Float) = true := by decide +kernel
  intro op hop
  rcases List.mem_cons.mp hop with rfl | hop
  · exact ⟨by decide, hrate⟩
  · cases List.mem_singleton.mp hop
    exact ⟨by decide, hrate⟩

theorem tokens_le_capacity_of_instant_narrowing :
    (∀ op ∈ narrowing, op.Proper) ∧ (callTimes "k" narrowing).Pairwise (· ≤ ·) ∧
      ∃ c ∈ capacitiesAt "k" 0 narrowing, 9 ≤ c :=
  ⟨narrowing_proper, by decide, by
    obtain ⟨_, _, _, _, _, c, hc, _, hadmitted⟩ :=
      @tokens_le_capacity_of_instant "k" 0 1 1.0 [.acquire "k" 10 1.0 0] narrowing_proper
        (by decide)
    exact ⟨c, hc, hadmitted 8 (by decide +kernel)⟩⟩

/-- A smaller capacity that is named later at the same instant does not cut the bucket. -/
theorem smaller_capacity_is_passed_over :
    ¬ ∀ (ops : List (Op Float)) (key : String) (capacity : Nat) (rate : Float) (now : Instant)
        (n : Nat),
      (∀ op ∈ ops ++ [Op.acquire key capacity rate now], op.Proper) →
      (callTimes key (ops ++ [Op.acquire key capacity rate now])).Pairwise (· ≤ ·) →
      (((empty : Store Float).run ops).1.acquire key capacity rate now).2 =
        some (.admitted n) → n ≤ capacity - 1 := by
  intro hcut
  have hanswer : (((empty : Store Float).run [.acquire "k" 10 1.0 0]).1.acquire "k" 1 1.0 0).2 =
      some (.admitted 8) := by decide +kernel
  exact absurd (hcut [.acquire "k" 10 1.0 0] "k" 1 1.0 0 8 narrowing_proper (by decide) hanswer)
    (by decide)

end Store

end Switchboard.RateLimit
