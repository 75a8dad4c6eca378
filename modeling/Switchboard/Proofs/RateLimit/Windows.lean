import Switchboard.Proofs.RateLimit.Level
import Switchboard.Proofs.RateLimit.Operations

/-! The level of a bucket is the least room that any window up to now has left: what the capacity
and the rate allow in the window, less what has been admitted in it. -/

namespace Switchboard.RateLimit

variable {capacity : Nat} {rate : ℚ} {first now later : Instant} {admitted : List Instant}
  {level : ℚ}

/-- What may be admitted in a window of so many nanoseconds. -/
def allowance (capacity : Nat) (rate : ℚ) (nanos : Nat) : ℚ :=
  capacity + rate * seconds nanos

/-- The largest amount that fits, on top of what was admitted, into every window that ends now
and begins after the first call. -/
def IsRoom (capacity : Nat) (rate : ℚ) (first now : Instant) (admitted : List Instant)
    (level : ℚ) : Prop :=
  ∀ amount : ℚ, amount ≤ level ↔ ∀ since, first ≤ since → since ≤ now →
    (admitted.countP (since ≤ ·) : ℚ) + amount ≤ allowance capacity rate (now - since)

theorem isRoom_start (capacity : Nat) (rate : ℚ) (now : Instant) :
    IsRoom capacity rate now now [] capacity := by
  intro amount
  constructor
  · intro h since hf hl
    obtain rfl := le_antisymm hf hl
    simpa [allowance, seconds_zero] using h
  · intro h
    simpa [allowance, seconds_zero] using h now (le_refl _) (le_refl _)

theorem countP_since_eq_zero {since : Instant} (ha : ∀ a ∈ admitted, a ≤ now)
    (h : now < since) : admitted.countP (since ≤ ·) = 0 := by
  apply List.countP_eq_zero.mpr
  intro a hm
  have := ha a hm
  simpa using this.trans_lt h

/-- With time all windows gain the same room, and new windows have room for the capacity. -/
theorem IsRoom.at_later (h : IsRoom capacity rate first now admitted level) (hf : first ≤ now)
    (ha : ∀ a ∈ admitted, a ≤ now) (hle : level ≤ capacity) (hr : 0 ≤ rate) (hl : now ≤ later) :
    IsRoom capacity rate first later admitted
      (min (level + rate * seconds (later - now)) capacity) := by
  intro amount
  rw [le_min_iff]
  constructor
  · rintro ⟨hlevel, hcap⟩ since hs hsl
    by_cases hsn : since ≤ now
    · have hh := (h (amount - rate * seconds (later - now))).mp (by linarith) since hs hsn
      unfold allowance at hh ⊢
      rw [gain_sub_add rate hsn hl]
      linarith
    · rw [countP_since_eq_zero ha (not_le.mp hsn)]
      have hgain := gain_nonneg hr (later - since)
      simp only [allowance, Nat.cast_zero]
      linarith
  · intro hall
    constructor
    · have hh : amount - rate * seconds (later - now) ≤ level := by
        apply (h _).mpr
        intro since hs hsn
        have hw := hall since hs (hsn.trans hl)
        unfold allowance at hw ⊢
        rw [gain_sub_add rate hsn hl] at hw
        linarith
      linarith
    · rcases hl.eq_or_lt with rfl | hlt
      · have hh : amount ≤ level := by
          apply (h _).mpr
          intro since hs hsn
          exact hall since hs hsn
        exact hh.trans hle
      · have hw := hall later (hf.trans hl) (le_refl _)
        rw [countP_since_eq_zero ha hlt] at hw
        simpa [allowance, seconds_zero] using hw

theorem IsRoom.admit (h : IsRoom capacity rate first now admitted level) :
    IsRoom capacity rate first now (admitted ++ [now]) (level - 1) := by
  intro amount
  rw [le_sub_iff_add_le, h (amount + 1)]
  refine forall_congr' fun since => forall_congr' fun _ => forall_congr' fun hl => ?_
  rw [List.countP_append, List.countP_singleton, if_pos (by simpa using hl)]
  push_cast
  constructor <;> intro hh <;> linarith

theorem IsRoom.unique {level' : ℚ} (h : IsRoom capacity rate first now admitted level)
    (h' : IsRoom capacity rate first now admitted level') : level = level' :=
  le_antisymm ((h' level).mpr ((h level).mp (le_refl _)))
    ((h level').mpr ((h' level').mp (le_refl _)))

/-- Calls on a key in the order of their times, all with one capacity and one rate, between
operations that do not take the bucket of the key away. -/
structure Steady (s : Store ℚ) (key : String) (capacity : Nat) (rate : ℚ) (ops : List (Op ℚ)) :
    Prop where
  same : ∀ op ∈ ops, op.key? = some key → op = .acquire key capacity rate op.time
  kept : ∀ before op, before ++ [op] <+: ops → (s.run before).1.bucketOf key ≠ none →
    (s.run (before ++ [op])).1.bucketOf key ≠ none
  ordered : (callTimes key ops).Pairwise (· ≤ ·)

theorem Steady.left {s : Store ℚ} {key : String} {ops more : List (Op ℚ)}
    (h : Steady s key capacity rate (ops ++ more)) : Steady s key capacity rate ops := by
  refine ⟨fun op hop => h.same op (List.mem_append_left _ hop), fun before op hp => ?_, ?_⟩
  · exact h.kept before op (hp.trans (List.prefix_append _ _))
  · have hordered := h.ordered
    rw [callTimes_append] at hordered
    exact (List.pairwise_append.mp hordered).1

theorem Steady.init {s : Store ℚ} {key : String} {ops : List (Op ℚ)} {op : Op ℚ}
    (h : Steady s key capacity rate (ops ++ [op])) : Steady s key capacity rate ops :=
  h.left

theorem Steady.right {s : Store ℚ} {key : String} {ops more : List (Op ℚ)}
    (h : Steady s key capacity rate (ops ++ more)) :
    Steady (s.run ops).1 key capacity rate more := by
  refine ⟨fun op hop => h.same op (List.mem_append_right _ hop), fun before op hp hb => ?_, ?_⟩
  · rw [← Store.run_append] at hb ⊢
    rw [← List.append_assoc]
    exact h.kept (ops ++ before) op (by
      rw [List.append_assoc]
      exact (List.prefix_append_right_inj ops).mpr hp) hb
  · have hordered := h.ordered
    rw [callTimes_append] at hordered
    exact (List.pairwise_append.mp hordered).2.1

theorem steady_map_acquire {s : Store ℚ} (hv : s.Valid) (hr : 0 < rate) (key : String)
    (capacity : Nat) (times : List Instant) (h : times.Pairwise (· ≤ ·)) :
    Steady s key capacity rate (times.map (.acquire key capacity rate)) := by
  refine ⟨?_, ?_, ?_⟩
  · intro op ho _
    obtain ⟨t, _, rfl⟩ := List.mem_map.mp ho
    rfl
  · intro before op hp _
    have hm : op ∈ times.map (Op.acquire key capacity rate) := hp.subset (by simp)
    obtain ⟨t, _, rfl⟩ := List.mem_map.mp hm
    rw [Store.run_concat, Store.perform,
      (Store.acquire_spec (hv.run before) (isUsable_of_pos hr) key capacity t).2.2]
    simp
  · have ht : callTimes key (times.map (Op.acquire key capacity rate)) = times := by
      simp [callTimes, List.filter_map, Function.comp_def, Op.key?, Op.time]
    rwa [ht]

/-- What is known of the bucket of a key after some calls, of which some were admitted. -/
inductive Tracked (capacity : Nat) (rate : ℚ) :
    Option (Bucket ℚ) → List Instant → List Instant → Prop
  | fresh : Tracked capacity rate none [] []
  | used {b : Bucket ℚ} {calls admitted : List Instant} {first last : Instant}
    (hcalls : calls.head? = some first) (hlast : last ∈ calls)
    (hadmitted : admitted.head? = some first)
    (hbetween : ∀ a ∈ admitted, first ≤ a ∧ a ≤ last) (hs : b.Sound capacity last)
    (hroom : IsRoom capacity rate first last admitted (b.level capacity rate last)) :
    Tracked capacity rate (some b) calls admitted

/-- What a call finds: the level of the bucket is the room in the windows up to the call. -/
structure Finds (capacity : Nat) (rate : ℚ) (b : Bucket ℚ) (calls admitted : List Instant)
    (now : Instant) : Prop where
  sound : b.Sound capacity now
  head_eq : calls.headD now = admitted.headD now
  between : ∀ a ∈ admitted, admitted.headD now ≤ a ∧ a ≤ now
  head_le : admitted.headD now ≤ now
  room : IsRoom capacity rate (admitted.headD now) now admitted (b.level capacity rate now)

theorem Tracked.finds {found : Option (Bucket ℚ)} {calls : List Instant}
    (h : Tracked capacity rate found calls admitted) (hr : 0 ≤ rate)
    (hle : ∀ t ∈ calls, t ≤ now) :
    Finds capacity rate (found.getD (.full capacity now)) calls admitted now := by
  cases h with
  | fresh =>
    refine ⟨Bucket.full_sound capacity now, rfl, by simp, le_refl _, ?_⟩
    rw [Option.getD_none, Bucket.level_full]
    exact isRoom_start capacity rate now
  | @used b _ _ first last hcalls hlast hadmitted hbetween hs hroom =>
    have hln := hle last hlast
    have hhead : admitted.headD now = first := by
      rw [List.headD_eq_head?_getD, hadmitted, Option.getD_some]
    have hfl : first ≤ last := by
      have hb := hbetween first (List.mem_of_mem_head? hadmitted)
      exact hb.2
    refine ⟨hs.mono hln, ?_, ?_, ?_, ?_⟩
    · rw [hhead, List.headD_eq_head?_getD, hcalls, Option.getD_some]
    · intro a ha
      rw [hhead]
      exact ⟨(hbetween a ha).1, (hbetween a ha).2.trans hln⟩
    · rw [hhead]
      exact hfl.trans hln
    · rw [hhead, Option.getD_some, Bucket.level_later hs hr hln]
      exact hroom.at_later hfl (fun a ha => (hbetween a ha).2) Bucket.level_le hr hln

theorem head?_concat (times : List Instant) (now : Instant) :
    (times ++ [now]).head? = some (times.headD now) := by
  cases times <;> rfl

theorem Finds.tracked_admit {b : Bucket ℚ} {calls : List Instant}
    (h : Finds capacity rate b calls admitted now) (hl : 1 ≤ b.level capacity rate now) :
    Tracked capacity rate (some (b.after capacity rate now)) (calls ++ [now])
      (admitted ++ [now]) := by
  have hlast : now ∈ calls ++ [now] := by simp
  refine .used ((head?_concat calls now).trans (by rw [h.head_eq])) hlast
    (head?_concat admitted now) ?_ (Bucket.after_sound b capacity rate now) ?_
  · intro a ha
    rcases List.mem_append.mp ha with ha | ha
    · exact h.between a ha
    · obtain rfl := List.mem_singleton.mp ha
      exact ⟨h.head_le, le_refl _⟩
  · rw [Bucket.level_after_of_le hl]
    exact h.room.admit

theorem Finds.ne_nil_of_reject {b : Bucket ℚ} {calls : List Instant}
    (h : Finds capacity rate b calls admitted now) (hc : 1 ≤ capacity)
    (hl : ¬ 1 ≤ b.level capacity rate now) : admitted ≠ [] := by
  rintro rfl
  apply hl
  rw [h.room.unique (isRoom_start capacity rate now)]
  exact_mod_cast hc

theorem Finds.tracked_reject {b : Bucket ℚ} {calls : List Instant}
    (h : Finds capacity rate b calls admitted now) (hc : 1 ≤ capacity)
    (hl : ¬ 1 ≤ b.level capacity rate now) :
    Tracked capacity rate (some (b.after capacity rate now)) (calls ++ [now]) admitted := by
  obtain ⟨first, rest, rfl⟩ := List.exists_cons_of_ne_nil (h.ne_nil_of_reject hc hl)
  have hlast : now ∈ calls ++ [now] := by simp
  refine .used ((head?_concat calls now).trans (by rw [h.head_eq]; rfl)) hlast rfl h.between
    (Bucket.after_sound b capacity rate now) ?_
  rw [Bucket.level_after_of_lt hl]
  exact h.room

section Runs

variable {s : Store ℚ} {key : String} {ops : List (Op ℚ)}

theorem Steady.calls_le (h : Steady s key capacity rate (ops ++ [.acquire key capacity rate now])) :
    ∀ t ∈ callTimes key ops, t ≤ now := by
  have ho := h.ordered
  have hk : (Op.acquire key capacity rate now).key? = some key := rfl
  rw [callTimes_concat, if_pos hk] at ho
  exact fun t ht => (List.pairwise_append.mp ho).2.2 t ht now (List.mem_singleton_self _)

theorem Steady.tracked (hv : s.Valid) (hf : s.bucketOf key = none) (hc : 1 ≤ capacity)
    (hr : 0 < rate) (h : Steady s key capacity rate ops) :
    Tracked capacity rate ((s.run ops).1.bucketOf key) (callTimes key ops)
      (admittedTimes key (s.run ops).2) := by
  induction ops using List.reverseRecOn with
  | nil =>
    have he : (s.run []).1.bucketOf key = none := hf
    rw [he]
    exact .fresh
  | append_singleton ops op ih =>
    have hi := ih h.init
    have hv' := hv.run ops
    rw [callTimes_concat, Store.run_concat]
    by_cases hk : op.key? = some key
    · have hop := h.same op (by simp) hk
      generalize op.time = now at hop
      subst hop
      have hfinds := hi.finds hr.le h.calls_le
      obtain ⟨ha, hb⟩ := Store.acquire_eq hv' hr rfl hfinds.sound
      simp only [Store.perform, hb, ha, if_true, Op.key?]
      by_cases hl : 1 ≤ (((s.run ops).1.bucketOf key).getD
          (.full capacity now)).level capacity rate now
      · rw [admittedTimes_concat_admitted (Bucket.isAdmitted_answer_iff.mpr hl)]
        exact hfinds.tracked_admit hl
      · rw [admittedTimes_concat_rejected (mt Bucket.isAdmitted_answer_iff.mp hl)]
        exact hfinds.tracked_reject hc hl
    · rw [if_neg hk, List.append_nil, admittedTimes_concat_other hk]
      -- A sweep may take the bucket away only where there is none yet.
      rcases Store.bucketOf_perform_other hv' hk with hb | hb
      · rw [hb]
        exact hi
      · have hkept := h.kept ops op (List.prefix_refl _)
        rw [Store.run_concat] at hkept
        have hn : (s.run ops).1.bucketOf key = none := by
          by_contra hne
          exact hkept hne hb
        rw [hb, ← hn]
        exact hi

theorem Steady.finds (hv : s.Valid) (hf : s.bucketOf key = none) (hc : 1 ≤ capacity)
    (hr : 0 < rate)
    (h : Steady s key capacity rate (ops ++ [.acquire key capacity rate now])) :
    Finds capacity rate (((s.run ops).1.bucketOf key).getD (.full capacity now))
        (callTimes key ops) (admittedTimes key (s.run ops).2) now ∧
      ((s.run ops).1.acquire key capacity rate now).2 =
        Bucket.answer ((((s.run ops).1.bucketOf key).getD (.full capacity now)).level
          capacity rate now) rate := by
  have hfinds := (h.init.tracked hv hf hc hr).finds hr.le h.calls_le
  exact ⟨hfinds, (Store.acquire_eq (hv.run ops) hr rfl hfinds.sound).1⟩

theorem allowance_mono (hr : 0 ≤ rate) {m n : Nat} (h : m ≤ n) :
    allowance capacity rate m ≤ allowance capacity rate n := by
  have hg := gain_mono hr h
  unfold allowance
  linarith

theorem Finds.count_le {b : Bucket ℚ} {calls : List Instant}
    (h : Finds capacity rate b calls admitted now) (hr : 0 ≤ rate)
    (hl : 1 ≤ b.level capacity rate now) {since upto : Instant} (hs : since ≤ now)
    (hu : now ≤ upto) :
    (admitted.countP (fun t => since ≤ t ∧ t ≤ upto) : ℚ) + 1 ≤
      allowance capacity rate (upto - since) := by
  have hroom := (h.room 1).mp hl (max since (admitted.headD now)) (le_max_right _ _)
    (max_le hs h.head_le)
  have hcount : admitted.countP (fun t => since ≤ t ∧ t ≤ upto) ≤
      admitted.countP (max since (admitted.headD now) ≤ ·) := by
    apply List.countP_mono_left
    intro t ht hp
    have hp' : since ≤ t ∧ t ≤ upto := by simpa using hp
    exact decide_eq_true (max_le hp'.1 (h.between t ht).1)
  have hcast : (admitted.countP (fun t => since ≤ t ∧ t ≤ upto) : ℚ) ≤
      admitted.countP (max since (admitted.headD now) ≤ ·) := Nat.cast_le.mpr hcount
  have hmono : allowance capacity rate (now - max since (admitted.headD now)) ≤
      allowance capacity rate (upto - since) :=
    allowance_mono hr (tsub_le_tsub hu (le_max_left _ _))
  linarith

theorem Steady.windows (hv : s.Valid) (hf : s.bucketOf key = none) (hc : 1 ≤ capacity)
    (hr : 0 < rate) (h : Steady s key capacity rate ops) (since upto : Instant) :
    ((admittedTimes key (s.run ops).2).countP (fun t => since ≤ t ∧ t ≤ upto) : ℚ) ≤
      allowance capacity rate (upto - since) := by
  induction ops using List.reverseRecOn with
  | nil =>
    have hgain := gain_nonneg hr.le (upto - since)
    have hcap : (0 : ℚ) ≤ capacity := Nat.cast_nonneg _
    simp only [Store.run, List.foldl_nil, admittedTimes, List.filterMap_nil, List.countP_nil,
      Nat.cast_zero, allowance]
    linarith
  | append_singleton ops op ih =>
    have hi := ih h.init
    rw [Store.run_concat]
    by_cases hk : op.key? = some key
    · have hop := h.same op (by simp) hk
      generalize op.time = now at hop
      subst hop
      obtain ⟨hfinds, hanswer⟩ := h.finds hv hf hc hr
      simp only [Store.perform, hanswer]
      by_cases hl : 1 ≤ (((s.run ops).1.bucketOf key).getD
          (.full capacity now)).level capacity rate now
      · rw [admittedTimes_concat_admitted (Bucket.isAdmitted_answer_iff.mpr hl),
          List.countP_append, List.countP_singleton]
        by_cases hin : since ≤ now ∧ now ≤ upto
        · have hle := hfinds.count_le hr.le hl hin.1 hin.2
          rw [if_pos (by simpa using hin)]
          push_cast
          exact hle
        · rw [if_neg (by simpa using hin), Nat.add_zero]
          exact hi
      · rw [admittedTimes_concat_rejected (mt Bucket.isAdmitted_answer_iff.mp hl)]
        exact hi
    · rw [admittedTimes_concat_other hk]
      exact hi

end Runs

/-- A call is admitted exactly if every window up to it has room for one more, so that no window
ever admits more than its allowance, and the answer depends on nothing but the admitted calls. -/
theorem admitted_iff_windows_have_room (earlier : List (Op ℚ)) {ops : List (Op ℚ)} {key : String}
    (hc : 1 ≤ capacity) (hr : 0 < rate)
    (hf : ((Store.empty : Store ℚ).run earlier).1.bucketOf key = none)
    (h : Steady (Store.empty.run earlier).1 key capacity rate
      (ops ++ [.acquire key capacity rate now])) :
    let start := ((Store.empty : Store ℚ).run earlier).1
    let admitted := admittedTimes key (start.run ops).2
    let answer := ((start.run ops).1.acquire key capacity rate now).2
    ((∃ remaining, answer = some (.admitted remaining)) ↔
      ∀ since, (callTimes key ops).headD now ≤ since → since ≤ now →
        (admitted.countP (since ≤ ·) : ℚ) + 1 ≤ capacity + rate * seconds (now - since)) ∧
    (∀ since upto, since ≤ upto →
      ((admittedTimes key (start.run (ops ++ [.acquire key capacity rate now])).2).countP
        (fun t => since ≤ t ∧ t ≤ upto) : ℚ) ≤ capacity + rate * seconds (upto - since)) ∧
    ∀ earlier' ops', ((Store.empty : Store ℚ).run earlier').1.bucketOf key = none →
      Steady (Store.empty.run earlier').1 key capacity rate
        (ops' ++ [.acquire key capacity rate now]) →
      admittedTimes key ((Store.empty.run earlier').1.run ops').2 = admitted →
      (((Store.empty.run earlier').1.run ops').1.acquire key capacity rate now).2 = answer := by
  have hvalid : ∀ earlier : List (Op ℚ), ((Store.empty : Store ℚ).run earlier).1.Valid :=
    fun earlier => Store.empty_valid.run earlier
  obtain ⟨hfinds, hanswer⟩ := h.finds (hvalid earlier) hf hc hr
  intro start admitted answer
  refine ⟨?_, fun since upto _ => h.windows (hvalid earlier) hf hc hr since upto, ?_⟩
  · rw [show answer = _ from hanswer, Bucket.isAdmitted_answer_iff, hfinds.room 1,
      hfinds.head_eq]
    rfl
  · intro earlier' ops' hf' h' hsame
    obtain ⟨hfinds', hanswer'⟩ := h'.finds (hvalid earlier') hf' hc hr
    have hroom := hfinds'.room
    rw [hsame] at hroom
    rw [hanswer', hroom.unique hfinds.room]
    exact hanswer.symm

/-- Of two calls at once the second is rejected, and a second later every window has room. -/
theorem admitted_after_a_second :
    let ops : List (Op ℚ) := [.acquire "k" 1 1 0, .acquire "k" 1 1 0]
    decisions (Store.empty.run ops).2 =
        [some (.admitted 0), some (.rejected (.ofSeconds 1) 1)] ∧
      Steady Store.empty "k" 1 1 (ops ++ [.acquire "k" 1 1 1000000000]) ∧
      ((Store.empty.run ops).1.acquire "k" 1 1 1000000000).2 = some (.admitted 0) ∧
      ∀ since, 0 ≤ since → since ≤ 1000000000 →
        ((admittedTimes "k" ((Store.empty : Store ℚ).run ops).2).countP (since ≤ ·) : ℚ) + 1 ≤
          (1 : Nat) + 1 * seconds (1000000000 - since) := by
  have h : Steady (Store.empty : Store ℚ) "k" 1 1
      ([.acquire "k" 1 1 0, .acquire "k" 1 1 0] ++ [.acquire "k" 1 1 1000000000]) :=
    steady_map_acquire Store.empty_valid one_pos "k" 1 [0, 0, 1000000000] (by simp)
  have ha : ((Store.empty.run [.acquire "k" 1 1 0, .acquire "k" 1 1 0]).1.acquire "k" 1 (1 : ℚ)
      1000000000).2 = some (.admitted 0) := by decide +kernel
  refine ⟨by decide +kernel, h, ha, ?_⟩
  exact (admitted_iff_windows_have_room [] (le_refl 1) one_pos rfl h).1.mp ⟨0, ha⟩

end Switchboard.RateLimit
