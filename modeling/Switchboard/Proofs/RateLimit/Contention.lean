import Switchboard.Proofs.RateLimit.Interleaving
import Switchboard.Proofs.RateLimit.Windows

/-! Calls on one key at the same time. A call that has read the clock early may come to the bucket
late, when it has been refilled up to a later time. Elapsed time is credited once all the same. -/

namespace Switchboard.RateLimit

/-! ### What has been seen -/

def Entry.creation? (key : String) (e : Entry) : Option Instant :=
  match e.note with
  | .created k _ now => if k = key then some now else none
  | _ => none

def Entry.admission? (key : String) (e : Entry) : Option Instant :=
  match e.note with
  | .decided k _ (some (.admitted _)) => if k = key then some e.time else none
  | _ => none

/-- The times that the creators of buckets for a key had read. -/
def creations (key : String) (history : List Entry) : List Instant :=
  history.filterMap (·.creation? key)

/-- The times of the clock at which calls on a key were admitted. -/
def admissions (key : String) (history : List Entry) : List Instant :=
  history.filterMap (·.admission? key)

theorem creations_append (key : String) (first later : List Entry) :
    creations key (first ++ later) = creations key first ++ creations key later :=
  List.filterMap_append

theorem admissions_append (key : String) (first later : List Entry) :
    admissions key (first ++ later) = admissions key first ++ admissions key later :=
  List.filterMap_append

theorem admissions_admitted (key : String) (time : Instant) (actor id remaining : Nat) :
    admissions key [⟨time, actor, .decided key id (some (.admitted remaining))⟩] = [time] := by
  simp [admissions, Entry.admission?]

theorem admissions_rejected {answer : Option Decision}
    (h : ¬ ∃ remaining, answer = some (.admitted remaining)) (key other : String) (time : Instant)
    (actor id : Nat) : admissions key [⟨time, actor, .decided other id answer⟩] = [] := by
  rcases answer with _ | remaining | _
  · rfl
  · exact absurd ⟨remaining, rfl⟩ h
  · rfl

/-! ### A bucket and those it has admitted -/

section Buckets

variable {capacity : Nat} {rate : ℚ} {first now clock later : Instant} {b : Bucket ℚ}
  {admitted : List Instant}

namespace Bucket

/-- A time before the last refill brings nothing. -/
theorem tokens_refill (b : Bucket ℚ) (capacity : Nat) (rate : ℚ) (now : Instant) :
    (b.refill capacity rate now).tokens =
      if b.refilled < now then min (b.tokens + rate * seconds (now - b.refilled)) capacity
      else b.tokens := by
  by_cases h : b.refilled < now
  · rw [if_pos h, mul_comm]
    simp only [refill, h, if_true]
    exact amountMin_eq _ _
  · simp [refill, h]

theorem decide_of_le (h : 1 ≤ (b.refill capacity rate now).tokens) :
    (b.decide capacity rate now).1 = { b.refill capacity rate now with
        tokens := (b.refill capacity rate now).tokens - 1, used := now } ∧
      ∃ remaining, (b.decide capacity rate now).2 = some (.admitted remaining) := by
  simp [decide, take, Amount.atMost, Amount.ofNat, h]

theorem decide_of_lt (h : ¬ 1 ≤ (b.refill capacity rate now).tokens) :
    (b.decide capacity rate now).1 = b.refill capacity rate now ∧
      ¬ ∃ remaining, (b.decide capacity rate now).2 = some (.admitted remaining) := by
  simp [decide, take, Amount.atMost, Amount.ofNat, h]

theorem refilled_le_decide (b : Bucket ℚ) (capacity : Nat) (rate : ℚ) (now : Instant) :
    b.refilled ≤ (b.decide capacity rate now).1.refilled := by
  have hmax := b.refilled_refill capacity rate now
  have hle : b.refilled ≤ (b.refill capacity rate now).refilled := by
    rw [hmax]
    exact le_max_left _ _
  by_cases hl : 1 ≤ (b.refill capacity rate now).tokens
  · rw [(decide_of_le hl).1]
    exact hle
  · rw [(decide_of_lt hl).1]
    exact hle

end Bucket

/-- A bucket that was created at a time, and the times of the clock at which it has admitted calls.
What it has given out and what it still holds was allowed by the time of its last refill. -/
structure Credit (capacity : Nat) (rate : ℚ) (first clock : Instant) (b : Bucket ℚ)
    (admitted : List Instant) : Prop where
  tokens_nonneg : 0 ≤ b.tokens
  tokens_le : b.tokens ≤ capacity
  first_le : first ≤ b.refilled
  refilled_le : b.refilled ≤ clock
  between : ∀ t ∈ admitted, first ≤ t ∧ t ≤ clock
  paid : (admitted.length : ℚ) + b.tokens ≤ allowance capacity rate (b.refilled - first)
  bounded : ∀ t, first ≤ t → (admitted.countP (· ≤ t) : ℚ) ≤ allowance capacity rate (t - first)

namespace Credit

theorem full (hr : 0 ≤ rate) (h : now ≤ clock) :
    Credit capacity rate now clock (.full capacity now) [] := by
  have hcap : (0 : ℚ) ≤ capacity := Nat.cast_nonneg _
  refine ⟨hcap, le_refl _, le_refl _, h, by simp, ?_, fun t _ => ?_⟩
  · simp [allowance, Bucket.full, Amount.ofNat, seconds_zero]
  · have hgain := gain_nonneg hr (t - now)
    simp only [List.countP_nil, Nat.cast_zero, allowance]
    linarith

theorem at_later (h : Credit capacity rate first clock b admitted) (hl : clock ≤ later) :
    Credit capacity rate first later b admitted :=
  ⟨h.tokens_nonneg, h.tokens_le, h.first_le, h.refilled_le.trans hl,
    fun t ht => ⟨(h.between t ht).1, (h.between t ht).2.trans hl⟩, h.paid, h.bounded⟩

theorem refill (h : Credit capacity rate first clock b admitted) (hr : 0 ≤ rate)
    (hn : now ≤ clock) :
    Credit capacity rate first clock (b.refill capacity rate now) admitted := by
  have htokens := b.tokens_refill capacity rate now
  have hrefilled := b.refilled_refill capacity rate now
  have hcap : (0 : ℚ) ≤ capacity := Nat.cast_nonneg _
  have hnonneg := h.tokens_nonneg
  by_cases hlt : b.refilled < now
  · -- The time since the last refill goes from what is still allowed to what the bucket holds.
    rw [if_pos hlt] at htokens
    rw [max_eq_right hlt.le] at hrefilled
    have hgain := gain_nonneg hr (now - b.refilled)
    have hpaid := h.paid
    have hleft := min_le_left (b.tokens + rate * seconds (now - b.refilled)) capacity
    refine ⟨?_, ?_, ?_, ?_, h.between, ?_, h.bounded⟩
    · rw [htokens]
      exact le_min (by linarith) hcap
    · rw [htokens]
      exact min_le_right _ _
    · rw [hrefilled]
      exact h.first_le.trans hlt.le
    · rw [hrefilled]
      exact hn
    · rw [hrefilled, htokens]
      unfold allowance at hpaid ⊢
      rw [gain_sub_add rate h.first_le hlt.le]
      linarith
  · rw [if_neg hlt] at htokens
    rw [max_eq_left (not_lt.mp hlt)] at hrefilled
    refine ⟨?_, ?_, ?_, ?_, h.between, ?_, h.bounded⟩
    · rw [htokens]
      exact hnonneg
    · rw [htokens]
      exact h.tokens_le
    · rw [hrefilled]
      exact h.first_le
    · rw [hrefilled]
      exact h.refilled_le
    · rw [htokens, hrefilled]
      exact h.paid

theorem spend (h : Credit capacity rate first clock b admitted) (hr : 0 ≤ rate)
    (hl : 1 ≤ b.tokens) (now : Instant) :
    Credit capacity rate first clock { b with tokens := b.tokens - 1, used := now }
      (admitted ++ [clock]) := by
  have hpaid := h.paid
  have hle := h.tokens_le
  refine ⟨by simp only; linarith, by simp only; linarith, h.first_le, h.refilled_le, ?_, ?_, ?_⟩
  · intro t ht
    rcases List.mem_append.mp ht with ht | ht
    · exact h.between t ht
    · obtain rfl := List.mem_singleton.mp ht
      exact ⟨h.first_le.trans h.refilled_le, le_refl _⟩
  · rw [List.length_append, List.length_singleton]
    push_cast
    linarith
  · intro t ht
    rw [List.countP_append, List.countP_singleton]
    -- From the clock on all that was ever admitted counts, and that has been paid for by the time of
    -- the last refill. Before the clock this call does not count yet.
    by_cases hc : clock ≤ t
    · have hcount : (admitted.countP (· ≤ t) : ℚ) ≤ admitted.length :=
        Nat.cast_le.mpr List.countP_le_length
      have hmono : allowance capacity rate (b.refilled - first) ≤
          allowance capacity rate (t - first) :=
        allowance_mono hr (Nat.sub_le_sub_right (h.refilled_le.trans hc) first)
      rw [if_pos (by simpa using hc)]
      push_cast
      linarith
    · rw [if_neg (by simpa using hc), Nat.add_zero]
      exact h.bounded t ht

theorem decide (h : Credit capacity rate first clock b admitted) (hr : 0 ≤ rate)
    (hn : now ≤ clock) (key : String) (actor id : Nat) :
    Credit capacity rate first clock (b.decide capacity rate now).1
      (admitted ++ admissions key
        [⟨clock, actor, .decided key id (b.decide capacity rate now).2⟩]) := by
  have hfilled := h.refill hr hn
  by_cases hl : 1 ≤ (b.refill capacity rate now).tokens
  · obtain ⟨hbucket, remaining, hanswer⟩ := Bucket.decide_of_le hl
    rw [hbucket, hanswer, admissions_admitted]
    exact hfilled.spend hr hl now
  · obtain ⟨hbucket, hanswer⟩ := Bucket.decide_of_lt hl
    rw [hbucket, admissions_rejected hanswer, List.append_nil]
    exact hfilled

end Credit

/-- What is known of a key: that it has no bucket yet, or who created its one bucket when. -/
inductive Account (capacity : Nat) (rate : ℚ) (clock : Instant) :
    Option (Bucket ℚ) → List Instant → List Instant → Prop
  | unopened : Account capacity rate clock none [] []
  | opened {b : Bucket ℚ} {first : Instant} {admitted : List Instant}
    (h : Credit capacity rate first clock b admitted) :
    Account capacity rate clock (some b) [first] admitted

theorem Account.at_later {found : Option (Bucket ℚ)} {created : List Instant}
    (h : Account capacity rate clock found created admitted) (hl : clock ≤ later) :
    Account capacity rate later found created admitted := by
  cases h with
  | unopened => exact .unopened
  | opened h => exact .opened (h.at_later hl)

end Buckets

/-! ### One step of a call -/

section Steps

variable {R : Type}

/-- Every key that leads to a bucket goes on to lead to it. -/
def Store.Extends (s next : Store R) : Prop :=
  ∀ ⦃key : String⦄ ⦃id : Nat⦄, s.index.get? key = some id → next.index.get? key = some id

theorem Store.Extends.refl (s : Store R) : s.Extends s := fun _ _ h => h

/-- The time that a call goes by has been on the clock, and the bucket that it goes to is the one of
its key. -/
def CallStage.Sound (s : Store R) (clock : Instant) (key : String) : CallStage → Prop
  | .looking now | .creating now => now ≤ clock
  | .locking now id | .deciding now id => now ≤ clock ∧ s.index.get? key = some id
  | _ => True

theorem CallStage.Sound.mono {s next : Store R} {clock later : Instant} {key : String}
    {stage : CallStage} (h : stage.Sound s clock key) (he : s.Extends next)
    (hl : clock ≤ later) : stage.Sound next later key := by
  cases stage with
  | arriving => trivial
  | answered => trivial
  | looking now => exact le_trans h hl
  | creating now => exact le_trans h hl
  | locking now id => exact ⟨h.1.trans hl, he h.2⟩
  | deciding now id => exact ⟨h.1.trans hl, he h.2⟩

variable [Amount R]

/-- What the step of a call does to the buckets. -/
inductive Demand.Effect (d : Demand R) (clock : Instant) (s next : Store R) : List Note → Prop
  | quiet (h : ∀ other, next.bucketOf other = s.bucketOf other) : Effect d clock s next []
  | creates {now : Instant} (id : Nat) (hn : now ≤ clock) (hs : s.bucketOf d.key = none)
    (h : ∀ other, next.bucketOf other =
      if other = d.key then some (.full d.capacity now) else s.bucketOf other) :
    Effect d clock s next [.created d.key id now]
  | decides {now : Instant} {b : Bucket R} (id : Nat) (hn : now ≤ clock)
    (hs : s.bucketOf d.key = some b)
    (h : ∀ other, next.bucketOf other =
      if other = d.key then some (b.decide d.capacity d.rate now).1 else s.bucketOf other) :
    Effect d clock s next [.decided d.key id (b.decide d.capacity d.rate now).2]

theorem Demand.Effect.elsewhere {d : Demand R} {clock : Instant} {s next : Store R}
    {notes : List Note} (h : d.Effect clock s next notes) {key : String} (hk : d.key ≠ key)
    (actor : Nat) :
    next.bucketOf key = s.bucketOf key ∧
      creations key (notes.map (⟨clock, actor, ·⟩)) = [] ∧
      admissions key (notes.map (⟨clock, actor, ·⟩)) = [] := by
  cases h with
  | quiet hb => exact ⟨hb key, rfl, rfl⟩
  | creates id hn hs hb =>
    rw [hb, if_neg (Ne.symm hk)]
    exact ⟨rfl, by simp [creations, Entry.creation?, hk], rfl⟩
  | @decides now b id hn hs hb =>
    rw [hb, if_neg (Ne.symm hk)]
    refine ⟨rfl, rfl, ?_⟩
    rcases (b.decide d.capacity d.rate now).2 with _ | _ | _ <;>
      simp [admissions, Entry.admission?, hk]

/-- All that the step of a call does as long as there are no sweeps. -/
theorem Demand.step_spec {d : Demand R} {clock : Instant} {isLocked : Nat → Bool}
    {s next : Store R} {stage after : CallStage} {notes : List Note} (hv : s.Valid)
    (hs : stage.Sound s clock d.key)
    (h : d.step clock isLocked s stage = some (next, after, notes)) :
    next.Valid ∧ s.Extends next ∧ after.Sound next clock d.key ∧ d.Effect clock s next notes := by
  cases stage with
  | arriving =>
    simp only [step] at h
    split at h
    · obtain ⟨rfl, rfl, rfl⟩ := by simpa using h
      exact ⟨hv, .refl s, le_refl clock, .quiet fun _ => rfl⟩
    · obtain ⟨rfl, rfl, rfl⟩ := by simpa using h
      exact ⟨hv, .refl s, trivial, .quiet fun _ => rfl⟩
  | looking now =>
    simp only [step] at h
    split at h
    · rename_i id hi
      obtain ⟨rfl, rfl, rfl⟩ := by simpa using h
      exact ⟨hv, .refl s, ⟨hs, hi⟩, .quiet fun _ => rfl⟩
    · obtain ⟨rfl, rfl, rfl⟩ := by simpa using h
      exact ⟨hv, .refl s, hs, .quiet fun _ => rfl⟩
  | creating now =>
    obtain ⟨rfl, rfl, rfl⟩ := by simpa [step] using h
    obtain ⟨hvalid, hi, hb, hothers⟩ := Store.locate_valid hv d.key d.capacity now
    have hextends : s.Extends (s.locate d.key d.capacity now).1 := by
      intro other id ho
      rw [Store.get?_locate]
      split
      · subst_vars
        simp [Store.locate, ho]
      · exact ho
    refine ⟨hvalid, hextends, ⟨hs, hi⟩, ?_⟩
    have hnext : (s.locate d.key d.capacity now).1.bucketOf d.key =
        some ((s.bucketOf d.key).getD (.full d.capacity now)) := by
      rw [Store.bucketOf, hi]
      exact hb
    cases hfound : s.index.get? d.key with
    | some id =>
      refine .quiet fun other => ?_
      simp [Store.locate, hfound]
    | none =>
      have hnone : s.bucketOf d.key = none := by rw [Store.bucketOf, hfound, Option.bind_none]
      refine .creates _ hs hnone fun other => ?_
      split
      · subst_vars
        rw [hnext, hnone, Option.getD_none]
      · exact hothers other ‹_›
  | locking now id =>
    simp only [step] at h
    split at h
    · cases h
    · obtain ⟨rfl, rfl, rfl⟩ := by simpa using h
      exact ⟨hv, .refl s, hs, .quiet fun _ => rfl⟩
  | deciding now id =>
    obtain ⟨rfl, rfl, rfl⟩ := by simpa [step] using h
    obtain ⟨hn, hi⟩ := hs
    have hlt := hv.id_lt hi
    have hb : s.buckets[id]? = some s.buckets[id] := Array.getElem?_eq_getElem hlt
    obtain ⟨hvalid, hanswer, hbuckets⟩ := Store.decideAt_spec hv hi hb d.capacity d.rate now
    have hextends : s.Extends (s.decideAt id d.capacity d.rate now).1 := by
      rw [Store.Extends, Store.index_decideAt]
      exact fun _ _ ho => ho
    have hfound : s.bucketOf d.key = some s.buckets[id] := by
      rw [Store.bucketOf, hi, Option.bind_some, hb]
    rw [hanswer]
    exact ⟨hvalid, hextends, trivial, .decides id hn hfound hbuckets⟩
  | answered answer => cases h

end Steps

/-! ### Runs -/

/-- A scene without sweeps in which all calls on a key ask for the same. -/
structure Scene.Orderly (key : String) (capacity : Nat) (rate : ℚ) (s : Scene ℚ)
    (history : List Entry) : Prop where
  valid : s.store.Valid
  calls : ∀ actor ∈ s.actors, ∃ d stage, actor = .call d stage ∧
    (d.key = key → d = ⟨key, capacity, rate⟩) ∧ stage.Sound s.store s.clock d.key
  account : Account capacity rate s.clock (s.store.bucketOf key) (creations key history)
    (admissions key history)

section Runs

variable {key : String} {capacity : Nat} {rate : ℚ} {s next : Scene ℚ}
  {history entries : List Entry}

theorem Account.effect {clock : Instant} (actor : Nat) {d : Demand ℚ} {store store' : Store ℚ}
    {notes : List Note}
    (h : Account capacity rate clock (store.bucketOf key) (creations key history)
      (admissions key history)) (hr : 0 ≤ rate) (hd : d.key = key → d = ⟨key, capacity, rate⟩)
    (he : d.Effect clock store store' notes) :
    Account capacity rate clock (store'.bucketOf key)
        (creations key (history ++ notes.map (⟨clock, actor, ·⟩)))
        (admissions key (history ++ notes.map (⟨clock, actor, ·⟩))) ∧
      ∀ b, store.bucketOf key = some b →
        ∃ b', store'.bucketOf key = some b' ∧ b.refilled ≤ b'.refilled := by
  rw [creations_append, admissions_append]
  by_cases hk : d.key = key
  · obtain rfl := hd hk
    cases he with
    | quiet hb =>
      rw [hb]
      simp only [List.map_nil, creations, admissions, List.filterMap_nil, List.append_nil] at h ⊢
      exact ⟨h, fun b hb => ⟨b, hb, le_refl _⟩⟩
    | @creates now id hn hs hb =>
      simp only at hn hs hb
      rw [hs] at h
      -- There was no bucket to be found, so that nothing has been created or admitted so far.
      generalize hc : creations key history = created at h
      generalize ha : admissions key history = admitted at h
      cases h with
      | unopened =>
        rw [hb, if_pos rfl, hs]
        refine ⟨?_, by simp⟩
        simpa [creations, admissions, Entry.creation?, Entry.admission?] using
          Account.opened (Credit.full hr hn)
    | @decides now b id hn hs hb =>
      simp only at hn hs hb
      rw [hs] at h
      generalize hc : creations key history = created at h
      generalize ha : admissions key history = admitted at h
      cases h with
      | opened hcredit =>
        rw [hb, if_pos rfl, hs]
        refine ⟨?_, ?_⟩
        · have hnone : creations key [⟨clock, actor, .decided key id
              (b.decide capacity rate now).2⟩] = [] := rfl
          rw [List.map_singleton, hnone, List.append_nil]
          exact .opened (hcredit.decide hr hn key actor id)
        · rintro _ ⟨⟩
          exact ⟨_, rfl, b.refilled_le_decide capacity rate now⟩
  · obtain ⟨hb, hc, ha⟩ := he.elsewhere hk actor
    rw [hb, hc, ha, List.append_nil, List.append_nil]
    exact ⟨h, fun b hb => ⟨b, hb, le_refl _⟩⟩

theorem Scene.Orderly.move (h : s.Orderly key capacity rate history) (hr : 0 ≤ rate) {m : Move}
    (hm : s.move m = some (next, entries)) :
    next.Orderly key capacity rate (history ++ entries) ∧
      ∀ b, s.store.bucketOf key = some b →
        ∃ b', next.store.bucketOf key = some b' ∧ b.refilled ≤ b'.refilled := by
  obtain ⟨nanos, rfl, rfl, rfl⟩ | ⟨i, actor, store, after, notes, rfl, hi, hstep, rfl, rfl⟩ :=
    Scene.move_cases hm
  · rw [List.append_nil]
    have hlater : s.clock ≤ s.clock + nanos := Nat.le_add_right _ _
    refine ⟨⟨h.valid, fun actor ha => ?_, h.account.at_later hlater⟩,
      fun b hb => ⟨b, hb, le_refl _⟩⟩
    obtain ⟨d, stage, rfl, hd, hs⟩ := h.calls actor ha
    exact ⟨d, stage, rfl, hd, hs.mono (.refl _) hlater⟩
  · obtain ⟨d, stage, rfl, hd, hs⟩ := h.calls actor (List.mem_of_getElem? hi)
    obtain ⟨⟨store, stage', notes⟩, hcall, hres⟩ := Option.map_eq_some_iff.mp hstep
    obtain ⟨rfl, rfl, rfl⟩ := by simpa using hres
    obtain ⟨hvalid, hextends, hsound, heffect⟩ := Demand.step_spec h.valid hs hcall
    obtain ⟨haccount, hrefilled⟩ := h.account.effect i hr hd heffect
    refine ⟨⟨hvalid, fun other ho => ?_, haccount⟩, hrefilled⟩
    rcases List.mem_or_eq_of_mem_set ho with ho | rfl
    · obtain ⟨d', stage', rfl, hd', hs'⟩ := h.calls other ho
      exact ⟨d', stage', rfl, hd', hs'.mono hextends (le_refl _)⟩
    · exact ⟨d, _, rfl, hd, hsound⟩

theorem Scene.Orderly.play (h : s.Orderly key capacity rate history) (hr : 0 ≤ rate)
    {moves : List Move} (hp : s.play moves = some (next, entries)) :
    next.Orderly key capacity rate (history ++ entries) ∧
      ∀ b, s.store.bucketOf key = some b →
        ∃ b', next.store.bucketOf key = some b' ∧ b.refilled ≤ b'.refilled := by
  induction moves generalizing s history entries with
  | nil =>
    obtain ⟨rfl, rfl⟩ := Prod.mk.inj (Option.some.inj hp)
    rw [List.append_nil]
    exact ⟨h, fun b hb => ⟨b, hb, le_refl _⟩⟩
  | cons m rest ih =>
    obtain ⟨middle, first, later, hm, ht, rfl⟩ := Scene.play_cons_eq_some_iff.mp hp
    obtain ⟨hmiddle, hfirst⟩ := h.move hr hm
    obtain ⟨hlast, hsecond⟩ := ih hmiddle ht
    rw [← List.append_assoc]
    refine ⟨hlast, fun b hb => ?_⟩
    obtain ⟨b', hb', hle⟩ := hfirst b hb
    obtain ⟨b'', hb'', hle'⟩ := hsecond b' hb'
    exact ⟨b'', hb'', hle.trans hle'⟩

theorem Scene.orderly_ofDemands {store : Store ℚ} (hv : store.Valid)
    (hf : store.bucketOf key = none) (clock : Instant) {demands : List (Demand ℚ)}
    (hd : ∀ d ∈ demands, d.key = key → d = ⟨key, capacity, rate⟩) :
    (Scene.ofDemands clock store demands).Orderly key capacity rate [] := by
  refine ⟨hv, fun actor ha => ?_, ?_⟩
  · obtain ⟨d, hm, rfl⟩ := List.mem_map.mp ha
    exact ⟨d, .arriving, rfl, hd d hm, trivial⟩
  · have hnone : (Scene.ofDemands clock store demands).store.bucketOf key = none := hf
    rw [hnone]
    exact .unopened

/-- Calls on a key that had no bucket, in any interleaving of their steps and beside calls on other
keys. They create no more than one bucket, which never holds less than nothing or more than its
capacity and is never refilled to an earlier time, and of them no more have been admitted by any
time than the capacity and the rate allow from the time on that the creator had read. -/
theorem interleaved_calls_within_allowance (earlier : List (Op ℚ)) (hr : 0 < rate)
    (hf : ((Store.empty : Store ℚ).run earlier).1.bucketOf key = none) (clock : Instant)
    {demands : List (Demand ℚ)} (hd : ∀ d ∈ demands, d.key = key → d = ⟨key, capacity, rate⟩)
    {before after : List Move} {middle last : Scene ℚ} {first later : List Entry}
    (hb : (Scene.ofDemands clock (Store.empty.run earlier).1 demands).play before =
      some (middle, first))
    (ha : middle.play after = some (last, later)) :
    (last.store.bucketOf key = none ∧ creations key (first ++ later) = [] ∧
        admissions key (first ++ later) = [] ∨
      ∃ opened b, last.store.bucketOf key = some b ∧ creations key (first ++ later) = [opened] ∧
        0 ≤ b.tokens ∧ b.tokens ≤ capacity ∧ (∀ t ∈ admissions key (first ++ later), opened ≤ t) ∧
        ∀ t, opened ≤ t → ((admissions key (first ++ later)).countP (· ≤ t) : ℚ) ≤
          capacity + rate * seconds (t - opened)) ∧
    ∀ b, middle.store.bucketOf key = some b →
      ∃ b', last.store.bucketOf key = some b' ∧ b.refilled ≤ b'.refilled := by
  have hvalid := (Store.empty_valid (R := ℚ)).run earlier
  have hstart := Scene.orderly_ofDemands hvalid hf clock hd
  obtain ⟨hmiddle, -⟩ := hstart.play hr.le hb
  obtain ⟨hlast, hrefilled⟩ := hmiddle.play hr.le ha
  refine ⟨?_, hrefilled⟩
  have haccount := hlast.account
  rw [List.nil_append] at haccount
  generalize last.store.bucketOf key = found at haccount ⊢
  generalize creations key (first ++ later) = created at haccount ⊢
  generalize admissions key (first ++ later) = admitted at haccount ⊢
  cases haccount with
  | unopened => exact .inl ⟨rfl, rfl, rfl⟩
  | opened h =>
    exact .inr ⟨_, _, rfl, rfl, h.tokens_nonneg, h.tokens_le, fun t ht => (h.between t ht).1,
      h.bounded⟩

/-- Two calls miss the bucket together. The one that has read the clock a second before the other
creates nothing, comes to a bucket that is ahead of it, and takes its only token. -/
theorem interleaved_calls_late_reader :
    let start := Scene.ofDemands 0 (Store.empty : Store ℚ) [⟨"k", 1, 1⟩, ⟨"k", 1, 1⟩]
    let before := [.turn 0, .turn 0, .wait 1000000000, .turn 1, .turn 1, .turn 1]
    let after := [.turn 0, .turn 0, .turn 0, .turn 1, .turn 1]
    ∃ middle first last later, start.play before = some (middle, first) ∧
      middle.play after = some (last, later) ∧
      creations "k" (first ++ later) = [1000000000] ∧
      admissions "k" (first ++ later) = [1000000000] ∧
      ∀ t, 1000000000 ≤ t → ((admissions "k" (first ++ later)).countP (· ≤ t) : ℚ) ≤
        (1 : Nat) + 1 * seconds (t - 1000000000) := by
  intro start before after
  have hplay : ((start.play before).bind fun r => (r.1.play after).map fun r' =>
      (creations "k" (r.2 ++ r'.2), admissions "k" (r.2 ++ r'.2))) =
        some ([1000000000], [1000000000]) := by decide +kernel
  obtain ⟨⟨middle, first⟩, hb, hrest⟩ := Option.bind_eq_some_iff.mp hplay
  obtain ⟨⟨last, later⟩, ha, hseen⟩ := Option.map_eq_some_iff.mp hrest
  obtain ⟨hcreated, hadmitted⟩ := Prod.mk.inj hseen
  have hsame : ∀ d ∈ [⟨"k", 1, 1⟩, (⟨"k", 1, 1⟩ : Demand ℚ)], d.key = "k" →
      d = ⟨"k", 1, 1⟩ := by simp
  refine ⟨middle, first, last, later, hb, ha, hcreated, hadmitted, ?_⟩
  obtain ⟨hbounds, -⟩ := interleaved_calls_within_allowance [] one_pos rfl 0 hsame hb ha
  rcases hbounds with ⟨-, hnone, -⟩ | ⟨opened, b, -, hopened, -, -, -, hbound⟩
  · rw [hcreated] at hnone
    cases hnone
  · rw [hcreated] at hopened
    obtain rfl := List.singleton_inj.mp hopened
    exact hbound

end Runs

end Switchboard.RateLimit
