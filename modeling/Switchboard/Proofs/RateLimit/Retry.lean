import Switchboard.Middleware.Limiter
import Switchboard.Proofs.RateLimit.Amounts
import Switchboard.Proofs.RateLimit.Windows
import Switchboard.World

/-! A rejected call is told when to come back. What it is told stays true however many calls are
rejected in between, since they refill the bucket without changing its level. -/

namespace Switchboard

namespace RateLimit

variable {capacity : Nat} {rate level : ℚ} {t now later : Instant} {b : Bucket ℚ}
  {wait : Duration} {retry : Nat}

/-- The nanoseconds until a level has risen to a token. -/
def lack (level rate : ℚ) : ℚ :=
  (1 - level) / rate * 1000000000

theorem one_le_iff_lack_le (hr : 0 < rate) (nanos : Nat) :
    1 ≤ level + rate * seconds nanos ↔ lack level rate ≤ nanos := by
  unfold lack seconds
  rw [div_mul_eq_mul_div, div_le_iff₀ hr]
  constructor <;> intro h <;> linarith

theorem lack_add (hr : 0 < rate) (nanos : Nat) :
    lack (level + rate * seconds nanos) rate = lack level rate - nanos := by
  unfold lack seconds
  field_simp
  ring

namespace Bucket

/-- A bucket that will hold what another one would have held. -/
structure Follows (b' b : Bucket ℚ) (capacity : Nat) (rate : ℚ) (now : Instant) : Prop where
  sound : b'.Sound capacity now
  level : ∀ later, now ≤ later → b'.level capacity rate later = b.level capacity rate later

theorem Follows.mono {b' : Bucket ℚ} (h : b'.Follows b capacity rate now) (hle : now ≤ later) :
    b'.Follows b capacity rate later :=
  ⟨h.sound.mono hle, fun u hu => h.level u (hle.trans hu)⟩

theorem Follows.reject {b' : Bucket ℚ} (h : b'.Follows b capacity rate now) (hr : 0 ≤ rate)
    (hl : ¬ 1 ≤ b'.level capacity rate now) :
    (b'.after capacity rate now).Follows b capacity rate now := by
  have hsound := after_sound b' capacity rate now
  refine ⟨hsound, fun later hlater => ?_⟩
  rw [level_later hsound hr hlater, level_after_of_lt hl, ← level_later h.sound hr hlater,
    h.level later hlater]

/-- A call finds a token exactly if it comes when no nanosecond is lacking any more. -/
theorem one_le_level_iff (hs : b.Sound capacity t) (hc : 1 ≤ capacity) (hr : 0 < rate)
    (h : t ≤ now) :
    1 ≤ b.level capacity rate now ↔ lack (b.level capacity rate t) rate ≤ (now - t : Nat) := by
  have hcap : (1 : ℚ) ≤ capacity := by exact_mod_cast hc
  rw [level_later hs hr.le h, le_min_iff, one_le_iff_lack_le hr]
  exact and_iff_left hcap

theorem lack_later (hs : b.Sound capacity t) (hc : 1 ≤ capacity) (hr : 0 < rate) (h : t ≤ now)
    (hl : ¬ 1 ≤ b.level capacity rate now) :
    lack (b.level capacity rate now) rate =
      lack (b.level capacity rate t) rate - (now - t : Nat) := by
  have hcap : (1 : ℚ) ≤ capacity := by exact_mod_cast hc
  rw [level_later hs hr.le h] at hl ⊢
  rw [le_min_iff, and_iff_left hcap] at hl
  rw [min_eq_left (by linarith), lack_add hr]

end Bucket

theorem answer_of_lt (hr : 0 < rate) (hl : ¬ 1 ≤ level) :
    Bucket.answer level rate =
      if lack level rate < 2 ^ 64 * 1000000000 then
        some (.rejected ⟨nearestEven (lack level rate)⟩
          (Amount.wholeSeconds ℚ ⟨nearestEven (lack level rate)⟩))
      else none := by
  have hpos : 0 ≤ (1 - level) / rate := div_nonneg (by linarith) hr.le
  have hlt : (1 - level) / rate < 2 ^ 64 ↔ lack level rate < 2 ^ 64 * 1000000000 := by
    unfold lack
    constructor <;> intro h <;> linarith
  rw [Bucket.answer, if_neg hl, (Amount.isNumber_rat hpos).toDuration?]
  simp only [hlt]
  split <;> rfl

theorem lack_of_answer (hr : 0 < rate)
    (h : Bucket.answer level rate = some (.rejected wait retry)) :
    ¬ 1 ≤ level ∧ lack level rate < 2 ^ 64 * 1000000000 ∧
      |lack level rate - wait.nanos| ≤ 1 / 2 ∧ retry = Amount.wholeSeconds ℚ wait := by
  have hl : ¬ 1 ≤ level := by
    intro hl
    simp [Bucket.answer, hl] at h
  have hpos : 0 ≤ lack level rate :=
    mul_nonneg (div_nonneg (by linarith) hr.le) (by norm_num)
  rw [answer_of_lt hr hl] at h
  split at h
  · rename_i hlt
    cases h
    exact ⟨hl, hlt, (isNearestEven_nearestEven hpos).near, rfl⟩
  · cases h

/-- Half a nanosecond of rounding does not end a wait before its last whole nanosecond. -/
theorem lt_lack_of_lt {missing : ℚ} (hnear : |missing - wait.nanos| ≤ 1 / 2) (h : t ≤ now)
    (hlt : now < t + wait.nanos) : ((now - t : Nat) : ℚ) < missing := by
  have hlow := (abs_le.mp hnear).1
  have hcast : (now : ℚ) + 1 ≤ t + wait.nanos := by exact_mod_cast hlt
  rw [Nat.cast_sub h]
  linarith

namespace Bucket

theorem answer_of_lacking (hs : b.Sound capacity t) (hc : 1 ≤ capacity) (hr : 0 < rate)
    (h : t ≤ now) (hlack : ((now - t : Nat) : ℚ) < lack (b.level capacity rate t) rate)
    (hsaid : lack (b.level capacity rate t) rate < 2 ^ 64 * 1000000000) :
    ∃ wait retry, answer (b.level capacity rate now) rate = some (.rejected wait retry) := by
  have hl : ¬ 1 ≤ b.level capacity rate now := by
    rw [one_le_level_iff hs hc hr h]
    exact not_le.mpr hlack
  have hpos : (0 : ℚ) ≤ (now - t : Nat) := Nat.cast_nonneg _
  rw [answer_of_lt hr hl, lack_later hs hc hr h hl, if_pos (by linarith)]
  exact ⟨_, _, rfl⟩

theorem answer_of_waited (hs : b.Sound capacity t) (hc : 1 ≤ capacity) (hr : 0 < rate)
    (hnear : |lack (b.level capacity rate t) rate - wait.nanos| ≤ 1 / 2)
    (h : t + wait.nanos + 1 ≤ now) :
    ∃ remaining, answer (b.level capacity rate now) rate = some (.admitted remaining) := by
  have hle : t ≤ now := (Nat.le_add_right t (wait.nanos + 1)).trans h
  have hlow := (abs_le.mp hnear).2
  have hcast : (t : ℚ) + wait.nanos + 1 ≤ now := by exact_mod_cast h
  rw [isAdmitted_answer_iff, one_le_level_iff hs hc hr hle, Nat.cast_sub hle]
  linarith

/-- Two rejected calls are told of the same time, but for the rounding of their waits. -/
theorem end_of_wait_is_kept {again : Duration} (hs : b.Sound capacity t) (hc : 1 ≤ capacity)
    (hr : 0 < rate) (hnear : |lack (b.level capacity rate t) rate - wait.nanos| ≤ 1 / 2)
    (h : t ≤ now)
    (hagain : answer (b.level capacity rate now) rate = some (.rejected again retry)) :
    now + again.nanos ≤ t + wait.nanos + 1 ∧ t + wait.nanos ≤ now + again.nanos + 1 := by
  obtain ⟨hl, -, hnear', -⟩ := lack_of_answer hr hagain
  rw [lack_later hs hc hr h hl, Nat.cast_sub h] at hnear'
  obtain ⟨hlow, hhigh⟩ := abs_le.mp hnear
  obtain ⟨hlow', hhigh'⟩ := abs_le.mp hnear'
  constructor
  · exact_mod_cast (by linarith : (now : ℚ) + again.nanos ≤ t + wait.nanos + 1)
  · exact_mod_cast (by linarith : (t : ℚ) + wait.nanos ≤ now + again.nanos + 1)

end Bucket

section Runs

variable {s : Store ℚ} {key : String} {ops : List (Op ℚ)}

/-- As long as no call is admitted, the level of a bucket rises as if there had been no calls. -/
theorem Steady.follows_of_rejected (hv : s.Valid) (hb : s.bucketOf key = some b)
    (hs : b.Sound capacity t) (hr : 0 < rate) (h : Steady s key capacity rate ops)
    (hafter : ∀ u ∈ callTimes key ops, t ≤ u) (hnone : admittedTimes key (s.run ops).2 = []) :
    ∃ b', (s.run ops).1.bucketOf key = some b' ∧
      ∀ now, t ≤ now → (∀ u ∈ callTimes key ops, u ≤ now) → b'.Follows b capacity rate now := by
  -- A rejected call refills the bucket up to its own time, so its level is followed call by call.
  induction ops using List.reverseRecOn with
  | nil => exact ⟨b, hb, fun now hnow _ => ⟨hs.mono hnow, fun _ _ => rfl⟩⟩
  | append_singleton ops op ih =>
    have hv' := hv.run ops
    rw [Store.run_concat] at hnone ⊢
    by_cases hk : op.key? = some key
    · have hop := h.same op (by simp) hk
      generalize op.time = time at hop
      subst hop
      rw [callTimes_concat, if_pos hk] at hafter ⊢
      have hlast : time ∈ callTimes key ops ++ [time] := by simp
      have hrejected : ¬ ∃ remaining, ((s.run ops).1.acquire key capacity rate time).2 =
          some (.admitted remaining) := fun hadmitted => by
        rw [Store.perform, admittedTimes_concat_admitted hadmitted] at hnone
        simp at hnone
      rw [Store.perform, admittedTimes_concat_rejected hrejected] at hnone
      obtain ⟨b', hb', hfollows⟩ := ih h.init (fun u hu => hafter u (by simp [hu])) hnone
      have hbefore := hfollows time (hafter time hlast) h.calls_le
      obtain ⟨hanswer, hbuckets⟩ := Store.acquire_eq hv' hr (by rw [hb']; rfl) hbefore.sound
      rw [hanswer, Bucket.isAdmitted_answer_iff] at hrejected
      refine ⟨b'.after capacity rate time, by rw [Store.perform, hbuckets, if_pos rfl], ?_⟩
      exact fun now _ hnow => (hbefore.reject hr.le hrejected).mono (hnow time hlast)
    · rw [callTimes_concat, if_neg hk, List.append_nil] at hafter ⊢
      rw [admittedTimes_concat_other hk] at hnone
      obtain ⟨b', hb', hfollows⟩ := ih h.init hafter hnone
      have hkept := h.kept ops op (List.prefix_refl _) (by rw [hb']; simp)
      rw [Store.run_concat] at hkept
      rcases Store.bucketOf_perform_other hv' hk with he | he
      · exact ⟨b', by rw [he, hb'], hfollows⟩
      · exact absurd he hkept

/-- A later call that nobody was admitted before is answered as if it were the only one. -/
theorem Steady.answer_of_rejected (hv : s.Valid) (hb : s.bucketOf key = some b)
    (hs : b.Sound capacity t) (hr : 0 < rate)
    (h : Steady s key capacity rate (ops ++ [Op.acquire key capacity rate now]))
    (hafter : ∀ u ∈ callTimes key (ops ++ [Op.acquire key capacity rate now]), t ≤ u)
    (hnone : admittedTimes key (s.run ops).2 = []) :
    ((s.run ops).1.acquire key capacity rate now).2 =
      Bucket.answer (b.level capacity rate now) rate := by
  have hcall : (Op.acquire key capacity rate now).key? = some key := rfl
  rw [callTimes_concat, if_pos hcall] at hafter
  obtain ⟨b', hb', hfollows⟩ := h.init.follows_of_rejected hv hb hs hr
    (fun u hu => hafter u (List.mem_append_left _ hu)) hnone
  have hbefore := hfollows now (hafter now (by simp [Op.time])) h.calls_le
  rw [(Store.acquire_eq (hv.run ops) hr (by rw [hb']; rfl) hbefore.sound).1,
    hbefore.level now le_rfl]

/-- Calls are rejected for as long as a token is lacking. -/
theorem Steady.rejected_while_lacking (hv : s.Valid) (hb : s.bucketOf key = some b)
    (hs : b.Sound capacity t) (hc : 1 ≤ capacity) (hr : 0 < rate)
    (h : Steady s key capacity rate ops) (hafter : ∀ u ∈ callTimes key ops, t ≤ u)
    (hlack : ∀ u ∈ callTimes key ops,
      ((u - t : Nat) : ℚ) < lack (b.level capacity rate t) rate) :
    admittedTimes key (s.run ops).2 = [] := by
  induction ops using List.reverseRecOn with
  | nil => rfl
  | append_singleton ops op ih =>
    rw [Store.run_concat]
    by_cases hk : op.key? = some key
    · have hop := h.same op (by simp) hk
      generalize op.time = time at hop
      subst hop
      have hafter' := hafter
      rw [callTimes_concat, if_pos hk] at hafter' hlack
      have hlast : time ∈ callTimes key ops ++ [time] := by simp
      have hnone := ih h.init (fun u hu => hafter' u (List.mem_append_left _ hu))
        fun u hu => hlack u (List.mem_append_left _ hu)
      rw [Store.perform, admittedTimes_concat_rejected, hnone]
      rw [h.answer_of_rejected hv hb hs hr hafter hnone, Bucket.isAdmitted_answer_iff,
        Bucket.one_le_level_iff hs hc hr (hafter' time hlast)]
      exact not_le.mpr (hlack time hlast)
    · rw [callTimes_concat, if_neg hk, List.append_nil] at hafter hlack
      rw [admittedTimes_concat_other hk]
      exact ih h.init hafter hlack

/-- What a rejected call leaves: a bucket that lacks a token for as long as the call was told. -/
theorem Steady.bucketOf_of_rejected (hv : s.Valid) (hf : s.bucketOf key = none) (hc : 1 ≤ capacity)
    (hr : 0 < rate) (h : Steady s key capacity rate (ops ++ [Op.acquire key capacity rate t]))
    (hrejected : ((s.run ops).1.acquire key capacity rate t).2 = some (.rejected wait retry)) :
    ∃ b, ((s.run ops).1.acquire key capacity rate t).1.bucketOf key = some b ∧
      b.Sound capacity t ∧ |lack (b.level capacity rate t) rate - wait.nanos| ≤ 1 / 2 ∧
      lack (b.level capacity rate t) rate < 2 ^ 64 * 1000000000 ∧
      retry = Amount.wholeSeconds ℚ wait := by
  obtain ⟨hfinds, hanswer⟩ := h.finds hv hf hc hr
  rw [hanswer] at hrejected
  obtain ⟨hl, hlack, hnear, hretry⟩ := lack_of_answer hr hrejected
  have hbucket := (Store.acquire_eq (hv.run ops) hr rfl hfinds.sound).2 key
  rw [if_pos rfl] at hbucket
  refine ⟨_, hbucket, Bucket.after_sound _ capacity rate t, ?_, ?_, hretry⟩
  · rwa [Bucket.level_after_of_lt hl]
  · rwa [Bucket.level_after_of_lt hl]

end Runs

theorem isLeast_wholeSeconds (h : wait.nanos < 2 ^ 62 * 1000000000) :
    IsLeast {k : Nat | 1 ≤ k ∧ wait.nanos ≤ k * 1000000000} (Amount.wholeSeconds ℚ wait) := by
  have hlength : Amount.IsNumber (Amount.ofDuration wait : ℚ) (seconds wait.nanos) :=
    Amount.isNumber_rat (seconds_nonneg _)
  have hceil : ∀ k : Nat, ⌈seconds wait.nanos⌉₊ ≤ k ↔ wait.nanos ≤ k * 1000000000 := fun k => by
    rw [Nat.ceil_le, seconds, div_le_iff₀ (by norm_num)]
    exact_mod_cast Iff.rfl
  have hle : max ⌈seconds wait.nanos⌉₊ 1 ≤ Word.half64 - 1 :=
    max_le ((hceil _).mpr (by simp only [Word.half64]; omega)) (by decide)
  have hwhole : Amount.wholeSeconds ℚ wait = max ⌈seconds wait.nanos⌉₊ 1 := by
    rw [hlength.wholeSeconds]
    exact min_eq_left hle
  rw [hwhole]
  refine ⟨⟨le_max_right _ _, (hceil _).mp (le_max_left _ _)⟩, fun k hk => ?_⟩
  exact max_le ((hceil k).mpr hk.2) hk.1

end RateLimit

theorem Headers.getAll_insert (h : Headers) (name other : String) (value : Bytes) :
    (h.insert name value).getAll other =
      if Text.lowerAscii other = name then [value] else h.getAll other := by
  by_cases hname : Text.lowerAscii other = name <;>
    simp [getAll, insert, Table.get?_insert, hname]

namespace Limiter

open RateLimit

variable {R : Type} [Amount R] {l : Limiter} {next : Handler} {ctx : Context} {w : World R}

theorem poll_rejected {key : String} {capacity retry : Nat} {wait : Duration}
    (hkey : l.keyOf ctx = (key, capacity)) (hc : capacity ≠ 0)
    (hd : l.settings.pace.isDegenerate = false)
    (h : ((w.storeAt l.store).acquire key capacity (l.settings.pace.rate R) w.now).2 =
      some (.rejected wait retry)) :
    ∃ reply, ((l.wrap next ctx).poll w).1 = .ended (.replied reply) ∧
      reply.response.headers.getAll "retry-after" = [Utf8.encode (toString retry)] := by
  have hwrap : (l.wrap next ctx).poll w = (l.reject key ctx retry (some (w.date + retry))).poll
      (w.setStore l.store
        ((w.storeAt l.store).acquire key capacity (l.settings.pace.rate R) w.now).1) := by
    cases ha : (w.storeAt l.store).acquire key capacity (l.settings.pace.rate R) w.now with
    | mk s answer =>
      rw [ha] at h
      obtain rfl : answer = some (.rejected wait retry) := h
      simp [wrap, hkey, hc, hd, Call.poll, ha, World.setStore]
  rw [hwrap]
  have hname : Text.lowerAscii "retry-after" = "retry-after" := by decide +kernel
  have hreset : ("retry-after" : String) ≠ "x-ratelimit-reset" := by decide
  refine ⟨_, rfl, ?_⟩
  simp only [Context.mapResponse, Rejection.writeTo, Rejection.body?, Response.setStatus,
    Response.setText, Response.setBody, Response.setHeaderText, Response.setHeader,
    Headers.getAll_insert, hname, if_neg hreset, if_true]

end Limiter

open RateLimit

/-- A rejected call is told the truth: calls before the time that it is told are rejected too, the
first call a nanosecond after it is admitted unless another was before, rejected calls in between
are told of the same time, and the header says so in whole seconds. -/
theorem retry_after_is_kept (earlier : List (Op ℚ)) {before later : List (Op ℚ)} {key : String}
    {capacity : Nat} {rate : ℚ} {t now : Instant} {wait : Duration} {retry : Nat}
    (hc : 1 ≤ capacity) (hr : 0 < rate)
    (hf : ((Store.empty : Store ℚ).run earlier).1.bucketOf key = none)
    (h : Steady (Store.empty.run earlier).1 key capacity rate
      (before ++ [Op.acquire key capacity rate t] ++ (later ++ [Op.acquire key capacity rate now])))
    (hrejected : (((Store.empty.run earlier).1.run before).1.acquire key capacity rate t).2 =
      some (.rejected wait retry))
    (hshort : wait.nanos < 2 ^ 62 * 1000000000) :
    let found := (((Store.empty : Store ℚ).run earlier).1.run before).1
    let left := (found.acquire key capacity rate t).1
    let answer := ((left.run later).1.acquire key capacity rate now).2
    (now < t + wait.nanos → ∃ wait' retry', answer = some (.rejected wait' retry')) ∧
    (admittedTimes key (left.run later).2 = [] →
      (t + wait.nanos + 1 ≤ now → ∃ remaining, answer = some (.admitted remaining)) ∧
      ∀ wait' retry', answer = some (.rejected wait' retry') →
        now + wait'.nanos ≤ t + wait.nanos + 1 ∧ t + wait.nanos ≤ now + wait'.nanos + 1) ∧
    ∀ (l : Limiter) (next : Handler) (ctx : Context) (w : World ℚ),
      l.keyOf ctx = (key, capacity) → l.settings.pace.isDegenerate = false →
      l.settings.pace.rate ℚ = rate → w.storeAt l.store = found → w.now = t →
      ∃ reply k, ((l.wrap next ctx).poll w).1 = .ended (.replied reply) ∧
        IsLeast {k : Nat | 1 ≤ k ∧ wait.nanos ≤ k * 1000000000} k ∧
        reply.response.headers.getAll "retry-after" = [Utf8.encode (toString k)] := by
  intro found left answer
  have hv : ((Store.empty : Store ℚ).run earlier).1.Valid := Store.empty_valid.run earlier
  have hvleft : left.Valid :=
    (Store.acquire_spec (hv.run before) (isUsable_of_pos hr) key capacity t).1
  obtain ⟨b, hb, hs, hnear, hlack, hretry⟩ :=
    h.left.bucketOf_of_rejected hv hf hc hr hrejected
  have hrest : Steady left key capacity rate (later ++ [Op.acquire key capacity rate now]) := by
    have hrest := h.right
    rwa [Store.run_concat] at hrest
  have hcall : (Op.acquire key capacity rate now).key? = some key := rfl
  have hafter : ∀ u ∈ callTimes key (later ++ [Op.acquire key capacity rate now]), t ≤ u := by
    have hordered := h.ordered
    rw [callTimes_append, callTimes_concat, if_pos (show (Op.acquire key capacity rate t).key? =
      some key from rfl)] at hordered
    exact (List.pairwise_append.mp hordered).2.2 t (by simp [Op.time])
  have hafter' := hafter
  rw [callTimes_concat, if_pos hcall] at hafter'
  have hnow : t ≤ now := hafter' now (List.mem_append_right _ (List.mem_singleton_self _))
  have hanswer : admittedTimes key (left.run later).2 = [] →
      answer = Bucket.answer (b.level capacity rate now) rate :=
    hrest.answer_of_rejected hvleft hb hs hr hafter
  refine ⟨fun hearly => ?_, fun hnone => ⟨fun hlate => ?_, fun wait' retry' hagain => ?_⟩, ?_⟩
  · have hlacking : ∀ u, t ≤ u → u ≤ now →
        ((u - t : Nat) : ℚ) < lack (b.level capacity rate t) rate :=
      fun u htu hu => lt_lack_of_lt hnear htu (hu.trans_lt hearly)
    have hnone := hrest.init.rejected_while_lacking hvleft hb hs hc hr
      (fun u hu => hafter' u (List.mem_append_left _ hu))
      fun u hu => hlacking u (hafter' u (List.mem_append_left _ hu)) (hrest.calls_le u hu)
    rw [hanswer hnone]
    exact Bucket.answer_of_lacking hs hc hr hnow (hlacking now hnow le_rfl) hlack
  · rw [hanswer hnone]
    exact Bucket.answer_of_waited hs hc hr hnear hlate
  · rw [hanswer hnone] at hagain
    exact Bucket.end_of_wait_is_kept hs hc hr hnear hnow hagain
  · intro l next ctx w hkey hd hrate hstore htime
    have hasked : ((w.storeAt l.store).acquire key capacity (l.settings.pace.rate ℚ) w.now).2 =
        some (.rejected wait retry) := by
      rw [hstore, hrate, htime]
      exact hrejected
    obtain ⟨reply, hreply, hheader⟩ :=
      Limiter.poll_rejected hkey (Nat.one_le_iff_ne_zero.mp hc) hd hasked
    exact ⟨reply, retry, hreply, hretry ▸ isLeast_wholeSeconds hshort, hheader⟩

/-- A bucket of one token that gets one in two seconds. A call that comes halfway is rejected once
more, and one nanosecond after the time that was told is admitted. -/
theorem retry_after_is_kept_halfway :
    decisions (Store.empty.run [.acquire "k" 1 (1 / 2 : ℚ) 0, .acquire "k" 1 (1 / 2) 0,
        .acquire "k" 1 (1 / 2) 1000000000]).2 =
      [some (.admitted 0), some (.rejected (.ofSeconds 2) 2), some (.rejected (.ofSeconds 1) 1)] ∧
    ∃ remaining, ((((Store.empty.run [.acquire "k" 1 (1 / 2 : ℚ) 0]).1.acquire "k" 1 (1 / 2)
      0).1.run [.acquire "k" 1 (1 / 2) 1000000000]).1.acquire "k" 1 (1 / 2) 2000000001).2 =
        some (.admitted remaining) := by
  have hr : (0 : ℚ) < 1 / 2 := by norm_num
  have h : Steady (Store.empty : Store ℚ) "k" 1 (1 / 2)
      ([.acquire "k" 1 (1 / 2) 0] ++ [Op.acquire "k" 1 (1 / 2) 0] ++
        ([.acquire "k" 1 (1 / 2) 1000000000] ++ [Op.acquire "k" 1 (1 / 2) 2000000001])) :=
    steady_map_acquire Store.empty_valid hr "k" 1 [0, 0, 1000000000, 2000000001] (by simp)
  have hrejected : ((Store.empty.run [.acquire "k" 1 (1 / 2 : ℚ) 0]).1.acquire "k" 1 (1 / 2) 0).2 =
      some (.rejected (.ofSeconds 2) 2) := by decide +kernel
  exact ⟨by decide +kernel, ((retry_after_is_kept [] le_rfl hr rfl h hrejected (by decide)).2.1
    (by decide +kernel)).1 (by decide)⟩

end Switchboard
