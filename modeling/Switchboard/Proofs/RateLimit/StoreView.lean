import Mathlib.Data.List.Basic
import Switchboard.RateLimit.Store

/-! A store of buckets seen through its keys: the bucket that each key leads to, and what every
operation does to it. -/

namespace Switchboard

namespace RateLimit

namespace Bucket

variable {R : Type} [Amount R] {b : Bucket R} {capacity : Nat} {rate : R} {now : Instant}

theorem refill_of_le (h : now ≤ b.refilled) : b.refill capacity rate now = b := by
  rw [refill, if_neg (Nat.not_lt.mpr h)]

theorem refilled_refill (b : Bucket R) (capacity : Nat) (rate : R) (now : Instant) :
    (b.refill capacity rate now).refilled = max b.refilled now := by
  rcases Nat.lt_or_ge b.refilled now with h | h
  · rw [refill, if_pos h, Nat.max_eq_right (Nat.le_of_lt h)]
  · rw [refill_of_le h, Nat.max_eq_left h]

end Bucket

namespace Store

variable {R : Type}

def bucketOf (s : Store R) (key : String) : Option (Bucket R) :=
  (s.index.get? key).bind (s.buckets[·]?)

/-- Keys lead to buckets that are there, and no two to the same. -/
structure Valid (s : Store R) : Prop where
  id_lt : ∀ {key : String} {id : Nat}, s.index.get? key = some id → id < s.buckets.size
  key_eq : ∀ {key other : String} {id : Nat}, s.index.get? key = some id →
    s.index.get? other = some id → key = other

theorem empty_valid : (empty : Store R).Valid :=
  ⟨fun h => by simp [empty, Table.get?] at h, fun h => by simp [empty, Table.get?] at h⟩

theorem get?_removeIf (s : Store R) (key other : String) (id : Nat) :
    (s.removeIf key id).1.index.get? other =
      if other = key ∧ s.index.get? key = some id then none else s.index.get? other := by
  by_cases hi : s.index.get? key = some id
  · simp [removeIf, hi, Table.get?_filter_ne]
  · simp [removeIf, hi]

theorem buckets_removeIf (s : Store R) (key : String) (id : Nat) :
    (s.removeIf key id).1.buckets = s.buckets := by
  unfold removeIf
  split <;> rfl

theorem removeAll_cons (s : Store R) (key : String) (id : Nat) (entries : List (String × Nat)) :
    (s.removeAll ((key, id) :: entries)).1 = ((s.removeIf key id).1.removeAll entries).1 := rfl

theorem buckets_removeAll (s : Store R) (entries : List (String × Nat)) :
    (s.removeAll entries).1.buckets = s.buckets := by
  induction entries generalizing s with
  | nil => rfl
  | cons p entries ih => rw [removeAll_cons, ih, buckets_removeIf]

theorem get?_removeAll (s : Store R) (entries : List (String × Nat)) (key : String) :
    (s.removeAll entries).1.index.get? key =
      (s.index.get? key).filter fun id => (key, id) ∉ entries := by
  induction entries generalizing s with
  | nil => cases hi : s.index.get? key <;> simp [removeAll, hi, Option.filter]
  | cons p entries ih =>
    obtain ⟨k, i⟩ := p
    rw [removeAll_cons, ih, get?_removeIf]
    by_cases hk : key = k
    · subst hk
      cases hi : s.index.get? key with
      | none => simp
      | some id =>
        by_cases he : id = i
        · simp [he, Option.filter]
        · simp [he, Option.filter]
    · cases hi : s.index.get? key <;> simp [hk, Option.filter]

theorem Valid.remove {s : Store R} (h : s.Valid) (entries : List (String × Nat)) :
    (s.removeAll entries).1.Valid := by
  have hsub : ∀ {key : String} {id : Nat}, (s.removeAll entries).1.index.get? key = some id →
      s.index.get? key = some id := by
    intro key id hi
    rw [get?_removeAll] at hi
    exact (Option.filter_eq_some_iff.mp hi).1
  exact ⟨fun hi => by rw [buckets_removeAll]; exact h.id_lt (hsub hi),
    fun hi ho => h.key_eq (hsub hi) (hsub ho)⟩

/-- An eviction takes away the stale buckets and leaves the others. -/
theorem bucketOf_evict (s : Store R) (after : Duration) (now : Instant) (key : String) :
    (s.evict after now).1.bucketOf key = (s.bucketOf key).filter fun b => !b.isStale after now := by
  rw [bucketOf, evict, get?_removeAll, buckets_removeAll, bucketOf]
  cases hi : s.index.get? key with
  | none => rfl
  | some id =>
    have hm := Table.mem_of_get? hi
    cases hb : s.buckets[id]? with
    | none => simp [Option.filter, isStaleAt, hb, hm]
    | some b =>
      cases hs : b.isStale after now <;> simp [Option.filter, isStaleAt, hb, hm, hs]

theorem Valid.evict {s : Store R} (h : s.Valid) (after : Duration) (now : Instant) :
    (s.evict after now).1.Valid :=
  h.remove _

section Operations

variable [Amount R]

/-- What a call on a key decides, from the bucket that is there or from a full one. -/
def verdict (s : Store R) (key : String) (capacity : Nat) (rate : R) (now : Instant) :
    Bucket R × Option Decision :=
  ((s.bucketOf key).getD (.full capacity now)).decide capacity rate now

theorem locate_valid {s : Store R} (h : s.Valid) (key : String) (capacity : Nat) (now : Instant) :
    (s.locate key capacity now).1.Valid ∧
      (s.locate key capacity now).1.index.get? key = some (s.locate key capacity now).2 ∧
      (s.locate key capacity now).1.buckets[(s.locate key capacity now).2]? =
        some ((s.bucketOf key).getD (.full capacity now)) ∧
      ∀ other, other ≠ key →
        (s.locate key capacity now).1.bucketOf other = s.bucketOf other := by
  cases hi : s.index.get? key with
  | some id =>
    have hl : s.locate key capacity now = (s, id) := by simp [locate, hi]
    have hlt := h.id_lt hi
    rw [hl]
    exact ⟨h, hi, by simp [bucketOf, hi, hlt], fun _ _ => rfl⟩
  | none =>
    have hl : s.locate key capacity now =
        (⟨s.buckets.push (.full capacity now), s.index.insert key s.buckets.size⟩,
          s.buckets.size) := by
      simp [locate, hi]
    rw [hl]
    refine ⟨⟨?_, ?_⟩, ?_, ?_, ?_⟩
    · intro other id ho
      rw [Table.get?_insert] at ho
      rw [Array.size_push]
      split at ho
      · obtain rfl : s.buckets.size = id := by simpa using ho
        omega
      · exact Nat.lt_succ_of_lt (h.id_lt ho)
    · intro one other id h1 h2
      rw [Table.get?_insert] at h1 h2
      split at h1 <;> split at h2
      · simp_all
      · have := h.id_lt h2
        simp only [Option.some.injEq] at h1
        omega
      · have := h.id_lt h1
        simp only [Option.some.injEq] at h2
        omega
      · exact h.key_eq h1 h2
    · simp [Table.get?_insert]
    · simp [bucketOf, hi]
    · intro other ho
      cases hio : s.index.get? other with
      | none => simp [bucketOf, Table.get?_insert, ho, hio]
      | some id =>
        have hlt := h.id_lt hio
        simp [bucketOf, Table.get?_insert, ho, hio, Array.getElem?_push, Nat.ne_of_lt hlt]

theorem get?_locate (s : Store R) (key other : String) (capacity : Nat) (now : Instant) :
    (s.locate key capacity now).1.index.get? other =
      if other = key then some (s.locate key capacity now).2 else s.index.get? other := by
  cases hi : s.index.get? key with
  | some id =>
    by_cases ho : other = key
    · simp [locate, hi, ho]
    · simp [locate, hi, ho]
  | none => simp [locate, hi, Table.get?_insert]

theorem index_decideAt (s : Store R) (id capacity : Nat) (rate : R) (now : Instant) :
    (s.decideAt id capacity rate now).1.index = s.index := by
  unfold decideAt
  split <;> rfl

/-- A decision is about the bucket of one key and leaves those of other keys alone. -/
theorem decideAt_spec {s : Store R} (h : s.Valid) {key : String} {id : Nat} {b : Bucket R}
    (hi : s.index.get? key = some id) (hb : s.buckets[id]? = some b) (capacity : Nat) (rate : R)
    (now : Instant) :
    (s.decideAt id capacity rate now).1.Valid ∧
      (s.decideAt id capacity rate now).2 = (b.decide capacity rate now).2 ∧
      ∀ other, (s.decideAt id capacity rate now).1.bucketOf other =
        if other = key then some (b.decide capacity rate now).1 else s.bucketOf other := by
  have hd : s.decideAt id capacity rate now =
      ({ s with buckets := s.buckets.set! id (b.decide capacity rate now).1 },
        (b.decide capacity rate now).2) := by
    simp only [decideAt, hb]
  rw [hd]
  refine ⟨⟨?_, h.key_eq⟩, rfl, ?_⟩
  · intro other i ho
    simpa using h.id_lt ho
  · intro other
    by_cases ho : other = key
    · subst ho
      simp [bucketOf, hi, h.id_lt hi]
    · rw [if_neg ho]
      cases hio : s.index.get? other with
      | none => simp [bucketOf, hio]
      | some i =>
        have hne : id ≠ i := by
          rintro rfl
          exact ho (h.key_eq hio hi)
        simp [bucketOf, hio, hne]

/-- A call on a key answers with the verdict, and leaves the buckets of other keys alone. -/
theorem acquire_spec {s : Store R} (h : s.Valid) {rate : R} (hr : isUsable rate = true)
    (key : String) (capacity : Nat) (now : Instant) :
    (s.acquire key capacity rate now).1.Valid ∧
      (s.acquire key capacity rate now).2 = (s.verdict key capacity rate now).2 ∧
      ∀ other, (s.acquire key capacity rate now).1.bucketOf other =
        if other = key then some (s.verdict key capacity rate now).1 else s.bucketOf other := by
  obtain ⟨hv, hi, hb, hothers⟩ := locate_valid h key capacity now
  obtain ⟨hvalid, hanswer, hbuckets⟩ := decideAt_spec hv hi hb capacity rate now
  have ha : s.acquire key capacity rate now =
      (s.locate key capacity now).1.decideAt (s.locate key capacity now).2 capacity rate now := by
    simp only [acquire, hr, if_true]
  rw [ha]
  refine ⟨hvalid, hanswer, fun other => ?_⟩
  rw [hbuckets]
  by_cases ho : other = key
  · rw [if_pos ho, if_pos ho, verdict]
  · rw [if_neg ho, if_neg ho, hothers other ho]

end Operations

end Store

end RateLimit

end Switchboard
