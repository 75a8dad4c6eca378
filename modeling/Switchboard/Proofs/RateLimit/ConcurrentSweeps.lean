import Mathlib.Algebra.GroupWithZero.Nat
import Switchboard.Proofs.RateLimit.History

/-! Sweeps beside calls and beside one another. Between the listing of a bucket and its removal others
may have removed it and opened a new one for its key. -/

namespace Switchboard.RateLimit

def SweepStage.counted : SweepStage → Nat
  | .removing _ count => count
  | _ => 0

namespace Actor

variable {R : Type}

def span? : Actor R → Option Duration
  | call .. => none
  | sweep span _ => some span

/-- The removals that a sweep has counted so far. -/
def counted : Actor R → Nat
  | call .. => 0
  | sweep _ stage => stage.counted

/-- Has not begun yet. A sweep is for buckets that are stale by some time. -/
def Arrives : Actor R → Prop
  | call _ stage => stage = .arriving
  | sweep span stage => 0 < span.nanos ∧ stage = .arriving

end Actor

/-! ### What an actor goes by -/

/-- A call goes by the time of its arrival, to a bucket that has been created. -/
def CallStage.Known (arrived : Option Instant) (size : Nat) : CallStage → Prop
  | .arriving => arrived = none
  | .looking now | .creating now => arrived = some now
  | .locking now id | .deciding now id => arrived = some now ∧ id < size
  | .answered _ => True

/-- A sweep has found a bucket stale. -/
def Condemned (reading : Nat → Option Instant) (i : Nat) (span : Duration) (id : Nat)
    (history : List Entry) : Prop :=
  ∃ seen time key rest, history = seen ++ ⟨time, i, .inspected key id true⟩ :: rest ∧
    Stale reading i span id seen

/-- A bucket that a sweep may come to was there when it listed the buckets. -/
def Listed (i size id : Nat) (history : List Entry) : Prop :=
  id < size ∧ id ∉ createdSince i history

def SweepStage.Known (reading : Nat → Option Instant) (i : Nat) (span : Duration) (size : Nat)
    (history : List Entry) : SweepStage → Prop
  | .arriving => reading i = none ∧ ∀ e ∈ history, e.lists i = false
  | .listing now => reading i = some now ∧ ∀ e ∈ history, e.lists i = false
  | .inspecting now rest stale => reading i = some now ∧
      (∀ entry ∈ rest ++ stale, Listed i size entry.2 history) ∧
      ∀ entry ∈ stale, Condemned reading i span entry.2 history
  | .removing rest _ =>
      (∀ entry ∈ rest, Listed i size entry.2 history) ∧
      ∀ entry ∈ rest, Condemned reading i span entry.2 history

def Actor.Known {R : Type} (reading : Nat → Option Instant) (i size : Nat) (history : List Entry) :
    Actor R → Prop
  | call _ stage => stage.Known (reading i) size
  | sweep span stage => 0 < span.nanos ∧ stage.Known reading i span size history

/-- What there is to say for the removal of a bucket. -/
structure Justified (reading : Nat → Option Instant) (i : Nat) (span : Duration) (id : Nat)
    (history : List Entry) : Prop where
  listed : id ∉ createdSince i history
  stale : ∃ seen time key rest, history = seen ++ ⟨time, i, .inspected key id true⟩ :: rest ∧
    id ∈ removedBy i rest ∧ Stale reading i span id seen

section Known

variable {reading later : Nat → Option Instant} {i size size' id : Nat} {span : Duration}
  {history entries : List Entry}

theorem Condemned.append (h : Condemned reading i span id history) (he : Extends reading later)
    (entries : List Entry) : Condemned later i span id (history ++ entries) := by
  obtain ⟨seen, time, key, rest, rfl, hstale⟩ := h
  exact ⟨seen, time, key, rest ++ entries, by simp, hstale.mono he⟩

theorem Listed.append (h : Listed i size id history) (hl : size ≤ size')
    (hn : ∀ id ∈ created entries, size ≤ id) : Listed i size' id (history ++ entries) :=
  ⟨h.1.trans_le hl,
    notMem_createdSince_append h.2 fun hc => absurd (hn id hc) (Nat.not_le.mpr h.1)⟩

theorem Justified.append (h : Justified reading i span id history) (he : Extends reading later)
    (hlt : id < size) (hn : ∀ id ∈ created entries, size ≤ id) :
    Justified later i span id (history ++ entries) := by
  obtain ⟨seen, time, key, rest, rfl, hremoved, hstale⟩ := h.stale
  refine ⟨notMem_createdSince_append h.listed fun hc =>
    absurd (hn id hc) (Nat.not_le.mpr hlt), seen, time, key, rest ++ entries, by simp, ?_,
    hstale.mono he⟩
  rw [removedBy_append]
  exact List.mem_append_left _ hremoved

theorem SweepStage.Known.append {stage : SweepStage} (h : stage.Known reading i span size history)
    (he : Extends reading later) (hi : reading i = none → later i = none) (hl : size ≤ size')
    (hn : ∀ id ∈ created entries, size ≤ id) (hu : ∀ e ∈ entries, e.lists i = false) :
    stage.Known later i span size' (history ++ entries) := by
  have hunlisted : (∀ e ∈ history, e.lists i = false) →
      ∀ e ∈ history ++ entries, e.lists i = false :=
    fun hh e hm => (List.mem_append.mp hm).elim (hh e) (hu e)
  cases stage with
  | arriving => exact ⟨hi h.1, hunlisted h.2⟩
  | listing now => exact ⟨he h.1, hunlisted h.2⟩
  | inspecting now rest stale =>
    exact ⟨he h.1, fun entry hm => (h.2.1 entry hm).append hl hn,
      fun entry hm => (h.2.2 entry hm).append he entries⟩
  | removing rest count =>
    exact ⟨fun entry hm => (h.1 entry hm).append hl hn,
      fun entry hm => (h.2 entry hm).append he entries⟩

theorem CallStage.Known.mono {arrived later : Option Instant} {stage : CallStage}
    (h : stage.Known arrived size) (he : ∀ t, arrived = some t → later = some t)
    (hi : arrived = none → later = none) (hl : size ≤ size') : stage.Known later size' := by
  cases stage with
  | arriving => exact hi h
  | looking now => exact he now h
  | creating now => exact he now h
  | locking now id => exact ⟨he now h.1, h.2.trans_le hl⟩
  | deciding now id => exact ⟨he now h.1, h.2.trans_le hl⟩
  | answered answer => trivial

end Known

section Moves

variable {R : Type} [Amount R] {reading later : Nat → Option Instant} {s next : Store R}
  {history : List Entry} {clock : Instant} {i : Nat} {span : Duration} {notes : List Note}
  {isLocked : Nat → Bool}

theorem Effect.size_le {time : Option Instant} (h : Effect time s next notes) :
    s.buckets.size ≤ next.buckets.size := by
  cases h with
  | quiet hq => exact le_refl _
  | creates capacity ht hi =>
    rw [Store.locate_of_none hi, Array.size_push]
    exact Nat.le_succ _
  | decides key capacity rate ht hlt =>
    unfold Store.decideAt
    split <;> simp
  | removes hi => rw [Store.buckets_removeIf]

/-- A bucket is created with a number that none has had before. -/
theorem Effect.fresh {time : Option Instant} (h : Effect time s next notes) (clock : Instant)
    (i : Nat) : ∀ id ∈ created (notes.map (⟨clock, i, ·⟩)), s.buckets.size ≤ id := by
  cases h with
  | quiet hq =>
    intro id hid
    obtain ⟨e, he, hc⟩ := List.mem_filterMap.mp hid
    obtain ⟨note, hn, rfl⟩ := List.mem_map.mp he
    rw [(Entry.of_isQuiet (e := ⟨clock, i, note⟩) (hq note hn)).1] at hc
    cases hc
  | creates capacity ht hi =>
    intro id hid
    exact (List.mem_singleton.mp hid).ge
  | decides key capacity rate ht hlt => exact fun id hid => absurd hid List.not_mem_nil
  | removes hi => exact fun id hid => absurd hid List.not_mem_nil

theorem Demand.step_known {d : Demand R} {arrived : Option Instant} {stage after : CallStage}
    (hk : stage.Known arrived s.buckets.size) (hv : s.Valid)
    (h : d.step clock isLocked s stage = some (next, after, notes)) :
    after.Known (arrived.or (some clock)) next.buckets.size ∧
      Effect (arrived.or (some clock)) s next notes ∧
      removed (notes.map (⟨clock, i, ·⟩)) = [] := by
  have hquiet : ∀ time : Option Instant, Effect time s s [] := fun _ => .quiet (by simp)
  cases stage with
  | arriving =>
    obtain rfl : arrived = none := hk
    simp only [step] at h
    split at h
    · obtain ⟨rfl, rfl, rfl⟩ := by simpa using h
      exact ⟨rfl, hquiet _, rfl⟩
    · obtain ⟨rfl, rfl, rfl⟩ := by simpa using h
      exact ⟨trivial, hquiet _, rfl⟩
  | looking now =>
    obtain rfl : arrived = some now := hk
    simp only [step] at h
    split at h
    · rename_i id hi
      obtain ⟨rfl, rfl, rfl⟩ := by simpa using h
      exact ⟨⟨rfl, hv.id_lt hi⟩, hquiet _, rfl⟩
    · obtain ⟨rfl, rfl, rfl⟩ := by simpa using h
      exact ⟨rfl, hquiet _, rfl⟩
  | creating now =>
    obtain rfl : arrived = some now := hk
    obtain ⟨rfl, rfl, rfl⟩ := by simpa [step] using h
    have hlocated := Store.locate_valid hv d.key d.capacity now
    refine ⟨⟨rfl, hlocated.1.id_lt hlocated.2.1⟩, ?_⟩
    cases hfound : s.index.get? d.key with
    | some id =>
      have hsame : (s.locate d.key d.capacity now).1 = s := by simp [Store.locate, hfound]
      rw [hsame]
      exact ⟨hquiet _, rfl⟩
    | none =>
      have hid : (s.locate d.key d.capacity now).2 = s.buckets.size := by
        rw [Store.locate_of_none hfound]
      rw [hid]
      exact ⟨.creates d.capacity rfl hfound, rfl⟩
  | locking now id =>
    obtain ⟨rfl, hlt⟩ := hk
    simp only [step] at h
    split at h
    · cases h
    · obtain ⟨rfl, rfl, rfl⟩ := by simpa using h
      exact ⟨⟨rfl, hlt⟩, hquiet _, rfl⟩
  | deciding now id =>
    obtain ⟨rfl, hlt⟩ := hk
    obtain ⟨rfl, rfl, rfl⟩ := by simpa [step] using h
    exact ⟨trivial, .decides d.key d.capacity d.rate rfl hlt, rfl⟩
  | answered answer => cases h

omit [Amount R] in
/-- The time in a bucket is the one that its last user goes by. -/
theorem Tracks.stale_of_isStaleAt (ht : Tracks reading s history) (hspan : 0 < span.nanos)
    {begun : Instant} (hi : reading i = some begun) {id : Nat}
    (hs : s.isStaleAt span begun id = true) : Stale reading i span id history := by
  obtain ⟨b, hb, hstale⟩ : ∃ b, s.buckets[id]? = some b ∧ b.isStale span begun = true := by
    simpa [Store.isStaleAt, Option.any_eq_true] using hs
  obtain ⟨user, hlast, hused⟩ := ht.used hb
  have hlong : span.nanos ≤ begun - b.used := by simpa [Bucket.isStale] using hstale
  have hbefore : b.used < begun := Nat.lt_of_sub_pos (hspan.trans_le hlong)
  exact ⟨user, b.used, begun, hlast, hused, hi, (Nat.le_sub_iff_add_le' hbefore.le).mp hlong⟩

/-- What the turn of a sweep does to the store and to what the sweep goes by. -/
structure SweepStage.Turned (later : Nat → Option Instant) (i : Nat) (span : Duration)
    (history : List Entry) (s next : Store R) (stage after : SweepStage) (notes : List Note)
    (entries : List Entry) : Prop where
  known : after.Known later i span next.buckets.size (history ++ entries)
  effect : Effect (later i) s next notes
  counted : after.counted = stage.counted + (removed entries).length
  justified : ∀ id ∈ removed entries, Justified later i span id (history ++ entries)

/-- A bucket is put down for removal when it is found stale, and only then. -/
theorem SweepStage.turned_inspecting {after : SweepStage} {now : Instant}
    {entry : String × Nat} {rest stale : List (String × Nat)} (hspan : 0 < span.nanos)
    (ht : Tracks reading s history) (he : Extends reading later)
    (hk : (inspecting now (entry :: rest) stale).Known reading i span s.buckets.size history)
    (h : (inspecting now (entry :: rest) stale).step span clock isLocked s =
      some (next, after, notes)) :
    Turned later i span history s next (inspecting now (entry :: rest) stale) after notes
      (notes.map (⟨clock, i, ·⟩)) := by
  obtain ⟨hnow, hlisted, hfound⟩ := hk
  obtain ⟨key, id⟩ := entry
  have hstill : ∀ found, ∀ entry ∈ (key, id) :: rest ++ stale, Listed i s.buckets.size entry.2
      (history ++ [⟨clock, i, .inspected key id found⟩]) := fun found entry hm =>
    (hlisted entry hm).append (le_refl _) fun _ hid => absurd hid List.not_mem_nil
  have hstale : ∀ found, ∀ entry ∈ stale, Condemned later i span entry.2
      (history ++ [⟨clock, i, .inspected key id found⟩]) := fun found entry hm =>
    (hfound entry hm).append he _
  have hnone : ∀ found, removed [(⟨clock, i, .inspected key id found⟩ : Entry)] = [] :=
    fun _ => rfl
  simp only [step] at h
  split at h
  · cases h
  · split at h
    · rename_i hs
      obtain ⟨rfl, rfl, rfl⟩ := by simpa using h
      refine ⟨⟨he hnow, fun entry hm => hstill true entry ?_, fun entry hm => ?_⟩,
        .quiet (by simp [Note.isQuiet]), rfl, by simp [hnone]⟩
      · simpa [or_comm, or_assoc, or_left_comm] using hm
      · rcases List.mem_append.mp hm with hm | hm
        · exact hstale true entry hm
        · obtain rfl := List.mem_singleton.mp hm
          exact ⟨history, clock, key, [], rfl, (ht.stale_of_isStaleAt hspan hnow hs).mono he⟩
    · obtain ⟨rfl, rfl, rfl⟩ := by simpa using h
      exact ⟨⟨he hnow, fun entry hm => hstill false entry (List.mem_cons_of_mem _ hm),
        hstale false⟩, .quiet (by simp [Note.isQuiet]), rfl, by simp [hnone]⟩

/-- A bucket put down for removal is removed when it is still the one of its key. -/
theorem SweepStage.turned_removing {after : SweepStage} {entry : String × Nat}
    {rest : List (String × Nat)} {count : Nat} (he : Extends reading later)
    (hk : (removing (entry :: rest) count).Known reading i span s.buckets.size history)
    (h : (removing (entry :: rest) count).step span clock isLocked s =
      some (next, after, notes)) :
    Turned later i span history s next (removing (entry :: rest) count) after notes
      (notes.map (⟨clock, i, ·⟩)) := by
  obtain ⟨hlisted, hfound⟩ := hk
  obtain ⟨key, id⟩ := entry
  obtain ⟨hlt, hsince⟩ := hlisted (key, id) List.mem_cons_self
  obtain ⟨seen, time, key', between, rfl, hstale⟩ := hfound (key, id) List.mem_cons_self
  by_cases hr : s.index.get? key = some id
  · have hremove : s.removeIf key id = ((s.removeIf key id).1, true) := by
      simp [Store.removeIf, hr]
    rw [step, hremove] at h
    obtain ⟨rfl, rfl, rfl⟩ := by simpa using h
    refine ⟨⟨fun entry hm => ?_, fun entry hm => ?_⟩, .removes hr, rfl, fun id' hid => ?_⟩
    · rw [Store.buckets_removeIf]
      exact (hlisted entry (List.mem_cons_of_mem _ hm)).append (le_refl _)
        (fun id hid => absurd hid List.not_mem_nil)
    · exact (hfound entry (List.mem_cons_of_mem _ hm)).append he _
    · obtain rfl : id' = id := List.mem_singleton.mp hid
      refine ⟨notMem_createdSince_append hsince List.not_mem_nil, seen, time, key',
        between ++ [⟨clock, i, .removed key id'⟩], by simp, ?_, hstale.mono he⟩
      rw [removedBy_append]
      exact List.mem_append_right _ (by simp [removedBy, removed, Entry.removed?])
  · have hremove : s.removeIf key id = (s, false) := by simp [Store.removeIf, hr]
    rw [step, hremove] at h
    obtain ⟨rfl, rfl, rfl⟩ := by simpa using h
    rw [List.map_nil]
    refine ⟨⟨fun entry hm => ?_, fun entry hm => ?_⟩, .quiet (by simp), rfl, by simp [removed]⟩
    · simpa using hlisted entry (List.mem_cons_of_mem _ hm)
    · simpa using (hfound entry (List.mem_cons_of_mem _ hm)).append he []

theorem SweepStage.turned {stage after : SweepStage} (hspan : 0 < span.nanos)
    (ht : Tracks reading s history) (hk : stage.Known reading i span s.buckets.size history)
    (he : Extends reading later) (hi : later i = (reading i).or (some clock))
    (h : stage.step span clock isLocked s = some (next, after, notes)) :
    Turned later i span history s next stage after notes (notes.map (⟨clock, i, ·⟩)) := by
  cases stage with
  | arriving =>
    obtain ⟨hnone, hunlisted⟩ := hk
    obtain ⟨rfl, rfl, rfl⟩ := by simpa [step] using h
    rw [hnone, Option.none_or] at hi
    rw [List.map_nil]
    exact ⟨⟨hi, by simpa using hunlisted⟩, .quiet (by simp), rfl, by simp [removed]⟩
  | listing now =>
    obtain ⟨hnow, hunlisted⟩ := hk
    obtain ⟨rfl, rfl, rfl⟩ := by simpa [step] using h
    refine ⟨⟨he hnow, fun entry hm => ?_, by simp⟩, .quiet (by simp [Note.isQuiet]), rfl,
      by simp [removed, Entry.removed?]⟩
    have hget := Table.get?_of_mem ht.nodup (by simpa using hm : (entry.1, entry.2) ∈ s.index)
    refine ⟨ht.valid.id_lt hget, notMem_createdSince_append ?_ (by simp [created, Entry.created?])⟩
    rw [createdSince_of_unlisted hunlisted]
    exact List.not_mem_nil
  | inspecting now rest stale =>
    cases rest with
    | nil =>
      obtain ⟨hnow, hlisted, hfound⟩ := hk
      obtain ⟨rfl, rfl, rfl⟩ := by simpa [step] using h
      rw [List.map_nil]
      refine ⟨⟨fun entry hm => ?_, fun entry hm => ?_⟩, .quiet (by simp), rfl, by simp [removed]⟩
      · simpa using hlisted entry hm
      · simpa using (hfound entry hm).append he []
    | cons entry rest => exact turned_inspecting hspan ht he hk h
  | removing rest count =>
    cases rest with
    | nil => cases h
    | cons entry rest => exact turned_removing he hk h

end Moves

/-! ### Runs -/

theorem sum_map_set {α : Type} {f : α → Nat} {l : List α} {i n : Nat} {a b : α}
    (ha : l[i]? = some a) (hb : f b = f a + n) :
    ((l.set i b).map f).sum = (l.map f).sum + n := by
  induction l generalizing i with
  | nil => cases ha
  | cons c l ih =>
    cases i with
    | zero =>
      obtain rfl : c = a := by simpa using ha
      simp only [List.set_cons_zero, List.map_cons, List.sum_cons, hb]
      omega
    | succ i =>
      have hrest := ih (by simpa using ha)
      simp only [List.set_cons_succ, List.map_cons, List.sum_cons, hrest]
      omega

/-- A scene that moves have led to from the arrival of its actors at an empty store. -/
structure Scene.Recorded {R : Type} (clock : Instant) (actors : List (Actor R))
    (moves : List Move) (s : Scene R) (history : List Entry) : Prop where
  clock_eq : s.clock = clock + waited moves
  tracks : Tracks (arrival · clock moves) s.store history
  known : ∀ (i : Nat) (a : Actor R), s.actors[i]? = some a →
    a.Known (arrival · clock moves) i s.store.buckets.size history
  counted : ∀ (i : Nat) (a : Actor R), s.actors[i]? = some a →
    a.counted = (removedBy i history).length
  span_eq : s.actors.map Actor.span? = actors.map Actor.span?
  total : (s.actors.map Actor.counted).sum = (removed history).length
  justified : ∀ i, ∀ id ∈ removedBy i history, ∃ span,
    (actors.map Actor.span?)[i]? = some (some span) ∧
      Justified (arrival · clock moves) i span id history

section Runs

variable {R : Type} [Amount R] {clock : Instant} {actors : List (Actor R)} {moves : List Move}
  {s next : Scene R} {history entries : List Entry} {i : Nat}

/-- What the turn of an actor does to the store and to what the actor goes by. -/
structure Turned (later : Nat → Option Instant) (i : Nat) (history : List Entry) (s next : Store R)
    (a after : Actor R) (notes : List Note) (entries : List Entry) : Prop where
  known : after.Known later i next.buckets.size (history ++ entries)
  effect : Effect (later i) s next notes
  span_eq : after.span? = a.span?
  counted : after.counted = a.counted + (removed entries).length
  justified : ∀ id ∈ removed entries, ∃ span, a.span? = some span ∧
    Justified later i span id (history ++ entries)

theorem Actor.step_known {reading later : Nat → Option Instant} {store after : Store R}
    {isLocked : Nat → Bool} {a b : Actor R} {notes : List Note} (ht : Tracks reading store history)
    (hk : a.Known reading i store.buckets.size history) (he : Extends reading later)
    (hi : later i = (reading i).or (some clock))
    (h : a.step clock isLocked store = some (after, b, notes)) :
    Turned later i history store after a b notes (notes.map (⟨clock, i, ·⟩)) := by
  cases a with
  | call d stage =>
    obtain ⟨⟨after', stage', notes'⟩, hstep, hres⟩ := Option.map_eq_some_iff.mp h
    obtain ⟨rfl, rfl, rfl⟩ := by simpa using hres
    obtain ⟨hknown, heffect, hnone⟩ := Demand.step_known (i := i) hk ht.valid hstep
    rw [← hi] at hknown heffect
    exact ⟨hknown, heffect, rfl, by rw [hnone]; rfl, by simp [hnone]⟩
  | sweep span stage =>
    obtain ⟨⟨after', stage', notes'⟩, hstep, hres⟩ := Option.map_eq_some_iff.mp h
    obtain ⟨rfl, rfl, rfl⟩ := by simpa using hres
    have hturned := SweepStage.turned hk.1 ht hk.2 he hi hstep
    exact ⟨⟨hk.1, hturned.known⟩, hturned.effect, rfl, hturned.counted,
      fun id hid => ⟨span, rfl, hturned.justified id hid⟩⟩

omit [Amount R] in
theorem Actor.Known.append {reading later : Nat → Option Instant} {a : Actor R} {size size' : Nat}
    (h : a.Known reading i size history) (he : Extends reading later)
    (hi : reading i = none → later i = none) (hl : size ≤ size')
    (hn : ∀ id ∈ created entries, size ≤ id) (hu : ∀ e ∈ entries, e.actor ≠ i) :
    a.Known later i size' (history ++ entries) := by
  cases a with
  | call d stage => exact CallStage.Known.mono h (fun t ht => he ht) hi hl
  | sweep span stage =>
    exact ⟨h.1, h.2.append he hi hl hn fun e hm => Entry.lists_of_ne (hu e hm)⟩

omit [Amount R] in
theorem Scene.Recorded.wait (h : s.Recorded clock actors moves history) (nanos : Nat) :
    Scene.Recorded clock actors (moves ++ [.wait nanos]) { s with clock := s.clock + nanos }
      history := by
  have hsame : ∀ i, arrival i clock (moves ++ [.wait nanos]) = arrival i clock moves := fun i => by
    rw [arrival_append]
    exact Option.or_none
  refine ⟨?_, ?_, ?_, h.counted, h.span_eq, h.total, ?_⟩
  · rw [waited_append, ← Nat.add_assoc, ← h.clock_eq]
    rfl
  · simpa only [hsame] using h.tracks
  · simpa only [hsame] using h.known
  · simpa only [hsame] using h.justified

theorem Scene.Recorded.turn (h : s.Recorded clock actors moves history) {a b : Actor R}
    {store : Store R} {notes : List Note} (ha : s.actors[i]? = some a)
    (hstep : a.step s.clock s.isLocked s.store = some (store, b, notes)) :
    Scene.Recorded clock actors (moves ++ [.turn i]) ⟨s.clock, store, s.actors.set i b⟩
      (history ++ notes.map (⟨s.clock, i, ·⟩)) := by
  have hext := arrival_extends clock moves [.turn i]
  have hself : arrival i clock (moves ++ [.turn i]) =
      (arrival i clock moves).or (some s.clock) := by
    rw [arrival_append, h.clock_eq]
    simp [arrival]
  have hother : ∀ j, i ≠ j → arrival j clock (moves ++ [.turn i]) = arrival j clock moves := by
    intro j hj
    rw [arrival_append]
    simp [arrival, hj]
  have hturned := Actor.step_known h.tracks (h.known i a ha) hext hself hstep
  have hown : ∀ e ∈ notes.map (Entry.mk s.clock i), e.actor = i := by
    intro e he
    obtain ⟨note, -, rfl⟩ := List.mem_map.mp he
    rfl
  have hfresh := hturned.effect.fresh s.clock i
  have hsize := hturned.effect.size_le
  have htracks : Tracks (arrival · clock (moves ++ [.turn i])) store
      (history ++ notes.map (⟨s.clock, i, ·⟩)) := (h.tracks.mono hext).effect hturned.effect
  generalize notes.map (Entry.mk s.clock i) = entries at hturned hown hfresh htracks ⊢
  have hset : ∀ j c, (s.actors.set i b)[j]? = some c →
      i = j ∧ c = b ∨ i ≠ j ∧ s.actors[j]? = some c := by
    intro j c hc
    rw [List.getElem?_set] at hc
    split at hc
    · split at hc
      · exact .inl ⟨‹_›, (Option.some.inj hc).symm⟩
      · cases hc
    · exact .inr ⟨‹_›, hc⟩
  constructor
  case clock_eq => rw [waited_append, h.clock_eq]; rfl
  case tracks => exact htracks
  case known =>
    intro j c hc
    rcases hset j c hc with ⟨rfl, rfl⟩ | ⟨hj, hc⟩
    · exact hturned.known
    · exact (h.known j c hc).append hext (fun hn => (hother j hj).trans hn) hsize hfresh
        fun e he => (hown e he).trans_ne hj
  case counted =>
    intro j c hc
    rw [removedBy_append, List.length_append]
    rcases hset j c hc with ⟨rfl, rfl⟩ | ⟨hj, hc⟩
    · rw [hturned.counted, h.counted i a ha, removedBy_eq_removed hown]
    · rw [removedBy_eq_nil fun e he => (hown e he).trans_ne hj]
      exact h.counted j c hc
  case span_eq =>
    obtain ⟨hlt, rfl⟩ := List.getElem?_eq_some_iff.mp ha
    rw [List.map_set, hturned.span_eq, ← List.map_set, List.set_getElem_self, h.span_eq]
  case total =>
    rw [sum_map_set ha hturned.counted, h.total, removed_append, List.length_append]
  case justified =>
    intro j id hid
    rw [removedBy_append] at hid
    rcases List.mem_append.mp hid with hid | hid
    · obtain ⟨span, hspan, hjust⟩ := h.justified j id hid
      exact ⟨span, hspan, hjust.append hext
        (h.tracks.removed_lt id (mem_removed_of_removedBy hid)) hfresh⟩
    · by_cases hj : i = j
      · subst hj
        rw [removedBy_eq_removed hown] at hid
        obtain ⟨span, hspan, hjust⟩ := hturned.justified id hid
        refine ⟨span, ?_, hjust⟩
        rw [← h.span_eq, List.getElem?_map, ha, Option.map_some, hspan]
      · rw [removedBy_eq_nil fun e he => (hown e he).trans_ne hj] at hid
        cases hid

theorem Scene.Recorded.play (h : s.Recorded clock actors moves history) {more : List Move}
    (hp : s.play more = some (next, entries)) :
    next.Recorded clock actors (moves ++ more) (history ++ entries) := by
  induction more generalizing s moves history entries with
  | nil =>
    obtain ⟨rfl, rfl⟩ := Prod.mk.inj (Option.some.inj hp)
    rw [List.append_nil, List.append_nil]
    exact h
  | cons m rest ih =>
    obtain ⟨middle, first, second, hm, ht, rfl⟩ := Scene.play_cons_eq_some_iff.mp hp
    have hmiddle : middle.Recorded clock actors (moves ++ [m]) (history ++ first) := by
      obtain ⟨nanos, rfl, rfl, rfl⟩ | ⟨i, a, store, b, notes, rfl, ha, hstep, rfl, rfl⟩ :=
        Scene.move_cases hm
      · rw [List.append_nil]
        exact h.wait nanos
      · exact h.turn ha hstep
    have hlast := ih hmiddle ht
    rwa [List.append_assoc, List.singleton_append, List.append_assoc] at hlast

omit [Amount R] in
/-- All calls and sweeps have yet to begin. -/
theorem Scene.recorded_of_arrives (clock : Instant) (ha : ∀ a ∈ actors, a.Arrives) :
    Scene.Recorded clock actors [] ⟨clock, .empty, actors⟩ [] := by
  have hnone : ∀ a ∈ actors, a.counted = 0 := by
    intro a hm
    cases a with
    | call d stage => rfl
    | sweep span stage =>
      obtain ⟨-, rfl⟩ := ha _ hm
      rfl
  constructor
  case clock_eq => rfl
  case tracks =>
    exact ⟨Store.empty_valid, List.nodup_nil, rfl, List.nodup_nil, by simp [removed],
      by simp [Store.empty, Table.get?], rfl, by simp [Store.empty]⟩
  case known =>
    intro i a hi
    have hm := ha a (List.mem_of_getElem? hi)
    cases a with
    | call d stage =>
      obtain rfl : stage = .arriving := hm
      rfl
    | sweep span stage =>
      obtain ⟨hspan, rfl⟩ := hm
      exact ⟨hspan, rfl, by simp⟩
  case counted => exact fun i a hi => hnone a (List.mem_of_getElem? hi)
  case span_eq => rfl
  case total =>
    refine List.sum_eq_zero_iff_forall_eq_nat.mpr fun n hn => ?_
    obtain ⟨a, hm, rfl⟩ := List.mem_map.mp hn
    exact hnone a hm
  case justified => exact fun i id hid => absurd hid List.not_mem_nil

theorem Scene.clock_of_move {m : Move} (hm : s.move m = some (next, entries)) :
    next.clock = s.clock + waited [m] ∧ ∀ e ∈ entries, e.time = s.clock ∧ m = .turn e.actor := by
  obtain ⟨nanos, rfl, rfl, rfl⟩ | ⟨i, a, store, b, notes, rfl, -, -, rfl, rfl⟩ :=
    Scene.move_cases hm
  · exact ⟨rfl, by simp⟩
  · refine ⟨rfl, fun e he => ?_⟩
    obtain ⟨note, -, rfl⟩ := List.mem_map.mp he
    exact ⟨rfl, rfl⟩

/-- What is seen is seen in the order of the times on the clock. -/
theorem Scene.play_sorted {last : Scene R} (hp : s.play moves = some (last, history)) :
    (∀ e ∈ history, s.clock ≤ e.time) ∧ history.Pairwise (·.time ≤ ·.time) := by
  induction moves generalizing s history with
  | nil =>
    obtain ⟨-, rfl⟩ := Prod.mk.inj (Option.some.inj hp)
    exact ⟨by simp, .nil⟩
  | cons m rest ih =>
    obtain ⟨middle, first, second, hm, hrest, rfl⟩ := Scene.play_cons_eq_some_iff.mp hp
    obtain ⟨hclock, hfirst⟩ := Scene.clock_of_move hm
    obtain ⟨hsecond, hsorted⟩ := ih hrest
    have hafter : ∀ e ∈ second, s.clock ≤ e.time := fun e he =>
      (hclock ▸ Nat.le_add_right _ _ : s.clock ≤ middle.clock).trans (hsecond e he)
    refine ⟨fun e he => ?_, List.pairwise_append.mpr ⟨?_, hsorted, fun e he e' he' => ?_⟩⟩
    · exact (List.mem_append.mp he).elim (fun he => (hfirst e he).1.ge) (hafter e)
    · exact List.pairwise_of_forall_mem_list fun e he e' he' =>
        ((hfirst e he).1.trans (hfirst e' he').1.symm).le
    · exact (hfirst e he).1.trans_le (hafter e' he')

/-- Whoever is seen to do something has arrived by then. -/
theorem Scene.arrival_le_time {last : Scene R} (hp : s.play moves = some (last, history))
    {e : Entry} (he : e ∈ history) {t : Instant}
    (ht : arrival e.actor s.clock moves = some t) : t ≤ e.time := by
  have hbegun := (Scene.play_sorted hp).1 e he
  induction moves generalizing s history with
  | nil => cases ht
  | cons m rest ih =>
    obtain ⟨middle, first, second, hm, hrest, rfl⟩ := Scene.play_cons_eq_some_iff.mp hp
    obtain ⟨hclock, hfirst⟩ := Scene.clock_of_move hm
    have hsecond : e ∈ second → arrival e.actor middle.clock rest = some t → t ≤ e.time :=
      fun he ht => ih hrest he ht ((Scene.play_sorted hrest).1 e he)
    cases m with
    | wait nanos =>
      rcases List.mem_append.mp he with he | he
      · cases (hfirst e he).2
      · exact hsecond he (hclock ▸ ht)
    | turn i =>
      rw [arrival] at ht
      split at ht
      · exact Option.some.inj ht ▸ hbegun
      · rename_i hne
        rcases List.mem_append.mp he with he | he
        · exact absurd (Move.turn.inj (hfirst e he).2) hne
        · exact hsecond he (hclock ▸ ht)

/-- Calls and sweeps in any interleaving of their steps, from an empty store on. No sweep removes a
bucket that was created after its listing. A bucket that a sweep removes was stale when that sweep
inspected it, and nobody had used it for so long but for the time that its last user was held up on
the way to it. No bucket is removed twice, the sweeps count their removals, and the buckets in use
are those that have been created and not been removed. -/
theorem concurrent_sweeps_remove_stale (clock : Instant) (ha : ∀ a ∈ actors, a.Arrives)
    {last : Scene R} (hp : Scene.play ⟨clock, .empty, actors⟩ moves = some (last, history)) :
    (∀ i, ∀ id ∈ removedBy i history, id ∉ createdSince i history ∧
      ∃ span, actors[i]? = some (.sweep span .arriving) ∧ ∃ seen time key rest,
        history = seen ++ ⟨time, i, .inspected key id true⟩ :: rest ∧ id ∈ removedBy i rest ∧
          Stale (arrival · clock moves) i span id seen ∧
          ∀ user used, lastUse id seen = some user → arrival user.actor clock moves = some used →
            used ≤ user.time ∧
              Idle (arrival · clock moves) i span (user.time - used) id seen) ∧
    (removed history).Nodup ∧
    (∀ i a, last.actors[i]? = some a → a.counted = (removedBy i history).length) ∧
    (∀ id, (∃ key, last.store.index.get? key = some id) ↔
      id ∈ created history ∧ id ∉ removed history) ∧
    last.store.active + (last.actors.map Actor.counted).sum = (created history).length := by
  have h := (Scene.recorded_of_arrives clock ha).play hp
  rw [List.nil_append, List.nil_append] at h
  refine ⟨fun i id hid => ?_, h.tracks.removed_nodup, h.counted, fun id => ?_, ?_⟩
  · obtain ⟨span, hspan, hjust⟩ := h.justified i id hid
    obtain ⟨a, hi, hs⟩ := Option.map_eq_some_iff.mp (List.getElem?_map .. ▸ hspan)
    have harrives := ha a (List.mem_of_getElem? hi)
    cases a with
    | call d stage => cases hs
    | sweep span' stage =>
      obtain ⟨-, rfl⟩ := harrives
      obtain rfl := Option.some.inj hs
      obtain ⟨seen, time, key, rest, rfl, hremoved, hstale⟩ := hjust.stale
      refine ⟨hjust.listed, span', hi, seen, time, key, rest, rfl, hremoved, hstale,
        fun user used hlast hused => ?_⟩
      have huser : user ∈ seen := List.mem_of_mem_filter (List.mem_of_getLast? hlast)
      have hle : used ≤ user.time :=
        Scene.arrival_le_time hp (List.mem_append_left _ huser) hused
      have hsorted := (List.pairwise_append.mp (Scene.play_sorted hp).2).1
      exact ⟨hle, hstale.idle hsorted hlast hused hle⟩
  · rw [h.tracks.inUse_iff, h.tracks.created_eq, List.mem_range]
  · rw [h.total, h.tracks.active_eq, h.tracks.created_eq, List.length_range]

end Runs

/-- Two sweeps find the one bucket stale. The first removes it, a call opens another for the same key,
and the second leaves that one alone. -/
theorem concurrent_sweeps_remove_once :
    let actors : List (Actor Rat) := [.call ⟨"k", 1, 1⟩ .arriving, .sweep (.ofSeconds 1) .arriving,
      .sweep (.ofSeconds 1) .arriving, .call ⟨"k", 1, 1⟩ .arriving]
    let moves := List.replicate 5 (.turn 0) ++ [.wait 1000000000] ++ List.replicate 3 (.turn 1) ++
      List.replicate 3 (.turn 2) ++ List.replicate 2 (.turn 1) ++ List.replicate 5 (.turn 3) ++
      List.replicate 2 (.turn 2)
    ∃ last history, Scene.play ⟨0, .empty, actors⟩ moves = some (last, history) ∧
      created history = [0, 1] ∧ removedBy 1 history = [0] ∧ removedBy 2 history = [] ∧
      (∃ seen time key rest, history = seen ++ ⟨time, 1, .inspected key 0 true⟩ :: rest ∧
        0 ∈ removedBy 1 rest ∧ Stale (arrival · 0 moves) 1 (.ofSeconds 1) 0 seen) ∧
      last.store.active + (last.actors.map Actor.counted).sum = 2 := by
  intro actors moves
  have hplay : (Scene.play ⟨0, .empty, actors⟩ moves).map (fun r =>
      (created r.2, removedBy 1 r.2, removedBy 2 r.2)) = some ([0, 1], [0], []) := by
    decide +kernel
  obtain ⟨⟨last, history⟩, hp, hseen⟩ := Option.map_eq_some_iff.mp hplay
  obtain ⟨hcreated, hfirst, hsecond⟩ : created history = [0, 1] ∧ removedBy 1 history = [0] ∧
    removedBy 2 history = [] := by simpa using hseen
  have harrive : ∀ a ∈ actors, a.Arrives := by
    simp [actors, Actor.Arrives, Duration.ofSeconds]
  obtain ⟨hjust, -, -, -, hactive⟩ := concurrent_sweeps_remove_stale 0 harrive hp
  obtain ⟨-, span, hspan, seen, time, key, rest, hrest, hremoved, hstale, -⟩ :=
    hjust 1 0 (by simp [hfirst])
  obtain rfl : Duration.ofSeconds 1 = span := by simpa [actors] using hspan
  rw [hcreated] at hactive
  exact ⟨last, history, hp, hcreated, hfirst, hsecond,
    ⟨seen, time, key, rest, hrest, hremoved, hstale⟩, hactive⟩

/-- The first call is held up on arriving. The second opens the bucket after ten seconds, and then the
first uses it too. A sweep for buckets that nobody has used for five seconds comes two seconds later
and removes it, since the last to use it goes by the time of its arrival. -/
theorem late_call_hides_use :
    let actors : List (Actor Rat) := [.call ⟨"k", 2, 1⟩ .arriving, .call ⟨"k", 2, 1⟩ .arriving,
      .sweep (.ofSeconds 5) .arriving]
    let moves := [.turn 0, .wait 10000000000] ++ List.replicate 5 (.turn 1) ++
      List.replicate 3 (.turn 0) ++ [.wait 2000000000] ++ List.replicate 5 (.turn 2)
    let seen : List Entry := [⟨10000000000, 1, .created "k" 0 10000000000⟩,
      ⟨10000000000, 1, .decided "k" 0 (some (.admitted 1))⟩,
      ⟨10000000000, 0, .decided "k" 0 (some (.admitted 0))⟩, ⟨12000000000, 2, .listed [("k", 0)]⟩]
    (∀ a ∈ actors, a.Arrives) ∧
    (Scene.play ⟨0, .empty, actors⟩ moves).map (·.2) =
      some (seen ++ [⟨12000000000, 2, .inspected "k" 0 true⟩, ⟨12000000000, 2, .removed "k" 0⟩]) ∧
    ¬ Idle (arrival · 0 moves) 2 (.ofSeconds 5) 0 0 seen := by
  intro actors moves seen
  have hsweep : arrival 2 0 moves = some 12000000000 := rfl
  refine ⟨by simp [actors, Actor.Arrives, Duration.ofSeconds], by decide +kernel, fun h => ?_⟩
  obtain ⟨begun, hbegun, hle⟩ := h _ List.mem_cons_self rfl
  obtain rfl := Option.some.inj (hsweep.symm.trans hbegun)
  exact absurd hle (by decide)

end Switchboard.RateLimit
