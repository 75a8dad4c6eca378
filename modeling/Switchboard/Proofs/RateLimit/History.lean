import Mathlib.Data.List.Nodup
import Mathlib.Data.List.TakeWhile
import Switchboard.Proofs.RateLimit.Interleaving

/-! What has been seen of calls and sweeps on one store, when each of them has come, and how the store
follows from it. -/

namespace Switchboard.RateLimit

/-! ### What has been seen -/

namespace Entry

def created? (e : Entry) : Option Nat :=
  match e.note with
  | .created _ id _ => some id
  | _ => none

def removed? (e : Entry) : Option Nat :=
  match e.note with
  | .removed _ id => some id
  | _ => none

/-- A bucket is used by its creator and by those whom it admits. -/
def uses (id : Nat) (e : Entry) : Bool :=
  match e.note with
  | .created _ used _ | .decided _ used (some (.admitted _)) => used == id
  | _ => false

def lists (i : Nat) (e : Entry) : Bool :=
  match e.note with
  | .listed _ => e.actor == i
  | _ => false

theorem uses_decided_iff {time : Instant} {actor decided id : Nat} {key : String}
    {answer : Option Decision} :
    uses id ⟨time, actor, .decided key decided answer⟩ = true ↔
      decided = id ∧ ∃ remaining, answer = some (.admitted remaining) := by
  rcases answer with _ | remaining | _ <;> simp [uses]

theorem lists_of_ne {e : Entry} {i : Nat} (h : e.actor ≠ i) : e.lists i = false := by
  unfold lists
  split
  · simpa using h
  · rfl

end Entry

def created (history : List Entry) : List Nat :=
  history.filterMap (·.created?)

def removed (history : List Entry) : List Nat :=
  history.filterMap (·.removed?)

def removedBy (i : Nat) (history : List Entry) : List Nat :=
  removed (history.filter (·.actor == i))

/-- The buckets created since an actor has listed those that were there. -/
def createdSince (i : Nat) (history : List Entry) : List Nat :=
  created (history.dropWhile fun e => !e.lists i)

/-- The last of those that have used a bucket, in the order in which they came to it. -/
def lastUse (id : Nat) (history : List Entry) : Option Entry :=
  (history.filter (·.uses id)).getLast?

section Histories

variable {i id : Nat} {history entries : List Entry}

theorem created_append : created (history ++ entries) = created history ++ created entries :=
  List.filterMap_append

theorem removed_append : removed (history ++ entries) = removed history ++ removed entries :=
  List.filterMap_append

theorem removedBy_append :
    removedBy i (history ++ entries) = removedBy i history ++ removedBy i entries := by
  rw [removedBy, List.filter_append, removed_append, removedBy, removedBy]

theorem removedBy_eq_removed (h : ∀ e ∈ entries, e.actor = i) :
    removedBy i entries = removed entries := by
  rw [removedBy, List.filter_eq_self.mpr fun e he => by simpa using h e he]

theorem removedBy_eq_nil (h : ∀ e ∈ entries, e.actor ≠ i) : removedBy i entries = [] := by
  rw [removedBy, List.filter_eq_nil_iff.mpr fun e he => by simpa using h e he, removed,
    List.filterMap_nil]

theorem mem_removed_of_removedBy (h : id ∈ removedBy i history) : id ∈ removed history := by
  obtain ⟨e, he, hid⟩ := List.mem_filterMap.mp h
  exact List.mem_filterMap.mpr ⟨e, List.mem_of_mem_filter he, hid⟩

/-- What is created in the end is the only thing that can be new since the listing. -/
theorem notMem_createdSince_append (h : id ∉ createdSince i history) (hn : id ∉ created entries) :
    id ∉ createdSince i (history ++ entries) := by
  rw [createdSince, List.dropWhile_append]
  split
  · intro hc
    obtain ⟨e, he, hid⟩ := List.mem_filterMap.mp hc
    exact hn (List.mem_filterMap.mpr ⟨e, (List.dropWhile_sublist _).mem he, hid⟩)
  · rw [created_append]
    exact fun hc => (List.mem_append.mp hc).elim h hn

theorem createdSince_of_unlisted (h : ∀ e ∈ history, e.lists i = false) :
    createdSince i history = [] := by
  have hnil : (history.dropWhile fun e => !e.lists i) = [] :=
    List.dropWhile_eq_nil_iff.mpr fun e he => by simp [h e he]
  rw [createdSince, hnil, created, List.filterMap_nil]

theorem lastUse_append_of_unused (h : ∀ e ∈ entries, e.uses id = false) :
    lastUse id (history ++ entries) = lastUse id history := by
  have hnil : entries.filter (·.uses id) = [] :=
    List.filter_eq_nil_iff.mpr fun e he => by simp [h e he]
  rw [lastUse, List.filter_append, hnil, List.append_nil, lastUse]

theorem lastUse_append_use {e : Entry} (h : e.uses id = true) :
    lastUse id (history ++ [e]) = some e := by
  rw [lastUse, List.filter_append, List.filter_cons_of_pos h, List.filter_nil,
    List.getLast?_concat]

end Histories

/-! ### When it was read -/

/-- The time on the clock at the first move of an actor. Calls and sweeps go by that time. -/
def arrival (i : Nat) (clock : Instant) : List Move → Option Instant
  | [] => none
  | .wait nanos :: rest => arrival i (clock + nanos) rest
  | .turn j :: rest => if j = i then some clock else arrival i clock rest

def waited : List Move → Nat
  | [] => 0
  | .wait nanos :: rest => nanos + waited rest
  | .turn _ :: rest => waited rest

theorem waited_append (first later : List Move) :
    waited (first ++ later) = waited first + waited later := by
  induction first with
  | nil => simp [waited]
  | cons m first ih => cases m <;> simp [waited, ih, Nat.add_assoc]

theorem arrival_append (i : Nat) (clock : Instant) (first later : List Move) :
    arrival i clock (first ++ later) =
      (arrival i clock first).or (arrival i (clock + waited first) later) := by
  induction first generalizing clock with
  | nil => rfl
  | cons m first ih =>
    cases m with
    | wait nanos =>
      rw [List.cons_append, arrival, ih, arrival, waited]
      exact congrArg (fun t => (arrival i (clock + nanos) first).or (arrival i t later))
        (Nat.add_assoc ..)
    | turn j =>
      rw [List.cons_append, arrival, arrival, waited, ih]
      split <;> rfl

/-- Whoever has arrived goes on to go by the same time. -/
def Extends (reading later : Nat → Option Instant) : Prop :=
  ∀ ⦃i : Nat⦄ ⦃t : Instant⦄, reading i = some t → later i = some t

theorem arrival_extends (clock : Instant) (first later : List Move) :
    Extends (arrival · clock first) (arrival · clock (first ++ later)) := by
  intro i t h
  simp only at h ⊢
  rw [arrival_append, h, Option.some_or]

/-- A bucket is stale to a sweep if the one who was the last to use it, in the order in which they
came to it, had arrived so long before the sweep. Whoever arrived early and was held up on the way
makes a bucket look older than it is. -/
def Stale (reading : Nat → Option Instant) (i : Nat) (span : Duration) (id : Nat)
    (seen : List Entry) : Prop :=
  ∃ user used begun, lastUse id seen = some user ∧ reading user.actor = some used ∧
    reading i = some begun ∧ used + span.nanos ≤ begun

/-- Nobody has used a bucket for so long before a sweep, but for a time to be allowed for. -/
def Idle (reading : Nat → Option Instant) (i : Nat) (span : Duration) (allowed id : Nat)
    (seen : List Entry) : Prop :=
  ∀ e ∈ seen, e.uses id = true → ∃ begun, reading i = some begun ∧
    e.time + span.nanos ≤ begun + allowed

section Ages

variable {reading later : Nat → Option Instant} {i id : Nat} {span : Duration} {seen : List Entry}

theorem Stale.mono (h : Stale reading i span id seen) (he : Extends reading later) :
    Stale later i span id seen := by
  obtain ⟨user, used, begun, hlast, huser, hbegun, hle⟩ := h
  exact ⟨user, used, begun, hlast, he huser, he hbegun, hle⟩

/-- The time that its last user was held up on the way is all that a stale bucket may lack. -/
theorem Stale.idle (h : Stale reading i span id seen) (hs : seen.Pairwise (·.time ≤ ·.time))
    {user : Entry} {used : Instant} (hlast : lastUse id seen = some user)
    (hused : reading user.actor = some used) (hle : used ≤ user.time) :
    Idle reading i span (user.time - used) id seen := by
  obtain ⟨user', used', begun, hlast', hused', hbegun, hlong⟩ := h
  obtain rfl := Option.some.inj (hlast.symm.trans hlast')
  obtain rfl := Option.some.inj (hused.symm.trans hused')
  obtain ⟨front, hfront⟩ := List.getLast?_eq_some_iff.mp hlast
  intro e he hu
  have hbefore : e.time ≤ user.time := by
    have hm : e ∈ front ++ [user] := hfront ▸ List.mem_filter.mpr ⟨he, hu⟩
    have hfilter := hs.filter (·.uses id)
    rw [hfront] at hfilter
    rcases List.mem_append.mp hm with hm | hm
    · exact (List.pairwise_append.mp hfilter).2.2 e hm user List.mem_cons_self
    · exact (List.mem_singleton.mp hm ▸ le_refl _)
  refine ⟨begun, hbegun, ?_⟩
  calc e.time + span.nanos ≤ user.time + span.nanos := Nat.add_le_add_right hbefore _
    _ = used + span.nanos + (user.time - used) := by
      rw [Nat.add_right_comm, Nat.add_sub_cancel' hle]
    _ ≤ begun + (user.time - used) := Nat.add_le_add_right hlong _

end Ages

/-! ### The store and what was done to it -/

namespace Store

variable {R : Type}

theorem keys_removeIf (s : Store R) (key : String) (id : Nat) :
    List.Sublist (s.removeIf key id).1.index.keys s.index.keys := by
  unfold removeIf
  split
  · exact List.filter_sublist.map _
  · exact List.Sublist.refl _

theorem active_removeIf {s : Store R} (hn : s.index.keys.Nodup) {key : String} {id : Nat}
    (h : s.index.get? key = some id) : (s.removeIf key id).1.active + 1 = s.active := by
  have hcount : s.index.countP (·.1 == key) = 1 := by
    have hkey : key ∈ s.index.keys := List.mem_map_of_mem (Table.mem_of_get? h)
    have hone := List.count_eq_one_of_mem hn hkey
    rw [Table.keys, List.count, List.countP_map] at hone
    exact hone
  have hlength := List.length_eq_countP_add_countP (fun entry : String × Nat => entry.1 == key)
    (l := s.index)
  rw [active, removeIf, if_pos h, active, ← List.countP_eq_length_filter, hlength, hcount,
    Nat.add_comm]
  refine congrArg (1 + ·) (List.countP_congr fun entry _ => ?_)
  simp

variable [Amount R]

theorem locate_of_none {s : Store R} {key : String} (h : s.index.get? key = none)
    (capacity : Nat) (now : Instant) :
    s.locate key capacity now = (⟨s.buckets.push (.full capacity now),
      s.index ++ [(key, s.buckets.size)]⟩, s.buckets.size) := by
  have hkey : key ∉ s.index.keys := by
    intro hm
    obtain ⟨entry, hmem, rfl⟩ := List.mem_map.mp hm
    have hne := List.lookup_eq_none_iff.mp h entry hmem
    simp at hne
  simp [locate, h, Table.insert_of_notMem _ hkey]

end Store

/-- Only an admitted call moves the time of the last use. -/
theorem Bucket.used_decide {R : Type} [Amount R] (b : Bucket R) (capacity : Nat) (rate : R)
    (now : Instant) :
    (∃ remaining, (b.decide capacity rate now).2 = some (.admitted remaining) ∧
        (b.decide capacity rate now).1.used = now) ∨
      (∀ remaining, (b.decide capacity rate now).2 ≠ some (.admitted remaining)) ∧
        (b.decide capacity rate now).1.used = b.used := by
  have hrefill : (b.refill capacity rate now).used = b.used := by
    unfold Bucket.refill
    split <;> rfl
  rw [Bucket.decide, Bucket.take]
  split
  · exact .inl ⟨_, rfl, rfl⟩
  · exact .inr ⟨by simp, hrefill⟩

/-! ### One move -/

def Note.isQuiet : Note → Bool
  | .listed _ | .inspected .. => true
  | _ => false

theorem Entry.of_isQuiet {e : Entry} (h : e.note.isQuiet = true) :
    e.created? = none ∧ e.removed? = none ∧ ∀ id, e.uses id = false := by
  obtain ⟨time, actor, note⟩ := e
  cases note with
  | listed entries => exact ⟨rfl, rfl, fun _ => rfl⟩
  | inspected key id stale => exact ⟨rfl, rfl, fun _ => rfl⟩
  | created key id now => cases h
  | decided key id answer => cases h
  | removed key id => cases h

section Steps

variable {R : Type} [Amount R]

/-- What the store holds is what the history tells. -/
structure Tracks (reading : Nat → Option Instant) (s : Store R) (history : List Entry) : Prop where
  valid : s.Valid
  nodup : s.index.keys.Nodup
  created_eq : created history = List.range s.buckets.size
  removed_nodup : (removed history).Nodup
  removed_lt : ∀ id ∈ removed history, id < s.buckets.size
  inUse_iff : ∀ id, (∃ key, s.index.get? key = some id) ↔
    id < s.buckets.size ∧ id ∉ removed history
  active_eq : s.active + (removed history).length = s.buckets.size
  used : ∀ {id : Nat} {b : Bucket R}, s.buckets[id]? = some b →
    ∃ user, lastUse id history = some user ∧ reading user.actor = some b.used

/-- What a move does to the store, by an actor that goes by a time. -/
inductive Effect (time : Option Instant) (s : Store R) : Store R → List Note → Prop
  | quiet {notes : List Note} (h : ∀ note ∈ notes, note.isQuiet = true) : Effect time s s notes
  | creates {key : String} (capacity : Nat) {now : Instant} (ht : time = some now)
    (h : s.index.get? key = none) :
    Effect time s (s.locate key capacity now).1 [.created key s.buckets.size now]
  | decides (key : String) {id : Nat} (capacity : Nat) (rate : R) {now : Instant}
    (ht : time = some now) (h : id < s.buckets.size) :
    Effect time s (s.decideAt id capacity rate now).1
      [.decided key id (s.decideAt id capacity rate now).2]
  | removes {key : String} {id : Nat} (h : s.index.get? key = some id) :
    Effect time s (s.removeIf key id).1 [.removed key id]

variable {reading later : Nat → Option Instant} {s next : Store R} {history : List Entry}
  {clock : Instant} {i : Nat} {span : Duration} {notes : List Note} {isLocked : Nat → Bool}

omit [Amount R] in
theorem Tracks.mono (h : Tracks reading s history) (he : Extends reading later) :
    Tracks later s history := by
  refine ⟨h.valid, h.nodup, h.created_eq, h.removed_nodup, h.removed_lt, h.inUse_iff,
    h.active_eq, ?_⟩
  intro id b hb
  obtain ⟨user, hlast, hused⟩ := h.used hb
  exact ⟨user, hlast, he hused⟩

omit [Amount R] in
theorem Tracks.quiet (h : Tracks reading s history) (hq : ∀ note ∈ notes, note.isQuiet = true) :
    Tracks reading s (history ++ notes.map (⟨clock, i, ·⟩)) := by
  have hentries : ∀ e ∈ notes.map (Entry.mk clock i), e.note.isQuiet = true := by
    intro e he
    obtain ⟨note, hn, rfl⟩ := List.mem_map.mp he
    exact hq note hn
  have hcreated : created (notes.map (⟨clock, i, ·⟩)) = [] :=
    List.filterMap_eq_nil_iff.mpr fun e he => (Entry.of_isQuiet (hentries e he)).1
  have hremoved : removed (notes.map (⟨clock, i, ·⟩)) = [] :=
    List.filterMap_eq_nil_iff.mpr fun e he => (Entry.of_isQuiet (hentries e he)).2.1
  have hc : created (history ++ notes.map (⟨clock, i, ·⟩)) = created history := by
    rw [created_append, hcreated, List.append_nil]
  have hr : removed (history ++ notes.map (⟨clock, i, ·⟩)) = removed history := by
    rw [removed_append, hremoved, List.append_nil]
  constructor
  case valid => exact h.valid
  case nodup => exact h.nodup
  case created_eq => rw [hc, h.created_eq]
  case removed_nodup => rw [hr]; exact h.removed_nodup
  case removed_lt => rw [hr]; exact h.removed_lt
  case inUse_iff => rw [hr]; exact h.inUse_iff
  case active_eq => rw [hr]; exact h.active_eq
  case used =>
    intro id b hb
    rw [lastUse_append_of_unused fun e he => (Entry.of_isQuiet (hentries e he)).2.2 id]
    exact h.used hb

theorem Tracks.creates (h : Tracks reading s history) {key : String} {now : Instant}
    (hr : reading i = some now) (hi : s.index.get? key = none) (capacity : Nat) :
    Tracks reading (s.locate key capacity now).1
      (history ++ [⟨clock, i, .created key s.buckets.size now⟩]) := by
  have hvalid := (Store.locate_valid h.valid key capacity now).1
  have hsame : removed (history ++ [⟨clock, i, .created key s.buckets.size now⟩]) =
      removed history := by
    rw [removed_append]
    exact List.append_nil _
  have hkeys : (s.locate key capacity now).1.index.keys.Nodup := by
    simpa [Store.locate, hi] using Table.nodup_keys_insert h.nodup key s.buckets.size
  have hget := fun other => s.get?_locate key other capacity now
  rw [Store.locate_of_none hi] at hvalid hkeys hget ⊢
  constructor
  case valid => exact hvalid
  case nodup => exact hkeys
  case created_eq =>
    rw [created_append, h.created_eq, Array.size_push, List.range_succ]
    rfl
  case removed_nodup => rw [hsame]; exact h.removed_nodup
  case removed_lt =>
    rw [hsame, Array.size_push]
    exact fun id hid => Nat.lt_succ_of_lt (h.removed_lt id hid)
  case inUse_iff =>
    intro id
    rw [hsame, Array.size_push]
    constructor
    · rintro ⟨other, ho⟩
      rw [hget] at ho
      split at ho
      · obtain rfl := Option.some.inj ho
        exact ⟨Nat.lt_succ_self _, fun hm => Nat.lt_irrefl _ (h.removed_lt _ hm)⟩
      · have hbefore := (h.inUse_iff id).mp ⟨other, ho⟩
        exact ⟨Nat.lt_succ_of_lt hbefore.1, hbefore.2⟩
    · rintro ⟨hlt, hm⟩
      rcases Nat.lt_succ_iff_lt_or_eq.mp hlt with hlt | rfl
      · obtain ⟨other, ho⟩ := (h.inUse_iff id).mpr ⟨hlt, hm⟩
        have hne : other ≠ key := by
          rintro rfl
          rw [hi] at ho
          cases ho
        exact ⟨other, by rw [hget, if_neg hne, ho]⟩
      · exact ⟨key, by rw [hget, if_pos rfl]⟩
  case active_eq =>
    have hactive := h.active_eq
    rw [hsame, Store.active, List.length_append, List.length_singleton, Array.size_push]
    rw [Store.active] at hactive
    omega
  case used =>
    intro id b hb
    rw [Array.getElem?_push] at hb
    split at hb
    · -- The new bucket has been used by its creator alone.
      obtain rfl := Option.some.inj hb
      subst_vars
      exact ⟨_, lastUse_append_use (by simp [Entry.uses]), hr⟩
    · rw [lastUse_append_of_unused]
      · exact h.used hb
      · have hne : s.buckets.size ≠ id := Ne.symm ‹_›
        simpa [Entry.uses] using hne

theorem Tracks.decides (h : Tracks reading s history) {id : Nat} {now : Instant}
    (hr : reading i = some now) (hlt : id < s.buckets.size) (key : String) (capacity : Nat)
    (rate : R) :
    Tracks reading (s.decideAt id capacity rate now).1
      (history ++ [⟨clock, i, .decided key id (s.decideAt id capacity rate now).2⟩]) := by
  have hb : s.buckets[id]? = some s.buckets[id] := Array.getElem?_eq_getElem hlt
  have hd : s.decideAt id capacity rate now =
      ({ s with buckets := s.buckets.set! id (s.buckets[id].decide capacity rate now).1 },
        (s.buckets[id].decide capacity rate now).2) := by
    simp only [Store.decideAt, hb]
  rw [hd]
  have hsize : (s.buckets.set! id (s.buckets[id].decide capacity rate now).1).size =
      s.buckets.size := Array.size_setIfInBounds
  have hsame : removed (history ++ [⟨clock, i, .decided key id
      (s.buckets[id].decide capacity rate now).2⟩]) = removed history := by
    rw [removed_append]
    exact List.append_nil _
  constructor
  case valid =>
    exact ⟨fun ho => hsize.symm ▸ h.valid.id_lt ho, h.valid.key_eq⟩
  case nodup => exact h.nodup
  case created_eq =>
    rw [created_append, h.created_eq, hsize]
    exact List.append_nil _
  case removed_nodup => rw [hsame]; exact h.removed_nodup
  case removed_lt => rw [hsame, hsize]; exact h.removed_lt
  case inUse_iff => rw [hsame, hsize]; exact h.inUse_iff
  case active_eq =>
    rw [hsame, hsize]
    exact h.active_eq
  case used =>
    intro other b ho
    by_cases he : id = other
    · subst he
      obtain rfl : (s.buckets[id].decide capacity rate now).1 = b := by simpa [hlt] using ho
      rcases s.buckets[id].used_decide capacity rate now with
        ⟨remaining, hanswer, hused⟩ | ⟨hanswer, hused⟩
      · refine ⟨_, lastUse_append_use (Entry.uses_decided_iff.mpr ⟨rfl, remaining, hanswer⟩), ?_⟩
        rw [hused]
        exact hr
      · rw [lastUse_append_of_unused, hused]
        · exact h.used hb
        · refine List.forall_mem_singleton.mpr (Bool.eq_false_iff.mpr fun hu => ?_)
          obtain ⟨-, remaining, ha⟩ := Entry.uses_decided_iff.mp hu
          exact hanswer remaining ha
    · rw [lastUse_append_of_unused]
      · exact h.used (by simpa [he] using ho)
      · refine List.forall_mem_singleton.mpr (Bool.eq_false_iff.mpr fun hu => ?_)
        exact he (Entry.uses_decided_iff.mp hu).1

omit [Amount R] in
theorem Tracks.removes (h : Tracks reading s history) {key : String} {id : Nat}
    (hi : s.index.get? key = some id) :
    Tracks reading (s.removeIf key id).1 (history ++ [⟨clock, i, .removed key id⟩]) := by
  have hmore : removed (history ++ [⟨clock, i, .removed key id⟩]) = removed history ++ [id] :=
    removed_append
  have hsize : (s.removeIf key id).1.buckets.size = s.buckets.size := by
    rw [Store.buckets_removeIf]
  constructor
  case valid => exact h.valid.remove [(key, id)]
  case nodup => exact (s.keys_removeIf key id).nodup h.nodup
  case created_eq =>
    rw [created_append, h.created_eq, hsize]
    exact List.append_nil _
  case removed_nodup =>
    rw [hmore]
    refine List.nodup_append.mpr ⟨h.removed_nodup, List.nodup_singleton id, ?_⟩
    intro other ho id' hid he
    obtain rfl := List.mem_singleton.mp hid
    exact ((h.inUse_iff _).mp ⟨key, hi⟩).2 (he ▸ ho)
  case removed_lt =>
    rw [hmore, hsize]
    intro other ho
    rcases List.mem_append.mp ho with ho | ho
    · exact h.removed_lt other ho
    · exact List.mem_singleton.mp ho ▸ h.valid.id_lt hi
  case inUse_iff =>
    intro other
    rw [hmore, hsize, List.mem_append, List.mem_singleton, not_or]
    constructor
    · rintro ⟨k, ho⟩
      rw [Store.get?_removeIf] at ho
      split at ho
      · cases ho
      · rename_i hne
        have hbefore := (h.inUse_iff other).mp ⟨k, ho⟩
        refine ⟨hbefore.1, hbefore.2, ?_⟩
        rintro rfl
        exact hne ⟨h.valid.key_eq ho hi, hi⟩
    · rintro ⟨hlt, hm, hne⟩
      obtain ⟨k, ho⟩ := (h.inUse_iff other).mpr ⟨hlt, hm⟩
      have hk : k ≠ key := by
        rintro rfl
        exact hne (Option.some.inj (ho.symm.trans hi))
      exact ⟨k, by rw [Store.get?_removeIf, if_neg (fun hc => hk hc.1), ho]⟩
  case active_eq =>
    have hactive := Store.active_removeIf h.nodup hi
    have hall := h.active_eq
    rw [hmore, hsize, List.length_append, List.length_singleton]
    omega
  case used =>
    intro other b hb
    rw [Store.buckets_removeIf] at hb
    rw [lastUse_append_of_unused (by simp [Entry.uses])]
    exact h.used hb

theorem Tracks.effect (h : Tracks reading s history) (he : Effect (reading i) s next notes) :
    Tracks reading next (history ++ notes.map (⟨clock, i, ·⟩)) := by
  cases he with
  | quiet hq => exact h.quiet hq
  | creates capacity hr hi => exact h.creates hr hi capacity
  | decides key capacity rate hr hlt => exact h.decides hr hlt key capacity rate
  | removes hi => exact h.removes hi

end Steps

end Switchboard.RateLimit
