import Switchboard.Proofs.RateLimit.StoreView

/-! Calls and sweeps that work on one store at the same time, step by step. What a call or a sweep
does when nobody comes in between is what the store does in one piece. -/

namespace Switchboard.RateLimit

structure Demand (R : Type) where
  key : String
  capacity : Nat
  rate : R

/-- How far a call has got. It goes by the time that it has read on arriving. -/
inductive CallStage where
  | arriving
  | looking (now : Instant)
  /-- Has found no bucket. -/
  | creating (now : Instant)
  | locking (now : Instant) (id : Nat)
  /-- Holds the lock of a bucket. -/
  | deciding (now : Instant) (id : Nat)
  | answered (answer : Option Decision)

inductive SweepStage where
  | arriving
  | listing (now : Instant)
  | inspecting (now : Instant) (rest stale : List (String × Nat))
  | removing (rest : List (String × Nat)) (removed : Nat)

inductive Actor (R : Type) where
  | call (demand : Demand R) (stage : CallStage)
  | sweep (after : Duration) (stage : SweepStage)

/-- What can be seen of a step. -/
inductive Note where
  | created (key : String) (id : Nat) (now : Instant)
  | decided (key : String) (id : Nat) (answer : Option Decision)
  | listed (entries : List (String × Nat))
  | inspected (key : String) (id : Nat) (stale : Bool)
  | removed (key : String) (id : Nat)
deriving DecidableEq

structure Entry where
  time : Instant
  actor : Nat
  note : Note
deriving DecidableEq

inductive Move where
  | wait (nanos : Nat)
  | turn (actor : Nat)

structure Scene (R : Type) where
  clock : Instant
  store : Store R
  actors : List (Actor R)

variable {R : Type} [Amount R]

/-- The next step of a call, if it does not have to wait. The bucket is looked up once more before
one is created. -/
def Demand.step (d : Demand R) (clock : Instant) (isLocked : Nat → Bool) (s : Store R) :
    CallStage → Option (Store R × CallStage × List Note)
  | .arriving =>
    if Store.isUsable d.rate then some (s, .looking clock, [])
    else some (s, .answered (some (.rejected (.ofSeconds 1) 1)), [])
  | .looking now =>
    match s.index.get? d.key with
    | some id => some (s, .locking now id, [])
    | none => some (s, .creating now, [])
  | .creating now =>
    let (next, id) := s.locate d.key d.capacity now
    some (next, .locking now id,
      if (s.index.get? d.key).isNone then [.created d.key id now] else [])
  | .locking now id => if isLocked id then none else some (s, .deciding now id, [])
  | .deciding now id =>
    let (next, answer) := s.decideAt id d.capacity d.rate now
    some (next, .answered answer, [.decided d.key id answer])
  | .answered _ => none

/-- The next step of a sweep. It locks a bucket for no longer than it inspects it. -/
def SweepStage.step (after : Duration) (clock : Instant) (isLocked : Nat → Bool) (s : Store R) :
    SweepStage → Option (Store R × SweepStage × List Note)
  | arriving => some (s, listing clock, [])
  | listing now => some (s, inspecting now s.index [], [.listed s.index])
  | inspecting now ((key, id) :: rest) stale =>
    if isLocked id then none
    else if s.isStaleAt after now id then
      some (s, inspecting now rest (stale ++ [(key, id)]), [.inspected key id true])
    else some (s, inspecting now rest stale, [.inspected key id false])
  | inspecting _ [] stale => some (s, removing stale 0, [])
  | removing ((key, id) :: rest) count =>
    match s.removeIf key id with
    | (next, true) => some (next, removing rest (count + 1), [.removed key id])
    | (next, false) => some (next, removing rest count, [])
  | removing [] _ => none

namespace Actor

def step (clock : Instant) (isLocked : Nat → Bool) (s : Store R) :
    Actor R → Option (Store R × Actor R × List Note)
  | call d stage =>
    (d.step clock isLocked s stage).map fun (next, stage, notes) => (next, call d stage, notes)
  | sweep after stage =>
    (stage.step after clock isLocked s).map fun (next, stage, notes) =>
      (next, sweep after stage, notes)

omit [Amount R] in
def holds (id : Nat) : Actor R → Bool
  | call _ (.deciding _ held) => held == id
  | _ => false

end Actor

namespace Scene

def ofDemands (clock : Instant) (s : Store R) (demands : List (Demand R)) : Scene R :=
  ⟨clock, s, demands.map (.call · .arriving)⟩

def isLocked (s : Scene R) (id : Nat) : Bool :=
  s.actors.any (·.holds id)

def move (s : Scene R) : Move → Option (Scene R × List Entry)
  | .wait nanos => some ({ s with clock := s.clock + nanos }, [])
  | .turn i =>
    match s.actors[i]? with
    | none => none
    | some actor =>
      (actor.step s.clock s.isLocked s.store).map fun (store, next, notes) =>
        (⟨s.clock, store, s.actors.set i next⟩, notes.map (⟨s.clock, i, ·⟩))

/-- Makes moves in any order, as far as each can be made, and keeps what was seen. -/
def play (s : Scene R) : List Move → Option (Scene R × List Entry)
  | [] => some (s, [])
  | m :: rest =>
    match s.move m with
    | none => none
    | some (next, first) => (next.play rest).map fun (last, later) => (last, first ++ later)

/-- A move lets time pass, or it is a step of one of the actors. -/
theorem move_cases {s next : Scene R} {m : Move} {entries : List Entry}
    (hm : s.move m = some (next, entries)) :
    (∃ nanos, m = .wait nanos ∧ next = { s with clock := s.clock + nanos } ∧ entries = []) ∨
    ∃ i a store b notes, m = .turn i ∧ s.actors[i]? = some a ∧
      a.step s.clock s.isLocked s.store = some (store, b, notes) ∧
      next = ⟨s.clock, store, s.actors.set i b⟩ ∧ entries = notes.map (⟨s.clock, i, ·⟩) := by
  cases m with
  | wait nanos =>
    obtain ⟨rfl, rfl⟩ := by simpa [move] using hm
    exact .inl ⟨nanos, rfl, rfl, rfl⟩
  | turn i =>
    rw [move] at hm
    cases ha : s.actors[i]? with
    | none => simp [ha] at hm
    | some a =>
      simp only [ha] at hm
      obtain ⟨⟨store, b, notes⟩, hstep, hres⟩ := Option.map_eq_some_iff.mp hm
      obtain ⟨rfl, rfl⟩ := Prod.mk.inj hres
      exact .inr ⟨i, a, store, b, notes, rfl, ha, hstep, rfl, rfl⟩

theorem play_cons_eq_some_iff {s last : Scene R} {m : Move} {rest : List Move}
    {history : List Entry} :
    s.play (m :: rest) = some (last, history) ↔
      ∃ next first later, s.move m = some (next, first) ∧ next.play rest = some (last, later) ∧
        history = first ++ later := by
  rw [play]
  cases hm : s.move m with
  | none => simp
  | some r =>
    obtain ⟨next, first⟩ := r
    constructor
    · intro h
      obtain ⟨⟨last', later⟩, hp, he⟩ := Option.map_eq_some_iff.mp h
      obtain ⟨rfl, rfl⟩ := Prod.mk.inj he
      exact ⟨next, first, later, rfl, hp, rfl⟩
    · rintro ⟨_, _, later, he, hp, rfl⟩
      obtain ⟨rfl, rfl⟩ := Prod.mk.inj (Option.some.inj he)
      exact Option.map_eq_some_iff.mpr ⟨(last, later), hp, rfl⟩

/-! ### Nobody in between -/

/-- What the turns of an actor that is alone come to. -/
def Settles (s last : Scene R) : Prop :=
  ∃ n history, s.play (List.replicate n (.turn 0)) = some (last, history)

theorem Settles.refl (s : Scene R) : s.Settles s :=
  ⟨0, [], rfl⟩

theorem Settles.step {clock : Instant} {s store : Store R} {actor next : Actor R}
    {notes : List Note} {last : Scene R}
    (h : actor.step clock (isLocked ⟨clock, s, [actor]⟩) s = some (store, next, notes))
    (ht : Settles ⟨clock, store, [next]⟩ last) : Settles ⟨clock, s, [actor]⟩ last := by
  obtain ⟨n, history, hp⟩ := ht
  have hm : (⟨clock, s, [actor]⟩ : Scene R).move (.turn 0) =
      some (⟨clock, store, [next]⟩, notes.map (⟨clock, 0, ·⟩)) := by
    simp only [move, List.getElem?_cons_zero, h, Option.map_some, List.set_cons_zero]
  exact ⟨n + 1, _, play_cons_eq_some_iff.mpr ⟨_, _, history, hm, hp, rfl⟩⟩

variable {clock : Instant} {s : Store R}

theorem settles_locking {d : Demand R} {now : Instant} {id : Nat} :
    Settles ⟨clock, s, [.call d (.locking now id)]⟩
      ⟨clock, (s.decideAt id d.capacity d.rate now).1,
        [.call d (.answered (s.decideAt id d.capacity d.rate now).2)]⟩ :=
  .step rfl (.step rfl (.refl _))

/-- A call that nobody comes in between is an acquisition. -/
theorem settles_call (clock : Instant) (s : Store R) (d : Demand R) :
    Settles ⟨clock, s, [.call d .arriving]⟩
      ⟨clock, (s.acquire d.key d.capacity d.rate clock).1,
        [.call d (.answered (s.acquire d.key d.capacity d.rate clock).2)]⟩ := by
  by_cases hr : Store.isUsable d.rate = true
  · have harrive : (Actor.call d .arriving).step clock
        (isLocked ⟨clock, s, [.call d .arriving]⟩) s = some (s, .call d (.looking clock), []) := by
      simp [Actor.step, Demand.step, hr]
    refine .step harrive ?_
    cases hi : s.index.get? d.key with
    | some id =>
      have hlook : (Actor.call d (.looking clock)).step clock
          (isLocked ⟨clock, s, [.call d (.looking clock)]⟩) s =
            some (s, .call d (.locking clock id), []) := by
        simp [Actor.step, Demand.step, hi]
      have ha : s.acquire d.key d.capacity d.rate clock =
          s.decideAt id d.capacity d.rate clock := by
        simp [Store.acquire, hr, Store.locate, hi]
      rw [ha]
      exact .step hlook settles_locking
    | none =>
      have hlook : (Actor.call d (.looking clock)).step clock
          (isLocked ⟨clock, s, [.call d (.looking clock)]⟩) s =
            some (s, .call d (.creating clock), []) := by
        simp [Actor.step, Demand.step, hi]
      have ha : s.acquire d.key d.capacity d.rate clock =
          (s.locate d.key d.capacity clock).1.decideAt (s.locate d.key d.capacity clock).2
            d.capacity d.rate clock := by
        simp [Store.acquire, hr]
      rw [ha]
      exact .step hlook (.step rfl settles_locking)
  · have harrive : (Actor.call d .arriving).step clock
        (isLocked ⟨clock, s, [.call d .arriving]⟩) s =
          some (s, .call d (.answered (some (.rejected (.ofSeconds 1) 1))), []) := by
      simp [Actor.step, Demand.step, hr]
    have ha : s.acquire d.key d.capacity d.rate clock =
        (s, some (.rejected (.ofSeconds 1) 1)) := by
      simp [Store.acquire, hr]
    rw [ha]
    exact .step harrive (.refl _)

theorem settles_removing (clock : Instant) (s : Store R) (after : Duration)
    (rest : List (String × Nat)) (count : Nat) :
    Settles ⟨clock, s, [.sweep after (.removing rest count)]⟩
      ⟨clock, (s.removeAll rest).1,
        [.sweep after (.removing [] (count + (s.removeAll rest).2))]⟩ := by
  induction rest generalizing s count with
  | nil => exact .refl _
  | cons p rest ih =>
    obtain ⟨key, id⟩ := p
    cases hr : s.removeIf key id with
    | mk next removed =>
      cases removed with
      | true =>
        have hstep : (Actor.sweep after (.removing ((key, id) :: rest) count)).step clock
            (isLocked ⟨clock, s, [.sweep after (.removing ((key, id) :: rest) count)]⟩) s =
              some (next, .sweep after (.removing rest (count + 1)), [.removed key id]) := by
          simp [Actor.step, SweepStage.step, hr]
        have hall : s.removeAll ((key, id) :: rest) =
            ((next.removeAll rest).1, (next.removeAll rest).2 + 1) := by
          simp [Store.removeAll, hr]
        rw [hall, Nat.add_comm _ 1, ← Nat.add_assoc]
        exact .step hstep (ih next (count + 1))
      | false =>
        have hstep : (Actor.sweep after (.removing ((key, id) :: rest) count)).step clock
            (isLocked ⟨clock, s, [.sweep after (.removing ((key, id) :: rest) count)]⟩) s =
              some (next, .sweep after (.removing rest count), []) := by
          simp [Actor.step, SweepStage.step, hr]
        have hall : s.removeAll ((key, id) :: rest) = next.removeAll rest := by
          simp [Store.removeAll, hr]
        rw [hall]
        exact .step hstep (ih next count)

theorem settles_inspecting {after : Duration} {now : Instant} {rest stale : List (String × Nat)}
    {last : Scene R}
    (h : Settles ⟨clock, s, [.sweep after (.removing
      (stale ++ rest.filter fun entry => s.isStaleAt after now entry.2) 0)]⟩ last) :
    Settles ⟨clock, s, [.sweep after (.inspecting now rest stale)]⟩ last := by
  induction rest generalizing stale with
  | nil =>
    rw [List.filter_nil, List.append_nil] at h
    exact .step rfl h
  | cons p rest ih =>
    obtain ⟨key, id⟩ := p
    by_cases hs : s.isStaleAt after now id = true
    · have hstep : (Actor.sweep after (.inspecting now ((key, id) :: rest) stale)).step clock
          (isLocked ⟨clock, s, [.sweep after (.inspecting now ((key, id) :: rest) stale)]⟩) s =
            some (s, .sweep after (.inspecting now rest (stale ++ [(key, id)])),
              [.inspected key id true]) := by
        simp [Actor.step, SweepStage.step, isLocked, Actor.holds, hs]
      rw [List.filter_cons, if_pos hs, List.append_cons] at h
      exact .step hstep (ih h)
    · have hstep : (Actor.sweep after (.inspecting now ((key, id) :: rest) stale)).step clock
          (isLocked ⟨clock, s, [.sweep after (.inspecting now ((key, id) :: rest) stale)]⟩) s =
            some (s, .sweep after (.inspecting now rest stale), [.inspected key id false]) := by
        simp [Actor.step, SweepStage.step, isLocked, Actor.holds, hs]
      rw [List.filter_cons, if_neg hs] at h
      exact .step hstep (ih h)

/-- A sweep that nobody comes in between is an eviction. -/
theorem settles_sweep (clock : Instant) (s : Store R) (after : Duration) :
    Settles ⟨clock, s, [.sweep after .arriving]⟩
      ⟨clock, (s.evict after clock).1, [.sweep after (.removing [] (s.evict after clock).2)]⟩ := by
  have hremove := settles_removing clock s after
    (s.index.filter fun entry => s.isStaleAt after clock entry.2) 0
  rw [Nat.zero_add] at hremove
  exact .step rfl (.step rfl (settles_inspecting hremove))

end Scene

end Switchboard.RateLimit
