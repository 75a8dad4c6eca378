import Switchboard.Server.Consumer

/-! What the operations of a consumer do to its slots, its source and its receipts. -/

namespace Switchboard

theorem modify_eq_set {α : Type} {xs : Array α} {id : Nat} {x : α} (h : xs[id]? = some x)
    (f : α → α) : xs.modify id f = xs.setIfInBounds id (f x) := by
  apply Array.ext_getElem?
  intro j
  rw [Array.getElem?_modify, Array.getElem?_setIfInBounds]
  split
  · subst_vars
    rw [h, if_pos (Array.getElem?_eq_some_iff.mp h).1, Option.map_some]
  · rfl

theorem countP_setIfInBounds {α : Type} {xs : Array α} {id : Nat} {x : α} (h : xs[id]? = some x)
    (y : α) (p : α → Bool) :
    (xs.setIfInBounds id y).countP p + (if p x then 1 else 0) =
      xs.countP p + if p y then 1 else 0 := by
  obtain ⟨hid, rfl⟩ := Array.getElem?_eq_some_iff.mp h
  have hle : (if p xs[id] then 1 else 0) ≤ xs.countP p := by
    split
    · rename_i hp
      exact Array.countP_pos_iff.mpr ⟨_, Array.getElem_mem hid, hp⟩
    · exact Nat.zero_le _
  rw [Array.setIfInBounds, dif_pos hid, Array.countP_set hid]
  omega

namespace Server.Consumer

variable (c : Consumer)

/-- The deliveries in the source, by their numbers. -/
def queue : List Nat :=
  (c.source.map (·.queue)).getD []

/-- The delivery that the intake takes if it is its turn. -/
def next? : Option Nat :=
  match c.advance.2 with
  | .takes number => some number
  | _ => none

/-! ### Receipts -/

theorem receipt?_settle (number : Nat) (receipt : Receipt) (m : Nat) :
    (c.settle number receipt).receipt? m =
      if number = m then (c.receipt? m).map fun _ => receipt else c.receipt? m := by
  simp only [settle, receipt?, Array.getElem?_modify]
  split <;> simp [Function.comp_def]

theorem delivery?_settle (number : Nat) (receipt : Receipt) (m : Nat) :
    (c.settle number receipt).delivery? m = c.delivery? m := by
  simp only [settle, delivery?, Array.getElem?_modify]
  split <;> simp [Function.comp_def]

theorem size_settle (number : Nat) (receipt : Receipt) :
    (c.settle number receipt).deliveries.size = c.deliveries.size := by
  simp [settle]

/-- The consumer with the deliveries of a list settled as dropped. -/
def dropAll (numbers : List Nat) : Consumer :=
  numbers.foldl (fun c number => c.settle number .dropped) c

theorem dropAll_cons (number : Nat) (numbers : List Nat) :
    c.dropAll (number :: numbers) = (c.settle number .dropped).dropAll numbers := rfl

theorem dropAll_eq (numbers : List Nat) :
    c.dropAll numbers = { c with deliveries := (c.dropAll numbers).deliveries } := by
  induction numbers generalizing c with
  | nil => rfl
  | cons number numbers ih => exact ih (c.settle number .dropped)

theorem receipt?_dropAll (numbers : List Nat) (m : Nat) :
    (c.dropAll numbers).receipt? m =
      if m ∈ numbers then (c.receipt? m).map fun _ => .dropped else c.receipt? m := by
  induction numbers generalizing c with
  | nil => rfl
  | cons number numbers ih =>
    rw [dropAll_cons, ih, receipt?_settle]
    by_cases hm : m ∈ numbers <;> by_cases hn : m = number <;>
      simp [hm, hn, Ne.symm, Function.comp_def]

theorem delivery?_dropAll (numbers : List Nat) (m : Nat) :
    (c.dropAll numbers).delivery? m = c.delivery? m := by
  induction numbers generalizing c with
  | nil => rfl
  | cons number numbers ih => rw [dropAll_cons, ih, delivery?_settle]

theorem size_dropAll (numbers : List Nat) :
    (c.dropAll numbers).deliveries.size = c.deliveries.size := by
  induction numbers generalizing c with
  | nil => rfl
  | cons number numbers ih => rw [dropAll_cons, ih, size_settle]

theorem endIntake_eq :
    c.endIntake =
      { c with deliveries := (c.dropAll c.queue).deliveries, intake := .idle, source := none } := by
  have hends : c.endIntake = { c.dropAll c.queue with intake := .idle, source := none } := rfl
  rw [hends, dropAll_eq]

theorem queue_endIntake : c.endIntake.queue = [] := by
  rw [endIntake_eq]
  rfl

theorem receipt?_endIntake (m : Nat) :
    c.endIntake.receipt? m =
      if m ∈ c.queue then (c.receipt? m).map fun _ => .dropped else c.receipt? m := by
  rw [endIntake_eq]
  exact c.receipt?_dropAll c.queue m

theorem delivery?_endIntake (m : Nat) : c.endIntake.delivery? m = c.delivery? m := by
  rw [endIntake_eq]
  exact c.delivery?_dropAll c.queue m

theorem size_endIntake : c.endIntake.deliveries.size = c.deliveries.size := by
  rw [endIntake_eq]
  exact c.size_dropAll c.queue

/-! ### The intake -/

/-- What a turn of the intake makes of a consumer, and the delivery that it takes. -/
inductive Turn : Consumer → Option Nat → Prop
  | waits : Turn c none
  | ends (hi : c.intake = .seeking) : Turn c.endIntake none
  | asks (hi : c.intake = .seeking) :
    Turn { c with
      gate := (c.gate.take .intake 1).1
      intake := if 1 ≤ c.gate.free then .receiving else .inLine } none
  | leaves (hi : c.intake = .inLine) (hw : c.gate.isWaiting .intake = true) :
    Turn { c with gate := (c.gate.leave .intake).1 }.endIntake none
  | gets (hi : c.intake = .inLine) (hw : c.gate.isWaiting .intake = false) :
    Turn { c with intake := .receiving } none
  | quits (hi : c.intake = .receiving ∨
      c.intake = .inLine ∧ c.gate.isWaiting .intake = false) : Turn (c.giveBack 1).1.endIntake none
  | takes {s : Source} {number : Nat} {rest : List Nat} (hi : c.intake = .receiving)
    (hs : c.source = some s) (hq : s.queue = number :: rest) :
    Turn { c with source := some { s with queue := rest }, intake := .seeking } (some number)

theorem turn_advance : c.Turn c.advance.1 c.next? := by
  rw [next?]
  cases hi : c.intake with
  | idle =>
    simp only [advance, hi]
    exact .waits
  | seeking =>
    cases hs : c.signalled with
    | true =>
      simp only [advance, hi, hs, if_true]
      exact .ends hi
    | false =>
      have hasks := Turn.asks hi
      by_cases hf : 1 ≤ c.gate.free
      · simpa [advance, hi, hs, Gate.take, hf] using hasks
      · simpa [advance, hi, hs, Gate.take, hf] using hasks
  | inLine =>
    cases hw : c.gate.isWaiting .intake with
    | true =>
      cases hs : c.signalled with
      | true =>
        have hleaves := Turn.leaves hi hw
        simpa [advance, hi, hw, hs] using hleaves
      | false =>
        simp only [advance, hi, hw, hs, if_true, Bool.false_eq_true, if_false]
        exact .waits
    | false =>
      cases hs : c.signalled with
      | true =>
        simp only [advance, hi, hw, hs, if_true, Bool.false_eq_true, if_false]
        exact .quits (.inr ⟨hi, hw⟩)
      | false =>
        have hgets := Turn.gets hi hw
        simpa [advance, hi, hw, hs] using hgets
  | receiving =>
    have hquits : c.Turn c.quit.1 none := .quits (.inl hi)
    cases hs : c.signalled with
    | true =>
      simp only [advance, hi, hs, if_true]
      exact hquits
    | false =>
      cases hsource : c.source with
      | none =>
        simp only [advance, hi, hs, hsource, Bool.false_eq_true, if_false]
        exact hquits
      | some s =>
        cases hq : s.queue with
        | cons number rest =>
          have htakes := Turn.takes hi hsource hq
          simpa [advance, hi, hs, hsource, hq] using htakes
        | nil =>
          cases ho : s.isOpen with
          | true =>
            simp only [advance, hi, hs, hsource, hq, ho, if_true, Bool.false_eq_true, if_false]
            exact .waits
          | false =>
            simp only [advance, hi, hs, hsource, hq, ho, Bool.false_eq_true, if_false]
            exact hquits

/-! ### What is done from outside -/

theorem push_eq {c next : Consumer} {topic : String} {handler : Handler}
    {names lines : List String} (h : c.push topic handler names = .ok (next, lines)) :
    ∃ router, next = { c with router := router } := by
  rw [push] at h
  cases hp : c.router.push topic handler names with
  | error e => simp [hp, Except.map] at h
  | ok result =>
    simp only [hp, Except.map, Except.ok.injEq, Prod.mk.injEq] at h
    exact ⟨result.1, h.1.symm⟩

theorem start_eq {c next : Consumer} {buffer : Nat} (h : c.start buffer = .ok next) :
    next = { c with
      running := true
      signalled := false
      intake := .seeking
      source := some ⟨Nat.max buffer 1, [], true⟩ } := by
  rw [start] at h
  split at h
  · cases h
  · exact (Except.ok.inj h).symm

theorem queue_send (d : Delivery) (hr : c.isReachable = true) :
    (c.send d).queue = c.queue ++ [c.deliveries.size] := by
  cases hs : c.source with
  | none => simp [isReachable, hs] at hr
  | some s => simp [send, queue, hs]

theorem queue_closeSource : c.closeSource.queue = c.queue := by
  cases hs : c.source <;> simp [closeSource, queue, hs]

/-! ### The end of the work on a delivery -/

/-- What becomes of a delivery whose call has ended so. -/
def receiptOf : Outcome → Instant → Receipt
  | .replied ctx, time => .replied ⟨ctx.response.status, ctx.response.headers, ctx.response.body⟩ time
  | .failed _, _ => .dropped

section Finish

variable (number : Option Nat) (outcome : Outcome) (time : Instant)

theorem gate_finish (n : Nat) :
    (c.finish (some n) outcome time).1.gate = (c.gate.give 1).1 := by
  cases outcome <;> rfl

theorem gate_finish_none : (c.finish none outcome time).1.gate = c.gate := by
  cases outcome <;> rfl

theorem intake_finish : (c.finish number outcome time).1.intake = c.intake := by
  cases outcome <;> cases number <;> rfl

theorem source_finish : (c.finish number outcome time).1.source = c.source := by
  cases outcome <;> cases number <;> rfl

theorem queue_finish : (c.finish number outcome time).1.queue = c.queue := by
  rw [queue, source_finish, queue]

theorem receipt?_finish (n m : Nat) :
    (c.finish (some n) outcome time).1.receipt? m =
      if n = m then (c.receipt? m).map fun _ => receiptOf outcome time else c.receipt? m := by
  cases outcome with
  | replied ctx => exact receipt?_settle { c with stats := c.stats.record _ } n _ m
  | failed fault => exact receipt?_settle c n _ m

theorem deliveries_finish_none : (c.finish none outcome time).1.deliveries = c.deliveries := by
  cases outcome <;> rfl

theorem delivery?_finish (m : Nat) :
    (c.finish number outcome time).1.delivery? m = c.delivery? m := by
  cases number with
  | none => rw [delivery?, deliveries_finish_none, delivery?]
  | some n =>
    cases outcome with
    | replied ctx => exact delivery?_settle { c with stats := c.stats.record _ } n _ m
    | failed fault => exact delivery?_settle c n _ m

theorem size_finish : (c.finish number outcome time).1.deliveries.size = c.deliveries.size := by
  cases number with
  | none => rw [deliveries_finish_none]
  | some n =>
    cases outcome with
    | replied ctx => exact size_settle { c with stats := c.stats.record _ } n _
    | failed fault => exact size_settle c n _

end Finish

end Server.Consumer

end Switchboard
