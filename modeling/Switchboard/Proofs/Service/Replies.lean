import Switchboard.Proofs.Router.History
import Switchboard.Proofs.Service.Capacity
import Switchboard.Proofs.Service.Origins

/-! What becomes of the deliveries of a consumer over a run: one task for each that is taken, at most
one reply, and nothing left in work when a stop is over. -/

namespace Switchboard

open RateLimit (Amount)
open Server

namespace Floor

variable {f : Floor} {i : Nat} {taken : List Nat} {c : Consumer} {dispatched : Nat → Call → Prop}
  {origin : Nat → Call}

theorem Books.exists_carrier (h : f.Books i taken c) {n : Nat} (hn : n ∈ taken) :
    ∃ (id : Nat) (task : Task), f.tasks[id]? = some task ∧ task.number? i = some n := by
  rw [← h.carried_eq, carried, List.mem_filterMap] at hn
  obtain ⟨task, ht, hn⟩ := hn
  obtain ⟨id, ht⟩ := List.getElem?_of_mem ht
  rw [Array.getElem?_toList] at ht
  exact ⟨id, task, ht, hn⟩

/-- A delivery that is settled has been through its call. -/
theorem Books.outcome (h : f.Books i taken c) (hd : f.Traced i dispatched origin) {n : Nat}
    (hn : n ∈ taken) {receipt : Receipt} (hr : c.receipt? n = some receipt)
    (hp : receipt ≠ .pending) :
    ∃ call trace outcome time, dispatched n call ∧ call.Runs trace outcome ∧
      receipt = Consumer.receiptOf outcome time := by
  obtain ⟨id, ⟨stage, owner⟩, ht, hnumber⟩ := h.exists_carrier hn
  have hreceipt := h.worked ht hnumber
  rw [hr] at hreceipt
  obtain rfl := Option.some.inj hreceipt
  cases stage with
  | ended outcome time =>
    have hfollows := hd.follows ht
    cases hfollows with
    | ended _ hruns =>
      rcases hd.routed ht hnumber with ⟨d, hd⟩ | hd
      · cases hd
      · exact ⟨_, _, _, time, hd, hruns, rfl⟩
  | _ => exact absurd rfl hp

theorem Books.reply (h : f.Books i taken c) (hd : f.Traced i dispatched origin) {n : Nat}
    {reply : Reply} {time : Instant} (hr : c.receipt? n = some (.replied reply time)) :
    ∃ call trace ctx, dispatched n call ∧ call.Runs trace (.replied ctx) ∧
      reply = ⟨ctx.response.status, ctx.response.headers, ctx.response.body⟩ := by
  obtain ⟨call, trace, outcome, time', hcall, hruns, he⟩ := h.outcome hd (h.replied hr) hr (by simp)
  cases outcome with
  | failed fault => cases he
  | replied ctx => exact ⟨call, trace, ctx, hcall, hruns, (Receipt.replied.inj he).1⟩

/-- What has not been taken when the intake ends is not taken later. -/
theorem Continues.missed {g : Floor} {taken' : List Nat} {c' : Consumer}
    (h : Continues i f taken c g taken' c') (hc : c.source = none) {n : Nat}
    (hn : n < c.deliveries.size) (hnot : n ∉ taken) : n ∉ taken' := by
  intro hm
  have hqueue : c.queue = [] := by rw [Consumer.queue, hc, Option.map_none, Option.getD_none]
  have hmem := h.grows.missed hn (List.mem_append_left _ hm)
  rw [hqueue, List.append_nil] at hmem
  exact hnot hmem

end Floor

namespace Watch

variable {R : Type} [Amount R] {i : Nat} {w w₀ : Watch R}

theorem reaches_await (i : Nat) (goal : Service R → Bool) (w : Watch R) :
    ∃ taken, w.Reaches i ⟨w.service.await goal, taken, w.stops⟩ := by
  rw [Service.await]
  split
  · exact ⟨w.taken, .refl⟩
  · exact reaches_drive i goal Service.patience w

theorem drainsInLine_of_isDrained {c : Consumer} (h : c.isDrained = true) : c.drainsInLine = 0 := by
  rw [Consumer.isDrained, Bool.not_eq_true', ← Bool.not_eq_true, Gate.isWaiting_iff_countP,
    Nat.not_lt, Nat.le_zero] at h
  exact h

/-- The drain of a consumer is one of these runs, up to the point where it gives the slots back. -/
theorem exists_reaches_drain {c : Consumer} (hf : w.service.floor.Fits)
    (hb : w.service.floor.Books i w.taken c) :
    ∃ waited c', w.Reaches i waited ∧ waited.stops = w.stops + 1 ∧
      waited.service.consumers[i]? = some c' ∧
      (c'.isDrained = true → c'.drainsInLine < waited.stops) ∧
      (w.service.drain i).floor = waited.service.floor.setConsumer i c'.endDrain.1 := by
  have hc : w.service.consumers[i]? = some c := hb.consumer_eq
  let begun : Watch R := ⟨w.service.setConsumer i c.beginDrain, w.taken, w.stops + 1⟩
  obtain ⟨taken, hawait⟩ := reaches_await i (Service.isDrained i) begun
  let waited : Watch R := ⟨begun.service.await (Service.isDrained i), taken, begun.stops⟩
  have hreaches : w.Reaches i waited := .head (.beginDrain hc) hawait
  obtain ⟨-, c', hgoes⟩ := (Floor.Continues.kept i _ _ _).reaches hf hreaches ⟨c, .refl hb⟩
  have hc' : waited.service.consumers[i]? = some c' := hgoes.books.consumer_eq
  refine ⟨waited, c', hreaches, rfl, hc', fun hd => ?_, ?_⟩
  · rw [drainsInLine_of_isDrained hd]
    exact Nat.succ_pos _
  simp only [Service.drain, hc]
  split
  · rename_i hnone
    rw [hc'] at hnone
    cases hnone
  · rename_i c'' hsome
    obtain rfl := Option.some.inj (hc'.symm.trans hsome)
    rw [Service.floor_enqueueAll]
    rfl

/-- So is the whole stop. -/
theorem exists_reaches_stopConsumer {c : Consumer} (hf : w.service.floor.Fits)
    (hb : w.service.floor.Books i w.taken c) :
    ∃ waited c', w.Reaches i waited ∧ waited.stops = w.stops + 1 ∧
      waited.service.consumers[i]? = some c' ∧
      (c'.isDrained = true → c'.drainsInLine < waited.stops) ∧
      (w.service.stopConsumer i).floor = waited.service.floor.setConsumer i c'.endDrain.1 := by
  have hc : w.service.consumers[i]? = some c := hb.consumer_eq
  simp only [Service.stopConsumer, hc]
  split
  · rename_i hrunning
    let signalled : Watch R := ⟨w.service.setConsumer i c.signal, w.taken, w.stops⟩
    have hsignal : w.Step i signalled := .change hc .signal
    let woken : Watch R :=
      { signalled with
        service := if c.intake = .idle then signalled.service
          else signalled.service.enqueue (.intake i) }
    have hwake : signalled.Step i woken := by
      refine .of_floor ?_
      split
      · rfl
      · rw [Service.floor_enqueue]
    obtain ⟨taken, hawait⟩ := reaches_await i (Service.isIdle i) woken
    have hreaches : w.Reaches i ⟨woken.service.await (Service.isIdle i), taken, w.stops⟩ :=
      .head hsignal (.head hwake hawait)
    obtain ⟨hf', c₁, hgoes⟩ := (Floor.Continues.kept i _ _ _).reaches hf hreaches ⟨c, .refl hb⟩
    obtain ⟨waited, c', hdrain, hstops⟩ := exists_reaches_drain hf' hgoes.books
    exact ⟨waited, c', hreaches.trans hdrain, hstops⟩
  · exact exists_reaches_drain hf hb

end Watch

end Switchboard
