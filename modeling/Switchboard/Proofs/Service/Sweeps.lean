import Mathlib.Order.Bounds.Basic
import Switchboard.Proofs.RateLimit.Eviction
import Switchboard.Proofs.Service.Schedules

/-! The background sweeps of a rate limiter. They come at equal intervals from the last start to the
next stop, and take away the buckets that no admitted call has used for long enough. -/

namespace Switchboard

open RateLimit
open Server

variable {R : Type} [Amount R] {key : String} {before rest history : List (Deed R)}
  {b : Bucket R} {used now : Instant} {after : Duration} {who : Option Nat}

/-- The buckets after what has been done to a store that was empty. -/
def storeAfter (history : List (Deed R)) : Store R :=
  (Store.empty.run (operations history)).1

/-- What the calls were told. -/
def logAfter (history : List (Deed R)) : Log R :=
  (Store.empty.run (operations history)).2

omit [Amount R] in
theorem mem_operations {op : Op R} :
    op ∈ operations history ↔ ∃ deed ∈ history, deed.op? = some op :=
  List.mem_filterMap

/-- Calls that are admitted where they find a full bucket, and all in order of time. -/
structure Orderly (history : List (Deed R)) : Prop where
  opens {op : Op R} : op ∈ operations history → op.Opens
  inOrder : history.Pairwise (·.time ≤ ·.time)

theorem Orderly.left (h : Orderly (before ++ rest)) : Orderly before where
  opens hop := h.opens (operations_append before rest ▸ List.mem_append_left _ hop)
  inOrder := (List.pairwise_append.mp h.inOrder).1

theorem exists_deed_of_admitted {s : Store R} {time : Instant}
    (h : time ∈ admittedTimes key (s.run (operations rest)).2) :
    ∃ deed ∈ rest, deed.time = time := by
  obtain ⟨entry, hm, rfl⟩ := exists_of_mem_admittedTimes h
  obtain ⟨deed, hdeed, hop⟩ := mem_operations.mp (Store.mem_of_mem_run hm)
  exact ⟨deed, hdeed, (Deed.time_of_op? hop).symm⟩

theorem Orderly.lastAdmitted_eq (h : Orderly history)
    (hb : (storeAfter history).bucketOf key = some b) :
    lastAdmitted key (logAfter history) = some b.used :=
  Store.lastAdmitted_of_bucket (fun _ => h.opens) hb

theorem Orderly.used_le (h : Orderly (before ++ rest))
    (hb : (storeAfter before).bucketOf key = some b) : ∀ deed ∈ rest, b.used ≤ deed.time := by
  intro deed hm
  have hlast := h.left.lastAdmitted_eq hb
  obtain ⟨admitted, hadmitted, ht⟩ := exists_deed_of_admitted (List.mem_of_getLast? hlast)
  rw [← ht]
  exact (List.pairwise_append.mp h.inOrder).2.2 _ hadmitted _ hm

namespace Service

variable {s₀ s : Service R} {j : Nat} {sweeper : Sweeper}

end Service

end Switchboard
