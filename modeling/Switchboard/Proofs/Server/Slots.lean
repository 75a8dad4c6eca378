import Mathlib.Algebra.BigOperators.Group.List.Basic
import Mathlib.Algebra.GroupWithZero.Nat
import Switchboard.Server.Gate

/-! The slots of a gate as an account, kept by everybody who takes slots and gives them back. -/

namespace Switchboard.Server.Gate

variable {ι : Type}

/-- The slots that a line has gathered. -/
def gathered (line : List (Waiter ι)) : Nat :=
  (line.map (·.held)).sum

/-- The slots that a line waits for, with those that it has gathered. -/
def wanted (want : ι → Nat) (line : List (Waiter ι)) : Nat :=
  (line.map fun w => want w.who).sum

/-- Those who have asked for slots and have not given them back, be they served or in line, claim so
many slots together. -/
structure Account (want : ι → Nat) (limit : Nat) (g : Gate ι) (claims : Nat) : Prop where
  limit_eq : g.limit = limit
  waits : ∀ w ∈ g.line, w.held + w.missing = want w.who ∧ 0 < w.missing
  balance : g.free + gathered g.line + claims = limit + wanted want g.line

variable {want : ι → Nat} {limit claims count : Nat} {g : Gate ι} {line : List (Waiter ι)}

@[simp] theorem gathered_nil : gathered ([] : List (Waiter ι)) = 0 := rfl

@[simp] theorem gathered_cons (w : Waiter ι) (line : List (Waiter ι)) :
    gathered (w :: line) = w.held + gathered line := by
  simp [gathered]

@[simp] theorem gathered_append (first second : List (Waiter ι)) :
    gathered (first ++ second) = gathered first + gathered second := by
  simp [gathered]

@[simp] theorem wanted_nil : wanted want [] = 0 := rfl

@[simp] theorem wanted_cons (w : Waiter ι) (line : List (Waiter ι)) :
    wanted want (w :: line) = want w.who + wanted want line := by
  simp [wanted]

@[simp] theorem wanted_append (first second : List (Waiter ι)) :
    wanted want (first ++ second) = wanted want first + wanted want second := by
  simp [wanted]

theorem wanted_one (line : List (Waiter ι)) : wanted (fun _ => 1) line = line.length := by
  induction line with
  | nil => rfl
  | cons w line ih =>
    rw [wanted_cons, ih, List.length_cons]
    omega

/-! ### Handing out -/

theorem hand_cons_of_le {w : Waiter ι} (h : w.missing ≤ count) :
    hand count (w :: line) = ((hand (count - w.missing) line).1,
      (hand (count - w.missing) line).2.1, w.who :: (hand (count - w.missing) line).2.2) := by
  rw [hand, if_pos h]

theorem hand_cons_of_lt {w : Waiter ι} (h : ¬ w.missing ≤ count) :
    hand count (w :: line) =
      (0, { w with held := w.held + count, missing := w.missing - count } :: line, []) := by
  rw [hand, if_neg h]

@[simp] theorem free_give (g : Gate ι) (count : Nat) :
    (g.give count).1.free = g.free + (hand count g.line).1 := rfl

@[simp] theorem line_give (g : Gate ι) (count : Nat) :
    (g.give count).1.line = (hand count g.line).2.1 := rfl

/-- Those who are served leave the line from its front. -/
theorem who_hand (count : Nat) (line : List (Waiter ι)) :
    (hand count line).2.2 ++ (hand count line).2.1.map (·.who) = line.map (·.who) := by
  induction line generalizing count with
  | nil => rfl
  | cons w line ih =>
    by_cases hw : w.missing ≤ count
    · rw [hand_cons_of_le hw, List.cons_append, ih, List.map_cons]
    · rw [hand_cons_of_lt hw, List.nil_append, List.map_cons, List.map_cons]

theorem waits_hand (h : ∀ w ∈ line, w.held + w.missing = want w.who ∧ 0 < w.missing) :
    ∀ w ∈ (hand count line).2.1, w.held + w.missing = want w.who ∧ 0 < w.missing := by
  induction line generalizing count with
  | nil => simp [hand]
  | cons w line ih =>
    rw [List.forall_mem_cons] at h
    by_cases hw : w.missing ≤ count
    · rw [hand_cons_of_le hw]
      exact ih h.2
    · rw [hand_cons_of_lt hw, List.forall_mem_cons]
      have hw' := h.1
      exact ⟨by simp only; omega, h.2⟩

/-- What is handed out is gathered in the line, or makes up what those who are served have wanted. -/
theorem balance_hand (count : Nat)
    (h : ∀ w ∈ line, w.held + w.missing = want w.who ∧ 0 < w.missing) :
    (hand count line).1 + gathered (hand count line).2.1 + wanted want line =
      count + gathered line + wanted want (hand count line).2.1 := by
  induction line generalizing count with
  | nil => simp [hand]
  | cons w line ih =>
    rw [List.forall_mem_cons] at h
    by_cases hw : w.missing ≤ count
    · have hrest := ih (count - w.missing) h.2
      rw [hand_cons_of_le hw, gathered_cons, wanted_cons]
      simp only
      omega
    · rw [hand_cons_of_lt hw, gathered_cons, gathered_cons, wanted_cons, wanted_cons]
      simp only
      omega

/-! ### The account -/

theorem account_ofLimit (want : ι → Nat) (limit : Nat) : Account want limit (ofLimit limit) 0 :=
  ⟨rfl, by simp [ofLimit], rfl⟩

theorem Account.take (h : g.Account want limit claims) (who : ι) :
    (g.take who (want who)).1.Account want limit (claims + want who) := by
  obtain ⟨hlimit, hwaits, hbalance⟩ := h
  by_cases hfree : want who ≤ g.free
  · rw [Gate.take, if_pos hfree]
    refine ⟨hlimit, hwaits, ?_⟩
    simp only
    omega
  · rw [Gate.take, if_neg hfree]
    refine ⟨hlimit, ?_, ?_⟩
    · intro w hw
      rcases List.mem_append.mp hw with hw | hw
      · exact hwaits w hw
      · obtain rfl := List.mem_singleton.mp hw
        simp only
        omega
    · simp only [gathered_append, gathered_cons, gathered_nil, wanted_append, wanted_cons,
        wanted_nil]
      omega

theorem Account.give (h : g.Account want limit (claims + count)) :
    (g.give count).1.Account want limit claims := by
  obtain ⟨hlimit, hwaits, hbalance⟩ := h
  have hhand := balance_hand count hwaits
  refine ⟨hlimit, waits_hand hwaits, ?_⟩
  rw [free_give, line_give]
  omega

theorem who_give (g : Gate ι) (count : Nat) :
    (g.give count).2 ++ (g.give count).1.line.map (·.who) = g.line.map (·.who) :=
  who_hand count g.line

theorem who_give_sublist (g : Gate ι) (count : Nat) :
    ((g.give count).1.line.map (·.who)).Sublist (g.line.map (·.who)) := by
  rw [← who_give g count]
  exact List.sublist_append_right ..

theorem countP_give_le (g : Gate ι) (count : Nat) (p : ι → Bool) :
    (g.give count).1.line.countP (p ·.who) ≤ g.line.countP (p ·.who) := by
  have hle := (who_give_sublist g count).countP_le (p := p)
  simpa [List.countP_map, Function.comp_def] using hle

theorem gathered_partition (p : Waiter ι → Bool) (line : List (Waiter ι)) :
    gathered (line.filter p) + gathered (line.filter (!p ·)) = gathered line := by
  induction line with
  | nil => rfl
  | cons w line ih => cases hp : p w <;> simp [hp] <;> omega

theorem wanted_partition (want : ι → Nat) (p : Waiter ι → Bool) (line : List (Waiter ι)) :
    wanted want (line.filter p) + wanted want (line.filter (!p ·)) = wanted want line := by
  induction line with
  | nil => rfl
  | cons w line ih => cases hp : p w <;> simp [hp] <;> omega

section Leaving

variable [BEq ι] {who : ι}

theorem Account.leave
    (h : g.Account want limit (claims + wanted want (g.line.filter (·.who == who)))) :
    (g.leave who).1.Account want limit claims := by
  obtain ⟨hlimit, hwaits, hbalance⟩ := h
  have hheld : (g.line.filter (·.who == who)).foldr (fun w held => w.held + held) 0 =
      gathered (g.line.filter (·.who == who)) := by
    rw [gathered, List.sum_eq_foldr, List.foldr_map]
  have hgathered := gathered_partition (fun w => w.who == who) g.line
  have hwanted := wanted_partition want (fun w => w.who == who) g.line
  rw [Gate.leave, hheld]
  refine Account.give ⟨hlimit, fun w hw => hwaits w (List.mem_of_mem_filter hw), ?_⟩
  simp only [bne]
  omega

theorem isWaiting_iff_countP : g.isWaiting who = true ↔ 0 < g.line.countP (·.who == who) := by
  rw [isWaiting, List.any_eq_true, List.countP_pos_iff]

/-- Whoever leaves is not in line any more, and nobody else joins it. -/
theorem countP_leave_le (g : Gate ι) (who : ι) (p : ι → Bool) :
    (g.leave who).1.line.countP (p ·.who) ≤
      (g.line.filter (·.who != who)).countP (p ·.who) :=
  countP_give_le _ _ p

end Leaving

/-- Whoever wants one slot has gathered none while in line. -/
theorem Account.gathered_filter (h : g.Account want limit claims) {p : ι → Bool}
    (hone : ∀ who, p who = true → want who = 1) : gathered (g.line.filter (p ·.who)) = 0 := by
  have hheld : ∀ line : List (Waiter ι), (∀ w ∈ line, w.held = 0) → gathered line = 0 := by
    intro line hl
    induction line with
    | nil => rfl
    | cons w line ih =>
      rw [List.forall_mem_cons] at hl
      rw [gathered_cons, hl.1, ih hl.2]
  refine hheld _ fun w hw => ?_
  obtain ⟨hm, hp⟩ := List.mem_filter.mp hw
  have hwaits := h.waits w hm
  have hwant := hone w.who hp
  omega

end Switchboard.Server.Gate
