import Mathlib.Data.List.Infix
import Mathlib.Logic.Function.Basic
import Switchboard.Proofs.Route.Matching

/-! Addresses of the nodes of a trie: the edges on the way from the root. Each edge makes an
address longer, so that what is changed below one child is out of reach of its siblings. -/

namespace Switchboard.Route

/-- The way from a node to a child. Dynamic edges of one name are told apart by the child. -/
inductive Edge where
  | literal (text : String)
  | dynamic (child : Nat)
deriving DecidableEq

def Segment.edge (child : Nat) : Segment → Edge
  | .literal text => .literal text
  | .dynamic _ => .dynamic child

inductive Node.Leads {α : Type} (node : Node α) : Edge → Nat → Prop
  | literal {text : String} {child : Nat} (h : node.literals.get? text = some child) :
    node.Leads (.literal text) child
  | dynamic {name : String} {child : Nat} (h : (name, child) ∈ node.dynamics) :
    node.Leads (.dynamic child) child

namespace Trie

variable {α : Type}

/-- Every edge leads to a node of the arena, whose address has one more edge. -/
def Addressed (t : Trie α) (addr : Nat → List Edge) : Prop :=
  ∀ ⦃i : Nat⦄ ⦃node : Node α⦄ ⦃edge : Edge⦄ ⦃child : Nat⦄, t.nodes[i]? = some node →
    node.Leads edge child → child < t.nodes.size ∧ addr child = addr i ++ [edge]

/-- The arena has grown, and of the nodes that were there only some at or below an address have
changed. -/
structure Grown (t t' : Trie α) (addr addr' : Nat → List Edge) (target : List Edge) : Prop where
  addressed : t'.Addressed addr'
  size_le : t.nodes.size ≤ t'.nodes.size
  addr_eq : ∀ j < t.nodes.size, addr' j = addr j
  node_eq : ∀ j < t.nodes.size, ¬ target <+: addr j → t'.nodes[j]? = t.nodes[j]?

theorem not_leads_blank {edge : Edge} {child : Nat} :
    ¬ (⟨[], [], none⟩ : Node α).Leads edge child := by
  rintro (h | h)
  · simp [Table.get?] at h
  · simp at h

theorem empty_addressed (addr : Nat → List Edge) : (empty : Trie α).Addressed addr := by
  intro i node edge child hi hl
  have hm : node = ⟨[], [], none⟩ := by simpa [empty] using Array.mem_of_getElem? hi
  exact absurd (hm ▸ hl) not_leads_blank

theorem Grown.trans {t t' t'' : Trie α} {addr addr' addr'' : Nat → List Edge}
    {target below : List Edge} (h : Grown t t' addr addr' target)
    (h' : Grown t' t'' addr' addr'' below) (hb : target <+: below) :
    Grown t t'' addr addr'' target := by
  refine ⟨h'.addressed, h.size_le.trans h'.size_le, ?_, ?_⟩
  · intro j hj
    rw [h'.addr_eq j (hj.trans_le h.size_le), h.addr_eq j hj]
  · intro j hj hn
    have hn' : ¬ below <+: addr' j := by
      rw [h.addr_eq j hj]
      exact fun hp => hn (hb.trans hp)
    rw [h'.node_eq j (hj.trans_le h.size_le) hn', h.node_eq j hj hn]

theorem nodes_assign (t : Trie α) (index j : Nat) (handler : α) :
    (t.assign index handler).nodes[j]? =
      if index = j then t.nodes[j]?.map ({ · with handler := some handler }) else t.nodes[j]? := by
  simp [assign, Array.getElem?_modify]

theorem assign_grown {t : Trie α} {addr : Nat → List Edge} (h : t.Addressed addr)
    (index : Nat) (handler : α) :
    Grown t (t.assign index handler) addr addr (addr index) := by
  have hsize : (t.assign index handler).nodes.size = t.nodes.size := by simp [assign]
  refine ⟨?_, hsize.ge, fun _ _ => rfl, ?_⟩
  · intro i node edge child hi hl
    rw [nodes_assign] at hi
    rw [hsize]
    split at hi
    · obtain ⟨old, ho, rfl⟩ := Option.map_eq_some_iff.mp hi
      cases hl with
      | literal hl => exact h ho (.literal hl)
      | dynamic hl => exact h ho (.dynamic hl)
    · exact h hi hl
  · intro j _ hn
    rw [nodes_assign, if_neg]
    rintro rfl
    exact hn (List.prefix_refl _)

/-- Adds an empty node at the end and changes another one, which is to point to it. -/
def attach (t : Trie α) (current : Nat) (f : Node α → Node α) : Trie α :=
  { t.grow with nodes := t.grow.nodes.modify current f }

theorem nodes_attach {t : Trie α} {current : Nat} (hc : current < t.nodes.size)
    (f : Node α → Node α) (j : Nat) :
    (t.attach current f).nodes[j]? =
      if j = t.nodes.size then some ⟨[], [], none⟩
      else if j = current then t.nodes[j]?.map f else t.nodes[j]? := by
  simp only [attach, grow, Array.getElem?_modify, Array.getElem?_push]
  by_cases hj : j = t.nodes.size
  · simp [hj, hc.ne]
  · by_cases hjc : j = current
    · simp [hjc, hc.ne]
    · simp [hj, hjc, Ne.symm hjc]

theorem size_attach (t : Trie α) (current : Nat) (f : Node α → Node α) :
    (t.attach current f).nodes.size = t.nodes.size + 1 := by
  simp [attach, grow]

theorem attach_grown {t : Trie α} {addr : Nat → List Edge} {current : Nat} {f : Node α → Node α}
    {edge : Edge} (h : t.Addressed addr) (hc : current < t.nodes.size)
    (hf : ∀ node other child, (f node).Leads other child →
      node.Leads other child ∨ child = t.nodes.size ∧ other = edge) :
    Grown t (t.attach current f) addr
      (Function.update addr t.nodes.size (addr current ++ [edge])) (addr current) := by
  have hold : ∀ j < t.nodes.size,
      Function.update addr t.nodes.size (addr current ++ [edge]) j = addr j :=
    fun j hj => Function.update_of_ne hj.ne _ _
  refine ⟨?_, by rw [size_attach]; omega, hold, ?_⟩
  · intro i node other child hi hl
    rw [nodes_attach hc] at hi
    rw [size_attach]
    split at hi
    · obtain rfl : (⟨[], [], none⟩ : Node α) = node := by simpa using hi
      exact absurd hl not_leads_blank
    · split at hi
      · obtain ⟨old, ho, rfl⟩ := Option.map_eq_some_iff.mp hi
        subst i
        rcases hf old other child hl with hl | ⟨rfl, rfl⟩
        · obtain ⟨hlt, ha⟩ := h ho hl
          exact ⟨by omega, by rw [hold _ hlt, hold _ hc, ha]⟩
        · exact ⟨by omega, by rw [hold _ hc, Function.update_self]⟩
      · obtain ⟨hlt, ha⟩ := h hi hl
        have hi' := (Array.getElem?_eq_some_iff.mp hi).1
        exact ⟨by omega, by rw [hold _ hlt, hold _ hi', ha]⟩
  · intro j hj hn
    rw [nodes_attach hc, if_neg hj.ne, if_neg]
    rintro rfl
    exact hn (List.prefix_refl _)

theorem descend_literal_some {t : Trie α} {current child : Nat} {text : String}
    (h : (t.nodes[current]?).bind (·.literals.get? text) = some child) :
    t.descend current (.literal text) = (child, t) := by
  simp [descend, h]

theorem descend_literal_none {t : Trie α} {current : Nat} {text : String}
    (h : (t.nodes[current]?).bind (·.literals.get? text) = none) :
    t.descend current (.literal text) = (t.nodes.size, t.attach current fun node =>
      { node with literals := node.literals.insert text t.nodes.size }) := by
  simp [descend, h, attach]

theorem descend_dynamic (t : Trie α) (current : Nat) (name : String) :
    t.descend current (.dynamic name) = (t.nodes.size, t.attach current fun node =>
      { node with dynamics := node.dynamics ++ [(name, t.nodes.size)] }) :=
  rfl

/-- What going down by a segment does: the child is a node below the current one, and no other
node that was there has changed. -/
structure Descent (t : Trie α) (addr : Nat → List Edge) (current : Nat) (segment : Segment)
    (addr' : Nat → List Edge) : Prop where
  grown : Grown t (t.descend current segment).2 addr addr' (addr current)
  child_lt : (t.descend current segment).1 < (t.descend current segment).2.nodes.size
  addr_child : addr' (t.descend current segment).1 =
    addr current ++ [segment.edge (t.descend current segment).1]
  node_eq : ∀ j < t.nodes.size, j ≠ current →
    (t.descend current segment).2.nodes[j]? = t.nodes[j]?
  handler_eq : ((t.descend current segment).2.nodes[current]?).bind (·.handler) =
    (t.nodes[current]?).bind (·.handler)

theorem descent_of_attach {t : Trie α} {addr : Nat → List Edge} {current : Nat}
    {segment : Segment} {f : Node α → Node α} (h : t.Addressed addr)
    (hc : current < t.nodes.size)
    (hd : t.descend current segment = (t.nodes.size, t.attach current f))
    (hh : ∀ node, (f node).handler = node.handler)
    (hf : ∀ node other child, (f node).Leads other child →
      node.Leads other child ∨ child = t.nodes.size ∧ other = segment.edge t.nodes.size) :
    ∃ addr', Descent t addr current segment addr' := by
  refine ⟨_, ⟨by rw [hd]; exact attach_grown h hc hf, ?_, ?_, ?_, ?_⟩⟩
  · rw [hd, size_attach]
    exact Nat.lt_succ_self _
  · rw [hd, Function.update_self]
  · intro j hj hn
    rw [hd, nodes_attach hc, if_neg hj.ne, if_neg hn]
  · rw [hd, nodes_attach hc, if_neg hc.ne, if_pos rfl]
    cases t.nodes[current]? with
    | none => rfl
    | some node => exact hh node

theorem descend_addressed {t : Trie α} {addr : Nat → List Edge} {current : Nat}
    (h : t.Addressed addr) (hc : current < t.nodes.size) (segment : Segment) :
    ∃ addr', Descent t addr current segment addr' := by
  cases segment with
  | literal text =>
    cases hl : (t.nodes[current]?).bind (·.literals.get? text) with
    | some child =>
      obtain ⟨node, hi, he⟩ := Option.bind_eq_some_iff.mp hl
      obtain ⟨hlt, ha⟩ := h hi (.literal he)
      have hd := descend_literal_some hl
      refine ⟨addr, ⟨?_, ?_, ?_, fun j _ _ => by rw [hd], by rw [hd]⟩⟩
      · rw [hd]
        exact ⟨h, le_refl _, fun _ _ => rfl, fun _ _ _ => rfl⟩
      · rw [hd]
        exact hlt
      · rw [hd]
        exact ha
    | none =>
      refine descent_of_attach h hc (descend_literal_none hl) (fun _ => rfl) ?_
      rintro node _ child (he | he)
      · rw [Table.get?_insert] at he
        split at he
        · rename_i ho
          have ht := eq_of_beq ho
          exact .inr ⟨by simpa using he.symm, by rw [ht]; rfl⟩
        · exact .inl (.literal he)
      · exact .inl (.dynamic he)
  | dynamic name =>
    refine descent_of_attach h hc (descend_dynamic t current name) (fun _ => rfl) ?_
    rintro node _ child (he | he)
    · exact .inl (.literal he)
    · rcases List.mem_append.mp he with he | he
      · exact .inl (.dynamic he)
      · obtain ⟨_, rfl⟩ := Prod.mk.inj (List.mem_singleton.mp he)
        exact .inr ⟨rfl, rfl⟩

/-- Putting a pattern in below a node leaves alone what is not below that node. -/
theorem insertFrom_grown {t : Trie α} {addr : Nat → List Edge} {current : Nat}
    (h : t.Addressed addr) (hc : current < t.nodes.size) (handler : α) (pattern : List Segment) :
    ∃ addr', Grown t (t.insertFrom current handler pattern) addr addr' (addr current) := by
  induction pattern generalizing t addr current with
  | nil => exact ⟨addr, assign_grown h current handler⟩
  | cons segment pattern ih =>
    obtain ⟨addr', hd⟩ := descend_addressed h hc segment
    obtain ⟨addr'', hg⟩ := ih hd.grown.addressed hd.child_lt
    refine ⟨addr'', hd.grown.trans hg ?_⟩
    rw [hd.addr_child]
    exact List.prefix_append _ _

end Trie

end Switchboard.Route
