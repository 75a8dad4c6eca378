import Mathlib.Data.List.Nodup
import Mathlib.Data.List.Perm.Subperm
import Switchboard.Proofs.Route.Additions

/-! The shape of the arena of a trie: a tree in which every node stands behind its parent. A search
looks at each node once at most. -/

namespace Switchboard

theorem Table.notMem_keys_of_get?_eq_none {β : Type} {table : Table β} {key : String}
    (h : table.get? key = none) : key ∉ table.keys := by
  intro hm
  obtain ⟨p, hp, rfl⟩ := List.mem_map.mp hm
  simpa using List.lookup_eq_none_iff.mp h p hp

namespace Route

namespace Node

variable {α : Type}

/-- The ends of the edges from a node, each as often as there are edges to it. -/
def children (node : Node α) : List Nat :=
  node.literals.map (·.2) ++ node.dynamics.map (·.2)

/-- The turns that a search takes with a piece, in its order: what is bound, and the child to go on
from. -/
def turns (node : Node α) (piece : String) : List (List (String × String) × Nat) :=
  (node.literals.get? piece).toList.map ([], ·) ++
    node.dynamics.map fun (name, child) => ([(name, piece)], child)

end Node

namespace Trie

variable {α : Type}

/-- The list up to the first element that satisfies `p`, with this one. -/
def upTo {β : Type} (p : β → Bool) : List β → List β
  | [] => []
  | b :: rest => b :: if p b then [] else upTo p rest

/-- The nodes that a search looks at, in its order. It takes one turn after the other until one of
them finds a handler. -/
def visits (t : Trie α) (index : Nat) : List String → List Nat
  | [] => [index]
  | piece :: path =>
    index :: (t.nodes[index]?).elim [] fun node =>
      (upTo (fun turn => (t.walk turn.2 path).isSome) (node.turns piece)).flatMap fun turn =>
        t.visits turn.2 path

/-- The ends of all edges, each as often as there are edges to it. -/
def targets (t : Trie α) : List Nat :=
  t.nodes.toList.flatMap Node.children

/-- The edges make a tree of the nodes. -/
structure IsTree (t : Trie α) : Prop where
  size_pos : 0 < t.nodes.size
  keys_nodup : ∀ ⦃i : Nat⦄ ⦃node : Node α⦄, t.nodes[i]? = some node → node.literals.keys.Nodup
  child_gt : ∀ ⦃i : Nat⦄ ⦃node : Node α⦄, t.nodes[i]? = some node → ∀ child ∈ node.children,
    i < child
  targets_perm : t.targets.Perm (List.range' 1 (t.nodes.size - 1))

theorem toList_assign {t : Trie α} {current : Nat} {node : Node α}
    (hn : t.nodes[current]? = some node) (handler : α) :
    ∃ before after, t.nodes.toList = before ++ node :: after ∧
      (t.assign current handler).nodes.toList =
        before ++ { node with handler := some handler } :: after := by
  obtain ⟨hc, rfl⟩ := Array.getElem?_eq_some_iff.mp hn
  refine ⟨t.nodes.toList.take current, t.nodes.toList.drop (current + 1), ?_, ?_⟩
  · rw [← Array.getElem_toList, List.getElem_cons_drop, List.take_append_drop]
  · rw [assign, Array.toList_modify, List.modify_eq_take_cons_drop (by simpa using hc)]
    rfl

theorem toList_attach {t : Trie α} {current : Nat} {node : Node α}
    (hn : t.nodes[current]? = some node) (f : Node α → Node α) :
    ∃ before after, t.nodes.toList = before ++ node :: after ∧
      (t.attach current f).nodes.toList = before ++ f node :: after ++ [⟨[], [], none⟩] := by
  obtain ⟨hc, rfl⟩ := Array.getElem?_eq_some_iff.mp hn
  have hc' : current < t.nodes.toList.length := by simpa using hc
  have hlength : current < (t.nodes.toList ++ [(⟨[], [], none⟩ : Node α)]).length := by
    rw [List.length_append]
    omega
  refine ⟨t.nodes.toList.take current, t.nodes.toList.drop (current + 1), ?_, ?_⟩
  · rw [← Array.getElem_toList, List.getElem_cons_drop, List.take_append_drop]
  · rw [attach, grow, Array.toList_modify, Array.toList_push,
      List.modify_eq_take_cons_drop hlength, List.take_append_of_le_length hc'.le,
      List.drop_append_of_le_length hc', List.getElem_append_left hc']
    simp

theorem empty_isTree : (empty : Trie α).IsTree := by
  have hblank : ∀ {i : Nat} {node : Node α},
      (empty : Trie α).nodes[i]? = some node → node = ⟨[], [], none⟩ := by
    intro i node hn
    simpa [empty] using Array.mem_of_getElem? hn
  refine ⟨Nat.one_pos, ?_, ?_, List.Perm.refl _⟩
  · intro i node hn
    simp [hblank hn, Table.keys]
  · intro i node hn child hc
    simp [hblank hn, Node.children] at hc

theorem IsTree.child_lt {t : Trie α} (h : t.IsTree) {i : Nat} {node : Node α}
    (hn : t.nodes[i]? = some node) {child : Nat} (hc : child ∈ node.children) :
    child < t.nodes.size := by
  have hm : node ∈ t.nodes.toList := Array.mem_toList_iff.mpr (Array.mem_of_getElem? hn)
  have ht := h.targets_perm.mem_iff.mp (List.mem_flatMap.mpr ⟨node, hm, hc⟩)
  have := List.mem_range'_1.mp ht
  omega

theorem nodes_attach_cases {t : Trie α} {current : Nat} {node : Node α}
    (hn : t.nodes[current]? = some node) {f : Node α → Node α} {i : Nat} {other : Node α}
    (hi : (t.attach current f).nodes[i]? = some other) :
    other = ⟨[], [], none⟩ ∨ (i = current ∧ other = f node) ∨ t.nodes[i]? = some other := by
  rw [nodes_attach (Array.getElem?_eq_some_iff.mp hn).1] at hi
  split at hi
  · exact .inl (Option.some.inj hi).symm
  · split at hi
    · rename_i he
      rw [he, hn] at hi
      exact .inr (.inl ⟨he, (Option.some.inj hi).symm⟩)
    · exact .inr (.inr hi)

theorem targets_attach {t : Trie α} {current : Nat} {node : Node α}
    (hn : t.nodes[current]? = some node) {f : Node α → Node α}
    (hf : (f node).children.Perm (node.children ++ [t.nodes.size])) :
    (t.attach current f).targets.Perm (t.targets ++ [t.nodes.size]) := by
  obtain ⟨before, after, hold, hnew⟩ := toList_attach hn f
  have hblank : (⟨[], [], none⟩ : Node α).children = [] := rfl
  rw [targets, targets, hold, hnew]
  simp only [List.flatMap_append, List.flatMap_cons, List.flatMap_nil, hblank, List.append_nil,
    List.append_assoc]
  refine List.Perm.append_left _ ((hf.append_right _).trans ?_)
  rw [List.append_assoc]
  exact List.Perm.append_left _ List.perm_append_comm

/-- A new node behind all others, to which one edge leads. -/
theorem IsTree.attach {t : Trie α} (h : t.IsTree) {current : Nat} {node : Node α}
    (hn : t.nodes[current]? = some node) {f : Node α → Node α}
    (hkeys : (f node).literals.keys.Nodup)
    (hf : (f node).children.Perm (node.children ++ [t.nodes.size])) :
    (t.attach current f).IsTree := by
  have hc := (Array.getElem?_eq_some_iff.mp hn).1
  refine ⟨by rw [size_attach]; omega, ?_, ?_, ?_⟩
  · intro i other hi
    rcases nodes_attach_cases hn hi with rfl | ⟨rfl, rfl⟩ | hi
    · exact List.nodup_nil
    · exact hkeys
    · exact h.keys_nodup hi
  · intro i other hi child hchild
    rcases nodes_attach_cases hn hi with rfl | ⟨rfl, rfl⟩ | hi
    · cases hchild
    · rcases List.mem_append.mp (hf.mem_iff.mp hchild) with hm | hm
      · exact h.child_gt hn child hm
      · rw [List.mem_singleton.mp hm]
        exact hc
    · exact h.child_gt hi child hchild
  · have hrange : List.range' 1 (t.nodes.size + 1 - 1) =
        List.range' 1 (t.nodes.size - 1) ++ [t.nodes.size] := by
      obtain ⟨n, hsize⟩ := Nat.exists_eq_add_one.mpr h.size_pos
      rw [hsize, Nat.add_sub_cancel, Nat.add_sub_cancel, List.range'_1_concat, Nat.add_comm 1]
    rw [size_attach, hrange]
    exact (targets_attach hn hf).trans (h.targets_perm.append_right _)

theorem IsTree.assign {t : Trie α} (h : t.IsTree) {current : Nat} (hc : current < t.nodes.size)
    (handler : α) : (t.assign current handler).IsTree := by
  have hn := Array.getElem?_eq_getElem hc
  obtain ⟨before, after, hold, hnew⟩ := toList_assign hn handler
  have hsize : (t.assign current handler).nodes.size = t.nodes.size := by simp [Trie.assign]
  have hkept : ∀ {i : Nat} {node : Node α}, (t.assign current handler).nodes[i]? = some node →
      ∃ old, t.nodes[i]? = some { node with handler := old } := by
    intro i node hi
    rw [nodes_assign] at hi
    split at hi
    · obtain ⟨old, ho, rfl⟩ := Option.map_eq_some_iff.mp hi
      exact ⟨old.handler, ho⟩
    · exact ⟨node.handler, hi⟩
  refine ⟨hsize ▸ h.size_pos, ?_, ?_, ?_⟩
  · intro i node hi
    obtain ⟨_, ho⟩ := hkept hi
    have hkeys := h.keys_nodup ho
    exact hkeys
  · intro i node hi child hchild
    obtain ⟨_, ho⟩ := hkept hi
    exact h.child_gt ho child hchild
  · have htargets : (t.assign current handler).targets = t.targets := by
      rw [targets, targets, hold, hnew, List.flatMap_append, List.flatMap_append,
        List.flatMap_cons, List.flatMap_cons]
      rfl
    rw [htargets, hsize]
    exact h.targets_perm

theorem IsTree.descend {t : Trie α} (h : t.IsTree) {current : Nat} (hc : current < t.nodes.size)
    (segment : Segment) : (t.descend current segment).2.IsTree := by
  have hn := Array.getElem?_eq_getElem hc
  have hkeys := h.keys_nodup hn
  cases segment with
  | literal text =>
    cases hl : (t.nodes[current]?).bind (·.literals.get? text) with
    | some child => rwa [descend_literal_some hl]
    | none =>
      rw [descend_literal_none hl]
      have hnew : text ∉ t.nodes[current].literals.keys :=
        Table.notMem_keys_of_get?_eq_none (by simpa [hn] using hl)
      refine h.attach hn (Table.nodup_keys_insert hkeys _ _) ?_
      rw [Node.children, Node.children, Table.insert_of_notMem _ hnew, List.map_append,
        List.append_assoc, List.append_assoc]
      exact List.Perm.append_left _ List.perm_append_comm
  | dynamic name =>
    rw [descend_dynamic]
    exact h.attach hn hkeys (by simp [Node.children])

theorem IsTree.insertFrom {t : Trie α} {addr : Nat → List Edge} (h : t.IsTree)
    (ha : t.Addressed addr) {current : Nat} (hc : current < t.nodes.size) (handler : α)
    (pattern : List Segment) : (t.insertFrom current handler pattern).IsTree := by
  induction pattern generalizing t addr current with
  | nil => exact h.assign hc handler
  | cons segment pattern ih =>
    obtain ⟨addr', hd⟩ := descend_addressed ha hc segment
    exact ih (h.descend hc segment) hd.grown.addressed hd.child_lt

theorem ofPatterns_isTree (entries : List (List Segment × α)) : (ofPatterns entries).IsTree := by
  induction entries using List.reverseRecOn with
  | nil => exact empty_isTree
  | append_singleton entries e ih =>
    obtain ⟨hpos, addr, ha⟩ := ofPatterns_addressed entries
    rw [ofPatterns_concat]
    exact ih.insertFrom ha hpos e.2 e.1

theorem IsTree.targets_nodup {t : Trie α} (h : t.IsTree) : t.targets.Nodup :=
  h.targets_perm.nodup_iff.mpr (List.nodup_range' 1)

/-- One edge leads to each node but the root, and none to the root. -/
theorem IsTree.count_targets {t : Trie α} (h : t.IsTree) (j : Nat) :
    t.targets.count j = if 0 < j ∧ j < t.nodeCount then 1 else 0 := by
  rw [h.targets_perm.count_eq, (List.nodup_range' 1).count]
  have hpos := h.size_pos
  have hmem : j ∈ List.range' 1 (t.nodes.size - 1) ↔ 0 < j ∧ j < t.nodeCount := by
    rw [List.mem_range'_1, nodeCount]
    omega
  simp only [hmem]

theorem upTo_sublist {β : Type} (p : β → Bool) (bs : List β) : (upTo p bs).Sublist bs := by
  induction bs with
  | nil => exact List.Sublist.refl _
  | cons b bs ih =>
    rw [upTo]
    split
    · simp
    · exact ih.cons_cons b

theorem findSome?_congr_upTo {β γ : Type} {f g : β → Option γ} {bs : List β}
    (h : ∀ b ∈ upTo (fun b => (f b).isSome) bs, g b = f b) :
    bs.findSome? g = bs.findSome? f := by
  induction bs with
  | nil => rfl
  | cons b bs ih =>
    rw [upTo] at h
    rw [List.findSome?_cons, List.findSome?_cons, h b (by simp)]
    cases hf : f b with
    | some c => rfl
    | none => exact ih fun b' hb => h b' (by simp [hf, hb])

theorem walk_cons_eq_findSome? {t : Trie α} {index : Nat} {node : Node α}
    (h : t.nodes[index]? = some node) (piece : String) (path : List String) :
    t.walk index (piece :: path) = (node.turns piece).findSome? fun turn =>
      (t.walk turn.2 path).map fun found => (found.1, turn.1 ++ found.2) := by
  rw [walk_cons h, Node.turns, List.findSome?_append]
  congr 1
  · cases node.literals.get? piece with
    | none => rfl
    | some child => cases hw : t.walk child path <;> simp [hw]
  · rw [List.findSome?_map]
    rfl

theorem visits_cons {t : Trie α} {index : Nat} {node : Node α} (h : t.nodes[index]? = some node)
    (piece : String) (path : List String) :
    t.visits index (piece :: path) =
      index :: (upTo (fun turn => (t.walk turn.2 path).isSome) (node.turns piece)).flatMap
        fun turn => t.visits turn.2 path := by
  rw [visits, h]
  rfl

/-- What a search finds depends on the nodes that it looks at, and on no others. -/
theorem walk_congr_visits {t t' : Trie α} {index : Nat} {path : List String}
    (h : ∀ j ∈ t.visits index path, t'.nodes[j]? = t.nodes[j]?) :
    t'.walk index path = t.walk index path := by
  induction path generalizing index with
  | nil => simp only [walk, h index (by simp [visits])]
  | cons piece path ih =>
    have hindex : t'.nodes[index]? = t.nodes[index]? := h index (by simp [visits])
    cases hn : t.nodes[index]? with
    | none => simp [walk, hindex, hn]
    | some node =>
      rw [visits_cons hn] at h
      rw [walk_cons_eq_findSome? hn, walk_cons_eq_findSome? (hindex.trans hn)]
      refine findSome?_congr_upTo fun turn hturn => ?_
      simp only [Option.isSome_map] at hturn
      rw [ih fun j hj => h j (List.mem_cons_of_mem _ (List.mem_flatMap.mpr ⟨turn, hturn, hj⟩))]

theorem turn_leads {node : Node α} {piece : String} {turn : List (String × String) × Nat}
    (h : turn ∈ node.turns piece) :
    node.Leads (.literal piece) turn.2 ∨ node.Leads (.dynamic turn.2) turn.2 := by
  rcases List.mem_append.mp h with h | h
  · obtain ⟨child, hc, rfl⟩ := List.mem_map.mp h
    exact .inl (.literal (Option.mem_toList.mp hc))
  · obtain ⟨⟨name, child⟩, hc, rfl⟩ := List.mem_map.mp h
    exact .inr (.dynamic hc)

theorem IsTree.children_nodup {t : Trie α} (h : t.IsTree) {index : Nat} {node : Node α}
    (hn : t.nodes[index]? = some node) : node.children.Nodup :=
  (List.nodup_flatMap.mp h.targets_nodup).1 node
    (Array.mem_toList_iff.mpr (Array.mem_of_getElem? hn))

theorem map_turns_sublist (node : Node α) (piece : String) :
    ((node.turns piece).map (·.2)).Sublist node.children := by
  rw [Node.turns, Node.children, List.map_append, List.map_map, List.map_map]
  refine List.Sublist.append ?_ (List.Sublist.refl _)
  cases hl : node.literals.get? piece with
  | none => simp
  | some child =>
    exact List.singleton_sublist.mpr (List.mem_map.mpr ⟨_, Table.mem_of_get? hl, rfl⟩)

/-- No node is below two turns for one piece. -/
theorem eq_of_below_turns {t : Trie α} {addr : Nat → List Edge} (ha : t.Addressed addr)
    {index : Nat} {node : Node α} (hn : t.nodes[index]? = some node) {piece : String}
    {turn turn' : List (String × String) × Nat} (h : turn ∈ node.turns piece)
    (h' : turn' ∈ node.turns piece) {j : Nat} (hj : addr turn.2 <+: addr j)
    (hj' : addr turn'.2 <+: addr j) : turn.2 = turn'.2 := by
  -- The addresses of both children begin the address of `j` and are of one length.
  have hedge : ∀ {edge edge'}, node.Leads edge turn.2 → node.Leads edge' turn'.2 →
      edge = edge' := by
    intro edge edge' hl hl'
    have he := (ha hn hl).2
    have he' := (ha hn hl').2
    rw [he] at hj
    rw [he'] at hj'
    have hp := List.prefix_of_prefix_length_le hj hj' (by simp)
    simpa using hp.eq_of_length (by simp)
  rcases turn_leads h with hl | hl <;> rcases turn_leads h' with hl' | hl'
  · cases hl with
    | literal hg =>
      cases hl' with
      | literal hg' => exact Option.some.inj (hg.symm.trans hg')
  · cases hedge hl hl'
  · cases hedge hl hl'
  · exact Edge.dynamic.inj (hedge hl hl')

theorem visits_below {t : Trie α} {addr : Nat → List Edge} (ha : t.Addressed addr) {index : Nat}
    (hi : index < t.nodes.size) {path : List String} :
    ∀ j ∈ t.visits index path, j < t.nodes.size ∧ addr index <+: addr j := by
  induction path generalizing index with
  | nil =>
    intro j hj
    obtain rfl : j = index := by simpa [visits] using hj
    exact ⟨hi, List.prefix_refl _⟩
  | cons piece path ih =>
    intro j hj
    have hn := Array.getElem?_eq_getElem hi
    rw [visits_cons hn] at hj
    rcases List.mem_cons.mp hj with rfl | hj
    · exact ⟨hi, List.prefix_refl _⟩
    · obtain ⟨turn, hturn, hj⟩ := List.mem_flatMap.mp hj
      have hm := (upTo_sublist _ _).subset hturn
      obtain ⟨edge, hl⟩ : ∃ edge, t.nodes[index].Leads edge turn.2 := by
        rcases turn_leads hm with hl | hl <;> exact ⟨_, hl⟩
      obtain ⟨hlt, hedge⟩ := ha hn hl
      obtain ⟨hj, hp⟩ := ih hlt j hj
      exact ⟨hj, (hedge ▸ List.prefix_append _ _ : addr index <+: addr turn.2).trans hp⟩

/-- A search looks at no node twice, whatever turns it takes. -/
theorem IsTree.visits_nodup {t : Trie α} (h : t.IsTree) {addr : Nat → List Edge}
    (ha : t.Addressed addr) {index : Nat} (hi : index < t.nodes.size) (path : List String) :
    (t.visits index path).Nodup := by
  induction path generalizing index with
  | nil => simp [visits]
  | cons piece path ih =>
    have hn := Array.getElem?_eq_getElem hi
    have hsub := upTo_sublist (fun turn => (t.walk turn.2 path).isSome)
      (t.nodes[index].turns piece)
    have hchild : ∀ turn ∈ t.nodes[index].turns piece,
        turn.2 < t.nodes.size ∧ (addr turn.2).length = (addr index).length + 1 := by
      intro turn hm
      rcases turn_leads hm with hl | hl <;>
        exact ⟨(ha hn hl).1, by rw [(ha hn hl).2, List.length_append, List.length_singleton]⟩
    rw [visits_cons hn, List.nodup_cons, List.nodup_flatMap]
    -- The node itself is above all that its turns lead to, and two turns lead into two subtrees.
    refine ⟨?_, fun turn hturn => ih (hchild turn (hsub.subset hturn)).1, ?_⟩
    · intro hm
      obtain ⟨turn, hturn, hm⟩ := List.mem_flatMap.mp hm
      obtain ⟨hlt, hlength⟩ := hchild turn (hsub.subset hturn)
      have hle := (visits_below ha hlt index hm).2.length_le
      omega
    · have hnodup : ((upTo (fun turn => (t.walk turn.2 path).isSome)
          (t.nodes[index].turns piece)).map (·.2)).Nodup :=
        (h.children_nodup hn).sublist ((hsub.map _).trans (map_turns_sublist _ _))
      refine (List.pairwise_map.mp hnodup).imp_of_mem fun hturn hturn' hne => ?_
      intro j hj hj'
      have hm := hsub.subset hturn
      have hm' := hsub.subset hturn'
      exact hne (eq_of_below_turns ha hn hm hm' (visits_below ha (hchild _ hm).1 j hj).2
        (visits_below ha (hchild _ hm').1 j hj').2)

/-- A search ends after as many nodes as there are, or before. -/
theorem IsTree.length_visits_le {t : Trie α} (h : t.IsTree) {addr : Nat → List Edge}
    (ha : t.Addressed addr) (path : List String) : (t.visits 0 path).length ≤ t.nodeCount := by
  have hsub : t.visits 0 path ⊆ List.range t.nodes.size :=
    fun j hj => List.mem_range.mpr (visits_below ha h.size_pos j hj).1
  have hle := ((h.visits_nodup ha h.size_pos path).subperm hsub).length_le
  rwa [List.length_range] at hle

end Trie

end Route

end Switchboard
