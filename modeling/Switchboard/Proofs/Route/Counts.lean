import Mathlib.Algebra.GroupWithZero.Nat
import Mathlib.Data.List.TakeWhile
import Mathlib.Data.Finset.Card
import Switchboard.Proofs.Route.Arena

/-! How many nodes and routes a trie has, counted in the patterns that were put in. Patterns share
the nodes of the literals in front of their first names. -/

namespace Switchboard.Route

/-- The literals in front of the first name. -/
def stem (pattern : List Segment) : List Segment :=
  pattern.takeWhile (!·.isDynamic)

/-- The non-empty beginnings of the literals in front of the first name. -/
def stems (pattern : List Segment) : List (List Segment) :=
  (stem pattern).inits.tail

theorem stem_literal (text : String) (pattern : List Segment) :
    stem (.literal text :: pattern) = .literal text :: stem pattern := by
  simp [stem, Segment.isDynamic]

theorem stem_dynamic (name : String) (pattern : List Segment) :
    stem (.dynamic name :: pattern) = [] := by
  simp [stem, Segment.isDynamic]

theorem inits_eq_cons_tail {β : Type} (l : List β) : l.inits = [] :: l.inits.tail := by
  cases l <;> simp

theorem stems_literal (text : String) (pattern : List Segment) :
    stems (.literal text :: pattern) =
      [.literal text] :: (stems pattern).map (.literal text :: ·) := by
  rw [stems, stem_literal, List.inits_cons, List.tail_cons, inits_eq_cons_tail, List.map_cons]
  rfl

theorem stems_dynamic (name : String) (pattern : List Segment) :
    stems (.dynamic name :: pattern) = [] := by
  rw [stems, stem_dynamic]
  rfl

theorem mem_stems {pattern word : List Segment} :
    word ∈ stems pattern ↔ word ≠ [] ∧ word <+: stem pattern := by
  have hnil : [] ∉ stems pattern := by
    rw [stems]
    cases stem pattern <;> simp
  rw [← List.mem_inits, inits_eq_cons_tail, List.mem_cons]
  constructor
  · intro h
    exact ⟨fun he => hnil (he ▸ h), .inr h⟩
  · rintro ⟨hne, h⟩
    exact h.resolve_left hne

theorem length_stems (pattern : List Segment) : (stems pattern).length = lead pattern := by
  rw [stems, List.length_tail, List.length_inits, Nat.add_sub_cancel]
  rfl

theorem stems_nodup (pattern : List Segment) : (stems pattern).Nodup := by
  induction pattern with
  | nil => exact List.nodup_nil
  | cons segment pattern ih =>
    cases segment with
    | literal text =>
      rw [stems_literal, List.nodup_cons]
      refine ⟨?_, ih.map (List.cons_injective)⟩
      intro hm
      obtain ⟨word, hw, he⟩ := List.mem_map.mp hm
      exact (mem_stems.mp hw).1 (List.cons.inj he).2
    | dynamic name =>
      rw [stems_dynamic]
      exact List.nodup_nil

theorem not_dynamic_prefix_stem {name : String} {word pattern : List Segment} :
    ¬ .dynamic name :: word <+: stem pattern := by
  match pattern with
  | [] => simp [stem]
  | .literal text :: pattern => simp [stem_literal]
  | .dynamic other :: pattern => simp [stem_dynamic]

theorem stem_eq_of_isStatic {pattern : List Segment} (h : isStatic pattern = true) :
    stem pattern = pattern :=
  List.takeWhile_eq_self_iff.mpr (List.all_eq_true.mp h)

namespace Trie

variable {α : Type}

/-- The place for a handler at the node that literals lead to, where they lead to one. -/
def slot (t : Trie α) (index : Nat) : List Segment → Option (Option α)
  | [] => (t.nodes[index]?).map (·.handler)
  | .literal text :: word =>
    ((t.nodes[index]?).bind (·.literals.get? text)).bind (t.slot · word)
  | .dynamic _ :: _ => none

theorem slot_literal {t : Trie α} {index : Nat} {node : Node α} (h : t.nodes[index]? = some node)
    (text : String) (word : List Segment) :
    t.slot index (.literal text :: word) = (node.literals.get? text).bind (t.slot · word) := by
  rw [slot, h, Option.bind_some]

theorem slot_blank {t : Trie α} {index : Nat} (h : t.nodes[index]? = some ⟨[], [], none⟩)
    (word : List Segment) : t.slot index word = if word = [] then some none else none := by
  match word with
  | [] => simp [slot, h]
  | .literal text :: word => simp [slot_literal h, Table.get?]
  | .dynamic name :: word => rfl

/-- Where literals lead to from a node depends only on nodes whose addresses go on from there. -/
theorem slot_congr {t t' : Trie α} {addr : Nat → List Edge} (ha : t.Addressed addr)
    {index : Nat} (hi : index < t.nodes.size)
    (hsame : ∀ j < t.nodes.size, addr index <+: addr j → t'.nodes[j]? = t.nodes[j]?)
    (word : List Segment) : t'.slot index word = t.slot index word := by
  induction word generalizing index with
  | nil => simp only [slot, hsame index hi (List.prefix_refl _)]
  | cons segment word ih =>
    cases segment with
    | literal text =>
      have hn := Array.getElem?_eq_getElem hi
      have hn' := (hsame index hi (List.prefix_refl _)).trans hn
      rw [slot_literal hn, slot_literal hn']
      refine Option.bind_congr fun child hl => ?_
      obtain ⟨hlt, hedge⟩ := ha hn (.literal hl)
      refine ih hlt fun j hj hp => hsame j hj ?_
      exact (hedge ▸ List.prefix_append _ _ : addr index <+: addr child).trans hp
    | dynamic name => rfl

/-- What a slot holds after a pattern has been put in below the node. -/
def slotAfter (pattern : List Segment) (handler : α) (word : List Segment)
    (old : Option (Option α)) : Option (Option α) :=
  if word = pattern ∧ isStatic pattern = true then some (some handler)
  else if word <+: stem pattern then old.or (some none)
  else old

section

variable {pattern word : List Segment} {handler : α} {old : Option (Option α)}

theorem slotAfter_nil (slot : Option α) (segment : Segment) :
    slotAfter (segment :: pattern) handler [] (some slot) = some slot := by
  simp [slotAfter]

theorem slotAfter_dynamic (name : String) (segment : Segment) :
    slotAfter (.dynamic name :: pattern) handler (segment :: word) old = old := by
  simp [slotAfter, stem_dynamic]

theorem slotAfter_literal (text : String) :
    slotAfter (.literal text :: pattern) handler (.literal text :: word) old =
      slotAfter pattern handler word old := by
  simp [slotAfter, stem_literal]

theorem slotAfter_literal_ne {text piece : String} (h : piece ≠ text) :
    slotAfter (.literal text :: pattern) handler (.literal piece :: word) old = old := by
  simp [slotAfter, stem_literal, h]

theorem slotAfter_of_dynamic_word (name : String) :
    slotAfter pattern handler (.dynamic name :: word) old = old := by
  rw [slotAfter, if_neg, if_neg not_dynamic_prefix_stem]
  rintro ⟨rfl, h⟩
  rw [isStatic_dynamic] at h
  cases h

theorem slotAfter_blank :
    slotAfter pattern handler word (if word = [] then some none else none) =
      slotAfter pattern handler word none := by
  by_cases h : word = [] <;> simp [slotAfter, h]

end

theorem slot_assign {t : Trie α} {addr : Nat → List Edge} {current : Nat} {node : Node α}
    (ha : t.Addressed addr) (hn : t.nodes[current]? = some node) (handler : α)
    (segment : Segment) (word : List Segment) :
    (t.insertFrom current handler []).slot current (segment :: word) =
      t.slot current (segment :: word) := by
  cases segment with
  | dynamic name => rfl
  | literal text =>
    have hn' : (t.insertFrom current handler []).nodes[current]? =
        some { node with handler := some handler } := by
      rw [insertFrom, nodes_assign, if_pos rfl, hn]
      rfl
    rw [slot_literal hn', slot_literal hn]
    refine Option.bind_congr fun child hl => ?_
    exact slot_congr ha (ha hn (.literal hl)).1 (node_assign_below ha hn (.literal hl) handler) word

theorem slot_nil_insertFrom_cons {t : Trie α} {addr : Nat → List Edge} {current : Nat}
    {node : Node α} (ha : t.Addressed addr) (hn : t.nodes[current]? = some node) (handler : α)
    (segment : Segment) (pattern : List Segment) :
    (t.insertFrom current handler (segment :: pattern)).slot current [] =
      some node.handler := by
  have hc := (Array.getElem?_eq_some_iff.mp hn).1
  obtain ⟨addr', hd⟩ := descend_addressed ha hc segment
  obtain ⟨addr'', hg⟩ := insertFrom_grown hd.grown.addressed hd.child_lt handler pattern
  have hn' := Array.getElem?_eq_getElem (hc.trans_le hd.grown.size_le)
  have hh := hd.handler_eq
  rw [hn', hn, Option.bind_some, Option.bind_some] at hh
  rw [slot, insertFrom, hd.node_current hc hg, hn', Option.map_some, hh]

theorem Descent.slot_sibling {t t' : Trie α} {addr addr' addr'' : Nat → List Edge}
    {current : Nat} {segment : Segment} (hd : Descent t addr current segment addr')
    (ha : t.Addressed addr)
    (hg : Grown (t.descend current segment).2 t' addr' addr''
      (addr' (t.descend current segment).1))
    {node : Node α} {edge : Edge} {other : Nat} (hn : t.nodes[current]? = some node)
    (hl : node.Leads edge other) (hne : edge ≠ segment.edge (t.descend current segment).1)
    (word : List Segment) : t'.slot other word = t.slot other word :=
  slot_congr ha (ha hn hl).1 (hd.node_below_sibling ha hg hn hl hne) word

theorem Descent.slot_of_literal {t t' : Trie α} {addr addr' addr'' : Nat → List Edge}
    {current : Nat} {text : String} (hd : Descent t addr current (.literal text) addr')
    (ha : t.Addressed addr)
    (hg : Grown (t.descend current (.literal text)).2 t' addr' addr''
      (addr' (t.descend current (.literal text)).1))
    {node : Node α} (hn : t.nodes[current]? = some node) (piece : String) (word : List Segment) :
    t'.slot current (.literal piece :: word) =
      if piece = text then t'.slot (t.descend current (.literal text)).1 word
      else t.slot current (.literal piece :: word) := by
  have hc := (Array.getElem?_eq_some_iff.mp hn).1
  obtain ⟨node', hn', hget, hother, -, -⟩ := descend_literal_node hn text
  rw [slot_literal ((hd.node_current hc hg).trans hn'), slot_literal hn]
  by_cases hp : piece = text
  · rw [if_pos hp, hp, hget, Option.bind_some]
  · rw [if_neg hp, hother piece hp]
    exact Option.bind_congr fun child hl =>
      hd.slot_sibling ha hg hn (.literal hl) (by simp [Segment.edge, hp]) word

theorem Descent.slot_of_dynamic {t t' : Trie α} {addr addr' addr'' : Nat → List Edge}
    {current : Nat} {name : String} (hd : Descent t addr current (.dynamic name) addr')
    (ha : t.Addressed addr)
    (hg : Grown (t.descend current (.dynamic name)).2 t' addr' addr''
      (addr' (t.descend current (.dynamic name)).1))
    {node : Node α} (hn : t.nodes[current]? = some node) (piece : String) (word : List Segment) :
    t'.slot current (.literal piece :: word) = t.slot current (.literal piece :: word) := by
  have hc := (Array.getElem?_eq_some_iff.mp hn).1
  have hn' : (t.descend current (.dynamic name)).2.nodes[current]? =
      some { node with dynamics := node.dynamics ++ [(name, t.nodes.size)] } := by
    rw [descend_dynamic, nodes_attach hc, if_neg hc.ne, if_pos rfl, hn]
    rfl
  rw [slot_literal ((hd.node_current hc hg).trans hn'), slot_literal hn]
  exact Option.bind_congr fun child hl =>
    hd.slot_sibling ha hg hn (.literal hl) (by simp [Segment.edge]) word

theorem slotAfter_slot_child {t : Trie α} {current : Nat} {node : Node α}
    (hn : t.nodes[current]? = some node) (text : String) (handler : α)
    (pattern word : List Segment) :
    slotAfter pattern handler word
        ((t.descend current (.literal text)).2.slot (t.descend current (.literal text)).1 word) =
      slotAfter pattern handler word (t.slot current (.literal text :: word)) := by
  have hc := (Array.getElem?_eq_some_iff.mp hn).1
  rw [slot_literal hn]
  cases hl : node.literals.get? text with
  | some child => rw [descend_literal_some (by rw [hn]; exact hl), Option.bind_some]
  | none =>
    rw [descend_literal_none (by rw [hn]; exact hl), Option.bind_none,
      slot_blank (by rw [nodes_attach hc, if_pos rfl]), slotAfter_blank]

theorem slot_insertFrom {t : Trie α} {addr : Nat → List Edge} {current : Nat}
    (ha : t.Addressed addr) (hc : current < t.nodes.size) (handler : α)
    (pattern word : List Segment) :
    (t.insertFrom current handler pattern).slot current word =
      slotAfter pattern handler word (t.slot current word) := by
  induction pattern generalizing t addr current word with
  | nil =>
    have hn := Array.getElem?_eq_getElem hc
    cases word with
    | nil => simp [slot, insertFrom, nodes_assign, hn, slotAfter]
    | cons segment word =>
      rw [slot_assign ha hn]
      simp [slotAfter, stem]
  | cons segment pattern ih =>
    obtain ⟨node, hn⟩ : ∃ node, t.nodes[current]? = some node :=
      ⟨_, Array.getElem?_eq_getElem hc⟩
    obtain ⟨addr', hd⟩ := descend_addressed ha hc segment
    obtain ⟨addr'', hg⟩ := insertFrom_grown hd.grown.addressed hd.child_lt handler pattern
    rcases word with - | ⟨piece | name, word⟩
    · rw [slot_nil_insertFrom_cons ha hn, slot, hn, Option.map_some, slotAfter_nil]
    · cases segment with
      | literal text =>
        rw [insertFrom, hd.slot_of_literal ha hg hn, ih hd.grown.addressed hd.child_lt,
          slotAfter_slot_child hn]
        by_cases hp : piece = text
        · rw [if_pos hp, hp, slotAfter_literal]
        · rw [if_neg hp, slotAfter_literal_ne hp]
      | dynamic name =>
        rw [insertFrom, hd.slot_of_dynamic ha hg hn, slotAfter_dynamic]
    · exact (slotAfter_of_dynamic_word name).symm

/-- There is no child at the node to go on to with the segment. -/
def Lacks (node : Node α) : Segment → Prop
  | .literal text => node.literals.get? text = none
  | .dynamic _ => True

theorem descend_of_lacks {t : Trie α} {current : Nat} {node : Node α}
    (hn : t.nodes[current]? = some node) {segment : Segment} (hl : Lacks node segment) :
    (t.descend current segment).2.nodes[(t.descend current segment).1]? = some ⟨[], [], none⟩ ∧
      (t.descend current segment).2.nodes.size = t.nodes.size + 1 ∧
      (t.descend current segment).2.routes = t.routes := by
  have hc := (Array.getElem?_eq_some_iff.mp hn).1
  obtain ⟨f, hd⟩ : ∃ f, t.descend current segment = (t.nodes.size, t.attach current f) := by
    cases segment with
    | literal text => exact ⟨_, descend_literal_none (by rw [hn]; exact hl)⟩
    | dynamic name => exact ⟨_, descend_dynamic t current name⟩
  rw [hd, nodes_attach hc, if_pos rfl, size_attach]
  exact ⟨rfl, rfl, rfl⟩

/-- Below a node that has nothing yet, every segment of a pattern opens a node. -/
theorem insertFrom_blank {t : Trie α} {current : Nat}
    (hn : t.nodes[current]? = some ⟨[], [], none⟩) (handler : α) (pattern : List Segment) :
    (t.insertFrom current handler pattern).nodes.size = t.nodes.size + pattern.length ∧
      (t.insertFrom current handler pattern).routes = t.routes + 1 := by
  induction pattern generalizing t current with
  | nil => simp [insertFrom, assign, hn]
  | cons segment pattern ih =>
    have hl : Lacks (⟨[], [], none⟩ : Node α) segment := by cases segment <;> trivial
    obtain ⟨hnew, hgrown, hkept⟩ := descend_of_lacks hn hl
    obtain ⟨hsize, hroutes⟩ := ih hnew
    rw [insertFrom, hsize, hgrown, hroutes, hkept, List.length_cons]
    exact ⟨by omega, rfl⟩

theorem insertFrom_of_lacks {t : Trie α} {current : Nat} {node : Node α}
    (hn : t.nodes[current]? = some node) (segment : Segment) (hl : Lacks node segment)
    (handler : α) (pattern : List Segment) :
    (t.insertFrom current handler (segment :: pattern)).nodes.size =
        t.nodes.size + (pattern.length + 1) ∧
      (t.insertFrom current handler (segment :: pattern)).routes = t.routes + 1 := by
  obtain ⟨hnew, hgrown, hkept⟩ := descend_of_lacks hn hl
  obtain ⟨hsize, hroutes⟩ := insertFrom_blank hnew handler pattern
  rw [insertFrom, hsize, hgrown, hroutes, hkept]
  exact ⟨by omega, rfl⟩

theorem filter_stems_of_lacks {t : Trie α} {current : Nat} {node : Node α} {text : String}
    (hn : t.nodes[current]? = some node) (hl : Lacks node (.literal text))
    (pattern : List Segment) :
    (stems (.literal text :: pattern)).filter (fun word => (t.slot current word).isNone) =
      stems (.literal text :: pattern) := by
  have hget : node.literals.get? text = none := hl
  have hslot : ∀ word, (t.slot current (.literal text :: word)).isNone = true := by
    intro word
    rw [slot_literal hn, hget]
    rfl
  refine List.filter_eq_self.mpr fun word hw => ?_
  rw [stems_literal] at hw
  rcases List.mem_cons.mp hw with rfl | hw
  · exact hslot []
  · obtain ⟨word, -, rfl⟩ := List.mem_map.mp hw
    exact hslot word

/-- The nodes that a pattern opens: those of its literals in front that are not there yet, and one
for each segment from its first name on. -/
theorem size_insertFrom {t : Trie α} {addr : Nat → List Edge} {current : Nat}
    (ha : t.Addressed addr) (hc : current < t.nodes.size) (handler : α)
    (pattern : List Segment) :
    (t.insertFrom current handler pattern).nodes.size =
      t.nodes.size + ((stems pattern).filter fun word => (t.slot current word).isNone).length +
        (pattern.length - lead pattern) := by
  induction pattern generalizing current with
  | nil => simp [insertFrom, assign, stems, stem]
  | cons segment pattern ih =>
    obtain ⟨node, hn⟩ : ∃ node, t.nodes[current]? = some node :=
      ⟨_, Array.getElem?_eq_getElem hc⟩
    cases segment with
    | literal text =>
      -- A child that is there is the first of the stems and opens no node. Where there is none, all
      -- the stems are missing.
      cases hl : node.literals.get? text with
      | some child =>
        have hlt := (ha hn (.literal hl)).1
        have hslot : ∀ word, t.slot current (.literal text :: word) = t.slot child word := by
          intro word
          rw [slot_literal hn, hl, Option.bind_some]
        have hhere : (t.slot child []).isNone = false := by
          rw [slot, Array.getElem?_eq_getElem hlt]
          rfl
        rw [insertFrom, descend_literal_some (by rw [hn]; exact hl), ih hlt, stems_literal,
          List.filter_cons_of_neg (by rw [hslot, hhere]; simp), List.filter_map, List.length_map]
        simp only [Function.comp_def, hslot, lead_literal, List.length_cons, Nat.add_sub_add_right]
      | none =>
        have hle : lead pattern ≤ pattern.length := (List.takeWhile_sublist _).length_le
        rw [(insertFrom_of_lacks hn (.literal text) hl handler pattern).1,
          filter_stems_of_lacks hn hl, length_stems, lead_literal, List.length_cons]
        omega
    | dynamic name =>
      rw [(insertFrom_of_lacks hn (.dynamic name) trivial handler pattern).1, stems_dynamic,
        lead_dynamic, List.length_cons]
      rfl

/-- A pattern is one more route, unless it has no names and the handler of its node is replaced. -/
theorem routes_insertFrom {t : Trie α} {addr : Nat → List Edge} {current : Nat}
    (ha : t.Addressed addr) (hc : current < t.nodes.size) (handler : α)
    (pattern : List Segment) :
    (t.insertFrom current handler pattern).routes =
      t.routes + if (t.slot current pattern).join.isSome then 0 else 1 := by
  induction pattern generalizing current with
  | nil =>
    rw [insertFrom, assign, slot, Array.getElem?_eq_getElem hc]
    cases hh : t.nodes[current].handler <;> simp [hh]
  | cons segment pattern ih =>
    obtain ⟨node, hn⟩ : ∃ node, t.nodes[current]? = some node :=
      ⟨_, Array.getElem?_eq_getElem hc⟩
    cases segment with
    | literal text =>
      rw [slot_literal hn]
      cases hl : node.literals.get? text with
      | some child =>
        rw [insertFrom, descend_literal_some (by rw [hn]; exact hl), Option.bind_some]
        exact ih (ha hn (.literal hl)).1
      | none =>
        exact (insertFrom_of_lacks hn (.literal text) hl handler pattern).2
    | dynamic name => exact (insertFrom_of_lacks hn (.dynamic name) trivial handler pattern).2

/-- The nodes that have a handler. -/
def handlers (t : Trie α) : Nat :=
  t.nodes.toList.countP (·.handler.isSome)

theorem handlers_assign {t : Trie α} {current : Nat} (hc : current < t.nodes.size) (handler : α)
    (h : t.routes = t.handlers) :
    (t.assign current handler).routes = (t.assign current handler).handlers := by
  have hn := Array.getElem?_eq_getElem hc
  obtain ⟨before, after, hold, hnew⟩ := toList_assign hn handler
  rw [handlers, hold, List.countP_append, List.countP_cons] at h
  rw [handlers, hnew, List.countP_append, List.countP_cons, assign, hn, Option.bind_some]
  cases hh : t.nodes[current].handler <;> simp [hh] at h ⊢ <;> omega

theorem handlers_attach {t : Trie α} {current : Nat} {node : Node α}
    (hn : t.nodes[current]? = some node) {f : Node α → Node α}
    (hf : (f node).handler = node.handler) : (t.attach current f).handlers = t.handlers := by
  obtain ⟨before, after, hold, hnew⟩ := toList_attach hn f
  rw [handlers, handlers, hold, hnew]
  simp [List.countP_cons, hf]

theorem handlers_descend {t : Trie α} {current : Nat} (hc : current < t.nodes.size)
    (segment : Segment) :
    (t.descend current segment).2.routes = t.routes ∧
      (t.descend current segment).2.handlers = t.handlers := by
  have hn := Array.getElem?_eq_getElem hc
  cases segment with
  | literal text =>
    cases hl : (t.nodes[current]?).bind (·.literals.get? text) with
    | some child =>
      rw [descend_literal_some hl]
      exact ⟨rfl, rfl⟩
    | none =>
      rw [descend_literal_none hl]
      exact ⟨rfl, handlers_attach hn rfl⟩
  | dynamic name =>
    rw [descend_dynamic]
    exact ⟨rfl, handlers_attach hn rfl⟩

theorem handlers_insertFrom {t : Trie α} {addr : Nat → List Edge} {current : Nat}
    (ha : t.Addressed addr) (hc : current < t.nodes.size) (handler : α) (pattern : List Segment)
    (h : t.routes = t.handlers) :
    (t.insertFrom current handler pattern).routes =
      (t.insertFrom current handler pattern).handlers := by
  induction pattern generalizing t addr current with
  | nil => exact handlers_assign hc handler h
  | cons segment pattern ih =>
    obtain ⟨addr', hd⟩ := descend_addressed ha hc segment
    obtain ⟨hroutes, hhandlers⟩ := handlers_descend hc segment
    have hnew : (t.descend current segment).2.routes = (t.descend current segment).2.handlers := by
      rw [hroutes, hhandlers, h]
    exact ih hd.grown.addressed hd.child_lt hnew

theorem routes_eq_handlers (entries : List (List Segment × α)) :
    (ofPatterns entries).routes = (ofPatterns entries).handlers := by
  induction entries using List.reverseRecOn with
  | nil => rfl
  | append_singleton entries e ih =>
    obtain ⟨hpos, addr, ha⟩ := ofPatterns_addressed entries
    rw [ofPatterns_concat]
    exact handlers_insertFrom ha hpos e.2 e.1 ih

theorem slotAfter_isSome {pattern word : List Segment} {handler : α} {old : Option (Option α)} :
    (slotAfter pattern handler word old).isSome = true ↔
      word <+: stem pattern ∨ old.isSome = true := by
  rw [slotAfter]
  split
  · rename_i h
    obtain ⟨rfl, hs⟩ := h
    simp [stem_eq_of_isStatic hs]
  · split <;> simp [*]

theorem slotAfter_join {pattern word : List Segment} {handler : α} {old : Option (Option α)} :
    (slotAfter pattern handler word old).join.isSome = true ↔
      (word = pattern ∧ isStatic pattern = true) ∨ old.join.isSome = true := by
  rw [slotAfter]
  split
  · rename_i h
    simp [h]
  · rename_i h
    rw [or_iff_right h]
    split
    · cases old <;> simp
    · rfl

/-- There is a node for the beginnings of the literals in front, and for no other literals. -/
theorem slot_ofPatterns_isSome (entries : List (List Segment × α)) (word : List Segment) :
    ((ofPatterns entries).slot 0 word).isSome = true ↔
      word = [] ∨ word ∈ entries.flatMap fun e => stems e.1 := by
  induction entries using List.reverseRecOn with
  | nil =>
    rw [ofPatterns, List.foldl_nil, slot_blank rfl]
    by_cases h : word = [] <;> simp [h]
  | append_singleton entries e ih =>
    obtain ⟨hpos, addr, ha⟩ := ofPatterns_addressed entries
    rw [ofPatterns_concat, insert, slot_insertFrom ha hpos, slotAfter_isSome, ih,
      List.flatMap_append, List.mem_append, List.flatMap_singleton, mem_stems]
    by_cases h : word = []
    · simp [h]
    · simp [h, or_comm]

/-- A node that literals lead to has a handler if they are a whole pattern that was put in. -/
theorem slot_ofPatterns_join (entries : List (List Segment × α)) (word : List Segment) :
    ((ofPatterns entries).slot 0 word).join.isSome = true ↔
      word ∈ (entries.map (·.1)).filter isStatic := by
  induction entries using List.reverseRecOn with
  | nil =>
    rw [ofPatterns, List.foldl_nil, slot_blank rfl]
    by_cases h : word = [] <;> simp [h]
  | append_singleton entries e ih =>
    obtain ⟨hpos, addr, ha⟩ := ofPatterns_addressed entries
    have hlast : word ∈ [e.1].filter isStatic ↔ word = e.1 ∧ isStatic e.1 = true := by
      rw [List.mem_filter, List.mem_singleton]
      exact and_congr_right fun h => h ▸ Iff.rfl
    rw [ofPatterns_concat, insert, slot_insertFrom ha hpos, slotAfter_join, ih, List.map_append,
      List.filter_append, List.mem_append, List.map_singleton, hlast, or_comm]

theorem length_dedup_append {β : Type} [DecidableEq β] {first second : List β} {p : β → Bool}
    (h : second.Nodup) (hp : ∀ b ∈ second, p b = true ↔ b ∉ first) :
    (first ++ second).dedup.length = first.dedup.length + (second.filter p).length := by
  have hnew : (second.filter p).toFinset = second.toFinset \ first.toFinset := by
    ext b
    simp only [List.mem_toFinset, List.mem_filter, Finset.mem_sdiff]
    exact and_congr_right (hp b)
  calc (first ++ second).dedup.length = (second.toFinset ∪ first.toFinset).card := by
        rw [← List.card_toFinset, List.toFinset_append, Finset.union_comm]
    _ = (second.toFinset \ first.toFinset).card + first.toFinset.card :=
        (Finset.card_sdiff_add_card _ _).symm
    _ = first.dedup.length + (second.filter p).length := by
        rw [← hnew, List.toFinset_card_of_nodup (h.filter _), List.card_toFinset, Nat.add_comm]

/-- The root, a node for each beginning that some patterns share, and one for each segment from the
first name of a pattern on. -/
theorem nodeCount_ofPatterns (entries : List (List Segment × α)) :
    (ofPatterns entries).nodeCount = 1 + (entries.flatMap fun e => stems e.1).dedup.length +
      (entries.map fun e => e.1.length - lead e.1).sum := by
  induction entries using List.reverseRecOn with
  | nil => rfl
  | append_singleton entries e ih =>
    obtain ⟨hpos, addr, ha⟩ := ofPatterns_addressed entries
    have hnew : ∀ word ∈ stems e.1, ((ofPatterns entries).slot 0 word).isNone = true ↔
        word ∉ entries.flatMap fun e => stems e.1 := by
      intro word hw
      have hslot := slot_ofPatterns_isSome entries word
      rw [or_iff_right (mem_stems.mp hw).1] at hslot
      rw [← hslot, Option.isNone_iff_eq_none, Option.not_isSome_iff_eq_none]
    rw [nodeCount] at ih ⊢
    rw [ofPatterns_concat, insert, size_insertFrom ha hpos, ih, List.flatMap_append,
      List.flatMap_singleton, length_dedup_append (stems_nodup _) hnew, List.map_append,
      List.sum_append, List.map_singleton, List.sum_singleton]
    omega

/-- The patterns without names, each once, and every pattern with a name. -/
theorem routes_ofPatterns (entries : List (List Segment × α)) :
    (ofPatterns entries).routes = ((entries.map (·.1)).filter isStatic).dedup.length +
      entries.countP fun e => !isStatic e.1 := by
  induction entries using List.reverseRecOn with
  | nil => rfl
  | append_singleton entries e ih =>
    obtain ⟨hpos, addr, ha⟩ := ofPatterns_addressed entries
    have hslot := slot_ofPatterns_join entries e.1
    rw [ofPatterns_concat, insert, routes_insertFrom ha hpos, ih, List.map_append,
      List.filter_append, List.map_singleton, List.countP_append, List.countP_singleton]
    -- A pattern without names is new if its slot is empty. One with names has no slot.
    cases hs : isStatic e.1 with
    | true =>
      have hnew : ∀ word ∈ [e.1], (!((ofPatterns entries).slot 0 word).join.isSome) = true ↔
          word ∉ (entries.map (·.1)).filter isStatic := by
        intro word _
        rw [← slot_ofPatterns_join, Bool.not_eq_true', Bool.not_eq_true]
      rw [List.filter_cons_of_pos hs, List.filter_nil,
        length_dedup_append (List.nodup_singleton _) hnew]
      cases hj : ((ofPatterns entries).slot 0 e.1).join.isSome
      · rw [List.filter_cons_of_pos (by simp [hj])]
        simp
        omega
      · rw [List.filter_cons_of_neg (by simp [hj])]
        rfl
    | false =>
      have hnone : ((ofPatterns entries).slot 0 e.1).join.isSome = false := by
        rw [← Bool.not_eq_true, hslot, List.mem_filter, hs]
        simp
      rw [hnone, List.filter_cons_of_neg (by simp [hs]), List.filter_nil, List.append_nil]
      rfl

end Trie

end Switchboard.Route
