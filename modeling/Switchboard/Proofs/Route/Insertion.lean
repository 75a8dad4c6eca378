import Switchboard.Proofs.Route.Addresses

/-! What one more pattern changes in the answers of a trie. An answer is weighed by the number of
literals in front of its first name: a new pattern is preferred to an answer with fewer, and a
pattern without names to every answer. -/

namespace Switchboard.Route

/-- What a search finds, with the number of literals in front of the first name on the way. -/
structure Found (α : Type) where
  lead : Nat
  handler : α
  bound : List (String × String)

namespace Found

variable {α : Type}

def pastLiteral (f : Found α) : Found α :=
  { f with lead := f.lead + 1 }

def pastName (name piece : String) (f : Found α) : Found α :=
  ⟨0, f.handler, (name, piece) :: f.bound⟩

def ofPattern (pattern : List Segment) (handler : α) (path : List String) : Found α :=
  ⟨Route.lead pattern, handler, bindings pattern path⟩

/-- The answer after a new pattern has come to an earlier answer. -/
def prefer (pattern : List Segment) (new : Found α) : Option (Found α) → Found α
  | some old => if isStatic pattern = false ∧ new.lead ≤ old.lead then old else new
  | none => new

end Found

namespace Trie

variable {α : Type}

/-- The search of `walk`, which also counts literals. -/
def search (t : Trie α) (index : Nat) : List String → Option (Found α)
  | [] => (t.nodes[index]?).bind fun node => node.handler.map (⟨0, ·, []⟩)
  | piece :: path =>
    (t.nodes[index]?).bind fun node =>
      ((node.literals.get? piece).bind fun child => (t.search child path).map .pastLiteral) <|>
        node.dynamics.findSome? fun (name, child) =>
          (t.search child path).map (.pastName name piece)

def viaNames (t : Trie α) (node : Node α) (piece : String) (path : List String) :
    Option (Found α) :=
  node.dynamics.findSome? fun (name, child) => (t.search child path).map (.pastName name piece)

theorem search_cons {t : Trie α} {index : Nat} {node : Node α} (h : t.nodes[index]? = some node)
    (piece : String) (path : List String) :
    t.search index (piece :: path) =
      (((node.literals.get? piece).bind (t.search · path)).map .pastLiteral).or
        (t.viaNames node piece path) := by
  cases hl : node.literals.get? piece <;> simp [search, h, viaNames, hl]

theorem walk_cons {t : Trie α} {index : Nat} {node : Node α} (h : t.nodes[index]? = some node)
    (piece : String) (path : List String) :
    t.walk index (piece :: path) =
      ((node.literals.get? piece).bind (t.walk · path)).or
        (node.dynamics.findSome? fun p =>
          (t.walk p.2 path).map fun found => (found.1, (p.1, piece) :: found.2)) := by
  rw [walk, h, Option.bind_some, Option.orElse_eq_orElse, Option.orElse_eq_or]

theorem walk_eq_search (t : Trie α) (index : Nat) (path : List String) :
    t.walk index path = (t.search index path).map fun f => (f.handler, f.bound) := by
  induction path generalizing index with
  | nil =>
    cases hn : t.nodes[index]? with
    | none => simp [walk, search, hn]
    | some node => cases hh : node.handler <;> simp [walk, search, hn, hh]
  | cons piece path ih =>
    cases hn : t.nodes[index]? with
    | none => simp [walk, search, hn]
    | some node =>
      have hlit : (node.literals.get? piece).bind (t.walk · path) =
          (((node.literals.get? piece).bind (t.search · path)).map Found.pastLiteral).map
            fun f => (f.handler, f.bound) := by
        cases node.literals.get? piece with
        | none => rfl
        | some child => simp [ih, Function.comp_def, Found.pastLiteral]
      have hdyn : (node.dynamics.findSome? fun p =>
          (t.walk p.2 path).map fun found => (found.1, (p.1, piece) :: found.2)) =
          (t.viaNames node piece path).map fun f => (f.handler, f.bound) := by
        rw [viaNames, List.map_findSome?]
        congr 1
        funext p
        simp [ih, Function.comp_def, Found.pastName]
      rw [walk_cons hn, search_cons hn, Option.map_or, hlit, hdyn]

theorem lead_of_viaNames {t : Trie α} {node : Node α} {piece : String} {path : List String}
    {f : Found α} (h : t.viaNames node piece path = some f) : f.lead = 0 := by
  obtain ⟨⟨name, child⟩, _, he⟩ := List.exists_of_findSome?_eq_some h
  obtain ⟨g, _, rfl⟩ := Option.map_eq_some_iff.mp he
  rfl

theorem viaNames_congr {t t' : Trie α} {node node' : Node α} {path : List String}
    (hd : node'.dynamics = node.dynamics)
    (h : ∀ name child, (name, child) ∈ node.dynamics → t'.search child path = t.search child path)
    (piece : String) : t'.viaNames node' piece path = t.viaNames node piece path := by
  simp only [viaNames, hd]
  generalize node.dynamics = dynamics at h
  induction dynamics with
  | nil => rfl
  | cons p dynamics ih =>
    rw [List.findSome?_cons, List.findSome?_cons, h p.1 p.2 (by simp),
      ih fun name child hm => h name child (List.mem_cons_of_mem _ hm)]

/-- A search below a node looks only at nodes whose addresses go on from that of the node. -/
theorem search_congr {t t' : Trie α} {addr : Nat → List Edge} (h : t.Addressed addr)
    {index : Nat} (hi : index < t.nodes.size)
    (hsame : ∀ j < t.nodes.size, addr index <+: addr j → t'.nodes[j]? = t.nodes[j]?)
    (path : List String) : t'.search index path = t.search index path := by
  induction path generalizing index with
  | nil => simp only [search, hsame index hi (List.prefix_refl _)]
  | cons piece path ih =>
    obtain ⟨node, hn⟩ : ∃ node, t.nodes[index]? = some node :=
      ⟨_, Array.getElem?_eq_getElem hi⟩
    have hn' : t'.nodes[index]? = some node := by rw [hsame index hi (List.prefix_refl _), hn]
    have hchild : ∀ {edge child}, node.Leads edge child →
        t'.search child path = t.search child path := by
      intro edge child hl
      obtain ⟨hlt, ha⟩ := h hn hl
      refine ih hlt fun j hj hp => hsame j hj ?_
      exact (ha ▸ List.prefix_append _ _ : addr index <+: addr child).trans hp
    rw [search_cons hn, search_cons hn', viaNames_congr rfl fun _ _ hm => hchild (.dynamic hm)]
    congr 2
    exact Option.bind_congr fun child hl => hchild (.literal hl)

theorem search_blank {t : Trie α} {index : Nat} (h : t.nodes[index]? = some ⟨[], [], none⟩)
    (path : List String) : t.search index path = none := by
  cases path with
  | nil => simp [search, h]
  | cons piece path => simp [search_cons h, Table.get?, viaNames]

theorem Descent.node_current {t t' : Trie α} {addr addr' addr'' : Nat → List Edge}
    {current : Nat} {segment : Segment} (hd : Descent t addr current segment addr')
    (hc : current < t.nodes.size)
    (hg : Grown (t.descend current segment).2 t' addr' addr''
      (addr' (t.descend current segment).1)) :
    t'.nodes[current]? = (t.descend current segment).2.nodes[current]? := by
  apply hg.node_eq current (hc.trans_le hd.grown.size_le)
  rw [hd.addr_child, hd.grown.addr_eq current hc]
  intro hp
  have hl := hp.length_le
  rw [List.length_append, List.length_singleton] at hl
  omega

/-- What is put in below the child of a segment leaves alone what is below the other children. -/
theorem Descent.node_below_sibling {t t' : Trie α} {addr addr' addr'' : Nat → List Edge}
    {current : Nat} {segment : Segment} (hd : Descent t addr current segment addr')
    (h : t.Addressed addr)
    (hg : Grown (t.descend current segment).2 t' addr' addr''
      (addr' (t.descend current segment).1))
    {node : Node α} {edge : Edge} {other : Nat} (hn : t.nodes[current]? = some node)
    (hl : node.Leads edge other) (hne : edge ≠ segment.edge (t.descend current segment).1) :
    ∀ j < t.nodes.size, addr other <+: addr j → t'.nodes[j]? = t.nodes[j]? := by
  intro j hj hp
  obtain ⟨hlt, ha⟩ := h hn hl
  rw [ha] at hp
  have hcurrent : j ≠ current := by
    rintro rfl
    have hl := hp.length_le
    rw [List.length_append, List.length_singleton] at hl
    omega
  rw [hg.node_eq j (hj.trans_le hd.grown.size_le), hd.node_eq j hj hcurrent]
  rw [hd.addr_child, hd.grown.addr_eq j hj]
  intro hp'
  have he := List.prefix_of_prefix_length_le hp hp' (by simp)
  exact hne (by simpa using he.eq_of_length (by simp))

theorem Descent.search_sibling {t t' : Trie α} {addr addr' addr'' : Nat → List Edge}
    {current : Nat} {segment : Segment} (hd : Descent t addr current segment addr')
    (h : t.Addressed addr)
    (hg : Grown (t.descend current segment).2 t' addr' addr''
      (addr' (t.descend current segment).1))
    {node : Node α} {edge : Edge} {other : Nat} (hn : t.nodes[current]? = some node)
    (hl : node.Leads edge other) (hne : edge ≠ segment.edge (t.descend current segment).1)
    (path : List String) : t'.search other path = t.search other path :=
  search_congr h (h hn hl).1 (hd.node_below_sibling h hg hn hl hne) path

theorem descend_literal_node {t : Trie α} {current : Nat} {node : Node α}
    (hn : t.nodes[current]? = some node) (text : String) :
    ∃ node', (t.descend current (.literal text)).2.nodes[current]? = some node' ∧
      node'.literals.get? text = some (t.descend current (.literal text)).1 ∧
      (∀ piece, piece ≠ text → node'.literals.get? piece = node.literals.get? piece) ∧
      node'.dynamics = node.dynamics ∧
      ∀ path, (t.descend current (.literal text)).2.search
          (t.descend current (.literal text)).1 path =
        (node.literals.get? text).bind (t.search · path) := by
  have hc := (Array.getElem?_eq_some_iff.mp hn).1
  cases hl : node.literals.get? text with
  | some child =>
    rw [descend_literal_some (by rw [hn]; exact hl)]
    exact ⟨node, hn, hl, fun _ _ => rfl, rfl, fun _ => rfl⟩
  | none =>
    rw [descend_literal_none (by rw [hn]; exact hl)]
    refine ⟨{ node with literals := node.literals.insert text t.nodes.size }, ?_, ?_, ?_, rfl, ?_⟩
    · rw [nodes_attach hc, if_neg hc.ne, if_pos rfl, hn]
      rfl
    · simp [Table.get?_insert]
    · intro piece hp
      simp [Table.get?_insert, hp]
    · intro path
      exact search_blank (by rw [nodes_attach hc, if_pos rfl]) path

theorem Descent.search_literal {t t' : Trie α} {addr addr' addr'' : Nat → List Edge}
    {current : Nat} {text : String} (hd : Descent t addr current (.literal text) addr')
    (h : t.Addressed addr)
    (hg : Grown (t.descend current (.literal text)).2 t' addr' addr''
      (addr' (t.descend current (.literal text)).1))
    {node : Node α} (hn : t.nodes[current]? = some node) (piece : String) (path : List String) :
    t'.search current (piece :: path) =
      ((if piece = text then t'.search (t.descend current (.literal text)).1 path
        else (node.literals.get? piece).bind (t.search · path)).map .pastLiteral).or
        (t.viaNames node piece path) := by
  have hc := (Array.getElem?_eq_some_iff.mp hn).1
  obtain ⟨node', hn', hget, hother, hdyn, _⟩ := descend_literal_node hn text
  have hnames : t'.viaNames node' piece path = t.viaNames node piece path :=
    viaNames_congr hdyn (fun name child hm =>
      hd.search_sibling h hg hn (.dynamic hm) (by simp [Segment.edge]) path) piece
  rw [search_cons ((hd.node_current hc hg).trans hn'), hnames]
  by_cases hp : piece = text
  · rw [if_pos hp, hp, hget, Option.bind_some]
  · rw [if_neg hp, hother piece hp]
    congr 2
    refine Option.bind_congr fun child hl => ?_
    exact hd.search_sibling h hg hn (.literal hl) (by simp [Segment.edge, hp]) path

theorem Descent.search_dynamic {t t' : Trie α} {addr addr' addr'' : Nat → List Edge}
    {current : Nat} {name : String} (hd : Descent t addr current (.dynamic name) addr')
    (h : t.Addressed addr)
    (hg : Grown (t.descend current (.dynamic name)).2 t' addr' addr''
      (addr' (t.descend current (.dynamic name)).1))
    {node : Node α} (hn : t.nodes[current]? = some node) (piece : String) (path : List String) :
    t'.search current (piece :: path) = (t.search current (piece :: path)).or
      ((t'.search (t.descend current (.dynamic name)).1 path).map (.pastName name piece)) := by
  have hc := (Array.getElem?_eq_some_iff.mp hn).1
  have hn' : (t.descend current (.dynamic name)).2.nodes[current]? =
      some { node with dynamics := node.dynamics ++ [(name, t.nodes.size)] } := by
    rw [descend_dynamic, nodes_attach hc, if_neg hc.ne, if_pos rfl, hn]
    rfl
  have hold : t'.viaNames node piece path = t.viaNames node piece path := by
    refine viaNames_congr rfl (fun other child hm => ?_) piece
    refine hd.search_sibling h hg hn (.dynamic hm) ?_ path
    have hlt := (h hn (.dynamic hm)).1
    simpa [Segment.edge, descend_dynamic] using hlt.ne
  have hlit : (node.literals.get? piece).bind (t'.search · path) =
      (node.literals.get? piece).bind (t.search · path) :=
    Option.bind_congr fun child hl =>
      hd.search_sibling h hg hn (.literal hl) (by simp [Segment.edge]) path
  rw [search_cons ((hd.node_current hc hg).trans hn'), search_cons hn, hlit, Option.or_assoc,
    ← hold]
  simp [viaNames, descend_dynamic]

end Trie

namespace Found

variable {α : Type}

theorem prefer_literal {text piece : String} {pattern : List Segment} {handler : α}
    {path : List String} {below names : Option (Found α)}
    (hn : ∀ f, names = some f → f.lead = 0) :
    (prefer pattern (.ofPattern pattern handler path) below).pastLiteral =
      prefer (.literal text :: pattern)
        (.ofPattern (.literal text :: pattern) handler (piece :: path))
        ((below.map pastLiteral).or names) := by
  cases below with
  | some old =>
    by_cases hc : isStatic pattern = false ∧ Route.lead pattern ≤ old.lead <;>
      simp [prefer, ofPattern, pastLiteral, hc]
  | none =>
    cases names with
    | none => simp [prefer, ofPattern, pastLiteral]
    | some f => simp [prefer, ofPattern, pastLiteral, hn f rfl]

theorem prefer_dynamic {name piece : String} {pattern : List Segment} {handler : α}
    {path : List String} {old : Option (Found α)} :
    old.or (some ((ofPattern pattern handler path).pastName name piece)) =
      some (prefer (.dynamic name :: pattern)
        (.ofPattern (.dynamic name :: pattern) handler (piece :: path)) old) := by
  cases old <;> simp [prefer, ofPattern, pastName]

end Found

namespace Trie

variable {α : Type}

/-- A node is not below its children: their addresses are longer. -/
theorem node_assign_below {t : Trie α} {addr : Nat → List Edge} {current : Nat}
    (h : t.Addressed addr) {node : Node α} {edge : Edge} {child : Nat}
    (hn : t.nodes[current]? = some node) (hl : node.Leads edge child) (handler : α) :
    ∀ j < t.nodes.size, addr child <+: addr j →
      (t.insertFrom current handler []).nodes[j]? = t.nodes[j]? := by
  intro j _ hp
  rw [insertFrom, nodes_assign, if_neg]
  rintro rfl
  have hle := hp.length_le
  rw [(h hn hl).2, List.length_append, List.length_singleton] at hle
  omega

/-- A handler at a node does not show on the paths that go on from there. -/
theorem search_assign {t : Trie α} {addr : Nat → List Edge} {current : Nat}
    (h : t.Addressed addr) (hc : current < t.nodes.size) (handler : α) (piece : String)
    (path : List String) :
    (t.insertFrom current handler []).search current (piece :: path) =
      t.search current (piece :: path) := by
  obtain ⟨node, hn⟩ : ∃ node, t.nodes[current]? = some node := ⟨_, Array.getElem?_eq_getElem hc⟩
  have hn' : (t.insertFrom current handler []).nodes[current]? =
      some { node with handler := some handler } := by
    rw [insertFrom, nodes_assign, if_pos rfl, hn]
    rfl
  have hchild : ∀ {edge child}, node.Leads edge child →
      (t.insertFrom current handler []).search child path = t.search child path :=
    fun hl => search_congr h (h hn hl).1 (node_assign_below h hn hl handler) path
  have hlit : (node.literals.get? piece).bind
      ((t.insertFrom current handler []).search · path) =
        (node.literals.get? piece).bind (t.search · path) :=
    Option.bind_congr fun child hl => hchild (.literal hl)
  have hnames : (t.insertFrom current handler []).viaNames
      { node with handler := some handler } piece path = t.viaNames node piece path :=
    viaNames_congr rfl (fun _ _ hm => hchild (.dynamic hm)) piece
  rw [search_cons hn', search_cons hn, hnames, hlit]

theorem search_nil (t : Trie α) (index : Nat) :
    t.search index [] = ((t.nodes[index]?).bind (·.handler)).map (⟨0, ·, []⟩) := by
  cases hn : t.nodes[index]? <;> simp [search, hn]

/-- A pattern that goes on from a node does not show on the path that ends there. -/
theorem search_nil_insertFrom_cons {t : Trie α} {addr : Nat → List Edge} {current : Nat}
    (h : t.Addressed addr) (hc : current < t.nodes.size) (handler : α) (segment : Segment)
    (pattern : List Segment) :
    (t.insertFrom current handler (segment :: pattern)).search current [] =
      t.search current [] := by
  obtain ⟨addr', hd⟩ := descend_addressed h hc segment
  obtain ⟨addr'', hg⟩ := insertFrom_grown hd.grown.addressed hd.child_lt handler pattern
  rw [search_nil, insertFrom, hd.node_current hc hg, hd.handler_eq, search_nil]

/-- A new pattern changes the answers on the paths that it fits, where it is preferred. -/
theorem search_insertFrom {t : Trie α} {addr : Nat → List Edge} {current : Nat}
    (h : t.Addressed addr) (hc : current < t.nodes.size) (handler : α)
    (pattern : List Segment) (path : List String) :
    (t.insertFrom current handler pattern).search current path =
      if fits pattern path then
        some (Found.prefer pattern (.ofPattern pattern handler path) (t.search current path))
      else t.search current path := by
  induction pattern generalizing t addr current path with
  | nil =>
    cases path with
    | nil =>
      have hn := Array.getElem?_eq_getElem hc
      cases hs : t.search current [] <;>
        simp [search, insertFrom, nodes_assign, hn, fits, Found.prefer, Found.ofPattern]
    | cons piece path =>
      rw [search_assign h hc]
      rfl
  | cons segment pattern ih =>
    cases path with
    | nil =>
      rw [search_nil_insertFrom_cons h hc]
      rfl
    | cons piece path =>
      obtain ⟨addr', hd⟩ := descend_addressed h hc segment
      obtain ⟨addr'', hg⟩ := insertFrom_grown hd.grown.addressed hd.child_lt handler pattern
      obtain ⟨node, hn⟩ : ∃ node, t.nodes[current]? = some node :=
        ⟨_, Array.getElem?_eq_getElem hc⟩
      have hi := ih hd.grown.addressed hd.child_lt
      rw [insertFrom]
      cases segment with
      | literal text =>
        obtain ⟨node', _, _, _, _, hchild⟩ := descend_literal_node hn text
        have hold := search_cons hn piece path
        rw [hd.search_literal h hg hn, hi, hchild]
        by_cases hp : piece = text
        · subst hp
          have hf : fits (.literal piece :: pattern) (piece :: path) = fits pattern path := by
            simp [fits, Segment.meets]
          rw [if_pos rfl, hf, hold]
          split
          · rw [Option.map_some, Option.some_or,
              Found.prefer_literal fun f hv => lead_of_viaNames hv]
          · rfl
        · rw [if_neg hp, if_neg (by simp [fits, Segment.meets, Ne.symm hp]), hold]
      | dynamic name =>
        have hfresh : (t.descend current (.dynamic name)).2.search
            (t.descend current (.dynamic name)).1 path = none := by
          rw [descend_dynamic]
          exact search_blank (by rw [nodes_attach hc, if_pos rfl]) path
        have hf : fits (.dynamic name :: pattern) (piece :: path) = fits pattern path := by
          simp [fits, Segment.meets]
        rw [hd.search_dynamic h hg hn, hi, hfresh, hf]
        split
        · rw [Option.map_some]
          exact Found.prefer_dynamic
        · simp

end Trie

end Switchboard.Route
