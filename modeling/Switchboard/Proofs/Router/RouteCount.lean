import Switchboard.Proofs.Route.Counts
import Switchboard.Proofs.Router.History

/-! How many routes a router has, counted in the routes that were pushed. -/

namespace Switchboard

namespace Route.RouteTable

variable {α : Type}

theorem trie_ofLog (log : List (String × α)) :
    (ofLog log).trie = .ofPatterns
      ((log.filter (kind ·.1 = .dynamic)).map fun e => (pattern e.1, e.2)) := by
  induction log using List.reverseRecOn with
  | nil => rfl
  | append_singleton log e ih =>
    rw [ofLog_concat]
    cases hk : kind e.1 with
    | static => simp [insert_of_static hk, hk, ih]
    | dynamic =>
      rw [insert_of_dynamic hk, List.filter_append, List.filter_cons_of_pos (by simp [hk]),
        List.filter_nil, List.map_append, List.map_singleton, Trie.ofPatterns_concat, ih]
    | wildcard => simp [insert_of_wildcard hk, hk, ih]

theorem keys_statics_ofLog (log : List (String × α)) :
    (ofLog log).statics.keys.Nodup ∧ ∀ key, key ∈ (ofLog log).statics.keys ↔
      key ∈ (log.filter (kind ·.1 = .static)).map (normalize ·.1) := by
  induction log using List.reverseRecOn with
  | nil => exact ⟨List.nodup_nil, fun _ => Iff.rfl⟩
  | append_singleton log e ih =>
    obtain ⟨hnodup, hmem⟩ := ih
    rw [ofLog_concat]
    cases hk : kind e.1 with
    | static =>
      rw [insert_of_static hk]
      refine ⟨Table.nodup_keys_insert hnodup _ _, fun key => ?_⟩
      rw [Table.mem_keys_insert, hmem, List.filter_append, List.filter_cons_of_pos (by simp [hk]),
        List.filter_nil, List.map_append, List.map_singleton, List.mem_append,
        List.mem_singleton, or_comm]
    | dynamic =>
      rw [insert_of_dynamic hk, List.filter_append, List.filter_cons_of_neg (by simp [hk]),
        List.filter_nil, List.append_nil]
      exact ⟨hnodup, hmem⟩
    | wildcard =>
      rw [insert_of_wildcard hk, List.filter_append, List.filter_cons_of_neg (by simp [hk]),
        List.filter_nil, List.append_nil]
      exact ⟨hnodup, hmem⟩

theorem length_statics_ofLog (log : List (String × α)) :
    (ofLog log).statics.length =
      ((log.filter (kind ·.1 = .static)).map (normalize ·.1)).dedup.length := by
  obtain ⟨hnodup, hmem⟩ := keys_statics_ofLog log
  have hperm : (ofLog log).statics.keys.Perm
      ((log.filter (kind ·.1 = .static)).map (normalize ·.1)).dedup :=
    (List.perm_ext_iff_of_nodup hnodup (List.nodup_dedup _)).mpr fun key => by
      rw [hmem, List.mem_dedup]
  rw [← hperm.length_eq, Table.keys, List.length_map]

/-- Only routes with names come into the trie, and each of them is one there. -/
theorem routes_trie_ofLog (log : List (String × α)) :
    (ofLog log).trie.routes = log.countP (kind ·.1 = .dynamic) := by
  have hdynamic : ∀ e ∈ log.filter (kind ·.1 = .dynamic), isStatic (pattern e.1) = false :=
    fun e he => isStatic_eq_false_of_dynamic (by simpa using (List.mem_filter.mp he).2)
  have hstatics : (((log.filter (kind ·.1 = .dynamic)).map fun e => (pattern e.1, e.2)).map
      (·.1)).filter isStatic = [] := by
    rw [List.filter_eq_nil_iff, List.map_map]
    intro segments hm
    obtain ⟨e, he, rfl⟩ := List.mem_map.mp hm
    simp [hdynamic e he]
  rw [trie_ofLog, Trie.routes_ofPatterns, hstatics, List.countP_map, List.countP_eq_length_filter,
    List.countP_eq_length_filter]
  have hall : (log.filter (kind ·.1 = .dynamic)).filter
      ((fun e => !isStatic e.1) ∘ fun e => (pattern e.1, e.2)) =
        log.filter (kind ·.1 = .dynamic) :=
    List.filter_eq_self.mpr fun e he => by simp [hdynamic e he]
  rw [hall]
  simp

theorem wildcard_ofLog_isSome (log : List (String × α)) :
    (ofLog log).wildcard.isSome = true ↔ ∃ e ∈ log, kind e.1 = .wildcard := by
  rw [wildcard_ofLog, Option.isSome_map, List.getLast?_isSome, Ne, List.filter_eq_nil_iff]
  simp

/-- The static routes by their normal forms, each once, every dynamic route, and one for all of the
routes for every path. -/
theorem count_ofLog (log : List (String × α)) :
    (ofLog log).count = ((log.filter (kind ·.1 = .static)).map (normalize ·.1)).dedup.length +
      log.countP (kind ·.1 = .dynamic) + if ∃ e ∈ log, kind e.1 = .wildcard then 1 else 0 := by
  rw [count, length_statics_ofLog, routes_trie_ofLog]
  simp only [wildcard_ofLog_isSome]

end Route.RouteTable

namespace Router

open Route (Segment Trie kind isStatic lead stems)

/-- The arena of a trie is a tree of nodes behind their parents, whatever was put in, so a search
looks at nodes of the arena only and ends. The numbers of nodes and routes are known from the
patterns, and the number of routes of a router from the routes that were pushed. -/
theorem counts_of_history (registry : Registry) (base : List Middleware) :
    (∀ (α : Type) (entries : List (List Segment × α)),
      let t := Trie.ofPatterns entries
      (∀ i node, t.nodes[i]? = some node → node.literals.keys.Nodup ∧
        ∀ child ∈ node.children, i < child ∧ child < t.nodeCount) ∧
      (∀ j, t.targets.count j = if 0 < j ∧ j < t.nodeCount then 1 else 0) ∧
      (∀ path, (t.visits 0 path).length ≤ t.nodeCount ∧ (∀ j ∈ t.visits 0 path, j < t.nodeCount) ∧
        ∀ t' : Trie α, (∀ j ∈ t.visits 0 path, t'.nodes[j]? = t.nodes[j]?) →
          t'.walk 0 path = t.walk 0 path) ∧
      t.nodeCount = 1 + (entries.flatMap fun e => stems e.1).dedup.length +
        (entries.map fun e => e.1.length - lead e.1).sum ∧
      t.routes = t.handlers ∧
      t.routes = ((entries.map (·.1)).filter isStatic).dedup.length +
        entries.countP fun e => !isStatic e.1) ∧
    ∀ changes r log, (empty registry base).replay changes = .ok (r, log) →
      r.count = ((log.filter (kind ·.path = .static)).map (Route.normalize ·.path)).dedup.length +
        log.countP (kind ·.path = .dynamic) +
          if ∃ e ∈ log, kind e.path = .wildcard then 1 else 0 := by
  refine ⟨fun α entries => ?_, fun changes r log h => ?_⟩
  · have htree := Trie.ofPatterns_isTree entries
    obtain ⟨hpos, addr, ha⟩ := Trie.ofPatterns_addressed entries
    refine ⟨fun i node hn => ⟨htree.keys_nodup hn, fun child hc => ?_⟩, htree.count_targets,
      fun path => ?_, Trie.nodeCount_ofPatterns entries, Trie.routes_eq_handlers entries,
      Trie.routes_ofPatterns entries⟩
    · exact ⟨htree.child_gt hn child hc, htree.child_lt hn hc⟩
    · exact ⟨htree.length_visits_le ha path, fun j hj => (Trie.visits_below ha hpos j hj).1,
        fun t' ht => Trie.walk_congr_visits ht⟩
  · have hlog := Route.RouteTable.count_ofLog (log.map fun e => (e.path, e.composed.handler))
    have hwildcard : (∃ e ∈ log.map fun e => (e.path, e.composed.handler), kind e.1 = .wildcard) ↔
        ∃ e ∈ log, kind e.path = .wildcard := by
      simp
    rw [← table_eq_ofLog h, List.filter_map, List.map_map, List.countP_map] at hlog
    simp only [hwildcard] at hlog
    exact hlog

/-- The second pattern shares the node of `api` and opens two nodes. Two paths with one normal form
are one route, and so are two routes for every path. -/
theorem counts_of_history_users :
    (let t := Trie.ofPatterns [([.literal "api", .dynamic "v", .literal "users"], ()),
        ([.literal "api", .dynamic "v", .literal "orders"], ())]
      ∃ node, t.nodes[1]? = some node ∧ node.children = [2, 4] ∧
        (∀ child ∈ node.children, 1 < child ∧ child < t.nodeCount) ∧ t.nodeCount = 6) ∧
    ∃ r log, (empty .empty []).replay [.push "//*" .reply [], .push "/users/{id}" .reply [],
        .push "users" .reply [], .push "*" .reply [], .push "/users/" .reply [],
        .push "/users/{name}" .reply []] = .ok (r, log) ∧
      r.count = ((log.filter (kind ·.path = .static)).map (Route.normalize ·.path)).dedup.length +
        log.countP (kind ·.path = .dynamic) +
          (if ∃ e ∈ log, kind e.path = .wildcard then 1 else 0) ∧
      r.count = 4 ∧ log.length = 6 := by
  have h : (empty .empty []).replay [.push "//*" .reply [], .push "/users/{id}" .reply [],
      .push "users" .reply [], .push "*" .reply [], .push "/users/" .reply [],
      .push "/users/{name}" .reply []] = .ok (_, _) := rfl
  refine ⟨⟨_, rfl, rfl, ?_, rfl⟩, _, _, h, (counts_of_history .empty []).2 _ _ _ h, rfl, rfl⟩
  exact (((counts_of_history .empty []).1 Unit _).1 1 _ rfl).2

end Router

end Switchboard
