import Mathlib.Data.List.MinMax
import Switchboard.Proofs.Route.Insertion

/-! The answers of a route table as a scan of what was put into it. -/

namespace Switchboard.Route

variable {α : Type}

inductive Kind where
  | static
  | dynamic
  | wildcard
deriving DecidableEq, Repr

def kind (path : String) : Kind :=
  if isWildcard path then .wildcard
  else if isStatic (pattern path) then .static
  else .dynamic

/-- The latest static route with the normal form of the path comes first. Then comes, of the
dynamic routes that fit the path, the earliest of those with the most literals in front of the
first name. The latest route for every path comes last. -/
def scan (log : List (String × α)) (path : String) : Option (α × Table String) :=
  let pieces := split (normalize path)
  let statics := log.filter fun e => kind e.1 = .static ∧ normalize e.1 = normalize path
  let dynamics := log.filter fun e => kind e.1 = .dynamic ∧ fits (pattern e.1) pieces
  let wildcards := log.filter fun e => kind e.1 = .wildcard
  (statics.getLast?.map fun e => (e.2, [])).or <|
    ((dynamics.argmax fun e => lead (pattern e.1)).map fun e =>
      (e.2, bindings (pattern e.1) pieces)).or <|
    wildcards.getLast?.map fun e => (e.2, [])

/-- What is stored for the routes has no part in the choice between them. -/
theorem scan_map {β : Type} (f : α → β) (log : List (String × α)) (path : String) :
    scan (log.map fun e => (e.1, f e.2)) path =
      (scan log path).map fun found => (f found.1, found.2) := by
  have hmax : ∀ l : List (String × α),
      (l.map fun e => (e.1, f e.2)).argmax (fun e => lead (pattern e.1)) =
        (l.argmax fun e => lead (pattern e.1)).map fun e => (e.1, f e.2) := by
    intro l
    induction l using List.reverseRecOn with
    | nil => rfl
    | append_singleton l e ih =>
      rw [List.map_append, List.map_singleton, List.argmax_concat, List.argmax_concat, ih]
      cases l.argmax fun e => lead (pattern e.1) with
      | none => rfl
      | some best =>
        simp only [Option.map_some]
        split <;> rfl
  simp only [scan, List.filter_map, Function.comp_def, List.getLast?_map, hmax, Option.map_or,
    Option.map_map]

theorem mem_of_scan {log : List (String × α)} {path : String} {found : α} {params : Table String}
    (h : scan log path = some (found, params)) : ∃ e ∈ log, e.2 = found := by
  have hsub : ∀ {p : String × α → Bool} {e : String × α}, e ∈ log.filter p → e ∈ log :=
    fun he => (List.mem_filter.mp he).1
  simp only [scan, Option.or_eq_some_iff, Option.map_eq_some_iff, Prod.mk.injEq] at h
  rcases h with ⟨e, he, rfl, _⟩ | ⟨_, ⟨e, he, rfl, _⟩ | ⟨_, e, he, rfl, _⟩⟩
  · exact ⟨e, hsub (List.mem_of_getLast? he), rfl⟩
  · exact ⟨e, hsub (List.argmax_mem he), rfl⟩
  · exact ⟨e, hsub (List.mem_of_getLast? he), rfl⟩

namespace RouteTable

/-- The table that a list of routes makes, from the first to the last. -/
def ofLog (log : List (String × α)) : RouteTable α :=
  log.foldl (fun t e => t.insert e.1 e.2) .empty

theorem ofLog_concat (log : List (String × α)) (e : String × α) :
    ofLog (log ++ [e]) = (ofLog log).insert e.1 e.2 := by
  simp [ofLog]

theorem insert_of_static {t : RouteTable α} {path : String} {handler : α}
    (h : kind path = .static) :
    t.insert path handler = { t with statics := t.statics.insert (normalize path) handler } := by
  by_cases hw : isWildcard path = true <;> by_cases hs : isStatic (pattern path) = true <;>
    simp_all [kind, insert, isStatic]

theorem insert_of_dynamic {t : RouteTable α} {path : String} {handler : α}
    (h : kind path = .dynamic) :
    t.insert path handler = { t with trie := t.trie.insert (pattern path) handler } := by
  by_cases hw : isWildcard path = true <;> by_cases hs : isStatic (pattern path) = true <;>
    simp_all [kind, insert, isStatic]

theorem insert_of_wildcard {t : RouteTable α} {path : String} {handler : α}
    (h : kind path = .wildcard) :
    t.insert path handler = { t with wildcard := some handler } := by
  by_cases hw : isWildcard path = true <;> by_cases hs : isStatic (pattern path) = true <;>
    simp_all [kind, insert]

theorem statics_ofLog (log : List (String × α)) (key : String) :
    (ofLog log).statics.get? key =
      (log.filter fun e => kind e.1 = .static ∧ normalize e.1 = key).getLast?.map (·.2) := by
  induction log using List.reverseRecOn with
  | nil => rfl
  | append_singleton log e ih =>
    rw [ofLog_concat]
    cases hk : kind e.1 with
    | static =>
      rw [insert_of_static hk, Table.get?_insert]
      by_cases hn : normalize e.1 = key
      · simp [hk, hn]
      · simp [hk, hn, Ne.symm hn, ih]
    | dynamic => simp [insert_of_dynamic hk, hk, ih]
    | wildcard => simp [insert_of_wildcard hk, hk, ih]

theorem wildcard_ofLog (log : List (String × α)) :
    (ofLog log).wildcard = (log.filter fun e => kind e.1 = .wildcard).getLast?.map (·.2) := by
  induction log using List.reverseRecOn with
  | nil => rfl
  | append_singleton log e ih =>
    rw [ofLog_concat]
    cases hk : kind e.1 with
    | static => simp [insert_of_static hk, hk, ih]
    | dynamic => simp [insert_of_dynamic hk, hk, ih]
    | wildcard => simp [insert_of_wildcard hk, hk]

theorem trie_ofLog_addressed (log : List (String × α)) :
    0 < (ofLog log).trie.nodes.size ∧ ∃ addr, (ofLog log).trie.Addressed addr := by
  induction log using List.reverseRecOn with
  | nil => exact ⟨Nat.one_pos, fun _ => [], Trie.empty_addressed _⟩
  | append_singleton log e ih =>
    rw [ofLog_concat]
    cases hk : kind e.1 with
    | static => rwa [insert_of_static hk]
    | dynamic =>
      obtain ⟨hpos, addr, ha⟩ := ih
      obtain ⟨addr', hg⟩ := Trie.insertFrom_grown ha hpos e.2 (pattern e.1)
      rw [insert_of_dynamic hk]
      exact ⟨hpos.trans_le hg.size_le, addr', hg.addressed⟩
    | wildcard => rwa [insert_of_wildcard hk]

theorem isStatic_eq_false_of_dynamic {path : String} (h : kind path = .dynamic) :
    isStatic (pattern path) = false := by
  by_cases hw : isWildcard path = true <;> by_cases hs : isStatic (pattern path) = true <;>
    simp_all [kind]

theorem search_ofLog (log : List (String × α)) (path : List String) :
    (ofLog log).trie.search 0 path =
      ((log.filter fun e => kind e.1 = .dynamic ∧ fits (pattern e.1) path).argmax
        fun e => lead (pattern e.1)).map fun e => .ofPattern (pattern e.1) e.2 path := by
  induction log using List.reverseRecOn with
  | nil => exact Trie.search_blank rfl path
  | append_singleton log e ih =>
    obtain ⟨hpos, addr, ha⟩ := trie_ofLog_addressed log
    rw [ofLog_concat]
    cases hk : kind e.1 with
    | static => simp [insert_of_static hk, hk, ih]
    | dynamic =>
      rw [insert_of_dynamic hk, Trie.insert, Trie.search_insertFrom ha hpos, ih]
      by_cases hf : fits (pattern e.1) path = true
      · have hs := isStatic_eq_false_of_dynamic hk
        rw [if_pos hf, List.filter_append, List.filter_cons_of_pos (by simp [hk, hf]),
          List.filter_nil, List.argmax_concat]
        cases (log.filter fun e => kind e.1 = .dynamic ∧ fits (pattern e.1) path).argmax
            fun e => lead (pattern e.1) with
        | none => rfl
        | some old =>
          by_cases hl : lead (pattern old.1) < lead (pattern e.1)
          · simp [Found.prefer, Found.ofPattern, hl, hl.not_ge]
          · simp [Found.prefer, Found.ofPattern, hl, hs, Nat.le_of_not_lt hl]
      · simp [hf]
    | wildcard => simp [insert_of_wildcard hk, hk, ih]

/-- A table answers as the scan of its routes, if none of them repeats a name. -/
theorem find_ofLog {log : List (String × α)}
    (h : ∀ e ∈ log, repeatedName? [] (pattern e.1) = none) (path : String) :
    (ofLog log).find path = scan log path := by
  have htrie : (ofLog log).trie.find (split (normalize path)) =
      ((log.filter fun e => kind e.1 = .dynamic ∧
        fits (pattern e.1) (split (normalize path))).argmax fun e => lead (pattern e.1)).map
          fun e => (e.2, bindings (pattern e.1) (split (normalize path))) := by
    rw [Trie.find, Trie.walk_eq_search, search_ofLog, Option.map_map, Option.map_map]
    refine Option.map_congr fun e he => ?_
    obtain ⟨hm, hp⟩ := List.mem_filter.mp (List.argmax_mem he)
    have hf : fits (pattern e.1) (split (normalize path)) = true := by
      simp only [Bool.decide_and, Bool.and_eq_true, decide_eq_true_eq] at hp
      exact hp.2
    have hn := names_nodup (h e hm)
    rw [← map_fst_bindings (length_eq_of_fits hf)] at hn
    simp [Found.ofPattern, Table.ofList_of_nodup hn]
  rw [find, statics_ofLog, htrie, wildcard_ofLog]
  simp only [scan]
  cases (log.filter fun e => kind e.1 = .static ∧ normalize e.1 = normalize path).getLast? with
  | some e => rfl
  | none =>
    rw [Option.map_none, Option.map_none, Option.none_or, Option.map_map]
    cases (log.filter fun e => kind e.1 = .dynamic ∧
      fits (pattern e.1) (split (normalize path))).argmax fun e => lead (pattern e.1) <;> rfl

end RouteTable

end Switchboard.Route
