import Switchboard.Proofs.Route.Insertion

/-! What one more pattern leaves as it was. A trie that has grown by a pattern answers as before on
the paths that the pattern does not fit, and on those that it fits it has an answer. -/

namespace Switchboard

namespace Table

variable {α : Type}

theorem ofList_concat (pairs : List (String × α)) (p : String × α) :
    ofList (pairs ++ [p]) = (ofList pairs).insert p.1 p.2 := by
  simp [ofList]

theorem get?_ofList (pairs : List (String × α)) (key : String) :
    (ofList pairs).get? key = (pairs.filter (·.1 == key)).getLast?.map (·.2) := by
  induction pairs using List.reverseRecOn with
  | nil => rfl
  | append_singleton pairs p ih =>
    rw [ofList_concat, get?_insert, ih]
    by_cases hp : p.1 = key
    · simp [hp]
    · simp [hp, Ne.symm hp]

end Table

namespace Route

/-- The piece in the last of the places that a pattern gives to a name. -/
def boundTo (name : String) (pattern : List Segment) (path : List String) : Option String :=
  ((pattern.zip path).filter (·.1 == .dynamic name)).getLast?.map (·.2)

theorem filter_bindings (name : String) (pattern : List Segment) (path : List String) :
    (bindings pattern path).filter (·.1 == name) =
      ((pattern.zip path).filter (·.1 == .dynamic name)).map fun p => (name, p.2) := by
  induction pattern generalizing path with
  | nil => rfl
  | cons segment pattern ih =>
    cases path with
    | nil => simp [bindings]
    | cons piece path =>
      cases segment with
      | literal text => simp [ih]
      | dynamic other =>
        by_cases ho : other = name
        · simp [ho, ih]
        · simp [ho, ih]

theorem get?_bindings (name : String) (pattern : List Segment) (path : List String) :
    (Table.ofList (bindings pattern path)).get? name = boundTo name pattern path := by
  rw [Table.get?_ofList, filter_bindings, List.getLast?_map, Option.map_map]
  rfl

namespace Trie

variable {α : Type}

/-- The trie that patterns make, put in from the first to the last. -/
def ofPatterns (entries : List (List Segment × α)) : Trie α :=
  entries.foldl (fun t e => t.insert e.1 e.2) .empty

theorem ofPatterns_concat (entries : List (List Segment × α)) (pattern : List Segment)
    (handler : α) :
    ofPatterns (entries ++ [(pattern, handler)]) = (ofPatterns entries).insert pattern handler := by
  simp [ofPatterns]

theorem ofPatterns_addressed (entries : List (List Segment × α)) :
    0 < (ofPatterns entries).nodes.size ∧ ∃ addr, (ofPatterns entries).Addressed addr := by
  induction entries using List.reverseRecOn with
  | nil => exact ⟨Nat.one_pos, fun _ => [], empty_addressed _⟩
  | append_singleton entries e ih =>
    obtain ⟨hpos, addr, ha⟩ := ih
    obtain ⟨addr', hg⟩ := insertFrom_grown ha hpos e.2 e.1
    rw [ofPatterns_concat]
    exact ⟨hpos.trans_le hg.size_le, addr', hg.addressed⟩

/-- The answer that stands for what a search finds. -/
def answerOf (f : Found α) : α × Table String :=
  (f.handler, Table.ofList f.bound)

theorem find_eq_search (t : Trie α) (path : List String) :
    t.find path = (t.search 0 path).map answerOf := by
  rw [find, walk_eq_search, Option.map_map]
  rfl

theorem find_insert (entries : List (List Segment × α)) (pattern : List Segment) (handler : α)
    (path : List String) :
    ((ofPatterns entries).insert pattern handler).find path =
      if fits pattern path then
        some (answerOf (Found.prefer pattern (.ofPattern pattern handler path)
          ((ofPatterns entries).search 0 path)))
      else (ofPatterns entries).find path := by
  obtain ⟨hpos, addr, ha⟩ := ofPatterns_addressed entries
  rw [find_eq_search, insert, search_insertFrom ha hpos]
  split
  · rfl
  · exact (find_eq_search _ path).symm

theorem find_insert_of_not_fits (entries : List (List Segment × α)) {pattern : List Segment}
    (handler : α) {path : List String} (h : fits pattern path = false) :
    ((ofPatterns entries).insert pattern handler).find path = (ofPatterns entries).find path := by
  rw [find_insert, h]
  rfl

/-- Patterns that do not fit a path change nothing on it, however many there are. -/
theorem find_append_of_not_fits {entries later : List (List Segment × α)} {path : List String}
    (h : ∀ e ∈ later, fits e.1 path = false) :
    (ofPatterns (entries ++ later)).find path = (ofPatterns entries).find path := by
  induction later using List.reverseRecOn with
  | nil => rw [List.append_nil]
  | append_singleton later e ih =>
    have hlater : ∀ e ∈ later, fits e.1 path = false :=
      fun e he => h e (List.mem_append_left _ he)
    rw [← List.append_assoc, ofPatterns_concat, find_insert_of_not_fits _ _ (h e (by simp)),
      ih hlater]

theorem find_insert_cases (entries : List (List Segment × α)) {pattern : List Segment}
    (handler : α) {path : List String} (h : fits pattern path = true) :
    ((ofPatterns entries).find path ≠ none ∧ isStatic pattern = false ∧
      ((ofPatterns entries).insert pattern handler).find path = (ofPatterns entries).find path) ∨
    ((ofPatterns entries).insert pattern handler).find path =
      some (handler, Table.ofList (bindings pattern path)) := by
  rw [find_insert, if_pos h, find_eq_search]
  cases (ofPatterns entries).search 0 path with
  | none => exact .inr rfl
  | some old =>
    rw [Found.prefer]
    split
    -- An older answer stays against a pattern with names alone.
    · rename_i hkeeps
      exact .inl ⟨by simp, hkeeps.1, rfl⟩
    · exact .inr rfl

/-- One more pattern leaves the answers on the paths that it does not fit as they were, and so do
many such patterns. On a path that it fits there is an answer then: the one from before or, always
if the pattern has no names, the new handler with each name bound to the piece in its place. -/
theorem find_insert_extends (entries : List (List Segment × α)) (pattern : List Segment)
    (handler : α) (path : List String) :
    let before := ofPatterns entries
    let after := before.insert pattern handler
    ((pattern.length ≠ path.length ∨ ∃ (i : Nat) (text piece : String),
        pattern[i]? = some (.literal text) ∧ path[i]? = some piece ∧ piece ≠ text) →
      after.find path = before.find path) ∧
    (pattern.length = path.length →
      (∀ (i : Nat) (text : String), pattern[i]? = some (.literal text) → path[i]? = some text) →
      after.find path ≠ none ∧
        ((after.find path = before.find path ∧ isStatic pattern = false) ∨
          ∃ params, after.find path = some (handler, params) ∧
            params = Table.ofList (bindings pattern path) ∧
            ∀ name, params.get? name = boundTo name pattern path)) ∧
    ∀ later : List (List Segment × α), (∀ e ∈ later, fits e.1 path = false) →
      (ofPatterns (entries ++ later)).find path = before.find path := by
  intro before after
  refine ⟨?elsewhere, ?here, fun later h => find_append_of_not_fits h⟩
  case elsewhere =>
    intro h
    refine find_insert_of_not_fits entries handler (Bool.eq_false_iff.mpr fun hf => ?_)
    obtain ⟨hlength, hmeets⟩ := fits_iff.mp hf
    rcases h with h | ⟨i, text, piece, hi, hp, hne⟩
    · exact h hlength
    · exact hne (Option.some.inj (hp.symm.trans (hmeets i text hi)))
  case here =>
    intro hlength hmeets
    have hfits : fits pattern path = true := fits_iff.mpr ⟨hlength, hmeets⟩
    rcases find_insert_cases entries handler hfits with ⟨hsome, hnames, hold⟩ | hnew
    · exact ⟨hold ▸ hsome, .inl ⟨hold, hnames⟩⟩
    · have hsome : after.find path ≠ none := by
        rw [hnew]
        exact Option.some_ne_none _
      exact ⟨hsome, .inr ⟨_, hnew, rfl, fun name => get?_bindings name pattern path⟩⟩

/-- A pattern that shares its first literal with another and has one name twice. The other keeps its
path and what lies before it, and on its own path the name has the last piece. -/
theorem find_insert_extends_files :
    let before := ofPatterns [([.literal "files", .literal "7", .literal "meta"], "meta")]
    let after := before.insert [.literal "files", .dynamic "id", .dynamic "id"] "file"
    after.find ["files", "7"] = before.find ["files", "7"] ∧
      after.find ["files", "7", "meta"] ≠ none ∧
      ∃ params, after.find ["files", "7", "9"] = some ("file", params) ∧
        params.get? "id" = boundTo "id" [.literal "files", .dynamic "id", .dynamic "id"]
          ["files", "7", "9"] := by
  intro before after
  have hextends := find_insert_extends
    [([.literal "files", .literal "7", .literal "meta"], "meta")]
    [.literal "files", .dynamic "id", .dynamic "id"] "file"
  have hfiles : ∀ rest : List String, ∀ (i : Nat) (text : String),
      [Segment.literal "files", .dynamic "id", .dynamic "id"][i]? = some (.literal text) →
        ("files" :: rest)[i]? = some text := by
    intro rest i text hi
    match i with
    | 0 => simpa using hi
    | 1 | 2 | _ + 3 => simp at hi
  refine ⟨(hextends ["files", "7"]).1 (.inl (by decide)),
    ((hextends ["files", "7", "meta"]).2.1 rfl (hfiles _)).1, ?_⟩
  have hpage := ((hextends ["files", "7", "9"]).2.1 rfl (hfiles _)).2
  rcases hpage with ⟨hold, -⟩ | ⟨params, hnew, -, hb⟩
  · exact absurd hold (by decide)
  · exact ⟨params, hnew, hb "id"⟩

end Trie

end Route

end Switchboard
