import Switchboard.Proofs.Route.Joining

/-! A pattern with its names replaced by values, and how it is found again under the path that comes
of it. -/

namespace Switchboard.Route

variable {value : String → String} {segments : List Segment} {path : String}

/-- The literal, or the value of the name. -/
def Segment.fill (value : String → String) : Segment → String
  | literal text => text
  | dynamic name => value name

/-- The normal form of a pattern with a value in the place of each name. -/
def instantiate (path : String) (value : String → String) : String :=
  join ((pattern path).map (Segment.fill value))

def inBraces (name : String) : String :=
  "\x7b" ++ name ++ "\x7d"

theorem Segment.eq_of_braced? {cs inner : List Char} (h : braced? cs = some inner) :
    cs = '\x7b' :: (inner ++ ['\x7d']) := by
  rw [braced?.eq_def] at h
  split at h
  · split at h
    · rename_i hlast
      obtain ⟨front, rfl⟩ := List.getLast?_eq_some_iff.mp hlast
      obtain rfl := Option.some.inj h
      rw [List.dropLast_concat]
    · cases h
  · cases h

theorem Segment.fill_parse (raw : String) : (parse raw).fill inBraces = raw := by
  rw [parse]
  split
  · rename_i c name h
    rw [← String.toList_inj, Segment.eq_of_braced? h]
    simp [fill, inBraces]
  · rfl

/-- The normal form of a pattern has its names in braces. -/
theorem normalize_eq_instantiate (h : pattern path ≠ []) :
    normalize path = instantiate path inBraces := by
  have h : split (normalize path) ≠ [] := fun hs => h (by rw [pattern, hs, List.map_nil])
  have hraw : (split (normalize path)).map (Segment.fill inBraces ∘ Segment.parse) =
      split (normalize path) :=
    (List.map_congr_left fun raw _ => Segment.fill_parse raw).trans (List.map_id' _)
  calc normalize path = join (split (normalize path)) := (join_split h).symm
    _ = instantiate path inBraces := by rw [instantiate, pattern, List.map_map, hraw]

theorem fits_map_fill (value : String → String) (segments : List Segment) :
    fits segments (segments.map (Segment.fill value)) = true := by
  induction segments with
  | nil => rfl
  | cons segment segments ih => cases segment <;> simp [fits, Segment.meets, Segment.fill, ih]

theorem bindings_map_fill (value : String → String) (segments : List Segment) :
    bindings segments (segments.map (Segment.fill value)) =
      (names segments).map fun name => (name, value name) := by
  induction segments with
  | nil => rfl
  | cons segment segments ih => cases segment <;> simp [names, Segment.fill, ih]

theorem mem_names {name : String} : name ∈ names segments ↔ .dynamic name ∈ segments := by
  rw [names, List.mem_filterMap]
  constructor
  · rintro ⟨segment, hm, h⟩
    cases segment with
    | literal text => cases h
    | dynamic other =>
      obtain rfl := Option.some.inj h
      exact hm
  · exact fun hm => ⟨_, hm, rfl⟩

theorem repeatedName?_eq_none {bound : List String} (h : (bound ++ names segments).Nodup) :
    repeatedName? bound segments = none := by
  induction segments generalizing bound with
  | nil => rfl
  | cons segment segments ih =>
    cases segment with
    | literal text => exact ih h
    | dynamic name =>
      have hp : (bound ++ name :: names segments).Perm (name :: bound ++ names segments) :=
        List.perm_middle
      have hn : (name :: bound ++ names segments).Nodup := hp.nodup_iff.mp h
      have hnew : bound.contains name = false := by
        rw [← Bool.not_eq_true, List.contains_iff_mem]
        exact fun hm => (List.nodup_cons.mp hn).1 (List.mem_append_left _ hm)
      rw [repeatedName?, hnew]
      exact ih hn

theorem repeatedName?_nil_eq_none (h : (names segments).Nodup) :
    repeatedName? [] segments = none := by
  refine repeatedName?_eq_none ?_
  rwa [List.nil_append]

/-! ### A path of slashes around a star has no names -/

theorem eq_of_isWildcard (h : isWildcard path = true) {c : Char} (hc : c ∈ path.toList) :
    c = '/' ∨ c = '*' := by
  have htrim :
      ((path.toList.dropWhile (· == '/')).reverse.dropWhile (· == '/')).reverse = ['*'] := by
    simpa [isWildcard, Text.trimBy] using h
  have hsplit : ∀ {cs : List Char}, c ∈ cs → c = '/' ∨ c ∈ cs.dropWhile (· == '/') := by
    intro cs hm
    rw [← List.takeWhile_append_dropWhile (p := (· == '/')) (l := cs), List.mem_append] at hm
    exact hm.imp_left fun hm => by simpa using List.all_eq_true.mp List.all_takeWhile c hm
  rcases hsplit hc with rfl | hm
  · exact .inl rfl
  · rcases hsplit (List.mem_reverse.mpr hm) with rfl | hm
    · exact .inl rfl
    · rw [← List.mem_reverse, htrim, List.mem_singleton] at hm
      exact .inr hm

theorem mem_of_mem_normalize {c : Char} (h : c ∈ (normalize path).toList) (hc : c ≠ '/') :
    c ∈ path.toList := by
  rw [normalize, String.toList_ofList, normalizeChars] at h
  grind

theorem mem_join {segment : String} {parts : List String} {c : Char} (hm : segment ∈ parts)
    (hc : c ∈ segment.toList) : c ∈ (join parts).toList := by
  induction parts with
  | nil => cases hm
  | cons part parts ih =>
    rw [join, String.toList_append, String.toList_append]
    rcases List.mem_cons.mp hm with rfl | hm
    · simp [hc]
    · simp [ih hm]

theorem kind_eq_dynamic (h : names (pattern path) ≠ []) : kind path = .dynamic := by
  obtain ⟨name, hn⟩ := List.exists_mem_of_ne_nil _ h
  rw [mem_names] at hn
  have hs : isStatic (pattern path) = false := by
    rw [← Bool.not_eq_true, isStatic, List.all_eq_true]
    intro hall
    cases hall _ hn
  have hw : isWildcard path = false := by
    rw [← Bool.not_eq_true]
    intro hw
    have hbrace : '\x7b' ∈ (instantiate path inBraces).toList :=
      mem_join (List.mem_map_of_mem hn) (by simp [Segment.fill, inBraces])
    rw [← normalize_eq_instantiate (List.ne_nil_of_mem hn)] at hbrace
    exact absurd (eq_of_isWildcard hw (mem_of_mem_normalize hbrace (by decide))) (by decide)
  rw [kind, hw, hs]
  rfl

/-! ### The values of the names -/

theorem split_instantiate (hvalue : ∀ name ∈ names (pattern path),
    value name ≠ "" ∧ '/' ∉ (value name).toList) (h : names (pattern path) ≠ []) :
    split (normalize (instantiate path value)) = (pattern path).map (Segment.fill value) := by
  rw [instantiate, normalize_join]
  refine split_join ?_ ?_
  · intro text hm
    obtain ⟨segment, hs, rfl⟩ := List.mem_map.mp hm
    cases segment with
    | dynamic name => exact (hvalue name (mem_names.mpr hs)).2
    | literal text =>
      have hs : (Segment.literal text).fill inBraces ∈ split (normalize path) := by
        rw [pattern] at hs
        obtain ⟨raw, hraw, hp⟩ := List.mem_map.mp hs
        rw [← hp, Segment.fill_parse]
        exact hraw
      exact slash_notMem_split hs
  · obtain ⟨name, hn⟩ := List.exists_mem_of_ne_nil _ h
    exact ⟨value name, List.mem_map.mpr ⟨_, mem_names.mp hn, rfl⟩, (hvalue name hn).1⟩

/-- The one route of a table is found under every path that comes of its pattern, with the values
that were put in. -/
theorem find_instantiate {α : Type} (handler : α) (hnodup : (names (pattern path)).Nodup)
    (h : names (pattern path) ≠ []) (hvalue : ∀ name ∈ names (pattern path),
      value name ≠ "" ∧ '/' ∉ (value name).toList) :
    (RouteTable.empty.insert path handler).find (instantiate path value) =
      some (handler, (names (pattern path)).map fun name => (name, value name)) := by
  have hlog : RouteTable.empty.insert path handler = .ofLog [(path, handler)] := rfl
  have hcheck : ∀ e ∈ [(path, handler)], repeatedName? [] (pattern e.1) = none := by
    simpa using repeatedName?_nil_eq_none hnodup
  rw [hlog, RouteTable.find_ofLog hcheck]
  simp [scan, kind_eq_dynamic h, split_instantiate hvalue h, fits_map_fill, bindings_map_fill]

end Switchboard.Route
