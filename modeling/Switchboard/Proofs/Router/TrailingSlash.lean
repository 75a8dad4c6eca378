import Switchboard.Proofs.Router.History

/-! A slash at the end of a path. A path without one is looked up as the same path with one. A
slash after a slash ends one more segment, an empty one, and so makes another path. -/

namespace Switchboard

namespace Route

variable {path : List Char}

theorem normalizeChars_append_slash (h : path.getLast? ≠ some '/') :
    normalizeChars (path ++ ['/']) = normalizeChars path := by
  cases path with
  | nil => rfl
  | cons c path =>
    have hlast : path.getLast?.getD c ≠ '/' := by simpa [List.getLast?_cons] using h
    by_cases hc : c = '/'
    · subst hc
      simp [normalizeChars, List.getLast?_cons, hlast]
    · simp [normalizeChars, List.getLast?_cons, hc, hlast]

/-- A path that has its slash at the end keeps it, and what comes in front. -/
theorem normalizeChars_of_closed (h : path.getLast? = some '/') :
    normalizeChars path = ['/'] ∧ normalizeChars (path ++ ['/']) = ['/', '/'] ∨
      ∃ inner, normalizeChars path = '/' :: (inner ++ ['/']) ∧
        normalizeChars (path ++ ['/']) = '/' :: (inner ++ ['/'] ++ ['/']) := by
  obtain ⟨front, rfl⟩ := List.getLast?_eq_some_iff.mp h
  cases front with
  | nil => exact .inl ⟨rfl, rfl⟩
  | cons c front =>
    right
    by_cases hc : c = '/'
    · subst hc
      exact ⟨front, by simp [normalizeChars, List.getLast?_cons],
        by simp [normalizeChars, List.getLast?_cons]⟩
    · exact ⟨c :: front, by simp [normalizeChars, List.getLast?_cons, hc],
        by simp [normalizeChars, List.getLast?_cons, hc]⟩

theorem splitChars_enclosed (inner : List Char) :
    splitChars ('/' :: (inner ++ ['/'])) = if inner = [] then [] else pieces inner := by
  have hclosed : dropClosing (dropOpening ('/' :: (inner ++ ['/']))) = inner := by
    simp [dropOpening, dropClosing]
  rw [splitChars, hclosed]
  cases inner with
  | nil => rfl
  | cons c inner => rfl

theorem pieces_ne_nil (path : List Char) : pieces path ≠ [] := by
  cases path with
  | nil => simp [pieces]
  | cons c path =>
    rw [pieces]
    split
    · simp
    · split <;> simp

theorem pieces_append_slash (front rest : List Char) (h : '/' ∉ front) :
    pieces (front ++ '/' :: rest) = front :: pieces rest := by
  induction front with
  | nil => simp [pieces]
  | cons c front ih =>
    rw [List.mem_cons, not_or] at h
    rw [List.cons_append, pieces, if_neg (Ne.symm h.1), ih h.2]

theorem pieces_of_notMem (h : '/' ∉ path) : pieces path = [path] := by
  induction path with
  | nil => rfl
  | cons c path ih =>
    rw [List.mem_cons, not_or] at h
    rw [pieces, if_neg (Ne.symm h.1), ih h.2]

theorem length_pieces_closed (path : List Char) :
    (pieces (path ++ ['/'])).length = (pieces path).length + 1 := by
  induction path with
  | nil => rfl
  | cons c path ih =>
    by_cases hc : c = '/'
    · subst hc
      simpa [pieces] using ih
    · have hlong := pieces_ne_nil path
      have hlong' := pieces_ne_nil (path ++ ['/'])
      rw [List.cons_append, pieces, pieces, if_neg hc, if_neg hc]
      cases hp : pieces path with
      | nil => exact absurd hp hlong
      | cons piece more =>
        cases hq : pieces (path ++ ['/']) with
        | nil => exact absurd hq hlong'
        | cons piece' more' => simpa [hp, hq] using ih

/-- One slash more at the end of a path that has one leaves it as the root behind an empty segment, or
makes for a different number of segments. -/
theorem split_append_slash {path : String} (h : path.toList.getLast? = some '/') :
    normalize path = "/" ∧ normalize (path ++ "/") = "//" ∨
      (split (normalize (path ++ "/"))).length ≠ (split (normalize path)).length ∧
        0 < (split (normalize (path ++ "/"))).length := by
  have hslash : "/".toList = ['/'] := rfl
  rcases normalizeChars_of_closed h with ⟨hn, hn'⟩ | ⟨inner, hn, hn'⟩
  · left
    rw [Route.normalize, Route.normalize, String.toList_append, hslash, hn, hn']
    exact ⟨rfl, rfl⟩
  · right
    have hlong := pieces_ne_nil inner
    simp only [Route.split, Route.normalize, String.toList_ofList, String.toList_append, hslash,
      hn, hn', splitChars_enclosed, List.length_map]
    rw [if_neg (by simp), length_pieces_closed]
    refine ⟨?_, Nat.succ_pos _⟩
    split
    · simp
    · omega

/-! ### Paths of names alone -/

/-- A segment in braces, whose name is so many letters and one more. -/
def openSegment (count : Nat) : List Char :=
  '\x7b' :: (List.replicate (count + 1) 'x' ++ ['\x7d'])

/-- A pattern that all paths with one segment more than the count fit. -/
def openPattern : Nat → List Char
  | 0 => openSegment 0
  | count + 1 => openSegment (count + 1) ++ '/' :: openPattern count

def openName (count : Nat) : Segment :=
  .dynamic (String.ofList (List.replicate (count + 1) 'x'))

def openNames : Nat → List Segment
  | 0 => [openName 0]
  | count + 1 => openName (count + 1) :: openNames count

theorem length_openNames (count : Nat) : (openNames count).length = count + 1 := by
  induction count with
  | zero => rfl
  | succ count ih => rw [openNames, List.length_cons, ih]

theorem slash_notMem_openSegment (count : Nat) : '/' ∉ openSegment count := by
  simp [openSegment]

theorem parse_openSegment (count : Nat) :
    Segment.parse (String.ofList (openSegment count)) = openName count := by
  have hbraced : Segment.braced? (openSegment count) = some (List.replicate (count + 1) 'x') := by
    simp [Segment.braced?, openSegment]
  rw [Segment.parse, String.toList_ofList, hbraced]
  rfl

theorem parse_pieces_openPattern (count : Nat) :
    (pieces (openPattern count)).map (fun piece => Segment.parse (String.ofList piece)) =
      openNames count := by
  induction count with
  | zero =>
    rw [openPattern, pieces_of_notMem (slash_notMem_openSegment 0), List.map_singleton,
      parse_openSegment]
    rfl
  | succ count ih =>
    rw [openPattern, pieces_append_slash _ _ (slash_notMem_openSegment _), List.map_cons,
      parse_openSegment, ih]
    rfl

theorem openPattern_eq (count : Nat) : ∃ middle, openPattern count = '\x7b' :: (middle ++ ['\x7d']) := by
  induction count with
  | zero => exact ⟨['x'], rfl⟩
  | succ count ih =>
    obtain ⟨middle, ih⟩ := ih
    exact ⟨List.replicate (count + 2) 'x' ++ '\x7d' :: '/' :: '\x7b' :: middle,
      by simp [openPattern, openSegment, ih]⟩

theorem pattern_openPattern (count : Nat) :
    pattern (String.ofList (openPattern count)) = openNames count := by
  obtain ⟨middle, hp⟩ := openPattern_eq count
  have hn : normalizeChars (openPattern count) = '/' :: (openPattern count ++ ['/']) := by
    simp [normalizeChars, hp, List.getLast?_cons]
  have hne : openPattern count ≠ [] := by simp [hp]
  simp only [pattern, Route.normalize, Route.split, String.toList_ofList, hn, splitChars_enclosed,
    if_neg hne, List.map_map]
  exact parse_pieces_openPattern count

theorem all_isDynamic_openNames (count : Nat) : (openNames count).all (·.isDynamic) = true := by
  induction count with
  | zero => rfl
  | succ count ih => rw [openNames, List.all_cons, ih]; rfl

theorem fits_iff_of_all_isDynamic {pattern : List Segment} (h : pattern.all (·.isDynamic) = true)
    (path : List String) : fits pattern path = true ↔ pattern.length = path.length := by
  refine ⟨length_eq_of_fits, fun hl => fits_iff.mpr ⟨hl, fun i text hi => ?_⟩⟩
  have hdynamic := List.all_eq_true.mp h _ (List.mem_of_getElem? hi)
  cases hdynamic

theorem kind_openPattern (count : Nat) : kind (String.ofList (openPattern count)) = .dynamic := by
  obtain ⟨middle, hp⟩ := openPattern_eq count
  have hw : isWildcard (String.ofList (openPattern count)) = false := by
    simp [isWildcard, hp, Text.trimBy]
  have hs : isStatic (pattern (String.ofList (openPattern count))) = false := by
    rw [pattern_openPattern]
    cases count <;> rfl
  rw [kind, hw, hs]
  rfl

theorem repeatedName?_openNames (count : Nat) {bound : List String}
    (hb : ∀ name ∈ bound, count + 1 < name.length) : repeatedName? bound (openNames count) = none := by
  have hnew : bound.contains (String.ofList (List.replicate (count + 1) 'x')) = false := by
    rw [← Bool.not_eq_true, List.contains_iff_mem]
    intro hm
    have hlong := hb _ hm
    simp at hlong
  induction count generalizing bound with
  | zero => rw [openNames, openName, repeatedName?, hnew]; rfl
  | succ count ih =>
    have hlater : ∀ name ∈ String.ofList (List.replicate (count + 2) 'x') :: bound,
        count + 1 < name.length := by
      intro name hm
      rcases List.mem_cons.mp hm with rfl | hm
      · simp
      · exact Nat.lt_of_succ_lt (hb name hm)
    rw [openNames, openName, repeatedName?, hnew]
    refine ih hlater ?_
    rw [← Bool.not_eq_true, List.contains_iff_mem]
    intro hm
    have hlong := hlater _ hm
    simp at hlong

end Route

namespace Router

open Route

/-- A router with one route. -/
theorem exists_replay_push {path : String} (hc : Route.check path = .ok ()) (handler : Handler) :
    ∃ r e, (empty .empty []).replay [.push path handler []] = .ok (r, [e]) ∧ e.path = path := by
  rcases record_cases (empty .empty []) path handler [] with ⟨e, he, -, -, -, hr⟩ | ⟨error, hp, -⟩
  · have hreplay : (empty .empty []).replay [.push path handler []] =
        .ok ((empty .empty []).store path e.composed.handler, [e]) := by
      simp [replay, change, hr, settle, bind, Except.bind, pure, Except.pure]
    exact ⟨_, e, hreplay, he⟩
  · rw [push_eq hc rfl] at hp
    cases hp

/-- The only route of the router has so many names and no other segments. -/
theorem exists_find_openPattern (count : Nat) :
    ∃ r log, (empty .empty []).replay
        [.push (String.ofList (openPattern count)) .reply []] = .ok (r, log) ∧
      ∀ path, (r.find path).isSome = true ↔ (split (normalize path)).length = count + 1 := by
  have hc : Route.check (String.ofList (openPattern count)) = .ok () := by
    rw [check_eq_ok_iff, pattern_openPattern]
    exact repeatedName?_openNames count (by simp)
  obtain ⟨r, e, h, he⟩ := exists_replay_push hc .reply
  refine ⟨r, [e], h, fun path => ?_⟩
  have hfits := fits_iff_of_all_isDynamic (all_isDynamic_openNames count) (split (normalize path))
  rw [length_openNames] at hfits
  rw [find, table_eq_ofLog h, find_ofLog h, eq_comm (b := count + 1), ← hfits]
  by_cases hf : fits (openNames count) (split (normalize path)) = true <;>
    simp [scan, he, kind_openPattern, pattern_openPattern, hf]

theorem find_eq_of_normalize_eq (r : Router) {path other : String}
    (h : normalize path = normalize other) : r.find path = r.find other := by
  rw [find, find, RouteTable.find, RouteTable.find, h]

theorem find_append_slash {path : String} (h : path.toList.getLast? ≠ some '/') (r : Router) :
    r.find (path ++ "/") = r.find path := by
  refine r.find_eq_of_normalize_eq ?_
  rw [Route.normalize, Route.normalize, String.toList_append]
  exact congrArg String.ofList (normalizeChars_append_slash h)

/-- If a path ends in a slash, some router tells it from the path with one slash more. -/
theorem exists_find_append_slash_ne {path : String} (h : path.toList.getLast? = some '/') :
    ∃ changes r log, (empty .empty []).replay changes = .ok (r, log) ∧
      r.find (path ++ "/") ≠ r.find path := by
  rcases split_append_slash h with ⟨hroot, hdouble⟩ | ⟨hne, hpos⟩
  · have hr : (empty .empty []).replay [.push "/" .reply []] = .ok (_, _) := rfl
    have hone : normalize path = normalize "/" := hroot
    have htwo : normalize (path ++ "/") = normalize "//" := hdouble
    refine ⟨_, _, _, hr, ?_⟩
    rw [find_eq_of_normalize_eq _ hone, find_eq_of_normalize_eq _ htwo]
    intro he
    have hsome := congrArg Option.isSome he
    cases hsome
  · obtain ⟨r, log, hr, hfind⟩ :=
      exists_find_openPattern ((split (normalize (path ++ "/"))).length - 1)
    refine ⟨_, r, log, hr, fun he => hne ?_⟩
    have hsome := (hfind (path ++ "/")).mpr (by omega)
    rw [he, hfind] at hsome
    omega

/-- A slash at the end of a path makes no difference to any router just when the path has none yet. -/
theorem find_append_slash_iff (path : String) :
    (∀ registry base changes r log, (empty registry base).replay changes = .ok (r, log) →
      r.find (path ++ "/") = r.find path) ↔ path.toList.getLast? ≠ some '/' := by
  constructor
  · intro hall hclosed
    obtain ⟨changes, r, log, hr, hne⟩ := exists_find_append_slash_ne hclosed
    exact hne (hall _ _ _ _ _ hr)
  · intro hopen registry base changes r log _
    exact r.find_append_slash hopen

/-- `/users/` leads to the route that was pushed for `/users`, and `/users//` leads nowhere. -/
theorem doubled_slash_is_missed : ∃ r log,
    (empty .empty []).replay [.push "/users" .reply []] = .ok (r, log) ∧
      (r.find "/users/").isSome = true ∧ r.find ("/users/" ++ "/") = none := by
  have hr : (empty .empty []).replay [.push "/users" .reply []] = .ok (_, _) := rfl
  exact ⟨_, _, hr, rfl, rfl⟩

end Router

end Switchboard
