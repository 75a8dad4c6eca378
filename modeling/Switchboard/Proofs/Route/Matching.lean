import Mathlib.Data.List.Basic
import Switchboard.Route.RouteTable

/-! Which paths a pattern fits, and what its names then stand for. -/

namespace Switchboard

namespace Table

variable {α : Type}

theorem foldl_insert_of_nodup {pairs : List (String × α)} {t : Table α}
    (h : (t.keys ++ pairs.map (·.1)).Nodup) :
    pairs.foldl (fun t p => t.insert p.1 p.2) t = t ++ pairs := by
  induction pairs generalizing t with
  | nil => simp
  | cons p pairs ih =>
    have hp : p.1 ∉ t.keys := fun hm => (List.nodup_append.mp h).2.2 p.1 hm p.1 (by simp) rfl
    rw [List.foldl_cons, insert_of_notMem p.2 hp, ih, List.append_assoc, List.singleton_append]
    simpa [keys] using h

theorem ofList_of_nodup {pairs : List (String × α)} (h : (pairs.map (·.1)).Nodup) :
    ofList pairs = pairs := by
  have hn : (keys ([] : Table α) ++ pairs.map (·.1)).Nodup := h
  exact foldl_insert_of_nodup hn

end Table

namespace Route

/-- A literal meets itself, a name meets every piece. -/
def Segment.meets : Segment → String → Bool
  | .literal text, piece => text == piece
  | .dynamic _, _ => true

/-- A pattern fits a path with as many pieces, each met in its place. -/
def fits : List Segment → List String → Bool
  | [], [] => true
  | segment :: pattern, piece :: path => segment.meets piece && fits pattern path
  | _, _ => false

/-- The number of literals before the first name. -/
def lead (pattern : List Segment) : Nat :=
  (pattern.takeWhile (!·.isDynamic)).length

def isStatic (pattern : List Segment) : Bool :=
  pattern.all (!·.isDynamic)

def names (pattern : List Segment) : List String :=
  pattern.filterMap fun
    | .literal _ => none
    | .dynamic name => some name

/-- Each name with the piece in its place. -/
def bindings (pattern : List Segment) (path : List String) : Table String :=
  (pattern.zip path).filterMap fun
    | (.literal _, _) => none
    | (.dynamic name, piece) => some (name, piece)

@[simp] theorem lead_nil : lead [] = 0 := rfl

@[simp] theorem lead_literal (text : String) (pattern : List Segment) :
    lead (.literal text :: pattern) = lead pattern + 1 := by
  simp [lead, Segment.isDynamic]

@[simp] theorem lead_dynamic (name : String) (pattern : List Segment) :
    lead (.dynamic name :: pattern) = 0 := by
  simp [lead, Segment.isDynamic]

@[simp] theorem isStatic_nil : isStatic [] = true := rfl

@[simp] theorem isStatic_literal (text : String) (pattern : List Segment) :
    isStatic (.literal text :: pattern) = isStatic pattern := by
  simp [isStatic, Segment.isDynamic]

@[simp] theorem isStatic_dynamic (name : String) (pattern : List Segment) :
    isStatic (.dynamic name :: pattern) = false := by
  simp [isStatic, Segment.isDynamic]

@[simp] theorem bindings_nil (path : List String) : bindings [] path = [] := rfl

@[simp] theorem bindings_literal (text piece : String) (pattern : List Segment)
    (path : List String) :
    bindings (.literal text :: pattern) (piece :: path) = bindings pattern path := by
  simp [bindings]

@[simp] theorem bindings_dynamic (name piece : String) (pattern : List Segment)
    (path : List String) :
    bindings (.dynamic name :: pattern) (piece :: path) =
      (name, piece) :: bindings pattern path := by
  simp [bindings]

theorem fits_iff {pattern : List Segment} {path : List String} :
    fits pattern path = true ↔ pattern.length = path.length ∧
      ∀ (i : Nat) (text : String), pattern[i]? = some (.literal text) → path[i]? = some text := by
  induction pattern generalizing path with
  | nil => cases path <;> simp [fits]
  | cons segment pattern ih =>
    cases path with
    | nil => simp [fits]
    | cons piece path =>
      rw [fits, Bool.and_eq_true, ih]
      constructor
      · rintro ⟨hm, hl, hp⟩
        refine ⟨by simpa using hl, ?_⟩
        intro i text hi
        cases i with
        | zero =>
          obtain rfl : segment = .literal text := by simpa using hi
          have hp : text = piece := by simpa [Segment.meets] using hm
          simp [hp]
        | succ i => simpa using hp i text (by simpa using hi)
      · rintro ⟨hl, hp⟩
        refine ⟨?_, by simpa using hl, fun i text hi => by simpa using hp (i + 1) text (by simpa using hi)⟩
        cases segment with
        | literal text =>
          have hm : piece = text := by simpa using hp 0 text (by simp)
          simp [Segment.meets, hm]
        | dynamic name => rfl

theorem length_eq_of_fits {pattern : List Segment} {path : List String}
    (h : fits pattern path = true) : pattern.length = path.length :=
  (fits_iff.mp h).1

theorem map_fst_bindings {pattern : List Segment} {path : List String}
    (h : pattern.length = path.length) : (bindings pattern path).map (·.1) = names pattern := by
  induction pattern generalizing path with
  | nil => rfl
  | cons segment pattern ih =>
    cases path with
    | nil => simp at h
    | cons piece path =>
      have hl : pattern.length = path.length := by simpa using h
      cases segment with
      | literal text => simpa [names] using ih hl
      | dynamic name => simpa [names] using ih hl

theorem nodup_of_repeatedName? {pattern : List Segment} {bound : List String}
    (hb : bound.Nodup) (h : repeatedName? bound pattern = none) :
    (bound ++ names pattern).Nodup := by
  induction pattern generalizing bound with
  | nil => simpa [names] using hb
  | cons segment pattern ih =>
    cases segment with
    | literal text => simpa [names] using ih hb (by simpa [repeatedName?] using h)
    | dynamic name =>
      have hn : name ∉ bound := by
        intro hm
        simp [repeatedName?, hm] at h
      have hr : repeatedName? (name :: bound) pattern = none := by
        simpa [repeatedName?, hn] using h
      have hh := ih (List.nodup_cons.mpr ⟨hn, hb⟩) hr
      have hp : (name :: bound ++ names pattern).Perm (bound ++ name :: names pattern) :=
        List.perm_middle.symm
      simpa [names] using hp.nodup_iff.mp hh

theorem names_nodup {pattern : List Segment} (h : repeatedName? [] pattern = none) :
    (names pattern).Nodup := by
  simpa using nodup_of_repeatedName? List.nodup_nil h

end Route

end Switchboard
