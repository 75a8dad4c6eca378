import Switchboard.Proofs.Encoding.Percent
import Switchboard.Proofs.Router.TrailingSlash

/-! Paths put together from their segments. What a path in normal form is divided into makes up this
path again. -/

namespace Switchboard.Route

/-- The path in normal form with these segments. -/
def join : List String → String
  | [] => "/"
  | segment :: rest => "/" ++ segment ++ join rest

theorem toList_join {segments : List String} (h : segments ≠ []) :
    (join segments).toList = '/' :: (['/'].intercalate (segments.map String.toList) ++ ['/']) := by
  have hslash : "/".toList = ['/'] := rfl
  induction segments with
  | nil => exact absurd rfl h
  | cons segment segments ih =>
    rw [join, String.toList_append, String.toList_append, hslash, List.map_cons]
    cases segments with
    | nil => rw [join, hslash, List.map_nil, List.intercalate_singleton]; rfl
    | cons next segments =>
      rw [ih (List.cons_ne_nil _ _), List.map_cons, List.intercalate_cons_cons]
      simp

theorem pieces_eq_splitOn (path : List Char) : pieces path = path.splitOn '/' := by
  induction path with
  | nil => rfl
  | cons c path ih =>
    rw [pieces, List.splitOn_cons_eq_if_modifyHead, ih]
    by_cases hc : c = '/'
    · simp [hc]
    · have hne := List.splitOn_ne_nil '/' path
      cases hp : path.splitOn '/' with
      | nil => exact absurd hp hne
      | cons piece more => simp [hc]

theorem slash_notMem_pieces {path piece : List Char} (h : piece ∈ pieces path) : '/' ∉ piece := by
  induction path generalizing piece with
  | nil => simp_all [pieces]
  | cons c path ih =>
    rw [pieces] at h
    split at h
    · rcases List.mem_cons.mp h with rfl | h
      · simp
      · exact ih h
    · rename_i hc
      cases hp : pieces path with
      | nil => simp_all [Ne.symm]
      | cons first more =>
        rw [hp] at ih h
        rcases List.mem_cons.mp h with rfl | h
        · simp [Ne.symm hc, ih]
        · exact ih (List.mem_cons_of_mem _ h)

theorem normalizeChars_cases (path : List Char) :
    normalizeChars path = ['/'] ∨ ∃ inner, normalizeChars path = '/' :: (inner ++ ['/']) := by
  by_cases h : path.getLast? = some '/'
  · rcases normalizeChars_of_closed h with ⟨h, -⟩ | ⟨inner, h, -⟩
    · exact .inl h
    · exact .inr ⟨inner, h⟩
  · rw [← normalizeChars_append_slash h]
    have hclosed : (path ++ ['/']).getLast? = some '/' := by simp
    rcases normalizeChars_of_closed hclosed with ⟨h, -⟩ | ⟨inner, h, -⟩
    · exact .inl h
    · exact .inr ⟨inner, h⟩

theorem normalize_join (segments : List String) : normalize (join segments) = join segments := by
  rw [normalize, ← String.toList_inj, String.toList_ofList]
  by_cases h : segments = []
  · rw [h]
    rfl
  · simp [toList_join h, normalizeChars, List.getLast?_cons]

/-- A path is divided into the segments that it was put together from, unless there is but an empty
one. -/
theorem split_join {segments : List String} (hslash : ∀ segment ∈ segments, '/' ∉ segment.toList)
    (hne : ∃ segment ∈ segments, segment ≠ "") : split (join segments) = segments := by
  obtain ⟨segment, hm, hs⟩ := hne
  have hnil : segments ≠ [] := List.ne_nil_of_mem hm
  have hpieces :
      pieces (['/'].intercalate (segments.map String.toList)) = segments.map String.toList := by
    rw [pieces_eq_splitOn]
    exact List.splitOn_intercalate '/' (by simpa using hslash) (by simpa using hnil)
  have hinner : ['/'].intercalate (segments.map String.toList) ≠ [] := by
    intro h
    rw [h] at hpieces
    have hm : segment.toList ∈ pieces [] := hpieces ▸ List.mem_map_of_mem hm
    exact hs (String.toList_eq_nil_iff.mp (List.mem_singleton.mp hm))
  rw [split, toList_join hnil, splitChars_enclosed, if_neg hinner, hpieces, List.map_map]
  simp

theorem slash_notMem_split {path segment : String} (h : segment ∈ split (normalize path)) :
    '/' ∉ segment.toList := by
  rw [split, normalize, String.toList_ofList] at h
  obtain ⟨piece, hp, rfl⟩ := List.mem_map.mp h
  rw [String.toList_ofList]
  rcases normalizeChars_cases path.toList with hn | ⟨inner, hn⟩
  · rw [hn] at hp
    cases hp
  · rw [hn, splitChars_enclosed] at hp
    split at hp
    · cases hp
    · exact slash_notMem_pieces hp

/-- A path in normal form that has segments is put together from them. -/
theorem join_split {path : String} (h : split (normalize path) ≠ []) :
    join (split (normalize path)) = normalize path := by
  rw [← String.toList_inj, toList_join h]
  rw [split, normalize, String.toList_ofList] at *
  rcases normalizeChars_cases path.toList with hn | ⟨inner, hn⟩
  · rw [hn] at h
    exact absurd rfl h
  · rw [hn, splitChars_enclosed] at *
    split
    · simp_all
    · simp [pieces_eq_splitOn]

/-- Segments that are written one by one write the path. -/
theorem writes_join {texts raws : List String} (h : List.Forall₂ Percent.Writes texts raws) :
    Percent.Writes (join texts) (join raws) := by
  induction h with
  | nil => exact Percent.writes_slash
  | cons hs _ ih => exact (Percent.writes_slash.append hs).append ih

end Switchboard.Route
