import Mathlib.Data.List.Induction
import Switchboard.Json.Parser
import Switchboard.Table

/-! What an object holds under a key, and how the two readings of an object go together. -/

namespace Switchboard.Json

theorem get?_insertMember (key other : String) (value : Json) (members : Table Json) :
    Table.get? (insertMember key value members) other =
      if other = key then some value else members.get? other := by
  induction members with
  | nil => exact Table.get?_cons ..
  | cons m rest ih =>
    obtain ⟨k, v⟩ := m
    rw [insertMember]
    split
    · rw [Table.get?_cons]
    · split
      · rename_i hk
        obtain rfl : key = k := by simpa using hk
        rw [Table.get?_cons, Table.get?_cons]
        split <;> rfl
      · rename_i hk
        have hne : key ≠ k := by simpa using hk
        rw [Table.get?_cons, ih, Table.get?_cons]
        by_cases h : other = key
        · rw [h, if_neg hne, if_pos rfl, if_pos rfl]
        · rw [if_neg h, if_neg h]

/-- Of several members under one key the last counts. -/
theorem member?_ofMembers (key : String) (members : List (String × Json)) :
    (ofMembers members).member? key = ((members.filter (·.1 == key)).map (·.2)).getLast? := by
  rw [ofMembers, member?, ← Table.get?]
  induction members using List.reverseRecOn with
  | nil => rfl
  | append_singleton members m ih =>
    rw [List.foldl_append, List.foldl_cons, List.foldl_nil, get?_insertMember, ih]
    by_cases h : m.1 = key
    · simp [h]
    · simp [h, Ne.symm h]

theorem whole?_map {α β : Type} (f : α → β) (reader : Reader α) (cs : List Char) :
    whole? (fun cs => (reader cs).map fun found => (f found.1, found.2)) cs =
      (whole? reader cs).map f := by
  rw [whole?, whole?]
  cases reader cs with
  | none => rfl
  | some found =>
    simp only [Option.map_some]
    split <;> rfl

theorem parse?_of_parseMembers? {text : String} {members : List (String × Json)}
    (h : parseMembers? text = some members) : parse? text = some (ofMembers members) := by
  rw [parseMembers?] at h
  split at h
  case h_2 => cases h
  rename_i rest hbrace
  have hvalue : value maxDepth text.toList =
      (objectOf textBody (value (maxDepth - 1)) rest).map fun found =>
        (ofMembers found.1, found.2) := by
    rw [value, hbrace]
    rfl
  have hwhole := whole?_map ofMembers (objectOf textBody (value (maxDepth - 1))) rest
  rw [h, whole?] at hwhole
  rw [parse?, whole?, hvalue]
  exact hwhole

end Switchboard.Json
