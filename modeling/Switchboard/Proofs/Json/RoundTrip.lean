import Mathlib.Data.List.Induction
import Switchboard.Proofs.Json.Scalars

/-! Values are read back from their texts, as long as their lists and objects are not nested too
deep. -/

namespace Switchboard.Json

/-- Lists and objects are nested no deeper than this. -/
def nestsWithin : Nat → Json → Bool
  | 0, arr _ => false
  | depth + 1, arr items => items.all (nestsWithin depth)
  | 0, obj _ => false
  | depth + 1, obj members => members.all fun m => nestsWithin depth m.2
  | _, _ => true

theorem nestsWithin_of_flat {j : Json} (harr : ∀ items, j ≠ arr items)
    (hobj : ∀ ms, j ≠ obj ms) (depth : Nat) : nestsWithin depth j = true := by
  rw [nestsWithin]
  · exact fun items _ h => harr items h
  · exact fun _ items _ h => harr items h
  · exact fun ms _ h => hobj ms h
  · exact fun _ ms _ h => hobj ms h

/-- Data without doubles, with integers of 64 bits and objects with their keys in order. -/
inductive Regular : Json → Prop
  | null : Regular null
  | bool (b : Bool) : Regular (bool b)
  | int {n : Int} (h : fits64 n) : Regular (int n)
  | str (s : String) : Regular (str s)
  | arr {items : List Json} (h : ∀ j ∈ items, Regular j) : Regular (arr items)
  | obj {members : List (String × Json)} (hkeys : (members.map (·.1)).Pairwise (· < ·))
    (h : ∀ m ∈ members, Regular m.2) : Regular (obj members)

theorem insertMember_of_lt {key : String} {value : Json} {members : List (String × Json)}
    (h : ∀ m ∈ members, m.1 < key) :
    insertMember key value members = members ++ [(key, value)] := by
  induction members with
  | nil => rfl
  | cons m members ih =>
    obtain ⟨hm, h⟩ := List.forall_mem_cons.mp h
    have hlt : ¬ key < m.1 := String.lt_asymm hm
    have hne : (key == m.1) = false := by
      rw [beq_eq_false_iff_ne]
      rintro rfl
      exact String.lt_irrefl _ hm
    rw [insertMember, if_neg hlt, hne, ih h]
    rfl

/-- Members that stand in order are left in their places. -/
theorem ofMembers_eq {members : List (String × Json)}
    (h : (members.map (·.1)).Pairwise (· < ·)) : ofMembers members = obj members := by
  rw [ofMembers, obj.injEq]
  rw [List.pairwise_map] at h
  induction members using List.reverseRecOn with
  | nil => rfl
  | append_singleton members m ih =>
    obtain ⟨hm, -, hlast⟩ := List.pairwise_append.mp h
    rw [List.foldl_append, ih hm, List.foldl_cons, List.foldl_nil]
    exact insertMember_of_lt fun k hk => hlast k hk m List.mem_cons_self

theorem skipBlanks_cons {c : Char} (h : isBlank c = false) (cs : List Char) :
    skipBlanks (c :: cs) = c :: cs := by
  rw [skipBlanks, List.dropWhile_cons_of_neg (by simp [h])]

/-- What an integer begins with. -/
def opensNumber (c : Char) : Bool :=
  c == '-' || c.isDigit

theorem exists_render_int_eq_cons (n : Int) :
    ∃ c more, render (.int n) = c :: more ∧ opensNumber c = true := by
  rw [render_int]
  split
  · cases hd : Nat.toDigits 10 n.toNat with
    | nil => exact absurd hd Nat.toDigits_ne_nil
    | cons c digits =>
      have hdigit : c.isDigit = true :=
        Nat.isDigit_of_mem_toDigits (by decide) (by decide) (hd ▸ List.mem_cons_self)
      exact ⟨c, digits, rfl, by rw [opensNumber, hdigit, Bool.or_true]⟩
  · exact ⟨'-', _, rfl, rfl⟩

theorem isBlank_eq_false {c : Char} (h : opensNumber c = true) : isBlank c = false := by
  rw [← Bool.not_eq_true]
  intro hb
  simp only [isBlank, Bool.or_eq_true, beq_iff_eq] at hb
  rcases hb with ((rfl | rfl) | rfl) | rfl <;> exact absurd h (by decide)

theorem value_of_opensNumber {c : Char} (h : opensNumber c = true) (depth : Nat)
    (more : List Char) : value depth (c :: more) = number (c :: more) := by
  have hne : ∀ {d : Char}, opensNumber d = false → c ≠ d := by
    rintro d hd rfl
    rw [h] at hd
    cases hd
  rw [value.eq_def, skipBlanks_cons (isBlank_eq_false h)]
  split
  case h_1 heq => cases heq
  case h_8 => rfl
  all_goals
    rename_i heq
    exact absurd (List.cons.inj heq).1 (hne (by decide))

/-- The first character of a value is no blank and no closing bracket. -/
theorem exists_render_eq_cons {j : Json} (h : Regular j) :
    ∃ c more, render j = c :: more ∧ isBlank c = false ∧ c ≠ ']' := by
  cases h with
  | null => exact ⟨'n', _, rfl, rfl, by decide⟩
  | bool b => cases b <;> exact ⟨_, _, rfl, rfl, by decide⟩
  | str s => exact ⟨'"', _, rfl, rfl, by decide⟩
  | arr h => exact ⟨'[', _, by rw [render], rfl, by decide⟩
  | obj hkeys h => exact ⟨'\x7b', _, by rw [render], rfl, by decide⟩
  | @int n h =>
    obtain ⟨c, more, hr, hc⟩ := exists_render_int_eq_cons n
    refine ⟨c, more, hr, isBlank_eq_false hc, ?_⟩
    rintro rfl
    exact absurd hc (by decide)

/-! ### Lists and objects -/

/-- A value is read back from its text if it is good, and else is refused. -/
def ReadsBack (item : Reader Json) (ok : Json → Bool) (j : Json) : Prop :=
  ∀ rest, Follows rest → item (render j ++ rest) = if ok j then some (j, rest) else none

section Parts

variable {item : Reader Json} {ok : Json → Bool}

theorem length_le_renderItems (items : List Json) : items.length ≤ (renderItems items).length := by
  induction items with
  | nil => exact Nat.zero_le _
  | cons j items ih =>
    cases items with
    | nil => simp [renderItems]
    | cons next items =>
      simp only [renderItems, List.length_append, List.length_cons] at ih ⊢
      omega

theorem itemsOf_render {items : List Json} {fuel : Nat} (hne : items ≠ [])
    (hfuel : items.length ≤ fuel) (hitem : ∀ j ∈ items, ReadsBack item ok j)
    (rest : List Char) :
    itemsOf item fuel (renderItems items ++ rest) =
      if items.all ok then some (items, rest) else none := by
  induction items generalizing fuel with
  | nil => exact absurd rfl hne
  | cons j items ih =>
    obtain ⟨hj, hitem⟩ := List.forall_mem_cons.mp hitem
    cases fuel with
    | zero => simp at hfuel
    | succ fuel =>
      cases items with
      | nil =>
        have hclose : Follows (']' :: rest) := by simp [Follows]
        rw [renderItems, List.append_assoc, List.singleton_append, itemsOf, hj _ hclose]
        by_cases hok : ok j = true
        · simp [hok, skipBlanks_cons (show isBlank ']' = false from rfl)]
        · simp [hok]
      | cons next items =>
        have hcomma : Follows (',' :: (renderItems (next :: items) ++ rest)) := by simp [Follows]
        rw [renderItems, List.append_assoc, List.cons_append, itemsOf, hj _ hcomma]
        · have hrest := ih (List.cons_ne_nil _ _) (Nat.le_of_succ_le_succ hfuel) hitem
          by_cases hok : ok j = true
          · simp only [hok, if_true, skipBlanks_cons (show isBlank ',' = false from rfl), hrest,
              List.all_cons, Bool.true_and]
            by_cases hall : (ok next && items.all ok) = true
            · simp [hall]
            · simp [hall]
          · simp [hok]
        · exact fun h => List.cons_ne_nil _ _ h

theorem length_le_renderMembers (members : List (String × Json)) :
    members.length ≤ (renderMembers members).length := by
  induction members with
  | nil => exact Nat.zero_le _
  | cons m members ih =>
    cases members with
    | nil =>
      simp only [renderMembers, List.length_append, List.length_cons, List.length_nil]
      omega
    | cons next members =>
      simp only [renderMembers, List.length_append, List.length_cons] at ih ⊢
      omega

theorem textBody_render (s : String) (rest : List Char) :
    textBody (s.toList.flatMap escapeChar ++ '"' :: rest) = some (s, rest) := by
  simp only [textBody, stringBody_render, Option.map_some, String.ofList_toList]

theorem memberOf_render {m : String × Json} {rest : List Char} (hr : Follows rest)
    (hitem : ReadsBack item ok m.2) :
    memberOf textBody item (renderString m.1 ++ ':' :: (render m.2 ++ rest)) =
      if ok m.2 then some (m, rest) else none := by
  have hquote : isBlank '"' = false := rfl
  have hcolon : isBlank ':' = false := rfl
  rw [memberOf, renderString, List.cons_append, skipBlanks_cons hquote, List.append_assoc,
    List.singleton_append]
  simp only [textBody_render, skipBlanks_cons hcolon, hitem rest hr]
  by_cases hok : ok m.2 = true
  · simp [hok]
  · simp [hok]

theorem membersOf_render {members : List (String × Json)} {fuel : Nat} (hne : members ≠ [])
    (hfuel : members.length ≤ fuel) (hitem : ∀ m ∈ members, ReadsBack item ok m.2)
    (rest : List Char) :
    membersOf textBody item fuel (renderMembers members ++ rest) =
      if members.all (fun m => ok m.2) then some (members, rest) else none := by
  induction members generalizing fuel with
  | nil => exact absurd rfl hne
  | cons m members ih =>
    obtain ⟨hm, hitem⟩ := List.forall_mem_cons.mp hitem
    cases fuel with
    | zero => simp at hfuel
    | succ fuel =>
      cases members with
      | nil =>
        have hclose : Follows ('\x7d' :: rest) := by simp [Follows]
        rw [renderMembers]
        simp only [List.append_assoc, List.cons_append, List.nil_append, membersOf,
          memberOf_render hclose hm]
        by_cases hok : ok m.2 = true
        · simp [hok, skipBlanks_cons (show isBlank '\x7d' = false from rfl)]
        · simp [hok]
      | cons next members =>
        have hcomma : Follows (',' :: (renderMembers (next :: members) ++ rest)) := by
          simp [Follows]
        rw [renderMembers]
        · simp only [List.append_assoc, List.cons_append, membersOf, memberOf_render hcomma hm]
          have hrest := ih (List.cons_ne_nil _ _) (Nat.le_of_succ_le_succ hfuel) hitem
          by_cases hok : ok m.2 = true
          · simp only [hok, if_true, skipBlanks_cons (show isBlank ',' = false from rfl), hrest,
              List.all_cons, Bool.true_and]
            by_cases hall : (ok next.2 && members.all fun m => ok m.2) = true
            · simp [hall]
            · simp [hall]
          · simp [hok]
        · exact fun h => List.cons_ne_nil _ _ h

theorem listOf_render {items : List Json} (hreg : ∀ j ∈ items, Regular j)
    (hitem : ∀ j ∈ items, ReadsBack item ok j) (rest : List Char) :
    listOf item (renderItems items ++ rest) =
      if items.all ok then some (items, rest) else none := by
  cases items with
  | nil => rfl
  | cons j items =>
    obtain ⟨tail, htail⟩ : ∃ tail, renderItems (j :: items) = render j ++ tail := by
      cases items with
      | nil => exact ⟨[']'], by rw [renderItems]⟩
      | cons next items => exact ⟨_, by rw [renderItems]; exact List.cons_ne_nil _ _⟩
    obtain ⟨c, more, hc, hblank, hclose⟩ := exists_render_eq_cons (hreg j List.mem_cons_self)
    have hlength := length_le_renderItems (j :: items)
    have hfuel : (j :: items).length ≤ (renderItems (j :: items) ++ rest).length + 1 := by
      rw [List.length_append]
      omega
    have hitems := itemsOf_render (List.cons_ne_nil _ _) hfuel hitem rest
    have hskip : skipBlanks (renderItems (j :: items) ++ rest) = c :: (more ++ tail ++ rest) := by
      rw [htail, hc, List.cons_append, List.cons_append, skipBlanks_cons hblank]
    rw [listOf, hskip]
    split
    · rename_i heq
      exact absurd (List.cons.inj heq).1 hclose
    · exact hitems

theorem objectOf_render {members : List (String × Json)}
    (hitem : ∀ m ∈ members, ReadsBack item ok m.2) (rest : List Char) :
    objectOf textBody item (renderMembers members ++ rest) =
      if members.all (fun m => ok m.2) then some (members, rest) else none := by
  cases members with
  | nil => rfl
  | cons m members =>
    obtain ⟨tail, htail⟩ : ∃ tail, renderMembers (m :: members) = '"' :: tail := by
      cases members with
      | nil => exact ⟨_, by rw [renderMembers, renderString, List.cons_append]⟩
      | cons next members =>
        exact ⟨_, by
          rw [renderMembers, renderString, List.cons_append]
          exact List.cons_ne_nil _ _⟩
    have hlength := length_le_renderMembers (m :: members)
    have hfuel : (m :: members).length ≤ (renderMembers (m :: members) ++ rest).length + 1 := by
      rw [List.length_append]
      omega
    have hmembers := membersOf_render (List.cons_ne_nil _ _) hfuel hitem rest
    have hskip : skipBlanks (renderMembers (m :: members) ++ rest) = '"' :: (tail ++ rest) := by
      rw [htail, List.cons_append, skipBlanks_cons rfl]
    rw [objectOf, hskip]
    exact hmembers

end Parts

theorem expect_append (word : List Char) (j : Json) (rest : List Char) :
    expect word j (word ++ rest) = some (j, rest) := by
  rw [expect, if_pos (List.isPrefixOf_iff_prefix.mpr (List.prefix_append ..)), List.drop_left]

/-- Data is read back from its text, as deep as it may be nested. -/
theorem value_render {j : Json} (h : Regular j) (depth : Nat) :
    ReadsBack (value depth) (nestsWithin depth) j := by
  induction depth using Nat.strongRecOn generalizing j with
  | ind depth ih =>
    intro rest hr
    cases h with
    | null =>
      rw [value.eq_def, nestsWithin_of_flat (by simp) (by simp)]
      exact expect_append "ull".toList null rest
    | bool b =>
      rw [value.eq_def, nestsWithin_of_flat (by simp) (by simp)]
      cases b with
      | true => exact expect_append "rue".toList (bool true) rest
      | false => exact expect_append "alse".toList (bool false) rest
    | @int n h =>
      obtain ⟨c, more, hc, hopens⟩ := exists_render_int_eq_cons n
      have hn := number_render h hr
      rw [hc, List.cons_append] at hn ⊢
      rw [value_of_opensNumber hopens, hn, nestsWithin_of_flat (by simp) (by simp)]
      rfl
    | str s =>
      rw [render, renderString, List.cons_append, value.eq_def, skipBlanks_cons rfl,
        nestsWithin_of_flat (by simp) (by simp)]
      simp [textBody_render]
    | @arr items h =>
      cases depth with
      | zero => rw [render, List.cons_append, value.eq_def]; rfl
      | succ depth =>
        have hitem : ∀ j ∈ items, ReadsBack (value depth) (nestsWithin depth) j :=
          fun j hj => ih depth (Nat.lt_succ_self _) (h j hj)
        have hitems := listOf_render h hitem rest
        rw [render, List.cons_append, value, skipBlanks_cons rfl, nestsWithin]
        by_cases hok : items.all (nestsWithin depth) = true
        · rw [if_pos hok] at hitems ⊢
          simp only [hitems, Option.map_some]
        · rw [if_neg hok] at hitems ⊢
          simp only [hitems, Option.map_none]
    | @obj members hkeys h =>
      cases depth with
      | zero => rw [render, List.cons_append, value.eq_def]; rfl
      | succ depth =>
        have hitem : ∀ m ∈ members, ReadsBack (value depth) (nestsWithin depth) m.2 :=
          fun m hm => ih depth (Nat.lt_succ_self _) (h m hm)
        have hmembers := objectOf_render hitem rest
        rw [render, List.cons_append, value, skipBlanks_cons rfl, nestsWithin]
        by_cases hok : (members.all fun m => nestsWithin depth m.2) = true
        · rw [if_pos hok] at hmembers ⊢
          simp only [hmembers, Option.map_some, ofMembers_eq hkeys]
        · rw [if_neg hok] at hmembers ⊢
          simp only [hmembers, Option.map_none]

/-- Data comes back from its text if it is not nested too deep. -/
theorem parse?_text {j : Json} (h : Regular j) :
    parse? (text j) = if nestsWithin maxDepth j then some j else none := by
  have hvalue : value maxDepth (render j) =
      if nestsWithin maxDepth j then some (j, []) else none := by
    simpa using value_render h maxDepth [] (by simp [Follows])
  rw [parse?, text, String.toList_ofList, whole?, hvalue]
  by_cases hdepth : nestsWithin maxDepth j = true
  · rw [if_pos hdepth, if_pos hdepth]
    rfl
  · rw [if_neg hdepth, if_neg hdepth]

/-- The members of an object come back as they are if the object is not nested too deep. -/
theorem parseMembers?_text {members : List (String × Json)} (h : Regular (.obj members)) :
    parseMembers? (text (.obj members)) =
      if nestsWithin maxDepth (.obj members) then some members else none := by
  cases h with
  | obj hkeys h =>
    have hitem : ∀ m ∈ members,
        ReadsBack (value (maxDepth - 1)) (nestsWithin (maxDepth - 1)) m.2 :=
      fun m hm => value_render (h m hm) _
    have hmembers : objectOf textBody (value (maxDepth - 1)) (renderMembers members) =
        if members.all (fun m => nestsWithin (maxDepth - 1) m.2) then some (members, [])
        else none := by
      simpa using objectOf_render hitem []
    have hdepth : nestsWithin maxDepth (.obj members) =
        members.all fun m => nestsWithin (maxDepth - 1) m.2 := rfl
    rw [parseMembers?, text, String.toList_ofList, render, skipBlanks_cons rfl, hdepth]
    by_cases hok : (members.all fun m => nestsWithin (maxDepth - 1) m.2) = true
    · rw [if_pos hok] at hmembers ⊢
      simp only [whole?, hmembers]
      rfl
    · rw [if_neg hok] at hmembers ⊢
      simp only [whole?, hmembers]

end Switchboard.Json
