import Mathlib.Data.List.Basic
import Switchboard.Text.Utf8

/-! Text is written as UTF-8 in one way, and read back from it. -/

namespace Switchboard.Utf8

theorem width_eq (b : UInt8) : width b =
    if b.toNat < 0x80 then 1
    else if 0xC2 ≤ b.toNat ∧ b.toNat ≤ 0xDF then 2
    else if 0xE0 ≤ b.toNat ∧ b.toNat ≤ 0xEF then 3
    else if 0xF0 ≤ b.toNat ∧ b.toNat ≤ 0xF4 then 4
    else 0 := by
  simp [width, UInt8.le_iff_toNat_le, UInt8.lt_iff_toNat_lt]

theorem isContinuation_iff {b : UInt8} :
    isContinuation b = true ↔ 0x80 ≤ b.toNat ∧ b.toNat ≤ 0xBF := by
  simp [isContinuation, UInt8.le_iff_toNat_le]

theorem admitsSecond_iff {first b : UInt8} : admitsSecond first b = true ↔
    0x80 ≤ b.toNat ∧ b.toNat ≤ 0xBF ∧ (first.toNat = 0xE0 → 0xA0 ≤ b.toNat) ∧
      (first.toNat = 0xED → b.toNat ≤ 0x9F) ∧ (first.toNat = 0xF0 → 0x90 ≤ b.toNat) ∧
      (first.toNat = 0xF4 → b.toNat ≤ 0x8F) := by
  simp only [admitsSecond, beq_iff_eq, ← UInt8.toNat_inj, UInt8.reduceToNat]
  repeat' split
  all_goals
    simp only [isContinuation_iff, Bool.and_eq_true, decide_eq_true_eq, UInt8.le_iff_toNat_le,
      UInt8.reduceToNat]
    omega

/-- All the ways in which bytes begin with a character. -/
theorem step_eq_some_iff {first : UInt8} {rest more : Bytes} {c : Char} :
    step first rest = (some c, more) ↔
      (width first = 1 ∧ rest = more ∧ Char.ofNat first.toNat = c) ∨
      (width first = 2 ∧ ∃ b, rest = b :: more ∧ admitsSecond first b = true ∧
        Char.ofNat (first.toNat % 0x20 * 0x40 + payload b) = c) ∨
      (width first = 3 ∧ ∃ b b', rest = b :: b' :: more ∧ admitsSecond first b = true ∧
        isContinuation b' = true ∧
        Char.ofNat ((first.toNat % 0x10 * 0x40 + payload b) * 0x40 + payload b') = c) ∨
      (width first = 4 ∧ ∃ b b' b'', rest = b :: b' :: b'' :: more ∧
        admitsSecond first b = true ∧ isContinuation b' = true ∧ isContinuation b'' = true ∧
        Char.ofNat (((first.toNat % 0x08 * 0x40 + payload b) * 0x40 + payload b') * 0x40 +
          payload b'') = c) := by
  rw [step.eq_def]
  repeat' split
  all_goals simp_all
  all_goals grind

theorem map_toNat_encodeChar (c : Char) : (String.utf8EncodeChar c).map UInt8.toNat =
    if c.toNat ≤ 0x7F then [c.toNat]
    else if c.toNat ≤ 0x7FF then [c.toNat / 0x40 + 0xC0, c.toNat % 0x40 + 0x80]
    else if c.toNat ≤ 0xFFFF then
      [c.toNat / 0x1000 + 0xE0, c.toNat / 0x40 % 0x40 + 0x80, c.toNat % 0x40 + 0x80]
    else
      [c.toNat / 0x40000 + 0xF0, c.toNat / 0x1000 % 0x40 + 0x80, c.toNat / 0x40 % 0x40 + 0x80,
        c.toNat % 0x40 + 0x80] := by
  have hlt : c.toNat < 0x110000 := by
    rcases c.valid with h | ⟨-, h⟩
    · exact Nat.lt_trans h (by decide)
    · exact h
  have hval : c.val.toNat = c.toNat := rfl
  simp only [String.utf8EncodeChar.eq_def, hval]
  repeat' split
  all_goals simp only [List.map_cons, List.map_nil, UInt8.toNat_ofNat', List.cons.injEq, and_true]
  all_goals omega

theorem toNat_ofNat_of_valid {n : Nat} (h : n < 0xD800 ∨ 0xDFFF < n ∧ n < 0x110000) :
    (Char.ofNat n).toNat = n := by
  have hv : n.isValidChar := h
  rw [Char.ofNat, dif_pos hv]
  rfl

theorem map_toNat_inj {bytes bytes' : Bytes} :
    bytes.map UInt8.toNat = bytes'.map UInt8.toNat ↔ bytes = bytes' :=
  (List.map_injective_iff.mpr fun _ _ h => UInt8.toNat_inj.mp h).eq_iff

/-- What is read as a character is its encoding. -/
theorem encodeChar_of_step {first : UInt8} {rest more : Bytes} {c : Char}
    (h : step first rest = (some c, more)) : first :: rest = String.utf8EncodeChar c ++ more := by
  rw [← map_toNat_inj, List.map_append, map_toNat_encodeChar]
  have hwidth := width_eq first
  rcases step_eq_some_iff.mp h with ⟨hw, rfl, rfl⟩ | ⟨hw, b, rfl, hb, rfl⟩ |
    ⟨hw, b, b', rfl, hb, hb', rfl⟩ | ⟨hw, b, b', b'', rfl, hb, hb', hb'', rfl⟩
  · have hf : first.toNat < 0x80 := by grind
    rw [toNat_ofNat_of_valid (by omega), if_pos (by omega)]
    rfl
  · have hf : 0xC2 ≤ first.toNat ∧ first.toNat ≤ 0xDF := by grind
    obtain ⟨h1, h2, -⟩ := admitsSecond_iff.mp hb
    rw [toNat_ofNat_of_valid (by unfold payload; omega), if_neg (by unfold payload; omega),
      if_pos (by unfold payload; omega)]
    simp only [payload, List.map_cons, List.cons_append, List.nil_append, List.cons.injEq, and_true]
    omega
  · have hf : 0xE0 ≤ first.toNat ∧ first.toNat ≤ 0xEF := by grind
    have h1 := admitsSecond_iff.mp hb
    have h2 := isContinuation_iff.mp hb'
    rw [toNat_ofNat_of_valid (by unfold payload; omega), if_neg (by unfold payload; omega),
      if_neg (by unfold payload; omega), if_pos (by unfold payload; omega)]
    simp only [payload, List.map_cons, List.cons_append, List.nil_append, List.cons.injEq, and_true]
    omega
  · have hf : 0xF0 ≤ first.toNat ∧ first.toNat ≤ 0xF4 := by grind
    have h1 := admitsSecond_iff.mp hb
    have h2 := isContinuation_iff.mp hb'
    have h3 := isContinuation_iff.mp hb''
    rw [toNat_ofNat_of_valid (by unfold payload; omega), if_neg (by unfold payload; omega),
      if_neg (by unfold payload; omega), if_neg (by unfold payload; omega)]
    simp only [payload, List.map_cons, List.cons_append, List.nil_append, List.cons.injEq, and_true]
    omega

/-- The encoding of a character is read as that character. -/
theorem exists_step_encodeChar (c : Char) (more : Bytes) : ∃ first rest,
    String.utf8EncodeChar c ++ more = first :: rest ∧ step first rest = (some c, more) := by
  have hvalid : c.toNat < 0xD800 ∨ 0xDFFF < c.toNat ∧ c.toNat < 0x110000 := c.valid
  have hc : ∀ n, n = c.toNat → Char.ofNat n = c := fun n h => h ▸ Char.ofNat_toNat c
  have henc := map_toNat_encodeChar c
  split at henc
  · simp only [List.map_eq_cons_iff, List.map_eq_nil_iff] at henc
    obtain ⟨b, _, he, hb, rfl⟩ := henc
    refine ⟨b, more, by rw [he]; rfl, step_eq_some_iff.mpr (.inl ⟨?_, rfl, hc _ hb⟩)⟩
    rw [width_eq, if_pos (by omega)]
  split at henc
  · simp only [List.map_eq_cons_iff, List.map_eq_nil_iff] at henc
    obtain ⟨b, _, he, hb, b', _, rfl, hb', rfl⟩ := henc
    refine ⟨b, b' :: more, by rw [he]; rfl,
      step_eq_some_iff.mpr (.inr (.inl ⟨?_, b', rfl, ?_, hc _ ?_⟩))⟩
    · rw [width_eq, if_neg (by omega), if_pos (by omega)]
    · rw [admitsSecond_iff]; omega
    · rw [payload]; omega
  split at henc
  · simp only [List.map_eq_cons_iff, List.map_eq_nil_iff] at henc
    obtain ⟨b, _, he, hb, b', _, rfl, hb', b'', _, rfl, hb'', rfl⟩ := henc
    refine ⟨b, b' :: b'' :: more, by rw [he]; rfl,
      step_eq_some_iff.mpr (.inr (.inr (.inl ⟨?_, b', b'', rfl, ?_, ?_, hc _ ?_⟩)))⟩
    · rw [width_eq, if_neg (by omega), if_neg (by omega), if_pos (by omega)]
    · rw [admitsSecond_iff]; omega
    · rw [isContinuation_iff]; omega
    · rw [payload, payload]; omega
  · simp only [List.map_eq_cons_iff, List.map_eq_nil_iff] at henc
    obtain ⟨b, _, he, hb, b', _, rfl, hb', b'', _, rfl, hb'', b3, _, rfl, hb3, rfl⟩ := henc
    refine ⟨b, b' :: b'' :: b3 :: more, by rw [he]; rfl,
      step_eq_some_iff.mpr (.inr (.inr (.inr ⟨?_, b', b'', b3, rfl, ?_, ?_, ?_, hc _ ?_⟩)))⟩
    · rw [width_eq, if_neg (by omega), if_neg (by omega), if_neg (by omega), if_pos (by omega)]
    · rw [admitsSecond_iff]; omega
    · rw [isContinuation_iff]; omega
    · rw [isContinuation_iff]; omega
    · rw [payload, payload, payload]; omega

theorem read_encode (cs : List Char) : read (cs.flatMap String.utf8EncodeChar) = cs.map some := by
  induction cs with
  | nil => rw [List.flatMap_nil, read]; rfl
  | cons c cs ih =>
    obtain ⟨first, rest, he, hs⟩ := exists_step_encodeChar c (cs.flatMap String.utf8EncodeChar)
    rw [List.flatMap_cons, he, read, hs, ih, List.map_cons]

/-- Bytes in which every place is read as a character are the encoding of these characters. -/
theorem read_eq_map_some_iff {bytes : Bytes} {cs : List Char} :
    read bytes = cs.map some ↔ bytes = cs.flatMap String.utf8EncodeChar := by
  refine ⟨fun h => ?_, fun h => h ▸ read_encode cs⟩
  induction cs generalizing bytes with
  | nil =>
    cases bytes with
    | nil => rfl
    | cons b bytes => simp [read] at h
  | cons c cs ih =>
    cases bytes with
    | nil => simp [read] at h
    | cons b bytes =>
      rw [read, List.map_cons, List.cons.injEq] at h
      have hs : step b bytes = (some c, (step b bytes).2) := Prod.ext h.1 rfl
      rw [encodeChar_of_step hs, ih h.2, List.flatMap_cons]

theorem mapM_id_eq_some_iff {places : List (Option Char)} {cs : List Char} :
    places.mapM id = some cs ↔ places = cs.map some := by
  induction places generalizing cs with
  | nil => cases cs <;> simp
  | cons place places ih =>
    rw [List.mapM_cons]
    cases place with
    | none => cases cs <;> simp
    | some d => cases cs <;> simp [Option.bind_eq_some_iff, ih, and_comm]

/-- Bytes are read as a text just when they are its encoding. -/
theorem decode?_eq_some_iff {bytes : Bytes} {s : String} :
    decode? bytes = some s ↔ bytes = encode s := by
  rw [decode?, Option.map_eq_some_iff, encode, ← read_eq_map_some_iff]
  constructor
  · rintro ⟨cs, h, rfl⟩
    rw [String.toList_ofList]
    exact mapM_id_eq_some_iff.mp h
  · exact fun h => ⟨s.toList, mapM_id_eq_some_iff.mpr h, String.ofList_toList⟩

@[simp] theorem decode?_encode (s : String) : decode? (encode s) = some s :=
  decode?_eq_some_iff.mpr rfl

theorem encode_append (s s' : String) : encode (s ++ s') = encode s ++ encode s' := by
  simp [encode]

end Switchboard.Utf8
