import Mathlib.Data.List.Basic
import Switchboard.Json.Parser

/-! Integers and strings are read back from their texts. -/

namespace Switchboard.Json

/-! ### Integers -/

/-- What may stand behind a value: nothing, a comma or a closing bracket. -/
def Follows (rest : List Char) : Prop :=
  ∀ c ∈ rest.head?, c = ',' ∨ c = ']' ∨ c = '\x7d'

variable {rest : List Char}

theorem render_int (n : Int) : render (.int n) =
    if 0 ≤ n then Nat.toDigits 10 n.toNat else '-' :: Nat.toDigits 10 (-n).toNat := by
  rw [render, Int.toString_eq_repr, Int.repr_eq_if]
  split <;> simp

theorem le_ofDigitChars (digits : List Char) (m : Nat) : m ≤ Nat.ofDigitChars 10 digits m := by
  rw [Nat.ofDigitChars_eq_ofDigitChars_zero]
  have hpos : 0 < 10 ^ digits.length := Nat.pow_pos (by decide)
  exact Nat.le_trans (Nat.le_mul_of_pos_left m hpos) (Nat.le_add_right _ _)

/-- Digits that stand for a number of 64 bits are all counted. -/
theorem takeDigits_eq {m : Nat} {digits : List Char}
    (h : Nat.ofDigitChars 10 digits m < Word.size64) :
    takeDigits ⟨m, 0⟩ digits = ⟨Nat.ofDigitChars 10 digits m, 0⟩ := by
  induction digits generalizing m with
  | nil => rw [takeDigits, Nat.ofDigitChars_nil]
  | cons c digits ih =>
    have hnext : m * 10 + digitOf c = 10 * m + (c.toNat - '0'.toNat) := by
      rw [digitOf, Nat.mul_comm]
    rw [Nat.ofDigitChars_cons] at h ⊢
    have hle := le_ofDigitChars digits (10 * m + (c.toNat - '0'.toNat))
    rw [takeDigits]
    simp only [hnext]
    rw [if_neg (by omega)]
    exact ih h

theorem head?_toDigits_ne_zero {n : Nat} (h : 0 < n) : (Nat.toDigits 10 n).head? ≠ some '0' := by
  induction n using Nat.strongRecOn with
  | ind n ih =>
    by_cases hlt : n < 10
    · rw [Nat.toDigits_of_lt_base hlt]
      have hdigit : ∀ d < 10, 0 < d → [Nat.digitChar d].head? ≠ some '0' := by decide
      exact hdigit n hlt h
    · rw [Nat.toDigits_of_base_le (by decide) (Nat.le_of_not_lt hlt),
        List.head?_append_of_ne_nil _ Nat.toDigits_ne_nil]
      exact ih (n / 10) (by omega) (by omega)

theorem toDigits_ne_zero_cons (n : Nat) (c : Char) (more : List Char) :
    Nat.toDigits 10 n ≠ '0' :: c :: more := by
  intro h
  rcases Nat.eq_zero_or_pos n with rfl | hpos
  · rw [Nat.toDigits_zero] at h
    cases h
  · exact head?_toDigits_ne_zero hpos (by rw [h]; rfl)

theorem Follows.not_digit (h : Follows rest) {c : Char} (hc : c ∈ rest.head?) :
    c.isDigit = false := by
  rcases h c hc with rfl | rfl | rfl <;> rfl

theorem Follows.ne_cons (h : Follows rest) {c : Char} {more : List Char}
    (hc : ¬ (c = ',' ∨ c = ']' ∨ c = '\x7d')) : rest ≠ c :: more := by
  rintro rfl
  exact hc (h c rfl)

theorem unsignedNumber_toDigits {n : Nat} (h : n < Word.size64) (hr : Follows rest)
    (negative : Bool) :
    unsignedNumber negative (Nat.toDigits 10 n ++ rest) = some (whole negative n, rest) := by
  have hdigits : ∀ c ∈ Nat.toDigits 10 n, c.isDigit = true :=
    fun c hc => Nat.isDigit_of_mem_toDigits (by decide) (by decide) hc
  have htake : (Nat.toDigits 10 n ++ rest).takeWhile Char.isDigit = Nat.toDigits 10 n := by
    rw [List.takeWhile_append_of_pos hdigits]
    cases rest with
    | nil => simp
    | cons c more => simp [hr.not_digit rfl]
  have hdrop : (Nat.toDigits 10 n ++ rest).dropWhile Char.isDigit = rest := by
    rw [List.dropWhile_append_of_pos hdigits]
    cases rest with
    | nil => rfl
    | cons c more => simp [hr.not_digit rfl]
  have hvalue : takeDigits ⟨0, 0⟩ (Nat.toDigits 10 n) = ⟨n, 0⟩ := by
    have hn : Nat.ofDigitChars 10 (Nat.toDigits 10 n) 0 = n :=
      Nat.ofDigitChars_toDigits (by decide) (by decide)
    rw [takeDigits_eq (by rwa [hn]), hn]
  rw [unsignedNumber, htake, hdrop]
  split
  · rename_i hnil
    exact absurd hnil Nat.toDigits_ne_nil
  · rename_i hzero
    exact absurd hzero (toDigits_ne_zero_cons n _ _)
  · rw [afterDigits, hvalue]
    · rfl
    all_goals exact fun more => hr.ne_cons (by decide)

/-- Integers of 64 bits. -/
def fits64 (n : Int) : Prop :=
  -(Word.half64 : Int) ≤ n ∧ n < Word.size64

theorem number_render {n : Int} (h : fits64 n) (hr : Follows rest) :
    number (render (.int n) ++ rest) = some (.int n, rest) := by
  have hhalf : (Word.half64 : Int) < Word.size64 := by decide
  obtain ⟨hlow, hhigh⟩ := h
  rw [render_int]
  split
  · rename_i hn
    rw [number, unsignedNumber_toDigits (by omega) hr, whole]
    · simp [Int.toNat_of_nonneg hn]
    · intro more he
      have hminus : '-' ∈ Nat.toDigits 10 n.toNat := by
        cases hd : Nat.toDigits 10 n.toNat with
        | nil => exact absurd hd Nat.toDigits_ne_nil
        | cons c digits =>
          rw [hd, List.cons_append] at he
          rw [(List.cons.inj he).1]
          exact List.mem_cons_self
      exact absurd (Nat.isDigit_of_mem_toDigits (by decide) (by decide) hminus) (by decide)
  · rename_i hn
    rw [List.cons_append, number, unsignedNumber_toDigits (by omega) hr, whole]
    have hzero : ((-n).toNat == 0 || decide (Word.half64 < (-n).toNat)) = false := by
      simp only [Bool.or_eq_false_iff, beq_eq_false_iff_ne, decide_eq_false_iff_not]
      omega
    have hback : -((-n).toNat : Int) = n := by omega
    rw [if_neg (by decide), hzero, if_neg (by decide), hback]

/-! ### Strings -/

theorem hexQuad?_escape : ∀ n < 32,
    hexQuad? '0' '0' (Hex.digit (n / 16)) (Hex.digit (n % 16)) = some n := by
  decide

theorem stringBody_unicode {a b c d : Char} {code : Nat} (h : hexQuad? a b c d = some code)
    (hcode : code < 0xD800) (cs : List Char) :
    stringBody ('\\' :: 'u' :: a :: b :: c :: d :: cs) =
      (stringBody cs).map fun p => (Char.ofNat code :: p.1, p.2) := by
  have hhigh : (decide (0xD800 ≤ code) && decide (code < 0xDC00)) = false := by simp; omega
  have hlow : (decide (0xDC00 ≤ code) && decide (code < 0xE000)) = false := by simp; omega
  have hpair : (decide (0xD800 ≤ code) && decide (code < 0xE000)) = false := by simp; omega
  rw [stringBody.eq_def]
  split
  case h_1 heq => cases heq
  case h_2 heq => cases heq
  case h_3 heq =>
    simp only [List.cons.injEq, true_and] at heq
    obtain ⟨rfl, rfl, rfl, rfl, rfl⟩ := heq
    simp only [h, hhigh, hlow, Bool.false_eq_true, if_false]
  case h_4 heq =>
    simp only [List.cons.injEq, true_and] at heq
    obtain ⟨rfl, rfl, rfl, rfl, rfl⟩ := heq
    simp only [h, hpair, Bool.false_eq_true, if_false]
  case h_5 hno heq =>
    simp only [List.cons.injEq, true_and] at heq
    exact (hno _ _ _ _ _ heq.1.symm heq.2.symm).elim
  case h_6 hno heq =>
    simp only [List.cons.injEq] at heq
    exact (hno _ _ heq.1.symm heq.2.symm).elim

theorem stringBody_simple {c d e : Char} (hc : (c == d) = true) (h : simpleEscape? e = some d)
    (cs : List Char) :
    stringBody ('\\' :: e :: cs) = (stringBody cs).map fun p => (c :: p.1, p.2) := by
  obtain rfl := beq_iff_eq.mp hc
  have hu : e ≠ 'u' := by
    rintro rfl
    cases h
  rw [stringBody.eq_def]
  split
  case h_1 heq => cases heq
  case h_2 heq => cases heq
  case h_3 heq => exact absurd (List.cons.inj (List.cons.inj heq).2).1 hu
  case h_4 heq => exact absurd (List.cons.inj (List.cons.inj heq).2).1 hu
  case h_5 heq =>
    simp only [List.cons.injEq, true_and] at heq
    obtain ⟨rfl, rfl⟩ := heq
    simp only [h]
  case h_6 hno heq =>
    simp only [List.cons.injEq] at heq
    exact (hno _ _ heq.1.symm heq.2.symm).elim

theorem stringBody_plain {c : Char} (hquote : c ≠ '"') (hback : c ≠ '\\')
    (hctl : ¬ c.toNat < 0x20) (cs : List Char) :
    stringBody (c :: cs) = (stringBody cs).map fun p => (c :: p.1, p.2) := by
  rw [stringBody]
  · rw [if_neg hctl]
  all_goals simp [hquote, hback]

/-- A character is read back from its escape. -/
theorem stringBody_escapeChar (c : Char) (cs : List Char) :
    stringBody (escapeChar c ++ cs) = (stringBody cs).map fun p => (c :: p.1, p.2) := by
  rw [escapeChar]
  iterate 7
    split
    · rename_i h
      exact stringBody_simple h rfl cs
  split
  · rename_i h
    have hbyte : c.toNat.toUInt8.toNat = c.toNat := by
      rw [Nat.toUInt8, UInt8.toNat_ofNat']
      omega
    have hquad := hexQuad?_escape c.toNat (by omega)
    rw [Hex.ofByte, hbyte]
    exact (stringBody_unicode hquad (by omega) cs).trans (by rw [Char.ofNat_toNat])
  · rename_i hquote hback _ _ _ _ _ hctl
    exact stringBody_plain (by simpa using hquote) (by simpa using hback) hctl cs

theorem stringBody_render (s : List Char) (rest : List Char) :
    stringBody (s.flatMap escapeChar ++ '"' :: rest) = some (s, rest) := by
  induction s with
  | nil => rw [List.flatMap_nil, List.nil_append, stringBody]
  | cons c s ih => rw [List.flatMap_cons, List.append_assoc, stringBody_escapeChar, ih]; rfl

end Switchboard.Json
