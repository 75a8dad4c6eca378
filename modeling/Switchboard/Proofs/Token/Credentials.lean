import Mathlib.Data.List.Basic
import Switchboard.Proofs.Text.Utf8
import Switchboard.Token.Bearer

/-! The credentials in a header: the scheme, one blank and the token. A value that is text and has
another form is told apart from one that cannot be read. -/

namespace Switchboard

theorem Utf8.encode_inj {s s' : String} : encode s = encode s' ↔ s = s' := by
  constructor
  · intro h
    have hdecode := congrArg decode? h
    rwa [decode?_encode, decode?_encode, Option.some_inj] at hdecode
  · exact congrArg encode

namespace Headers

/-- Text in a header has nothing but visible characters, blanks and tabs. -/
def Textual (value : Bytes) : Prop :=
  ∀ b ∈ value, (0x20 ≤ b ∧ b ≤ 0x7E) ∨ b = 0x09

theorem isTextByte_iff {b : UInt8} : isTextByte b = true ↔ (0x20 ≤ b ∧ b ≤ 0x7E) ∨ b = 0x09 := by
  simp [isTextByte, Text.isVisible]

theorem encodeChar_of_textual {b : UInt8} (h : (0x20 ≤ b ∧ b ≤ 0x7E) ∨ b = 0x09) :
    String.utf8EncodeChar (Char.ofNat b.toNat) = [b] := by
  have hb : b.toNat ≤ 0x7F := by
    simp only [UInt8.le_iff_toNat_le, ← UInt8.toNat_inj, UInt8.reduceToNat] at h
    omega
  have hc : (Char.ofNat b.toNat).toNat = b.toNat := Utf8.toNat_ofNat_of_valid (by omega)
  refine Utf8.map_toNat_inj.mp ?_
  rw [Utf8.map_toNat_encodeChar, hc, if_pos hb]
  rfl

theorem encode_of_textual {value : Bytes} (h : Textual value) :
    Utf8.encode (String.ofList (value.map fun b => Char.ofNat b.toNat)) = value := by
  rw [Utf8.encode, String.toList_ofList]
  induction value with
  | nil => rfl
  | cons b value ih =>
    rw [List.map_cons, List.flatMap_cons, encodeChar_of_textual (h b (by simp)),
      ih fun b hb => h b (List.mem_cons_of_mem _ hb)]
    rfl

theorem textOf?_eq_some_iff {value : Bytes} {text : String} :
    textOf? value = some text ↔ Textual value ∧ value = Utf8.encode text := by
  have hall : value.all isTextByte = true ↔ Textual value := by
    simp only [List.all_eq_true, isTextByte_iff, Textual]
  rw [textOf?]
  split
  · rename_i h
    have htextual := hall.mp h
    have hencode := encode_of_textual htextual
    constructor
    · intro h
      obtain rfl := Option.some.inj h
      exact ⟨htextual, hencode.symm⟩
    · rintro ⟨-, rfl⟩
      exact congrArg some (Utf8.encode_inj.mp hencode)
  · rename_i h
    constructor
    · intro h
      cases h
    · rintro ⟨htextual, -⟩
      exact absurd (hall.mpr htextual) h

end Headers

namespace Token

open Headers (Textual)

theorem words_ne_nil (cs : List Char) : words cs ≠ [] := by
  cases cs with
  | nil => simp [words]
  | cons c cs =>
    rw [words]
    split
    · simp
    · split <;> simp

theorem words_of_notMem {word : List Char} (h : ' ' ∉ word) : words word = [word] := by
  induction word with
  | nil => rfl
  | cons c word ih =>
    obtain ⟨hc, hw⟩ := not_or.mp (List.mem_cons.not.mp h)
    rw [words, if_neg (Ne.symm hc), ih hw]

theorem words_append_blank {word : List Char} (h : ' ' ∉ word) (rest : List Char) :
    words (word ++ ' ' :: rest) = word :: words rest := by
  induction word with
  | nil => rw [List.nil_append, words, if_pos rfl]
  | cons c word ih =>
    obtain ⟨hc, hw⟩ := not_or.mp (List.mem_cons.not.mp h)
    rw [List.cons_append, words, if_neg (Ne.symm hc), ih hw]

/-- There are two pieces exactly if there is one blank, and they stand on its two sides. -/
theorem words_eq_pair_iff {cs first second : List Char} :
    words cs = [first, second] ↔ cs = first ++ ' ' :: second ∧ ' ' ∉ first ∧ ' ' ∉ second := by
  constructor
  · intro h
    by_cases hcs : ' ' ∈ cs
    · obtain ⟨front, back, rfl, hfront⟩ := List.eq_append_cons_of_mem hcs
      rw [words_append_blank hfront] at h
      obtain ⟨rfl, hback⟩ := List.cons.inj h
      by_cases hb : ' ' ∈ back
      · obtain ⟨middle, last, rfl, hmiddle⟩ := List.eq_append_cons_of_mem hb
        rw [words_append_blank hmiddle] at hback
        exact absurd (List.cons.inj hback).2 (words_ne_nil last)
      · rw [words_of_notMem hb] at hback
        obtain rfl := (List.cons.inj hback).1
        exact ⟨rfl, hfront, hb⟩
    · rw [words_of_notMem hcs] at h
      cases h
  · rintro ⟨rfl, hfirst, hsecond⟩
    rw [words_append_blank hfirst, words_of_notMem hsecond]

/-- There is nothing to read: no value, an empty one, or one that is not text. -/
def Unreadable (value : Option Bytes) : Prop :=
  value = none ∨ value = some [] ∨ ∃ bytes, value = some bytes ∧ ¬ Textual bytes

/-- The value is a scheme that reads `bearer` in letters of any case, a blank, and a token. -/
def Carries (value : Option Bytes) (token : String) : Prop :=
  ∃ bytes scheme, value = some bytes ∧ Textual bytes ∧
    bytes = Utf8.encode (scheme ++ " " ++ token) ∧ scheme.toLower = "bearer" ∧
    token ≠ "" ∧ ' ' ∉ token.toList

section

variable {headers : Headers} {token : String}

theorem bearer?_of_unreadable (h : Unreadable (headers.get? "authorization")) :
    bearer? headers = .error .missingHeader := by
  rw [bearer?, Headers.text?]
  rcases h with h | h | ⟨bytes, h, hn⟩
  · rw [h]
    rfl
  · rw [h]
    rfl
  · have htext : Headers.textOf? bytes = none :=
      Option.eq_none_iff_forall_ne_some.mpr fun text ht => hn (Headers.textOf?_eq_some_iff.mp ht).1
    rw [h, Option.bind_some, htext]

theorem exists_text_of_readable (h : ¬ Unreadable (headers.get? "authorization")) :
    ∃ text, headers.get? "authorization" = some (Utf8.encode text) ∧
      Textual (Utf8.encode text) ∧ text ≠ "" := by
  cases hv : headers.get? "authorization" with
  | none => exact absurd (.inl hv) h
  | some bytes =>
    have htextual : Textual bytes := by
      by_contra hn
      exact h (.inr (.inr ⟨bytes, hv, hn⟩))
    have hencode := Headers.encode_of_textual htextual
    refine ⟨_, congrArg some hencode.symm, hencode.symm ▸ htextual, ?_⟩
    intro hempty
    rw [hempty] at hencode
    exact h (.inr (.inl (hv.trans (congrArg some hencode.symm))))

theorem isBearer_iff {scheme : String} :
    isBearer scheme.toList = true ↔ scheme.toLower = "bearer" := by
  have hlower : scheme.toLower.toList = scheme.toList.map Char.toLower := String.toList_map
  rw [isBearer, beq_iff_eq, ← String.toList_inj, hlower]

theorem blank_notMem_of_isBearer {scheme : List Char} (h : isBearer scheme = true) :
    ' ' ∉ scheme := by
  intro hm
  have hlower : Char.toLower ' ' ∈ scheme.map Char.toLower := List.mem_map_of_mem hm
  rw [eq_of_beq h] at hlower
  exact absurd hlower (by decide)

theorem carries_iff_words {text : String} (ht : Textual (Utf8.encode text)) :
    Carries (some (Utf8.encode text)) token ↔
      ∃ scheme, words text.toList = [scheme, token.toList] ∧ isBearer scheme = true ∧
        token ≠ "" := by
  constructor
  · rintro ⟨bytes, scheme, hv, -, hbytes, hscheme, hne, hblank⟩
    have htext : text = scheme ++ " " ++ token :=
      Utf8.encode_inj.mp ((Option.some.inj hv).trans hbytes)
    have hs := isBearer_iff.mpr hscheme
    refine ⟨scheme.toList, words_eq_pair_iff.mpr ⟨?_, blank_notMem_of_isBearer hs, hblank⟩, hs, hne⟩
    rw [htext, String.toList_append, String.toList_append, List.append_assoc]
    rfl
  · rintro ⟨scheme, hw, hs, hne⟩
    obtain ⟨htext, -, hblank⟩ := words_eq_pair_iff.mp hw
    refine ⟨_, String.ofList scheme, rfl, ht, congrArg Utf8.encode ?_, ?_, hne, hblank⟩
    · rw [← String.toList_inj, htext]
      simp
    · rwa [← isBearer_iff, String.toList_ofList]

theorem bearer?_cases_of_text {text : String}
    (hv : headers.get? "authorization" = some (Utf8.encode text))
    (ht : Textual (Utf8.encode text)) (hne : text ≠ "") :
    (∃ token, Carries (headers.get? "authorization") token ∧ bearer? headers = .ok token) ∨
      (¬ ∃ token, Carries (headers.get? "authorization") token) ∧
        bearer? headers = .error .invalidHeader := by
  have hread : headers.text? "authorization" = some text := by
    rw [Headers.text?, hv, Option.bind_some, Headers.textOf?_eq_some_iff.mpr ⟨ht, rfl⟩]
  have hempty : text.isEmpty = false := by simpa using hne
  simp only [hv, carries_iff_words ht, bearer?, hread, hempty, Bool.false_eq_true, if_false]
  split
  · rename_i scheme token hw
    split
    · rename_i hc
      obtain ⟨hs, htoken⟩ := (Bool.and_eq_true ..).mp hc
      refine .inl ⟨String.ofList token, ⟨scheme, ?_, hs, ?_⟩, rfl⟩
      · rw [hw, String.toList_ofList]
      · intro h
        simp [String.ofList_eq_empty_iff.mp h] at htoken
    · rename_i hc
      refine .inr ⟨?_, rfl⟩
      rintro ⟨other, scheme', h, hs, hne⟩
      obtain ⟨rfl, rfl⟩ : scheme = scheme' ∧ token = other.toList := by simpa [hw] using h
      exact hc (by simp [hs, hne])
  · rename_i hw
    exact .inr ⟨fun ⟨_, scheme, h, _⟩ => hw _ _ h, rfl⟩

theorem bearer?_cases (headers : Headers) :
    Unreadable (headers.get? "authorization") ∧ bearer? headers = .error .missingHeader ∨
    ¬ Unreadable (headers.get? "authorization") ∧
      ((∃ token, Carries (headers.get? "authorization") token ∧ bearer? headers = .ok token) ∨
        (¬ ∃ token, Carries (headers.get? "authorization") token) ∧
          bearer? headers = .error .invalidHeader) := by
  by_cases h : Unreadable (headers.get? "authorization")
  · exact .inl ⟨h, bearer?_of_unreadable h⟩
  · obtain ⟨text, hv, ht, hne⟩ := exists_text_of_readable h
    exact .inr ⟨h, bearer?_cases_of_text hv ht hne⟩

theorem Carries.exists_words {value : Option Bytes} (h : Carries value token) :
    ∃ text scheme, value = some (Utf8.encode text) ∧ Textual (Utf8.encode text) ∧
      words text.toList = [scheme, token.toList] := by
  obtain ⟨bytes, scheme, rfl, ht, rfl, hrest⟩ := h
  obtain ⟨scheme', hw, -⟩ := (carries_iff_words ht).mp ⟨_, scheme, rfl, ht, rfl, hrest⟩
  exact ⟨_, scheme', rfl, ht, hw⟩

theorem Carries.readable {value : Option Bytes} (h : Carries value token) :
    ¬ Unreadable value := by
  obtain ⟨text, scheme, rfl, ht, hw⟩ := h.exists_words
  rintro (h | h | ⟨bytes, h, hn⟩)
  · cases h
  · have htext : text = "" := Utf8.encode_inj.mp (Option.some.inj h)
    rw [htext] at hw
    cases hw
  · exact hn (Option.some.inj h ▸ ht)

theorem Carries.unique {value : Option Bytes} {other : String} (h : Carries value token)
    (h' : Carries value other) : token = other := by
  obtain ⟨text, scheme, rfl, ht, hw⟩ := h.exists_words
  obtain ⟨scheme', hw', -⟩ := (carries_iff_words ht).mp h'
  rw [hw] at hw'
  exact String.toList_inj.mp (List.cons.inj (List.cons.inj hw').2).1

/-- The token is what stands behind the one blank of the value. -/
theorem Carries.only_blank {value : Option Bytes} (h : Carries value token) :
    ∃ text, value = some (Utf8.encode text) ∧ text.toList.count ' ' = 1 ∧
      ∀ front back, text.toList = front ++ ' ' :: back → back = token.toList := by
  obtain ⟨text, scheme, rfl, -, hw⟩ := h.exists_words
  obtain ⟨htext, hscheme, htoken⟩ := words_eq_pair_iff.mp hw
  have hcount : text.toList.count ' ' = 1 := by
    rw [htext, List.count_append, List.count_cons_self, List.count_eq_zero_of_not_mem hscheme,
      List.count_eq_zero_of_not_mem htoken]
  refine ⟨text, rfl, hcount, fun front back hs => ?_⟩
  rw [hs, List.count_append, List.count_cons_self] at hcount
  have hfront : ' ' ∉ front := List.count_eq_zero.mp (by omega)
  have hback : ' ' ∉ back := List.count_eq_zero.mp (by omega)
  have hsplit := words_eq_pair_iff.mpr ⟨hs, hfront, hback⟩
  rw [hw] at hsplit
  exact (List.cons.inj (List.cons.inj hsplit).2).1.symm

/-- What a header is read as, by its first value. A value without text is missing. A token is taken
from a text that is the scheme, a blank and the token, and then it stands behind the only blank.
Any other text is invalid. -/
theorem bearer?_reads_credentials (headers : Headers) :
    let value := headers.get? "authorization"
    (bearer? headers = .error .missingHeader ↔ Unreadable value) ∧
    (∀ token, bearer? headers = .ok token ↔ Carries value token) ∧
    (bearer? headers = .error .invalidHeader ↔
      ¬ Unreadable value ∧ ¬ ∃ token, Carries value token) ∧
    ∀ token, bearer? headers = .ok token → ∃ text, value = some (Utf8.encode text) ∧
      text.toList.count ' ' = 1 ∧
      ∀ front back, text.toList = front ++ ' ' :: back → back = token.toList := by
  intro value
  have hok : ∀ token, bearer? headers = .ok token ↔ Carries value token := by
    intro token
    rcases bearer?_cases headers with ⟨hu, hb⟩ | ⟨-, ⟨other, hc, hb⟩ | ⟨hn, hb⟩⟩
    · exact iff_of_false (by simp [hb]) fun h => h.readable hu
    · constructor
      · intro h
        obtain rfl := Except.ok.inj (hb.symm.trans h)
        exact hc
      · intro h
        rw [hb, hc.unique h]
    · exact iff_of_false (by simp [hb]) fun h => hn ⟨token, h⟩
  refine ⟨?missing, hok, ?invalid, fun token h => ((hok token).mp h).only_blank⟩
  case missing =>
    rcases bearer?_cases headers with ⟨hu, hb⟩ | ⟨hu, ⟨_, -, hb⟩ | ⟨-, hb⟩⟩
    · exact iff_of_true hb hu
    · exact iff_of_false (by simp [hb]) hu
    · exact iff_of_false (by simp [hb]) hu
  case invalid =>
    rcases bearer?_cases headers with ⟨hu, hb⟩ | ⟨hu, ⟨token, hc, hb⟩ | ⟨hn, hb⟩⟩
    · exact iff_of_false (by simp [hb]) fun h => h.1 hu
    · exact iff_of_false (by simp [hb]) fun h => h.2 ⟨token, hc⟩
    · exact iff_of_true hb ⟨hu, hn⟩

end

end Token

end Switchboard
