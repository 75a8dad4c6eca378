import Mathlib.Data.List.TakeWhile
import Switchboard.Duration

/-! The written forms of a span of time: a number below `2^64` with a unit right behind it, and
white space around both. Any other text is refused for the first fault that it has. -/

namespace Switchboard

namespace Text

/-- What a text is without the white space in front of it and behind it. -/
def Trimmed (s text : List Char) : Prop :=
  ∃ front back, s = front ++ text ++ back ∧ (∀ c ∈ front ++ back, isBlank c = true) ∧
    (∀ c ∈ text.head?, isBlank c = false) ∧ ∀ c ∈ text.getLast?, isBlank c = false

theorem takeWhile_append_of_head {p : Char → Bool} {front rest : List Char}
    (hf : ∀ c ∈ front, p c = true) (hr : ∀ c ∈ rest.head?, p c = false) :
    (front ++ rest).takeWhile p = front := by
  rw [List.takeWhile_append_of_pos hf]
  cases rest with
  | nil => simp
  | cons c rest => simp [hr c rfl]

theorem dropWhile_append_of_head {p : Char → Bool} {front rest : List Char}
    (hf : ∀ c ∈ front, p c = true) (hr : ∀ c ∈ rest.head?, p c = false) :
    (front ++ rest).dropWhile p = rest := by
  rw [List.dropWhile_append_of_pos hf]
  cases rest with
  | nil => rfl
  | cons c rest => simp [hr c rfl]

/-- A text is a part in front that satisfies `p` throughout and a rest that does not begin so. -/
theorem exists_append_of_head (p : Char → Bool) (text : List Char) :
    ∃ front rest, text = front ++ rest ∧ (∀ c ∈ front, p c = true) ∧
      ∀ c ∈ rest.head?, p c = false := by
  refine ⟨text.takeWhile p, text.dropWhile p, List.takeWhile_append_dropWhile.symm,
    fun c hc => List.mem_takeWhile_imp hc, ?_⟩
  intro c hc
  have hh := List.head?_dropWhile_not p text
  rwa [Option.mem_def.mp hc] at hh

theorem Trimmed.trim_eq {s text : List Char} (h : Trimmed s text) : trim s = text := by
  obtain ⟨front, back, rfl, hblank, hhead, hlast⟩ := h
  have hfront : ∀ c ∈ front, isBlank c = true :=
    fun c hc => hblank c (List.mem_append_left _ hc)
  have hback : ∀ c ∈ back, isBlank c = true :=
    fun c hc => hblank c (List.mem_append_right _ hc)
  cases text with
  | nil =>
    have hall : (front ++ back).dropWhile isBlank = [] := List.dropWhile_eq_nil_iff.mpr hblank
    rw [List.append_nil, trim, trimBy, hall]
    rfl
  | cons c text =>
    have hopened : (front ++ (c :: text ++ back)).dropWhile isBlank = c :: text ++ back :=
      dropWhile_append_of_head hfront hhead
    have hclosed : (back.reverse ++ (c :: text).reverse).dropWhile isBlank =
        (c :: text).reverse :=
      dropWhile_append_of_head (by simpa using hback) (by rwa [List.head?_reverse])
    rw [trim, trimBy, List.append_assoc, hopened, List.reverse_append, hclosed,
      List.reverse_reverse]

end Text

namespace Duration

inductive TimeUnit where
  | millisecond
  | second
  | minute
  | hour
deriving DecidableEq, Repr

namespace TimeUnit

def symbol : TimeUnit → List Char
  | millisecond => ['m', 's']
  | second => ['s']
  | minute => ['m']
  | hour => ['h']

def nanos : TimeUnit → Nat
  | millisecond => 1000000
  | second => 1000000000
  | minute => 60 * 1000000000
  | hour => 3600 * 1000000000

/-- The number of times that a unit counts, as milliseconds or as seconds. -/
def factor : TimeUnit → Nat
  | millisecond => 1
  | second => 1
  | minute => 60
  | hour => 3600

def span (unit : TimeUnit) (n : Nat) : Duration :=
  ⟨n * unit.nanos⟩

/-- What a number of units is read as. It is the span itself as long as its seconds have room. -/
def counted : TimeUnit → Nat → Duration
  | millisecond, n => ofMillis n
  | second, n => ofSeconds n
  | minute, n => ofSeconds (Word.mul64 n 60)
  | hour, n => ofSeconds (Word.mul64 n 3600)

theorem counted_eq_span {unit : TimeUnit} {n : Nat} (h : n * unit.factor < Word.size64) :
    unit.counted n = unit.span n := by
  cases unit with
  | millisecond | second => rfl
  | minute =>
    have hfits : n * 60 < Word.size64 := h
    rw [counted, Word.mul64, Nat.mod_eq_of_lt hfits, ofSeconds, Nat.mul_assoc]
    rfl
  | hour =>
    have hfits : n * 3600 < Word.size64 := h
    rw [counted, Word.mul64, Nat.mod_eq_of_lt hfits, ofSeconds, Nat.mul_assoc]
    rfl

end TimeUnit

def AllDigits (text : List Char) : Prop :=
  ∀ c ∈ text, c.isDigit = true

/-- A run of one or more digits and the number that it stands for. -/
structure Numeral (digits : List Char) (n : Nat) : Prop where
  ne_nil : digits ≠ []
  allDigits : AllDigits digits
  value : Nat.ofDigitChars 10 digits 0 = n

/-- A number with its unit right behind it. -/
def Written (text : List Char) (n : Nat) (unit : TimeUnit) : Prop :=
  ∃ digits, Numeral digits n ∧ text = digits ++ unit.symbol

/-- A text that does not begin with a digit, or whose digits in front are a number of more than 64
bits. -/
def Misnumbered (text : List Char) : Prop :=
  (∃ c rest, text = c :: rest ∧ c.isDigit = false) ∨
    ∃ digits rest n, text = digits ++ rest ∧ Numeral digits n ∧
      (∀ c ∈ rest.head?, c.isDigit = false) ∧ Word.size64 ≤ n

/-- The one message for a text that is not read. -/
def FirstFault (text : List Char) (message : String) : Prop :=
  (text = [] → message = "Empty duration") ∧
    (text ≠ [] → AllDigits text → message = "Missing duration unit") ∧
    (¬ AllDigits text → Misnumbered text → message = "Invalid number in duration") ∧
    (¬ AllDigits text → ¬ Misnumbered text → message = "Invalid duration unit")

theorem digitsValue_eq (digits : List Char) :
    digitsValue digits = Nat.ofDigitChars 10 digits 0 := by
  unfold digitsValue Nat.ofDigitChars
  congr 1
  funext n c
  rw [Nat.mul_comm]

theorem ofUnit?_eq_some_iff {n : Nat} {rest : List Char} {d : Duration} :
    ofUnit? n rest = some d ↔ ∃ unit : TimeUnit, rest = unit.symbol ∧ d = unit.counted n := by
  constructor
  · intro h
    unfold ofUnit? at h
    split at h
    · exact ⟨.millisecond, rfl, (Option.some.inj h).symm⟩
    · exact ⟨.second, rfl, (Option.some.inj h).symm⟩
    · exact ⟨.minute, rfl, (Option.some.inj h).symm⟩
    · exact ⟨.hour, rfl, (Option.some.inj h).symm⟩
    · cases h
  · rintro ⟨unit, rfl, rfl⟩
    cases unit <;> rfl

theorem TimeUnit.head_symbol (unit : TimeUnit) : ∀ c ∈ unit.symbol.head?, c.isDigit = false := by
  cases unit <;> rintro _ ⟨⟩ <;> rfl

theorem TimeUnit.symbol_ne_nil (unit : TimeUnit) : unit.symbol ≠ [] := by
  cases unit <;> decide

section

variable {s : String} {text digits rest : List Char} {n : Nat} {unit : TimeUnit}

/-- The answers in the order in which the faults are looked for. -/
theorem numberAndUnit_append (ht : Text.Trimmed s.toList (digits ++ rest)) (hd : AllDigits digits)
    (hr : ∀ c ∈ rest.head?, c.isDigit = false) :
    numberAndUnit s =
      if digits ++ rest = [] then .error .empty
      else if rest = [] then .error .missingUnit
      else if digits = [] ∨ Word.size64 ≤ Nat.ofDigitChars 10 digits 0 then .error .invalidNumber
      else .ok (Nat.ofDigitChars 10 digits 0, rest) := by
  rw [numberAndUnit, ht.trim_eq, Text.takeWhile_append_of_head hd hr,
    Text.dropWhile_append_of_head hd hr, digitsValue_eq]
  simp only [List.isEmpty_iff, Bool.or_eq_true, decide_eq_true_eq]

theorem parse_append (ht : Text.Trimmed s.toList (digits ++ rest)) (hd : AllDigits digits)
    (hr : ∀ c ∈ rest.head?, c.isDigit = false) :
    parse s =
      if digits ++ rest = [] then .error .empty
      else if rest = [] then .error .missingUnit
      else if digits = [] ∨ Word.size64 ≤ Nat.ofDigitChars 10 digits 0 then .error .invalidNumber
      else ((ofUnit? (Nat.ofDigitChars 10 digits 0) rest).map Except.ok).getD
        (.error .invalidUnit) := by
  rw [parse, numberAndUnit_append ht hd hr]
  split
  · rfl
  · split
    · rfl
    · split
      · rfl
      · simp only [bind, Except.bind]
        cases ofUnit? (Nat.ofDigitChars 10 digits 0) rest <;> rfl

theorem parse_of_allDigits (ht : Text.Trimmed s.toList text) (hd : AllDigits text) :
    parse s = .error (if text = [] then .empty else .missingUnit) := by
  rw [← List.append_nil text] at ht
  rw [parse_append ht hd (by simp), List.append_nil, if_pos rfl]
  split <;> rfl

theorem parse_of_misnumbered (ht : Text.Trimmed s.toList text) (hd : ¬ AllDigits text)
    (hm : Misnumbered text) : parse s = .error .invalidNumber := by
  rcases hm with ⟨c, rest, rfl, hc⟩ | ⟨digits, rest, n, rfl, hnum, hr, hn⟩
  · rw [← List.nil_append (c :: rest)] at ht
    rw [parse_append ht (by simp [AllDigits]) (by simpa using hc)]
    simp
  · have hrest : rest ≠ [] := by
      rintro rfl
      exact hd (by simpa using hnum.allDigits)
    rw [parse_append ht hnum.allDigits hr, if_neg (by simp [hrest]), if_neg hrest,
      if_pos (.inr (hnum.value ▸ hn))]

theorem numberAndUnit_of_written (ht : Text.Trimmed s.toList text) (hw : Written text n unit)
    (hn : n < Word.size64) : numberAndUnit s = .ok (n, unit.symbol) := by
  obtain ⟨digits, hnum, rfl⟩ := hw
  rw [numberAndUnit_append ht hnum.allDigits unit.head_symbol, if_neg (by simp [hnum.ne_nil]),
    if_neg unit.symbol_ne_nil, hnum.value, if_neg (by simp [hnum.ne_nil, hn])]

theorem parse_of_written (ht : Text.Trimmed s.toList text) (hw : Written text n unit)
    (hn : n < Word.size64) : parse s = .ok (unit.counted n) := by
  have hunit : ofUnit? n unit.symbol = some (unit.counted n) :=
    ofUnit?_eq_some_iff.mpr ⟨unit, rfl, rfl⟩
  rw [parse, numberAndUnit_of_written ht hw hn]
  simp only [bind, Except.bind, hunit]

theorem written_of_numberAndUnit (ht : Text.Trimmed s.toList text)
    (h : numberAndUnit s = .ok (n, unit.symbol)) : Written text n unit ∧ n < Word.size64 := by
  obtain ⟨digits, rest, rfl, hdigits, hr⟩ := Text.exists_append_of_head Char.isDigit text
  rw [numberAndUnit_append ht hdigits hr] at h
  split_ifs at h with hempty hunit hnumber
  obtain ⟨hvalue, rfl⟩ := Prod.mk.inj (Except.ok.inj h)
  obtain ⟨hne, hsize⟩ := not_or.mp hnumber
  exact ⟨⟨digits, ⟨hne, hdigits, hvalue⟩, rfl⟩, hvalue ▸ Nat.lt_of_not_le hsize⟩

/-- A text overflows if it is a number of minutes or hours whose seconds do not fit 64 bits. A release
reads it all the same. -/
theorem overflows_iff (ht : Text.Trimmed s.toList text) :
    overflows s = true ↔ ∃ n unit, Written text n unit ∧ n < Word.size64 ∧
      Word.size64 ≤ n * unit.factor ∧ parse s = .ok (unit.counted n) := by
  constructor
  · intro h
    unfold overflows at h
    split at h
    · rename_i n hn
      have hread : numberAndUnit s = .ok (n, TimeUnit.minute.symbol) := hn
      obtain ⟨hw, hsize⟩ := written_of_numberAndUnit ht hread
      exact ⟨n, .minute, hw, hsize, of_decide_eq_true h, parse_of_written ht hw hsize⟩
    · rename_i n hn
      have hread : numberAndUnit s = .ok (n, TimeUnit.hour.symbol) := hn
      obtain ⟨hw, hsize⟩ := written_of_numberAndUnit ht hread
      exact ⟨n, .hour, hw, hsize, of_decide_eq_true h, parse_of_written ht hw hsize⟩
    · cases h
  · rintro ⟨n, unit, hw, hn, hfactor, -⟩
    rw [overflows, numberAndUnit_of_written ht hw hn]
    cases unit with
    | millisecond | second => exact absurd hn (by simpa [TimeUnit.factor] using hfactor)
    | minute | hour => exact decide_eq_true hfactor

example : overflows "18446744073709551615h" = true := by
  decide +kernel

theorem parse_of_unwritten (ht : Text.Trimmed s.toList text) (hd : ¬ AllDigits text)
    (hm : ¬ Misnumbered text) (hw : ∀ n unit, Written text n unit → ¬ n < Word.size64) :
    parse s = .error .invalidUnit := by
  obtain ⟨digits, rest, rfl, hdigits, hr⟩ := Text.exists_append_of_head Char.isDigit text
  -- What is neither all digits nor misnumbered is a number of 64 bits and some rest.
  have hrest : rest ≠ [] := by
    rintro rfl
    exact hd ((List.append_nil digits).symm ▸ hdigits)
  have hne : digits ≠ [] := by
    rintro rfl
    obtain ⟨c, rest, rfl⟩ := List.exists_cons_of_ne_nil hrest
    exact hm (.inl ⟨c, rest, rfl, hr c rfl⟩)
  have hnum : Numeral digits (Nat.ofDigitChars 10 digits 0) := ⟨hne, hdigits, rfl⟩
  have hsize : ¬ Word.size64 ≤ Nat.ofDigitChars 10 digits 0 :=
    fun h => hm (.inr ⟨digits, rest, _, rfl, hnum, hr, h⟩)
  have hunit : ofUnit? (Nat.ofDigitChars 10 digits 0) rest = none := by
    refine Option.eq_none_iff_forall_ne_some.mpr fun d h => ?_
    obtain ⟨unit, rfl, -⟩ := ofUnit?_eq_some_iff.mp h
    exact hw _ unit ⟨digits, hnum, rfl⟩ (Nat.lt_of_not_le hsize)
  rw [parse_append ht hdigits hr, if_neg (by simp [hrest]), if_neg hrest,
    if_neg (by simp [hne, hsize]), hunit]
  rfl

theorem seconds_span_lt (hn : n < Word.size64) (hf : n * unit.factor < Word.size64) :
    (unit.span n).seconds < Word.size64 := by
  simp only [Word.size64] at hn hf ⊢
  cases unit <;> simp only [seconds, TimeUnit.span, TimeUnit.nanos, TimeUnit.factor] at hf ⊢ <;>
    omega

theorem parse_of_refused (ht : Text.Trimmed s.toList text)
    (hw : ¬ ∃ n unit, Written text n unit ∧ n < Word.size64) :
    ∃ e, parse s = .error e ∧ FirstFault text e.message := by
  by_cases hd : AllDigits text
  · refine ⟨_, parse_of_allDigits ht hd, ?_, ?_, fun h => absurd hd h, fun h => absurd hd h⟩
    · intro h
      rw [if_pos h, ParseError.message]
    · intro h _
      rw [if_neg h, ParseError.message]
  · have hne : text ≠ [] := by
      rintro rfl
      exact hd (by simp [AllDigits])
    by_cases hm : Misnumbered text
    · exact ⟨_, parse_of_misnumbered ht hd hm, fun h => absurd h hne, fun _ h => absurd h hd,
        fun _ _ => rfl, fun _ h => absurd hm h⟩
    · have hw' : ∀ n unit, Written text n unit → ¬ n < Word.size64 :=
        fun n unit h hn => hw ⟨n, unit, h, hn⟩
      exact ⟨_, parse_of_unwritten ht hd hm hw', fun h => absurd h hne, fun _ h => absurd h hd,
        fun _ h => absurd h hm, fun _ _ => rfl⟩

/-- What is read, between white space, is a number below `2^64` with a unit right behind it, and it
is read as so many of that unit. Of any other text the first fault is reported. The words in which
minutes and hours are counted as seconds have 64 bits, and `hword` keeps them from overflowing. -/
theorem parse_ok_iff_written (ht : Text.Trimmed s.toList text)
    (hword : ∀ n unit, Written text n unit → n < Word.size64 → n * unit.factor < Word.size64) :
    (∀ d, parse s = .ok d ↔ ∃ n unit, Written text n unit ∧ n < Word.size64 ∧
      d = unit.span n ∧ d.seconds < Word.size64) ∧
    ((¬ ∃ n unit, Written text n unit ∧ n < Word.size64) →
      ∃ e, parse s = .error e ∧ FirstFault text e.message) := by
  refine ⟨fun d => ⟨fun h => ?_, ?_⟩, parse_of_refused ht⟩
  · by_cases hw : ∃ n unit, Written text n unit ∧ n < Word.size64
    · obtain ⟨n, unit, hw, hn⟩ := hw
      have hfits := hword n unit hw hn
      rw [parse_of_written ht hw hn, TimeUnit.counted_eq_span hfits] at h
      obtain rfl := Except.ok.inj h
      exact ⟨n, unit, hw, hn, rfl, seconds_span_lt hn hfits⟩
    · obtain ⟨e, he, -⟩ := parse_of_refused ht hw
      cases he.symm.trans h
  · rintro ⟨n, unit, hw, hn, rfl, -⟩
    rw [parse_of_written ht hw hn, TimeUnit.counted_eq_span (hword n unit hw hn)]

/-- The most hours that are less than `2^64` seconds, with zeros in front and wide blanks around. -/
theorem parse_ok_iff_written_hours :
    let s := "\u3000005124095576030431h\u2003"
    Text.Trimmed s.toList "005124095576030431h".toList ∧
      parse s = .ok (TimeUnit.hour.span 5124095576030431) := by
  intro s
  have ht : Text.Trimmed s.toList "005124095576030431h".toList := by
    refine ⟨['\u3000'], ['\u2003'], by decide, List.all_eq_true.mp (by decide), ?_, ?_⟩
    · rintro _ ⟨⟩
      decide
    · rintro _ ⟨⟩
      decide
  have hnum : Numeral "005124095576030431".toList 5124095576030431 :=
    ⟨by decide, List.all_eq_true.mp (by decide), by decide⟩
  have hword : ∀ n unit, Written "005124095576030431h".toList n unit → n < Word.size64 →
      n * unit.factor < Word.size64 := by
    rintro n unit ⟨digits, hdigits, htext⟩ -
    cases unit with
    | hour =>
      obtain rfl : digits = "005124095576030431".toList :=
        List.append_cancel_right (htext.symm.trans (by decide : _ = _ ++ ['h']))
      rw [← hdigits.value]
      decide
    | millisecond | second | minute =>
      have hlast := congrArg List.getLast? htext
      simp [TimeUnit.symbol] at hlast
  exact ⟨ht, ((parse_ok_iff_written ht hword).1 _).mpr
    ⟨_, .hour, ⟨_, hnum, by decide⟩, by decide, rfl, by decide⟩⟩

end

end Duration

end Switchboard
