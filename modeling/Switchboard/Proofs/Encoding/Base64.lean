import Switchboard.Encoding.Base64

/-! What has been written in base 64 is read back. -/

namespace Switchboard.Base64

variable {a : Alphabet}

theorem value?_digit {n : Nat} (h : n < 64) : a.value? (a.digit n) = some n := by
  have hall : ∀ n < 64, a.value? (a.digit n) = some n := by cases a <;> decide
  exact hall n h

theorem mapM_value?_digits {digits : List Nat} (h : ∀ d ∈ digits, d < 64) :
    (digits.map a.digit).mapM a.value? = some digits := by
  induction digits with
  | nil => rfl
  | cons d digits ih =>
    have hd := h d List.mem_cons_self
    have hrest := ih fun d hm => h d (List.mem_cons_of_mem _ hm)
    simp [value?_digit hd, hrest]

theorem ofNat_eq_of_mod {n : Nat} {x : UInt8} (h : n % 256 = x.toNat) : UInt8.ofNat n = x := by
  rw [← UInt8.toNat_inj, UInt8.toNat_ofNat', h]

/-- Bytes are written in digits below 64, which stand for the same bytes. -/
theorem exists_digits (bytes : Bytes) :
    ∃ digits : List Nat, (∀ d ∈ digits, d < 64) ∧ encodeChars a bytes = digits.map a.digit ∧
      decodeDigits? digits = some bytes := by
  induction bytes using encodeChars.induct with
  | case1 x y z rest ih =>
    obtain ⟨digits, hlt, hencode, hdecode⟩ := ih
    have hx := x.toNat_lt
    have hy := y.toNat_lt
    have hz := z.toNat_lt
    obtain ⟨n, hn⟩ : ∃ n, n = (x.toNat * 256 + y.toNat) * 256 + z.toNat := ⟨_, rfl⟩
    have hnumber : ((n / 262144 * 64 + n / 4096 % 64) * 64 + n / 64 % 64) * 64 + n % 64 = n := by
      omega
    refine ⟨n / 262144 :: n / 4096 % 64 :: n / 64 % 64 :: n % 64 :: digits, ?_, ?_, ?_⟩
    · intro d hd
      simp only [List.mem_cons] at hd
      rcases hd with rfl | rfl | rfl | rfl | hd
      · omega
      · omega
      · omega
      · omega
      · exact hlt d hd
    · rw [encodeChars, hencode, ← hn]
      rfl
    · have hfirst : UInt8.ofNat (n / 65536) = x := ofNat_eq_of_mod (by omega)
      have hsecond : UInt8.ofNat (n / 256) = y := ofNat_eq_of_mod (by omega)
      have hthird : UInt8.ofNat n = z := ofNat_eq_of_mod (by omega)
      rw [decodeDigits?, hdecode, hnumber, Option.map_some]
      simp only [hfirst, hsecond, hthird]
  | case2 x y =>
    have hx := x.toNat_lt
    have hy := y.toNat_lt
    obtain ⟨n, hn⟩ : ∃ n, n = x.toNat * 256 + y.toNat := ⟨_, rfl⟩
    have hnumber : (n / 1024 * 64 + n / 16 % 64) * 16 + n % 16 * 4 / 4 = n := by omega
    have hlast : (n % 16 * 4 % 4 == 0) = true := by simp
    refine ⟨[n / 1024, n / 16 % 64, n % 16 * 4], ?_, ?_, ?_⟩
    · intro d hd
      simp only [List.mem_cons, List.not_mem_nil, or_false] at hd
      omega
    · rw [encodeChars, ← hn]
      rfl
    · have hfirst : UInt8.ofNat (n / 256) = x := ofNat_eq_of_mod (by omega)
      have hsecond : UInt8.ofNat n = y := ofNat_eq_of_mod (by omega)
      rw [decodeDigits?, if_pos hlast, hnumber]
      simp only [hfirst, hsecond]
  | case3 x =>
    have hx := x.toNat_lt
    have hnumber : x.toNat / 4 * 4 + x.toNat % 4 * 16 / 16 = x.toNat := by omega
    have hlast : (x.toNat % 4 * 16 % 16 == 0) = true := by simp
    refine ⟨[x.toNat / 4, x.toNat % 4 * 16], ?_, rfl, ?_⟩
    · intro d hd
      simp only [List.mem_cons, List.not_mem_nil, or_false] at hd
      omega
    · have hfirst : UInt8.ofNat x.toNat = x := ofNat_eq_of_mod (by omega)
      rw [decodeDigits?, if_pos hlast, hnumber, hfirst]
  | case4 => exact ⟨[], by simp, rfl, rfl⟩

theorem decodeChars?_encodeChars (bytes : Bytes) :
    decodeChars? a (encodeChars a bytes) = some bytes := by
  obtain ⟨digits, hlt, hencode, hdecode⟩ := exists_digits (a := a) bytes
  rw [decodeChars?, hencode, mapM_value?_digits hlt, Option.bind_some, hdecode]

theorem decode?_encodeUrl (bytes : Bytes) : decode? .url (encodeUrl bytes) = some bytes := by
  rw [decode?, encodeUrl, String.toList_ofList, decodeChars?_encodeChars]

theorem digit_ne_dot {n : Nat} (h : n < 64) : a.digit n ≠ '.' := by
  have hall : ∀ n < 64, a.digit n ≠ '.' := by cases a <;> decide
  exact hall n h

theorem dot_not_mem_encodeUrl (bytes : Bytes) : '.' ∉ (encodeUrl bytes).toList := by
  obtain ⟨digits, hlt, hencode, -⟩ := exists_digits (a := .url) bytes
  rw [encodeUrl, String.toList_ofList, hencode]
  intro hm
  obtain ⟨d, hd, hdot⟩ := List.mem_map.mp hm
  exact digit_ne_dot (hlt d hd) hdot

end Switchboard.Base64
