import Mathlib.Data.List.Forall2
import Switchboard.Encoding.Percent
import Switchboard.Proofs.Text.Utf8

/-! What a percent-encoded path stands for. An encoder has a choice: it escapes the percent sign and
whatever else it does not leave as it is, with digits of either case. -/

namespace Switchboard

namespace Percent

/-- Bytes, and a way of writing them. -/
inductive Escapes : Bytes → Bytes → Prop
  | nil : Escapes [] []
  | plain {b : UInt8} {text raw : Bytes} (hb : b ≠ 0x25) (h : Escapes text raw) :
    Escapes (b :: text) (b :: raw)
  | escape {b hi lo : UInt8} {text raw : Bytes}
    (hhi : Hex.digitValue? (Char.ofNat hi.toNat) = some (b.toNat / 16))
    (hlo : Hex.digitValue? (Char.ofNat lo.toNat) = some (b.toNat % 16)) (h : Escapes text raw) :
    Escapes (b :: text) (0x25 :: hi :: lo :: raw)

/-- Text as UTF-8, and a way of writing it. -/
def Writes (text raw : String) : Prop :=
  Escapes (Utf8.encode text) (Utf8.encode raw)

variable {text text' raw raw' : Bytes}

theorem unescape_plain {b : UInt8} (hb : b ≠ 0x25) (bytes : Bytes) :
    unescape (b :: bytes) = b :: unescape bytes := by
  rw [unescape]
  intro hi lo rest h
  exact absurd h hb

theorem Escapes.append (h : Escapes text raw) (h' : Escapes text' raw') :
    Escapes (text ++ text') (raw ++ raw') := by
  induction h with
  | nil => exact h'
  | plain hb _ ih => exact .plain hb ih
  | escape hhi hlo _ ih => exact .escape hhi hlo ih

/-- However bytes are written, they are read back. -/
theorem Escapes.unescape_eq (h : Escapes text raw) : unescape raw = text := by
  induction h with
  | nil => rfl
  | plain hb _ ih => rw [unescape_plain hb, ih]
  | @escape b hi lo text raw hhi hlo _ ih =>
    simp only [unescape, hhi, hlo, ih, Nat.div_add_mod', UInt8.ofNat_toNat]

theorem Writes.append {s s' r r' : String} (h : Writes s r) (h' : Writes s' r') :
    Writes (s ++ s') (r ++ r') := by
  rw [Writes, Utf8.encode_append, Utf8.encode_append]
  exact Escapes.append h h'

theorem Writes.decodePath_eq {s r : String} (h : Writes s r) : decodePath r = s := by
  rw [decodePath, Escapes.unescape_eq h, Utf8.decode?_encode, Option.getD_some]

/-- A path that does not come out as text is not decoded in any part. -/
theorem decodePath_of_not_text {r : String}
    (h : ∀ s, Utf8.encode s ≠ unescape (Utf8.encode r)) : decodePath r = r := by
  have hnone : Utf8.decode? (unescape (Utf8.encode r)) = none := by
    rw [Option.eq_none_iff_forall_ne_some]
    exact fun s hs => h s (Utf8.decode?_eq_some_iff.mp hs).symm
  rw [decodePath, hnone, Option.getD_none]

theorem writes_slash : Writes "/" "/" :=
  .plain (by decide) .nil

/-! ### An encoder -/

/-- The escape of a byte. -/
def escapeByte (b : UInt8) : List Char :=
  '%' :: Hex.ofByte b

/-- Text with an escape for every byte of the characters that are not kept. -/
def escape (keep : Char → Bool) (text : String) : String :=
  String.ofList (text.toList.flatMap fun c =>
    if keep c then [c] else (String.utf8EncodeChar c).flatMap escapeByte)

theorem Escapes.refl_of_notMem {bytes : Bytes} (h : 0x25 ∉ bytes) : Escapes bytes bytes := by
  induction bytes with
  | nil => exact .nil
  | cons b bytes ih =>
    rw [List.mem_cons, not_or] at h
    exact .plain (Ne.symm h.1) (ih h.2)

theorem percent_notMem_encodeChar {c : Char} (h : c ≠ '%') : 0x25 ∉ String.utf8EncodeChar c := by
  intro hm
  have hm : (0x25 : UInt8).toNat ∈ (String.utf8EncodeChar c).map UInt8.toNat :=
    List.mem_map_of_mem hm
  rw [Utf8.map_toNat_encodeChar] at hm
  have hc : c.toNat ≠ 0x25 := fun hc => h (Char.toNat_inj.mp hc)
  simp only [UInt8.reduceToNat] at hm
  repeat' split at hm
  all_goals simp only [List.mem_cons, List.not_mem_nil, or_false] at hm; omega

theorem escapes_escapeByte (b : UInt8) :
    Escapes [b] ((escapeByte b).flatMap String.utf8EncodeChar) := by
  have hdigit : ∀ n < 16,
      String.utf8EncodeChar (Hex.digit n) = [UInt8.ofNat (Hex.digit n).toNat] ∧
      Hex.digitValue? (Char.ofNat (UInt8.ofNat (Hex.digit n).toNat).toNat) = some n := by decide
  have hb := b.toNat_lt
  obtain ⟨hhi, hhi'⟩ := hdigit (b.toNat / 16) (by omega)
  obtain ⟨hlo, hlo'⟩ := hdigit (b.toNat % 16) (by omega)
  have hbytes : (escapeByte b).flatMap String.utf8EncodeChar =
      [0x25, UInt8.ofNat (Hex.digit (b.toNat / 16)).toNat,
        UInt8.ofNat (Hex.digit (b.toNat % 16)).toNat] := by
    simp only [escapeByte, Hex.ofByte, List.flatMap_cons, hhi, hlo]
    rfl
  rw [hbytes]
  exact .escape hhi' hlo' .nil

theorem Escapes.flatMap {α : Type} {f g : α → Bytes} (h : ∀ a, Escapes (f a) (g a))
    (l : List α) : Escapes (l.flatMap f) (l.flatMap g) := by
  induction l with
  | nil => exact .nil
  | cons a l ih => exact (h a).append ih

theorem writes_escape {keep : Char → Bool} (hkeep : keep '%' = false) (text : String) :
    Writes text (escape keep text) := by
  rw [Writes, escape, Utf8.encode, Utf8.encode, String.toList_ofList, List.flatMap_assoc]
  refine Escapes.flatMap (fun c => ?_) _
  split
  · rename_i hc
    have hne : c ≠ '%' := by
      rintro rfl
      rw [hkeep] at hc
      cases hc
    simpa using Escapes.refl_of_notMem (percent_notMem_encodeChar hne)
  · rw [List.flatMap_assoc]
    simpa using Escapes.flatMap escapes_escapeByte (String.utf8EncodeChar c)

theorem forall₂_writes_escape {keep : Char → Bool} (hkeep : keep '%' = false)
    (texts : List String) : List.Forall₂ Writes texts (texts.map (escape keep)) :=
  List.forall₂_map_right_iff.mpr (List.forall₂_same.mpr fun text _ => writes_escape hkeep text)

end Percent

end Switchboard
