import Mathlib.Data.Nat.ModEq
import Switchboard.Proofs.Encoding.Base64
import Switchboard.Proofs.Json.Members
import Switchboard.Token.Jwt

/-! What a verified token is: who has signed what, and until when it counts. -/

namespace Switchboard

theorem Rsa.powMod_eq (base exponent modulus : Nat) :
    powMod base exponent modulus = base ^ exponent % modulus := by
  induction base, exponent using powMod.induct modulus with
  | case1 base => rw [powMod, dif_pos rfl, Nat.pow_zero]
  | case2 base exponent hne hodd ih =>
    have hodd' : exponent % 2 = 1 := by simpa using hodd
    have hdouble : exponent = 2 * (exponent / 2) + 1 := by omega
    rw [powMod, dif_neg hne]
    simp only [hodd, if_true]
    rw [ih, ← Nat.pow_mod, ← Nat.pow_two, ← Nat.pow_mul, Nat.mod_mul_mod, ← Nat.pow_succ,
      Nat.succ_eq_add_one, ← hdouble]
  | case3 base exponent hne heven ih =>
    have heven' : exponent % 2 = 0 := by simpa using heven
    have hdouble : exponent = 2 * (exponent / 2) := by omega
    rw [powMod, dif_neg hne]
    simp only [heven, Bool.false_eq_true, if_false]
    rw [ih, ← Nat.pow_mod, ← Nat.pow_two, ← Nat.pow_mul, ← hdouble]

namespace Token

open Json (Raw)

/-- A signature of a message is valid under a key: the code that the secret gives it, or a root of
its hash. -/
def Verifier.Signed (v : Verifier) (message signature : Bytes) : Prop :=
  match v with
  | .secret key => signature = Hmac.sign key message
  | .rsa der => ∃ k, Rsa.PublicKey.ofDer? der = some k ∧ k.isAcceptable = true ∧
    signature.length = Rsa.byteLength k.modulus ∧ Der.natOf signature < k.modulus ∧
    Der.natOf signature ^ k.exponent % k.modulus =
      Der.natOf (Rsa.encodedHash message (Rsa.byteLength k.modulus))

theorem Verifier.signed_of_accepts {v : Verifier} {message : Bytes} {text : String}
    (h : v.accepts message text = true) :
    ∃ signature, Base64.decode? .url text = some signature ∧ v.Signed message signature := by
  cases v with
  | secret key =>
    have htext : Base64.encodeUrl (Hmac.sign key message) = text := by simpa [accepts] using h
    exact ⟨Hmac.sign key message, by rw [← htext, Base64.decode?_encodeUrl], rfl⟩
  | rsa der =>
    rw [accepts] at h
    split at h
    · rename_i signature k hs hk
      simp only [Rsa.PublicKey.verify, Bool.and_eq_true, beq_iff_eq, decide_eq_true_eq,
        Rsa.powMod_eq] at h
      obtain ⟨⟨⟨hkey, hlength⟩, hroot⟩, hpower⟩ := h
      exact ⟨signature, hs, k, hk, hkey, hlength, hroot, hpower⟩
    · cases h

theorem dropWhile_ne_eq_cons {c : Char} {cs : List Char} (h : c ∈ cs) :
    ∃ more, cs.dropWhile (· != c) = c :: more := by
  induction cs with
  | nil => cases h
  | cons x cs ih =>
    by_cases hx : x = c
    · exact ⟨cs, by simp [hx]⟩
    · obtain ⟨more, hm⟩ := ih ((List.mem_cons.mp h).resolve_left (Ne.symm hx))
      exact ⟨more, by simp [hx, hm]⟩

theorem splitLast?_eq_some {cs front tail : List Char} (h : splitLast? cs = some (front, tail)) :
    cs = front ++ '.' :: tail := by
  rw [splitLast?] at h
  split at h
  · rename_i hdot
    obtain ⟨more, hmore⟩ : ∃ more, cs.reverse.dropWhile (· != '.') = '.' :: more :=
      dropWhile_ne_eq_cons (by simpa using hdot)
    have hcs := List.takeWhile_append_dropWhile (p := (· != '.')) (l := cs.reverse)
    rw [hmore] at hcs
    generalize cs.reverse.takeWhile (· != '.') = back at h hcs
    have hback : cs = more.reverse ++ '.' :: back.reverse := by
      simpa using (congrArg List.reverse hcs).symm
    have hlength : cs.length - back.reverse.length - 1 = more.reverse.length := by
      rw [hback, List.length_append, List.length_cons]
      omega
    obtain ⟨rfl, rfl⟩ := Prod.mk.inj (Option.some.inj h)
    rw [hlength, hback, List.take_left]
  · cases h

theorem splitLast?_append {front tail : List Char} (h : '.' ∉ tail) :
    splitLast? (front ++ '.' :: tail) = some (front, tail) := by
  have hback : (front ++ '.' :: tail).reverse.takeWhile (· != '.') = tail.reverse := by
    have hall : ∀ c ∈ tail.reverse, (c != '.') = true := by
      intro c hc
      have hne : c ≠ '.' := fun he => h (by rwa [he, List.mem_reverse] at hc)
      simpa using hne
    rw [List.reverse_append, List.reverse_cons, List.append_assoc,
      List.takeWhile_append_of_pos hall]
    simp
  have hlength : (front ++ '.' :: tail).length - tail.length - 1 = front.length := by
    rw [List.length_append, List.length_cons]
    omega
  rw [splitLast?, if_pos (by simp)]
  simp only [hback, List.reverse_reverse, hlength, List.take_left]

theorem Parts.ofToken?_eq_some {token : String} {p : Parts} (h : ofToken? token = some p) :
    token = p.message ++ "." ++ p.signature := by
  cases hs : splitLast? token.toList with
  | none => simp [ofToken?, hs] at h
  | some outer =>
    obtain ⟨message, signature⟩ := outer
    cases hm : splitLast? message with
    | none => simp [ofToken?, hs, hm] at h
    | some inner =>
      obtain ⟨header, payload⟩ := inner
      have hp : p = ⟨String.ofList header, String.ofList payload, String.ofList signature⟩ := by
        simpa [ofToken?, hs, hm] using h.symm
      rw [← String.toList_inj, splitLast?_eq_some hs, splitLast?_eq_some hm, hp]
      simp [Parts.message]

/-- A signed set of claims comes apart into what it was put together of. -/
theorem Parts.ofToken?_sign (key : Bytes) (claims : Json) :
    ∃ header, (headerOf? header).any (isHeaderFor .hs256) = true ∧
      ofToken? (sign key claims) = some ⟨header, encodePart claims,
        Base64.encodeUrl (Hmac.sign key (Utf8.encode (header ++ "." ++ encodePart claims)))⟩ := by
  let header := encodePart (.obj [("alg", .str "HS256"), ("typ", .str "JWT")])
  have hheader : (headerOf? header).any (isHeaderFor .hs256) = true := by decide +kernel
  refine ⟨header, hheader, ?_⟩
  have houter : (sign key claims).toList = (header ++ "." ++ encodePart claims).toList ++ '.' ::
      (Base64.encodeUrl
        (Hmac.sign key (Utf8.encode (header ++ "." ++ encodePart claims)))).toList := by
    simp [sign, header]
  have hinner : (header ++ "." ++ encodePart claims).toList =
      header.toList ++ '.' :: (encodePart claims).toList := by
    simp
  have hpayload : '.' ∉ (encodePart claims).toList := Base64.dot_not_mem_encodeUrl _
  rw [ofToken?, houter, splitLast?_append (Base64.dot_not_mem_encodeUrl _), hinner]
  simp [splitLast?_append hpayload]

/-- The value that a payload is written for. -/
def valueOf? (part : String) : Option Json :=
  ((Base64.decode? .url part).bind Utf8.decode?).bind Json.parse?

/-- The claim that a token counts until: the member `exp` of an object, or the first item of a
list. -/
def exp? : Json → Option Json
  | .arr items => items.head?
  | claims => claims.member? "exp"

theorem exp?_of_member? {claims exp : Json} (h : claims.member? "exp" = some exp) :
    exp? claims = some exp := by
  cases claims with
  | arr items => cases h
  | _ => exact h

theorem getLast?_values (key : String) (members : List (String × Json)) :
    (values key members).getLast? = (Json.ofMembers members).member? key :=
  (Json.member?_ofMembers key members).symm

section Members

variable {α : Type} {p : α → Bool} {key : String} {members : List (String × α)}

theorem has_iff : has p key members = true ↔ ∃ a, values key members = [a] ∧ p a = true := by
  rw [has]
  rcases values key members with _ | ⟨a, _ | ⟨b, rest⟩⟩ <;> simp

theorem mayHave_iff : mayHave p key members = true ↔
    (values key members).length ≤ 1 ∧
      ∀ a, (values key members).getLast? = some a → p a = true := by
  rw [mayHave]
  rcases values key members with _ | ⟨a, _ | ⟨b, rest⟩⟩ <;> simp

end Members

/-- The first item of a list stands under `exp`, and no other does. -/
theorem values_exp (exp : Json) (rest : List Json) :
    values "exp" (claimNames.zip (exp :: rest)) = [exp] := by
  have hothers : values "exp" (["nbf", "sub", "iss", "aud"].zip rest) = [] := by
    rw [values, List.map_eq_nil_iff, List.filter_eq_nil_iff]
    intro m hm
    have hname := (List.of_mem_zip hm).1
    simp only [List.mem_cons, List.not_mem_nil, or_false] at hname
    rcases hname with h | h | h | h <;> simp [h]
  exact congrArg (exp :: ·) hothers

theorem claimsOf?_eq_some {part : String} {claims : Json} {members : List (String × Json)}
    (h : claimsOf? part = some (claims, members)) :
    valueOf? part = some claims ∧ exp? claims = (values "exp" members).getLast? := by
  obtain ⟨bytes, hbytes, h⟩ := Option.bind_eq_some_iff.mp h
  obtain ⟨text, htext, h⟩ := Option.bind_eq_some_iff.mp h
  obtain ⟨value, hvalue, h⟩ := Option.bind_eq_some_iff.mp h
  have hpart : valueOf? part = some value := by
    rw [valueOf?, hbytes, Option.bind_some, htext, Option.bind_some, hvalue]
  split at h
  case h_1 items =>
    split at h
    · rename_i hlength
      obtain ⟨rfl, rfl⟩ := Prod.mk.inj (Option.some.inj h)
      refine ⟨hpart, ?_⟩
      cases items with
      | nil => cases hlength
      | cons exp rest =>
        rw [values_exp]
        rfl
    · cases h
  case h_2 =>
    obtain ⟨found, hfound, heq⟩ := Option.map_eq_some_iff.mp h
    obtain ⟨rfl, rfl⟩ := Prod.mk.inj heq
    obtain rfl : value = .ofMembers found :=
      Option.some.inj (hvalue.symm.trans (Json.parse?_of_parseMembers? hfound))
    exact ⟨hpart, (getLast?_values "exp" found).symm⟩

/-- Claims that are current at one time are current at those times that their `exp`, if it stands
for a time, has not left behind. -/
theorem areCurrent_iff {now : Nat} {members : List (String × Json)}
    (h : areCurrent now members = true) (later : Nat) :
    areCurrent later members = true ↔
      ∀ exp t, (values "exp" members).getLast? = some exp → seconds? exp = some t →
        later ≤ t + leeway := by
  simp only [areCurrent, Bool.and_eq_true, mayHave_iff, Bool.not_eq_true', Option.all_eq_true,
    decide_eq_true_eq] at h ⊢
  obtain ⟨⟨⟨⟨⟨hexp, hfilled⟩, hnbf⟩, hsub⟩, hiss⟩, haud⟩ := h
  constructor
  · intro hc exp t hm ht
    exact (hc.1.1.1.1.2 exp hm).2 t ht
  · intro hc
    exact ⟨⟨⟨⟨⟨hexp, fun exp hm =>
      ⟨(hfilled exp hm).1, fun t => hc exp t hm⟩⟩, hnbf⟩, hsub⟩, hiss⟩, haud⟩

theorem verify_eq_ok_iff {v : Verifier} {now : Nat} {token : String} {claims : Json} :
    verify v now token = .ok claims ↔
      ∃ parts fields members, Parts.ofToken? token = some parts ∧
        headerOf? parts.header = some fields ∧
        claimsOf? parts.payload = some (claims, members) ∧
        isHeaderFor v.algorithm fields = true ∧
        v.accepts (Utf8.encode parts.message) parts.signature = true ∧
        areCurrent now members = true := by
  rw [verify]
  cases hp : Parts.ofToken? token with
  | none => simp
  | some parts =>
    cases hh : headerOf? parts.header with
    | none => simp [hh]
    | some fields =>
      cases hm : claimsOf? parts.payload with
      | none => simp [hh, hm]
      | some found =>
        obtain ⟨value, members⟩ := found
        simp only [Option.some.injEq, exists_and_left, exists_eq_left', hh, hm,
          Option.bind_eq_bind, Option.bind_some, Prod.mk.injEq]
        by_cases hall : (isHeaderFor v.algorithm fields &&
            v.accepts (Utf8.encode parts.message) parts.signature &&
            areCurrent now members) = true
        · rw [if_pos hall]
          simp only [Bool.and_eq_true] at hall
          simp [hall]
        · rw [if_neg hall]
          simp only [Bool.and_eq_true, not_and] at hall
          simp only [reduceCtorEq, false_iff]
          rintro ⟨_, ⟨-, rfl⟩, hheader, hsigned, hcurrent⟩
          exact hall ⟨hheader, hsigned⟩ hcurrent

/-- A name may be the key of an object, and what nobody looks at may hold a number of any size. -/
example : ((Raw.ofBytes (Utf8.encode "\x7b\"alg\":\x7b\"HS256\":null\x7d,\"x\":1e999\x7d")).fields?
    headerNames).any (isHeaderFor .hs256) = true := by
  decide +kernel

/-- Claims that the verifier has signed itself count if they can be read and are current. -/
theorem verify_sign_eq_ok_iff {key : Bytes} {claims result : Json} {now : Nat} :
    verify (.ofSecret key) now (sign key claims) = .ok result ↔
      ∃ members, claimsOf? (encodePart claims) = some (result, members) ∧
        areCurrent now members = true := by
  obtain ⟨header, hheader, hparts⟩ := Parts.ofToken?_sign key claims
  obtain ⟨fields, hfields, hnamed⟩ := (Option.any_eq_true _ _).mp hheader
  rw [verify_eq_ok_iff, hparts]
  constructor
  · rintro ⟨parts, _, members, hp, -, hm, -, -, hcurrent⟩
    obtain rfl := Option.some.inj hp
    exact ⟨members, hm, hcurrent⟩
  · rintro ⟨members, hm, hcurrent⟩
    exact ⟨_, fields, members, rfl, hfields, hm, hnamed, beq_self_eq_true _, hcurrent⟩

/-- A list of five claims that say nothing counts too. -/
example : (claimsOf? (encodePart (.arr (List.replicate 5 .null)))).any (areCurrent 0 ·.2) =
    true := by
  decide +kernel

/-- A token that is verified is a header that names the algorithm of the verifier, claims, and a
signature of both that is valid under its key. The token counts as long as the time of `exp` is
past by no more than the leeway, and for ever where `exp` does not stand for a time. -/
theorem verified_is_signed {v : Verifier} {now : Nat} {token : String} {claims : Json}
    (h : verify v now token = .ok claims) :
    ∃ header payload signature : String,
      token = header ++ "." ++ payload ++ "." ++ signature ∧
      (∃ fields alg, headerOf? header = some fields ∧ values "alg" fields = [alg] ∧
        alg.name? isNull = some v.algorithm.name) ∧
      (∃ bytes, Base64.decode? .url signature = some bytes ∧
        v.Signed (Utf8.encode (header ++ "." ++ payload)) bytes) ∧
      valueOf? payload = some claims ∧
      (∀ exp t, exp? claims = some exp → seconds? exp = some t → now ≤ t + leeway) ∧
      ∀ later, verify v later token = .ok claims ↔
        ∀ exp t, exp? claims = some exp → seconds? exp = some t → later ≤ t + leeway := by
  obtain ⟨parts, fields, members, hp, hh, hm, hheader, hsigned, hcurrent⟩ :=
    verify_eq_ok_iff.mp h
  obtain ⟨hvalue, hexp⟩ := claimsOf?_eq_some hm
  rw [hexp]
  refine ⟨parts.header, parts.payload, parts.signature, Parts.ofToken?_eq_some hp, ?_,
    Verifier.signed_of_accepts hsigned, hvalue, (areCurrent_iff hcurrent now).mp hcurrent,
    fun later => ?_⟩
  · simp only [isHeaderFor, Bool.and_eq_true] at hheader
    obtain ⟨alg, halg, hname⟩ := has_iff.mp hheader.1.1.1
    exact ⟨fields, alg, hh, halg, beq_iff_eq.mp hname⟩
  · -- All but the comparison with the time is the same as it was when the token was verified.
    rw [← areCurrent_iff hcurrent later, verify_eq_ok_iff]
    constructor
    · rintro ⟨parts', fields', members', hp', -, hm', -, -, hcurrent'⟩
      obtain rfl := Option.some.inj (hp.symm.trans hp')
      obtain rfl := (Prod.mk.inj (Option.some.inj (hm.symm.trans hm'))).2
      exact hcurrent'
    · intro hlater
      exact ⟨parts, fields, members, hp, hh, hm, hheader, hsigned, hlater⟩

def isInt (n : Int) : Json → Bool
  | .int m => m == n
  | _ => false

theorem exists_verify_sign {key : Bytes} {claims : Json} {now : Nat} {n : Int}
    (h : (claimsOf? (encodePart claims)).any (fun found => areCurrent now found.2 &&
      (found.1.member? "exp").any (isInt n)) = true) :
    ∃ result, verify (.ofSecret key) now (sign key claims) = .ok result ∧
      result.member? "exp" = some (.int n) := by
  obtain ⟨⟨result, members⟩, hm, hboth⟩ := (Option.any_eq_true _ _).mp h
  obtain ⟨hcurrent, hany⟩ := Bool.and_eq_true_iff.mp hboth
  obtain ⟨exp, hexp, hn⟩ := (Option.any_eq_true _ _).mp hany
  refine ⟨result, verify_sign_eq_ok_iff.mpr ⟨members, hm, hcurrent⟩, ?_⟩
  cases exp with
  | int m =>
    obtain rfl : m = n := by simpa [isInt] using hn
    exact hexp
  | _ => cases hn

/-- The time in `exp` of a token is the last one that the token is good for, but for the leeway. -/
theorem verified_is_signed_until_exp :
    let v := Verifier.ofSecret (Utf8.encode "secret")
    let token := sign (Utf8.encode "secret")
      (.obj [("exp", .int 2000000000), ("sub", .str "user-1")])
    ∃ claims, verify v 1700000000 token = .ok claims ∧
      claims.member? "exp" = some (.int 2000000000) ∧
      ∀ later, verify v later token = .ok claims → later ≤ 2000000060 := by
  intro v token
  obtain ⟨claims, hv, hexp⟩ : ∃ claims, verify v 1700000000 token = .ok claims ∧
      claims.member? "exp" = some (.int 2000000000) := exists_verify_sign (by decide +kernel)
  obtain ⟨_, _, _, -, -, -, -, -, hcounts⟩ := verified_is_signed hv
  exact ⟨claims, hv, hexp, fun later h =>
    (hcounts later).mp h _ _ (exp?_of_member? hexp) rfl⟩

/-- A token that says that it is good until a second before 1970 is good. -/
theorem negative_exp_is_ignored :
    let v := Verifier.ofSecret (Utf8.encode "secret")
    let token := sign (Utf8.encode "secret") (.obj [("exp", .int (-1)), ("sub", .str "user-1")])
    ∃ claims, verify v 1700000000 token = .ok claims ∧
      claims.member? "exp" = some (.int (-1)) ∧ ¬ (1700000000 - leeway : Int) ≤ -1 := by
  intro v token
  obtain ⟨claims, hv, hexp⟩ : ∃ claims, verify v 1700000000 token = .ok claims ∧
      claims.member? "exp" = some (.int (-1)) := exists_verify_sign (by decide +kernel)
  exact ⟨claims, hv, hexp, by decide⟩

end Token

end Switchboard
