import Switchboard.Proofs.Json.RoundTrip
import Switchboard.Proofs.Text.Utf8
import Switchboard.Proofs.Token.Verification

/-! What becomes of claims that are signed under a secret and verified under the same. -/

namespace Switchboard.Token

open Json (Regular maxDepth nestsWithin)

variable {key : Bytes} {now : Nat} {members : List (String × Json)}

theorem claimsOf?_encodePart (h : Regular (.obj members)) :
    claimsOf? (encodePart (.obj members)) =
      if nestsWithin maxDepth (.obj members) then some (.obj members, members) else none := by
  have hvalue := Json.parse?_text h
  have hmembers := Json.parseMembers?_text h
  rw [claimsOf?, encodePart, Base64.decode?_encodeUrl]
  simp only [Option.bind_eq_bind, Option.bind_some, Utf8.decode?_encode]
  split at hvalue
  · rename_i hdepth
    rw [if_pos hdepth] at hmembers
    rw [hvalue, Option.bind_some, if_pos hdepth]
    simp only [hmembers, Option.map_some]
  · rename_i hdepth
    rw [hvalue, Option.bind_none, if_neg hdepth]

theorem verify_eq_error_of_ne {v : Verifier} {token : String}
    (h : ∀ claims, verify v now token ≠ .ok claims) :
    verify v now token = .error .invalidToken := by
  rw [verify] at h ⊢
  split
  · rename_i claims hc
    exact absurd (by rw [hc]) (h claims)
  · rfl

/-- Signed claims come back as they are if they are current and not nested too deep, and else the
token is refused. -/
theorem verify_sign (h : Regular (.obj members)) :
    verify (.ofSecret key) now (sign key (.obj members)) =
      if nestsWithin maxDepth (.obj members) && areCurrent now members then .ok (.obj members)
      else .error .invalidToken := by
  split
  · rename_i hgood
    rw [Bool.and_eq_true] at hgood
    exact verify_sign_eq_ok_iff.mpr
      ⟨members, by rw [claimsOf?_encodePart h, if_pos hgood.1], hgood.2⟩
  · rename_i hbad
    refine verify_eq_error_of_ne fun claims hv => hbad ?_
    obtain ⟨members', hm, hcurrent⟩ := verify_sign_eq_ok_iff.mp hv
    rw [claimsOf?_encodePart h] at hm
    split at hm
    · rename_i hdepth
      obtain rfl := (Prod.mk.inj (Option.some.inj hm)).2
      rw [hdepth, hcurrent]
      rfl
    · cases hm

theorem length_values_le_one (h : (members.map (·.1)).Pairwise (· < ·)) (name : String) :
    (values name members).length ≤ 1 := by
  have hne : ∀ {k k' : String}, k < k' → k ≠ k' := by
    rintro k _ hlt rfl
    exact String.lt_irrefl k hlt
  have hnodup : (members.map (·.1)).Nodup := h.imp hne
  calc (values name members).length = (members.map (·.1)).count name := by
        rw [values, List.length_map, List.count, List.countP_map, List.countP_eq_length_filter]
        rfl
    _ ≤ 1 := List.nodup_iff_count.mp hnodup name

theorem areCurrent_of_members (h : Regular (.obj members))
    (hexp : ∀ exp, (Json.obj members).member? "exp" = some exp →
      ∃ t : Nat, exp = .int t ∧ now ≤ t)
    (hnbf : ∀ nbf, (Json.obj members).member? "nbf" = some nbf → isFilled nbf = false)
    (hsub : ∀ sub, (Json.obj members).member? "sub" = some sub → isNested sub = false)
    (haud : ∀ aud, (Json.obj members).member? "aud" = some aud → isAudience aud = false) :
    areCurrent now members = true := by
  cases h with
  | obj hkeys _ =>
    rw [← Json.ofMembers_eq hkeys] at hexp hnbf hsub haud
    have hone := length_values_le_one hkeys
    simp only [areCurrent, Bool.and_eq_true, mayHave_iff, Bool.not_eq_true', hone,
      getLast?_values, true_and]
    refine ⟨⟨⟨⟨fun exp he => ?_, hnbf⟩, hsub⟩, fun _ _ => trivial⟩, haud⟩
    obtain ⟨t, rfl, ht⟩ := hexp exp he
    have hseconds : seconds? (.int t) = some t := by simp [seconds?]
    rw [hseconds]
    exact ⟨rfl, by simp; omega⟩

/-- Claims of 64-bit integers and no audience come back as they are while their time is not past,
if their lists and objects are nested at most 127 deep. Deeper ones are refused. -/
theorem signed_claims_come_back (h : Regular (.obj members))
    (hexp : ∀ exp, (Json.obj members).member? "exp" = some exp →
      ∃ t : Nat, exp = .int t ∧ now ≤ t)
    (hnbf : ∀ nbf, (Json.obj members).member? "nbf" = some nbf → isFilled nbf = false)
    (hsub : ∀ sub, (Json.obj members).member? "sub" = some sub → isNested sub = false)
    (haud : ∀ aud, (Json.obj members).member? "aud" = some aud → isAudience aud = false) :
    verify (.ofSecret key) now (sign key (.obj members)) =
      if nestsWithin 127 (.obj members) then .ok (.obj members) else .error .invalidToken := by
  rw [verify_sign h, areCurrent_of_members h hexp hnbf hsub haud, Bool.and_true, maxDepth]

/-- A token from an issuer that begins to count in the far future, with texts that are written with
escapes. -/
theorem signed_claims_come_back_roles :
    let claims : Json := .obj [("exp", .int 2000000000), ("iss", .str "issuer"),
      ("nbf", .int 9000000000), ("roles", .arr [.str "\"a\"\n", .null, .bool true]),
      ("serial", .int (-9223372036854775808)), ("sub", .str "user-1")]
    ∀ key, verify (.ofSecret key) 1700000000 (sign key claims) = .ok claims := by
  intro claims key
  have hregular : Regular claims := by
    refine .obj (by decide +kernel) ?_
    simp only [List.forall_mem_cons, List.not_mem_nil, IsEmpty.forall_iff, implies_true, and_true]
    refine ⟨.int ⟨by decide, by decide⟩, .str _, .int ⟨by decide, by decide⟩, .arr ?_,
      .int ⟨by decide, by decide⟩, .str _⟩
    simp only [List.forall_mem_cons, List.not_mem_nil, IsEmpty.forall_iff, implies_true, and_true]
    exact ⟨.str _, .null, .bool true⟩
  have hback : verify (.ofSecret key) 1700000000 (sign key claims) = _ :=
    signed_claims_come_back hregular
      (fun exp he => ⟨2000000000, (Option.some.inj he).symm, by decide⟩)
      (fun nbf hn => by rw [← Option.some.inj hn]; rfl)
      (fun sub hs => by rw [← Option.some.inj hs]; rfl)
      (fun aud ha => by cases ha)
  rw [hback]
  rfl

/-- An empty list inside so many lists. -/
def lists : Nat → Json
  | 0 => .arr []
  | count + 1 => .arr [lists count]

theorem regular_lists (count : Nat) : Regular (lists count) := by
  induction count with
  | zero => exact .arr (by simp)
  | succ count ih => exact .arr (by simpa using ih)

theorem nestsWithin_lists (depth count : Nat) :
    nestsWithin depth (lists count) = decide (count < depth) := by
  induction count generalizing depth with
  | zero => cases depth <;> simp [lists, nestsWithin]
  | succ count ih => cases depth <;> simp [lists, nestsWithin, ih]

/-- Claims with lists that go too deep are refused, and so are claims for a named audience. Neither
have an `exp`. -/
theorem signed_claims_are_refused :
    let deep : Json := .obj [("path", lists 126)]
    let named : Json := .obj [("aud", .str "api")]
    (Regular deep ∧ deep.member? "exp" = none ∧
      ∀ key now, verify (.ofSecret key) now (sign key deep) = .error .invalidToken) ∧
    Regular named ∧ named.member? "exp" = none ∧
      ∀ key now, verify (.ofSecret key) now (sign key named) = .error .invalidToken := by
  intro deep named
  have hdeep : Regular deep := .obj (by simp) (by simpa using regular_lists 126)
  have hnamed : Regular named := .obj (by simp) (by simpa using Regular.str "api")
  refine ⟨⟨hdeep, rfl, fun key now => ?_⟩, hnamed, rfl, fun key now => ?_⟩
  · have hdepth : nestsWithin maxDepth deep = false := by
      change (nestsWithin 126 (lists 126) && true) = false
      rw [nestsWithin_lists]
      rfl
    rw [verify_sign hdeep, hdepth]
    rfl
  · have hcurrent : areCurrent now [("aud", .str "api")] = false := rfl
    rw [verify_sign hnamed, hcurrent, Bool.and_false]
    rfl

end Switchboard.Token
