import Switchboard.RateLimit.Settings
import Switchboard.Server.Consumer
import Switchboard.Server.Http

/-! Which calls share a bucket. A key is put together of what its strategy looks at, with blanks
between, and a blank ends what holds none. The source of a delivery may hold one. -/

namespace Switchboard

open Server

namespace Net

theorem exists_digitChar_of_mem_toDigitsCore {base fuel n : Nat} {digits : List Char} {c : Char}
    (h : c ∈ Nat.toDigitsCore base fuel n digits) : (∃ d, c = Nat.digitChar d) ∨ c ∈ digits := by
  induction fuel generalizing n digits with
  | zero => exact .inr h
  | succ fuel ih =>
    rw [Nat.toDigitsCore] at h
    have hfirst : c ∈ (n % base).digitChar :: digits →
        (∃ d, c = Nat.digitChar d) ∨ c ∈ digits := fun hm =>
      (List.mem_cons.mp hm).imp (fun he => ⟨_, he⟩) id
    split at h
    · exact hfirst h
    · exact (ih h).elim .inl hfirst

theorem blank_notMem_toDigits (base n : Nat) : ' ' ∉ Nat.toDigits base n := by
  intro h
  rcases exists_digitChar_of_mem_toDigitsCore h with ⟨d, hd⟩ | hm
  · exact Nat.digitChar_ne ' ' (by decide) hd.symm
  · exact List.not_mem_nil hm

theorem blank_notMem_intercalate {divider : String} {texts : List String}
    (hd : ' ' ∉ divider.toList) (h : ∀ text ∈ texts, ' ' ∉ text.toList) :
    ' ' ∉ (divider.intercalate texts).toList := by
  induction texts with
  | nil => simp
  | cons text texts ih =>
    have hrest := ih fun t ht => h t (List.mem_cons_of_mem _ ht)
    cases texts with
    | nil => simpa using h text List.mem_cons_self
    | cons other texts =>
      rw [String.intercalate_cons_cons]
      simp only [String.toList_append, List.mem_append, not_or]
      exact ⟨⟨h text List.mem_cons_self, hd⟩, hrest⟩

theorem blank_notMem_groupsText (groups : List Nat) : ' ' ∉ (groupsText groups).toList := by
  refine blank_notMem_intercalate (by decide) fun text ht => ?_
  obtain ⟨n, -, rfl⟩ := List.mem_map.mp ht
  rw [Hex.ofNat, String.toList_ofList]
  exact blank_notMem_toDigits 16 n

theorem blank_notMem_octets (octets : List Nat) :
    ' ' ∉ (".".intercalate (octets.map toString)).toList := by
  refine blank_notMem_intercalate (by decide) fun text ht => ?_
  obtain ⟨n, -, rfl⟩ := List.mem_map.mp ht
  rw [Nat.toString_eq_ofList_toDigits, String.toList_ofList]
  exact blank_notMem_toDigits 10 n

/-- An address is written without blanks. -/
theorem Ip.blank_notMem_text (ip : Ip) : ' ' ∉ ip.text.toList := by
  rw [Ip.text.eq_def]
  split
  · exact blank_notMem_octets _
  · simp only [String.toList_append, List.mem_append, not_or]
    exact ⟨by decide, blank_notMem_octets _⟩
  · simp only
    split
    · exact blank_notMem_groupsText _
    · simp only [String.toList_append, List.mem_append, not_or]
      exact ⟨⟨blank_notMem_groupsText _, by decide⟩, blank_notMem_groupsText _⟩

end Net

namespace Server

/-- A call as it comes in: a request, the method of which is a token, or a delivery. -/
inductive Arrival where
  | http (i : Incoming) (body : Bytes) (token : i.method.toList.all Headers.isTokenChar = true)
  | delivery (mode : Mode) (d : Delivery)

namespace Arrival

def request : Arrival → Request
  | http i body _ => i.request body
  | delivery mode d => mode.request d

theorem blank_notMem_method (a : Arrival) : ' ' ∉ a.request.method.toList := by
  cases a with
  | http i body token =>
    intro h
    exact absurd (List.all_eq_true.mp token ' ' h) (by decide)
  | delivery mode d =>
    have hmethod : ' ' ∉ mode.method.toList := by cases mode <;> simp [Mode.method]
    exact hmethod

end Arrival

end Server

namespace RateLimit

open Settings (unknown)

def sourceOf (r : Request) : String :=
  r.remote.getD unknown

/-- The value of a header as a limiter reads it. One that is not there, is empty or is not text
counts as unknown. -/
def headerOf (name : Option String) (r : Request) : String :=
  match name.bind r.headers.get? with
  | none => unknown
  | some value => if value = [] then unknown else (Headers.textOf? value).getD unknown

theorem headerOf_eq (name : Option String) (r : Request) :
    ((name.bind r.header?).filter (!·.isEmpty)).getD unknown = headerOf name r := by
  have hread : name.bind r.header? = (name.bind r.headers.get?).bind Headers.textOf? := by
    cases name <;> rfl
  rw [hread, headerOf]
  cases name.bind r.headers.get? with
  | none => rfl
  | some value =>
    simp only [Option.bind_some]
    cases value with
    | nil => rfl
    | cons b value =>
      rw [if_neg (List.cons_ne_nil b value), Headers.textOf?]
      split
      · simp [Option.filter]
      · rfl

/-- Two requests have what a limiter looks at in common. -/
def Settings.Agree (s : Settings) (a b : Request) : Prop :=
  match s.keyStrategy with
  | .global => True
  | .ip => sourceOf a = sourceOf b
  | .methodPath => a.method = b.method ∧ a.path = b.path
  | .ipMethodPath => sourceOf a = sourceOf b ∧ a.method = b.method ∧ a.path = b.path
  | .header => headerOf s.headerName a = headerOf s.headerName b

/-- The source of one call reads like the key of another: with a blank behind it, it begins with the
source and the method of the other, and what then is left stands in the path of the other. -/
def Overlaps (a b : Request) : Prop :=
  ∃ more, sourceOf b ++ " " = sourceOf a ++ " " ++ a.method ++ " " ++ more ∧
    a.path = more ++ b.method ++ " " ++ b.path

theorem Overlaps.blank_mem {a b : Request} (h : Overlaps a b) :
    ' ' ∈ (sourceOf b).toList := by
  obtain ⟨more, hs, -⟩ := h
  refine Decidable.byContradiction fun hn => ?_
  have hcount := congrArg (fun text : String => text.toList.count ' ') hs
  simp only [String.toList_append, List.count_append, List.count_eq_zero_of_not_mem hn] at hcount
  have hone : " ".toList.count ' ' = 1 := rfl
  omega

theorem append_blank_inj {m m' p p' : List Char} (hm : ' ' ∉ m) (hm' : ' ' ∉ m') :
    m ++ ' ' :: p = m' ++ ' ' :: p' ↔ m = m' ∧ p = p' := by
  constructor
  · intro h
    rcases List.append_eq_append_iff.mp h with ⟨cs, rfl, hp⟩ | ⟨cs, rfl, hp⟩
    · cases cs with
      | nil => simpa using hp
      | cons c cs =>
        obtain ⟨rfl, -⟩ := List.cons.inj hp
        exact absurd (by simp) hm'
    · cases cs with
      | nil => simpa using hp.symm
      | cons c cs =>
        obtain ⟨rfl, -⟩ := List.cons.inj hp
        exact absurd (by simp) hm
  · rintro ⟨rfl, rfl⟩
    rfl

/-- The first blank of a text ends what holds none. -/
theorem exists_more {m p front rest : List Char} (hm : ' ' ∉ m)
    (h : m ++ ' ' :: p = front ++ ' ' :: rest) :
    ∃ more, front ++ [' '] = m ++ ' ' :: more ∧ p = more ++ rest := by
  rcases List.append_eq_append_iff.mp h with ⟨cs, rfl, hp⟩ | ⟨cs, rfl, hp⟩
  · cases cs with
    | nil => exact ⟨[], by simp, by simpa using hp⟩
    | cons c cs =>
      obtain ⟨rfl, rfl⟩ := List.cons.inj hp
      exact ⟨cs ++ [' '], by simp, by simp⟩
  · cases cs with
    | nil => exact ⟨[], by simp, by simpa using hp.symm⟩
    | cons c cs =>
      obtain ⟨rfl, -⟩ := List.cons.inj hp
      exact absurd (by simp) hm

/-- Texts with blanks between them, the second of which holds none. -/
theorem join_eq_join_iff (s s' p p' : List Char) {m m' : List Char} (hm : ' ' ∉ m)
    (hm' : ' ' ∉ m') :
    s ++ ' ' :: (m ++ ' ' :: p) = s' ++ ' ' :: (m' ++ ' ' :: p') ↔
      (s = s' ∧ m = m' ∧ p = p') ∨
        (∃ more, s' ++ [' '] = s ++ ' ' :: (m ++ ' ' :: more) ∧ p = more ++ (m' ++ ' ' :: p')) ∨
        ∃ more, s ++ [' '] = s' ++ ' ' :: (m' ++ ' ' :: more) ∧ p' = more ++ (m ++ ' ' :: p) := by
  constructor
  · intro h
    rcases List.append_eq_append_iff.mp h with ⟨cs, rfl, hrest⟩ | ⟨cs, rfl, hrest⟩
    · cases cs with
      | nil =>
        have htail := List.cons.inj hrest
        exact .inl ⟨by simp, (append_blank_inj hm hm').mp htail.2⟩
      | cons c cs =>
        obtain ⟨rfl, htail⟩ := List.cons.inj hrest
        obtain ⟨more, hmore, hp⟩ := exists_more hm htail
        exact .inr (.inl ⟨more, by simp [hmore], hp⟩)
    · cases cs with
      | nil =>
        have htail := List.cons.inj hrest
        exact .inl ⟨by simp, (append_blank_inj hm hm').mp htail.2.symm⟩
      | cons c cs =>
        obtain ⟨rfl, htail⟩ := List.cons.inj hrest
        obtain ⟨more, hmore, hp⟩ := exists_more hm' htail
        exact .inr (.inr ⟨more, by simp [hmore], hp⟩)
  · rintro (⟨rfl, rfl, rfl⟩ | ⟨more, hs, rfl⟩ | ⟨more, hs, rfl⟩)
    · rfl
    · calc s ++ ' ' :: (m ++ ' ' :: (more ++ (m' ++ ' ' :: p')))
          = (s ++ ' ' :: (m ++ ' ' :: more)) ++ (m' ++ ' ' :: p') := by simp
        _ = s' ++ ' ' :: (m' ++ ' ' :: p') := by simp [← hs]
    · calc s ++ ' ' :: (m ++ ' ' :: p)
          = (s ++ [' ']) ++ (m ++ ' ' :: p) := by simp
        _ = s' ++ ' ' :: (m' ++ ' ' :: (more ++ (m ++ ' ' :: p))) := by simp [hs]

variable {a b : Request}

theorem key_methodPath_eq_iff (ha : ' ' ∉ a.method.toList) (hb : ' ' ∉ b.method.toList) :
    a.method ++ " " ++ a.path = b.method ++ " " ++ b.path ↔
      a.method = b.method ∧ a.path = b.path := by
  rw [← String.toList_inj, ← String.toList_inj, ← String.toList_inj]
  simpa using append_blank_inj ha hb

theorem key_ipMethodPath_eq_iff (ha : ' ' ∉ a.method.toList) (hb : ' ' ∉ b.method.toList) :
    sourceOf a ++ " " ++ a.method ++ " " ++ a.path =
        sourceOf b ++ " " ++ b.method ++ " " ++ b.path ↔
      (sourceOf a = sourceOf b ∧ a.method = b.method ∧ a.path = b.path) ∨
        Overlaps a b ∨ Overlaps b a := by
  have hjoin := join_eq_join_iff (sourceOf a).toList (sourceOf b).toList a.path.toList
    b.path.toList ha hb
  have hoverlap : ∀ a b : Request, Overlaps a b ↔ ∃ more, (sourceOf b).toList ++ [' '] =
      (sourceOf a).toList ++ ' ' :: (a.method.toList ++ ' ' :: more) ∧
        a.path.toList = more ++ (b.method.toList ++ ' ' :: b.path.toList) := by
    intro a b
    constructor
    · rintro ⟨more, hs, hp⟩
      refine ⟨more.toList, ?_, ?_⟩
      · simpa using congrArg String.toList hs
      · simpa using congrArg String.toList hp
    · rintro ⟨more, hs, hp⟩
      refine ⟨String.ofList more, String.toList_inj.mp ?_, String.toList_inj.mp ?_⟩
      · simpa using hs
      · simpa using hp
  rw [hoverlap, hoverlap, ← String.toList_inj, ← String.toList_inj, ← String.toList_inj,
    ← String.toList_inj]
  simpa using hjoin

/-- Calls share a bucket exactly if they agree on what the strategy names, or if it names the
source, the method and the path and the source of one reads like the key of the other. Only a
delivery can have such a source, and only one with a blank in it. -/
theorem keyFor_eq_iff (s : Settings) (a b : Arrival) :
    (s.keyFor (.ofRequest a.request) = s.keyFor (.ofRequest b.request) ↔
      s.Agree a.request b.request ∨ s.keyStrategy = .ipMethodPath ∧
        (Overlaps a.request b.request ∨ Overlaps b.request a.request)) ∧
    (Overlaps a.request b.request →
      ' ' ∈ (sourceOf b.request).toList ∧ ∃ mode d, b = .delivery mode d) := by
  refine ⟨?_, fun h => ⟨h.blank_mem, ?_⟩⟩
  · have hkey : ∀ r : Request, s.keyFor (.ofRequest r) = (s.key r, s.burst) := fun _ => rfl
    rw [hkey, hkey, Prod.mk.injEq, and_iff_left rfl, Settings.key, Settings.key, Settings.Agree]
    cases s.keyStrategy with
    | global => simp
    | ip => simp [sourceOf]
    | methodPath => simpa using key_methodPath_eq_iff a.blank_notMem_method b.blank_notMem_method
    | ipMethodPath =>
      simp only [true_and]
      exact key_ipMethodPath_eq_iff a.blank_notMem_method b.blank_notMem_method
    | header => simp [headerOf_eq]
  · cases b with
    | http i body token => exact absurd h.blank_mem (Net.Ip.blank_notMem_text i.client)
    | delivery mode d => exact ⟨mode, d, rfl⟩

/-- A source that holds a blank can be taken for another source and the begin of a path. -/
theorem blank_in_source_joins_keys :
    let s : Settings := { Settings.default with keyStrategy := .ipMethodPath }
    let a : Arrival := .delivery .kafka ⟨"b KAFKA c", .empty, [], some "a"⟩
    let b : Arrival := .delivery .kafka ⟨"c", .empty, [], some "a KAFKA b"⟩
    s.keyFor (.ofRequest a.request) = s.keyFor (.ofRequest b.request) ∧
      ¬ s.Agree a.request b.request := by
  intro s a b
  exact ⟨by decide, fun h => absurd h.1 (by decide)⟩

end RateLimit

end Switchboard
