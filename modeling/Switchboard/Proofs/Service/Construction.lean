import Switchboard.Config.Decode
import Switchboard.Proofs.Middleware.Gatekeeping
import Switchboard.Proofs.Router.Refusals
import Switchboard.Service.Front

/-! From which configurations a service is set up. A configuration that was loaded has passed its
own checks, so that only middleware that cannot be made and base chains with unknown names are left
to fail. -/

namespace Switchboard

open Server (Consumer HttpServer)

/-! ### Middleware that can be made -/

def Duration.Parses (raw : String) : Prop :=
  ∃ d, parse raw = .ok d

/-- What the configuration of middleware has to bring for it to be made. -/
def Config.Middleware.Sound (around : Surroundings) : Config.Middleware → Prop
  | rateLimit c =>
    (∀ raw ∈ c.interval, Duration.Parses raw) ∧ (∀ raw ∈ c.cleanupInterval, Duration.Parses raw) ∧
      (∀ raw ∈ c.evictAfter, Duration.Parses raw) ∧
      (c.keyStrategy = .header → ∃ name ∈ c.headerName, name ≠ "")
  | timing => True
  | restore => True
  | timeout c => ∀ raw ∈ c.timeout, Duration.Parses raw
  | cors c =>
    ∀ words ∈ [c.allowMethods, c.allowHeaders, c.exposeHeaders],
      Headers.isValue (Utf8.encode (", ".intercalate words))
  | jwt c =>
    match c.publicKeyPath with
    | some path => ∃ pem v, around.read path = .ok pem ∧ Token.Verifier.ofPem pem = .ok v
    | none =>
      ∃ secret ∈ c.secret.or (around.lookupVariable Middleware.Auth.secretVariable), secret ≠ ""

/-- Something that is so is made just when a condition holds. Where the condition fails, the
middleware of the given name is refused. -/
def Settles {α : Type} (name : String) (p : Prop) (so : α → Prop) (r : Except SetupError α) :
    Prop :=
  (p ∧ ∃ a, r = .ok a ∧ so a) ∨ (¬ p ∧ ∃ reason, r = .error (.invalidMiddleware name reason))

namespace Settles

variable {α β : Type} {name : String} {p q : Prop} {so : α → Prop} {so' : β → Prop}

theorem ok {a : α} (h : so a) : Settles name True so (.ok a) :=
  .inl ⟨trivial, a, rfl, h⟩

theorem congr {r : Except SetupError α} (h : Settles name p so r) (hpq : p ↔ q) :
    Settles name q so r := by
  rwa [← propext hpq]

theorem bind {x : Except SetupError α} {f : α → Except SetupError β} (hx : Settles name p so x)
    (hf : ∀ a, so a → Settles name q so' (f a)) : Settles name (p ∧ q) so' (x >>= f) := by
  rcases hx with ⟨hp, a, rfl, ha⟩ | ⟨hp, reason, rfl⟩
  · rcases hf a ha with ⟨hq, b, hb, hs⟩ | ⟨hq, reason, hb⟩
    · exact .inl ⟨⟨hp, hq⟩, b, hb, hs⟩
    · exact .inr ⟨fun h => hq h.2, reason, hb⟩
  · exact .inr ⟨fun h => hp h.1, reason, rfl⟩

theorem andThen {x : Except SetupError α} {f : α → Except SetupError β} (hx : Settles name p so x)
    (hf : ∀ a, so a → Settles name True so' (f a)) : Settles name p so' (x >>= f) :=
  (hx.bind hf).congr (iff_of_eq (and_true p))

end Settles

theorem RateLimit.Settings.durationOf_settles (name field : String) (value : Option String)
    (default : Duration) :
    Settles name (∀ raw ∈ value, Duration.Parses raw) (fun _ => True)
      (durationOf name field value default) := by
  cases value with
  | none => exact .inl ⟨by simp, default, rfl, trivial⟩
  | some raw =>
    rw [durationOf]
    cases h : Duration.parse raw with
    | ok d => exact .inl ⟨by simp [Duration.Parses, h], d, rfl, trivial⟩
    | error e => exact .inr ⟨by simp [Duration.Parses, h], _, rfl⟩

theorem RateLimit.Settings.ofConfig_settles (around : Surroundings) (name : String)
    (c : Config.RateLimit) :
    Settles name ((Config.Middleware.rateLimit c).Sound around) (fun _ => True)
      (ofConfig name c) := by
  refine (durationOf_settles ..).bind fun interval _ =>
    (durationOf_settles ..).bind fun cleanup _ => (durationOf_settles ..).bind fun evict _ => ?_
  have hheader : (c.headerName.getD "").isEmpty = false ↔ ∃ name ∈ c.headerName, name ≠ "" := by
    cases c.headerName <;> simp
  split
  · rename_i h
    refine .inr ⟨fun hs => ?_, _, rfl⟩
    rw [← Bool.not_eq_true] at hheader
    exact hheader.mpr (hs h.1) h.2
  · rename_i h
    refine .inl ⟨fun hs => hheader.mp ?_, _, rfl, trivial⟩
    rw [← Bool.not_eq_true]
    exact fun he => h ⟨hs, he⟩

theorem Middleware.Deadline.ofConfig_settles (around : Surroundings) (name : String)
    (c : Config.Timeout) :
    Settles name ((Config.Middleware.timeout c).Sound around) (fun _ => True)
      (ofConfig name c) := by
  rw [ofConfig]
  cases ht : c.timeout with
  | none => exact .inl ⟨by simp [Config.Middleware.Sound, ht], _, rfl, trivial⟩
  | some raw =>
    dsimp only
    cases h : Duration.parse raw with
    | ok d =>
      exact .inl ⟨by simp [Config.Middleware.Sound, ht, Duration.Parses, h], _, rfl, trivial⟩
    | error e => exact .inr ⟨by simp [Config.Middleware.Sound, ht, Duration.Parses, h], _, rfl⟩

theorem Middleware.Cors.listValue_settles (name field : String) (words : List String) :
    Settles name (Headers.isValue (Utf8.encode (", ".intercalate words)) = true) (fun _ => True)
      (listValue name field words) := by
  rw [listValue]
  split
  · rename_i h
    exact .inl ⟨h, _, rfl, trivial⟩
  · rename_i h
    exact .inr ⟨h, _, rfl⟩

/-- No words make a legal value, as the default does that stands in for them. -/
theorem Middleware.Cors.isValue_orDefault (words : List String) {default : List String}
    (h : Headers.isValue (Utf8.encode (", ".intercalate default)) = true) :
    Headers.isValue (Utf8.encode (", ".intercalate (orDefault words default))) = true ↔
      Headers.isValue (Utf8.encode (", ".intercalate words)) = true := by
  cases words with
  | nil => exact iff_of_true h rfl
  | cons word words => rfl

theorem Middleware.Cors.Policy.ofConfig_settles (around : Surroundings) (name : String)
    (c : Config.Cors) :
    Settles name ((Config.Middleware.cors c).Sound around) (fun _ => True) (ofConfig name c) := by
  have hmethods := (listValue_settles name "allow_methods"
    (orDefault c.allowMethods defaultMethods)).congr (isValue_orDefault c.allowMethods (by decide))
  have hheaders := (listValue_settles name "allow_headers"
    (orDefault c.allowHeaders defaultHeaders)).congr (isValue_orDefault c.allowHeaders (by decide))
  have hexpose : Settles name _ (fun _ => True)
      (some <$> listValue name "expose_headers" c.exposeHeaders) :=
    (listValue_settles ..).andThen fun _ _ => .ok trivial
  rw [ofConfig]
  by_cases he : c.exposeHeaders = []
  · have hnone : Headers.isValue (Utf8.encode (", ".intercalate c.exposeHeaders)) = true := by
      rw [he]
      rfl
    rw [if_pos (by rw [he]; rfl)]
    refine Settles.congr (hmethods.bind fun methods _ => hheaders.andThen fun headers _ =>
      .ok trivial) ?_
    simp [Config.Middleware.Sound, hnone]
  · rw [if_neg (by simpa using he)]
    refine Settles.congr (hexpose.bind fun expose _ => hmethods.bind fun methods _ =>
      hheaders.andThen fun headers _ => .ok trivial) ?_
    simp [Config.Middleware.Sound, and_comm, and_assoc]

theorem Middleware.Auth.verifierOf_settles (around : Surroundings) (name : String)
    (c : Config.Jwt) :
    Settles name ((Config.Middleware.jwt c).Sound around) (fun _ => True)
      (verifierOf around name c) := by
  rw [verifierOf, Config.Middleware.Sound]
  cases c.publicKeyPath with
  | some path =>
    dsimp only
    cases hr : around.read path with
    | error e => exact .inr ⟨by simp, _, rfl⟩
    | ok pem =>
      dsimp only
      cases hv : Token.Verifier.ofPem pem with
      | error e => exact .inr ⟨by simp [hv], _, rfl⟩
      | ok v => exact .inl ⟨⟨pem, v, rfl, hv⟩, v, rfl, trivial⟩
  | none =>
    have hsecret : (∃ secret ∈ c.secret.or (around.lookupVariable secretVariable), secret ≠ "") ↔
        secretOf around c ≠ none := by
      rw [secretOf]
      cases c.secret.or (around.lookupVariable secretVariable) <;> simp
    dsimp only
    rw [hsecret]
    cases secretOf around c with
    | none => exact .inr ⟨by simp, _, rfl⟩
    | some secret => exact .inl ⟨by simp, _, rfl, trivial⟩

/-! ### The registry -/

namespace Registry

/-- Whether middleware is registered under the name that it has. -/
def Named (registry : Registry) : Prop :=
  ∀ name m, registry.get? name = some m → m.name = name

theorem get?_register (registry : Registry) (name other : String) (m : Middleware) :
    (registry.register name m).get? other =
      if other == name then some m else registry.get? other :=
  Table.get?_insert ..

theorem contains_register {registry : Registry} {name other : String} {m : Middleware} :
    (registry.register name m).contains other = true ↔
      other = name ∨ registry.contains other = true := by
  rw [contains_eq_isSome, contains_eq_isSome, get?_register]
  by_cases h : other = name <;> simp [h]

theorem Named.register {registry : Registry} (h : registry.Named) {name : String} {m : Middleware}
    (hm : m.name = name) : (registry.register name m).Named := by
  intro other found hf
  rw [get?_register] at hf
  split at hf
  · rename_i he
    obtain rfl := Option.some.inj hf
    exact hm.trans (beq_iff_eq.mp he).symm
  · exact h other found hf

end Registry

namespace Setup

variable {around : Surroundings}

/-- What a configuration describes is registered under its name, or refused by its name. -/
theorem add_settles (s : Setup) (around : Surroundings) (name : String) (c : Config.Middleware) :
    Settles name (c.Sound around)
      (fun next => ∃ m, m.name = name ∧ next.registry = s.registry.register name m)
      (s.add around name c) := by
  cases c with
  | rateLimit c =>
    exact (RateLimit.Settings.ofConfig_settles around name c).andThen
      fun settings _ => .ok ⟨_, rfl, rfl⟩
  | timing => exact .ok ⟨.timing name, rfl, rfl⟩
  | restore => exact .ok ⟨.restore name, rfl, rfl⟩
  | timeout c =>
    exact (Middleware.Deadline.ofConfig_settles around name c).andThen
      fun limit _ => .ok ⟨.deadline name limit, rfl, rfl⟩
  | cors c =>
    exact (Middleware.Cors.Policy.ofConfig_settles around name c).andThen
      fun policy _ => .ok ⟨.cors name policy, rfl, rfl⟩
  | jwt c =>
    exact (Middleware.Auth.verifierOf_settles around name c).andThen
      fun v _ => .ok ⟨.auth name v (c.ctxKey.getD Middleware.Auth.defaultKey), rfl, rfl⟩

theorem addAll_cases {configs : Table Config.Middleware} {s : Setup} (hs : s.registry.Named) :
    ((∀ p ∈ configs, p.2.Sound around) ∧ ∃ last, s.addAll around configs = .ok last ∧
      last.registry.Named ∧ ∀ name, last.registry.contains name = true ↔
        s.registry.contains name = true ∨ name ∈ configs.keys) ∨
    ∃ p ∈ configs, ¬ p.2.Sound around ∧
      ∃ reason, s.addAll around configs = .error (.invalidMiddleware p.1 reason) := by
  induction configs generalizing s with
  | nil => exact .inl ⟨by simp, s, rfl, hs, by simp [Table.keys]⟩
  | cons p configs ih =>
    obtain ⟨name, c⟩ := p
    rw [addAll]
    rcases add_settles s around name c with ⟨hc, next, hn, m, hm, hr⟩ | ⟨hc, reason, hn⟩
    · rw [hn]
      rcases ih (s := next) (hr ▸ hs.register hm) with
        ⟨hall, last, hl, hnamed, hkeys⟩ | ⟨p, hp, hbad, reason, hl⟩
      · refine .inl ⟨List.forall_mem_cons.mpr ⟨hc, hall⟩, last, hl, hnamed, fun other => ?_⟩
        rw [hkeys, hr, Registry.contains_register]
        simp only [Table.keys, List.map_cons, List.mem_cons]
        tauto
      · exact .inr ⟨p, List.mem_cons_of_mem _ hp, hbad, reason, hl⟩
    · rw [hn]
      exact .inr ⟨_, List.mem_cons_self, hc, reason, rfl⟩

/-- A registry has the names that are configured, or middleware that is not sound was refused. -/
theorem ofConfig_cases (around : Surroundings) (configs : Table Config.Middleware) :
    ((∀ p ∈ configs, p.2.Sound around) ∧ ∃ setup, ofConfig around configs = .ok setup ∧
      setup.registry.Named ∧
      ∀ name, setup.registry.contains name = true ↔ name ∈ configs.keys) ∨
    ∃ p ∈ configs, ¬ p.2.Sound around ∧
      ∃ reason, ofConfig around configs = .error (.invalidMiddleware p.1 reason) := by
  have hempty : empty.registry.Named := fun _ _ h => by cases h
  refine (addAll_cases hempty).imp_left fun ⟨hall, setup, hs, hnamed, hkeys⟩ =>
    ⟨hall, setup, hs, hnamed, fun name => ?_⟩
  rw [hkeys]
  exact or_iff_right (by simp [empty, Registry.empty, Registry.contains, Table.contains])

end Setup

/-! ### Builds that check their arithmetic -/

/-- The spans of a configuration in the order in which they are read. -/
def Config.Middleware.spans : Config.Middleware → List String
  | rateLimit c => c.interval.toList ++ (c.cleanupInterval.toList ++ c.evictAfter.toList)
  | timeout c => c.timeout.toList
  | timing | restore | cors _ | jwt _ => []

/-- Whether there is a span that overflows and every span before it is read. -/
def Config.Middleware.overflows (c : Config.Middleware) : Bool :=
  (c.spans.find? fun raw => Duration.overflows raw || !(Duration.parse raw).isOk).any
    Duration.overflows

theorem Config.Middleware.parses_of_sound {around : Surroundings} {c : Config.Middleware}
    (h : c.Sound around) : ∀ raw ∈ c.spans, Duration.Parses raw := by
  intro raw hm
  cases c with
  | rateLimit c =>
    obtain ⟨hinterval, hcleanup, hevict, -⟩ := h
    simp only [spans, List.mem_append, Option.mem_toList] at hm
    rcases hm with hm | hm | hm
    · exact hinterval raw hm
    · exact hcleanup raw hm
    · exact hevict raw hm
  | timeout c => exact h raw (Option.mem_toList.mp hm)
  | timing | restore | cors _ | jwt _ => cases hm

theorem Config.Middleware.exists_of_overflows {c : Config.Middleware} (h : c.overflows = true) :
    ∃ raw ∈ c.spans, Duration.overflows raw = true := by
  obtain ⟨raw, hfound, hraw⟩ := (Option.any_eq_true _ _).mp h
  exact ⟨raw, List.mem_of_find?_eq_some hfound, hraw⟩

/-- Where all spans are read, the first that is not in order is one that overflows. -/
theorem Config.Middleware.fits_of_not_overflows {around : Surroundings} {c : Config.Middleware}
    (hs : c.Sound around) (h : c.overflows = false) :
    ∀ raw ∈ c.spans, Duration.overflows raw = false := by
  have hgood : ∀ raw ∈ c.spans, (!(Duration.parse raw).isOk) = false := by
    intro raw hm
    obtain ⟨d, hd⟩ := parses_of_sound hs raw hm
    rw [hd]
    rfl
  rw [overflows] at h
  cases hfound : c.spans.find? fun raw => Duration.overflows raw || !(Duration.parse raw).isOk with
  | none =>
    intro raw hm
    have hnot := List.find?_eq_none.mp hfound raw hm
    rw [hgood raw hm, Bool.or_false] at hnot
    exact Bool.eq_false_iff.mpr hnot
  | some first =>
    have hfirst := List.find?_some hfound
    rw [hgood first (List.mem_of_find?_eq_some hfound), Bool.or_false] at hfirst
    rw [hfound, Option.any_some, hfirst] at h
    cases h

namespace Setup

variable {around : Surroundings} {configs : List (String × Config.Middleware)} {s : Setup}

/-- Adds all middleware in a build that checks its arithmetic. Such a build panics on a span that
overflows, and nothing comes back. -/
def addAllChecked (s : Setup) (around : Surroundings) :
    List (String × Config.Middleware) → Option (Except SetupError Setup)
  | [] => some (.ok s)
  | (name, config) :: rest =>
    if config.overflows then none
    else
      match s.add around name config with
      | .ok next => next.addAllChecked around rest
      | .error e => some (.error e)

/-- What such a build does not panic on it treats as a release does. -/
theorem addAllChecked_cases (s : Setup) (around : Surroundings)
    (configs : List (String × Config.Middleware)) :
    (s.addAllChecked around configs = none ∧ ∃ p ∈ configs, p.2.overflows = true) ∨
      s.addAllChecked around configs = some (s.addAll around configs) ∧
        ((∃ last, s.addAll around configs = .ok last) → ∀ p ∈ configs, p.2.overflows = false) := by
  induction configs generalizing s with
  | nil => exact .inr ⟨rfl, by simp⟩
  | cons p configs ih =>
    obtain ⟨name, c⟩ := p
    rw [addAllChecked, addAll]
    cases ho : c.overflows with
    | true => exact .inl ⟨rfl, _, List.mem_cons_self, ho⟩
    | false =>
      cases ha : s.add around name c with
      | error e =>
        refine .inr ⟨rfl, ?_⟩
        rintro ⟨last, hl⟩
        cases hl
      | ok next =>
        rcases ih next with ⟨hnone, p, hp, hover⟩ | ⟨hsome, hfits⟩
        · exact .inl ⟨hnone, p, List.mem_cons_of_mem _ hp, hover⟩
        · exact .inr ⟨hsome, fun h => List.forall_mem_cons.mpr ⟨ho, hfits h⟩⟩

end Setup

/-- A service in a build that checks its arithmetic. Only middleware is made of spans. -/
def Service.ofConfigChecked {R : Type} (around : Surroundings) (date : Nat)
    (c : Config.Service) : Option (Except SetupError (Service R)) :=
  (Setup.empty.addAllChecked around c.middlewares).map fun _ => ofConfig around date c

/-! ### Front ends -/

/-- Something is made just when all names are known. Where one is not, the first of these is the
error. -/
def Registry.Resolves {α : Type} (registry : Registry) (names : List String)
    (r : Except SetupError α) : Prop :=
  ((∀ name ∈ names, registry.contains name) ∧ ∃ a, r = .ok a) ∨
  ∃ first name rest, names = first ++ name :: rest ∧ (∀ known ∈ first, registry.contains known) ∧
    registry.contains name = false ∧ r = .error (.middlewareNotFound name)

namespace Registry.Resolves

variable {α β : Type} {registry : Registry} {names more : List String}

theorem ok (a : α) : registry.Resolves [] (.ok a : Except SetupError α) :=
  .inl ⟨by simp, a, rfl⟩

theorem resolve (registry : Registry) (names : List String) :
    registry.Resolves names (registry.resolve names) := by
  rcases registry.resolve_cases names with ⟨chain, hr, hall⟩ | h
  · exact .inl ⟨hall, chain, hr⟩
  · exact .inr h

theorem bind {x : Except SetupError α} {f : α → Except SetupError β}
    (hx : registry.Resolves names x) (hf : ∀ a, x = .ok a → registry.Resolves more (f a)) :
    registry.Resolves (names ++ more) (x >>= f) := by
  rcases hx with ⟨hnames, a, rfl⟩ | ⟨first, name, rest, rfl, hfirst, hname, rfl⟩
  · rcases hf a rfl with ⟨hmore, b, hb⟩ | ⟨first, name, rest, rfl, hfirst, hname, hb⟩
    · exact .inl ⟨List.forall_mem_append.mpr ⟨hnames, hmore⟩, b, hb⟩
    · exact .inr ⟨names ++ first, name, rest, by simp, List.forall_mem_append.mpr ⟨hnames, hfirst⟩,
        hname, hb⟩
  · exact .inr ⟨first, name, rest ++ more, by simp, hfirst, hname, rfl⟩

theorem andThen {x : Except SetupError α} (hx : registry.Resolves names x) (f : α → β) :
    registry.Resolves names (x >>= fun a => pure (f a)) := by
  rw [← List.append_nil names]
  exact hx.bind fun a _ => .ok (f a)

theorem map {x : Except SetupError α} (hx : registry.Resolves names x) (f : α → β) :
    registry.Resolves names (x.map f) := by
  rw [show x.map f = x >>= fun a => pure (f a) by cases x <;> rfl]
  exact hx.andThen f

theorem mapM {o : Option α} {f : α → Except SetupError β} {namesOf : α → List String}
    (h : ∀ a ∈ o, registry.Resolves (namesOf a) (f a)) :
    registry.Resolves ((o.map namesOf).getD []) (o.mapM f) := by
  cases o with
  | none => exact .ok none
  | some a => exact (h a rfl).andThen some

end Registry.Resolves

def Config.Consumer.baseNames (k : Config.Consumer) : List String :=
  k.baseMiddleware.getD []

/-- The names of all base chains that are given, front end by front end. -/
def Config.Service.baseNames (c : Config.Service) : List String :=
  (c.http.map (·.baseMiddleware)).getD [] ++ ((c.kafka.map (·.baseNames)).getD [] ++
    (c.amqp.map (·.baseNames)).getD [])

/-- Which consumers a configuration has, and how each is made. -/
def Config.Service.Makes (c : Config.Service) (k : Config.Consumer)
    (make : Config.Consumer → Registry → Except SetupError Server.Consumer) : Prop :=
  (c.kafka = some k ∧ make = Server.Consumer.kafka) ∨
    (c.amqp = some k ∧ make = Server.Consumer.amqp)

/-- What is checked when a configuration is loaded holds when the front ends are made of it. -/
structure Config.Service.Checked (c : Config.Service) : Prop where
  http : ∀ config ∈ c.http, ∃ limit, config.limit = .ok limit
  kafka : ∀ config ∈ c.kafka, ∃ limit, config.limit = .ok limit
  amqp : ∀ config ∈ c.amqp, ∃ limit, config.limit = .ok limit
  queue : ∀ config ∈ c.amqp, ∃ queue, config.boundQueue = .ok queue

theorem Config.Service.validate_eq (c : Config.Service) :
    c.validate = (do
      let _ ← c.http.mapM Http.limit
      let _ ← c.kafka.mapM Consumer.limit
      let _ ← c.amqp.mapM Consumer.limit
      let _ ← c.amqp.mapM Consumer.boundQueue
      pure ()) := by
  unfold validate
  cases c.http <;> cases c.kafka <;> cases c.amqp <;> simp

theorem exists_of_mapM_eq_ok {ε α β : Type} {o : Option α} {f : α → Except ε β} {b : Option β}
    (h : o.mapM f = .ok b) {a : α} (ha : a ∈ o) : ∃ b, f a = .ok b := by
  obtain rfl := Option.mem_def.mp ha
  obtain ⟨b, hb, -⟩ := Setup.exists_of_bind_eq_ok h
  exact ⟨b, hb⟩

theorem Config.Service.checked_of_validate {c : Config.Service} (h : c.validate = .ok ()) :
    c.Checked := by
  rw [validate_eq] at h
  obtain ⟨_, hhttp, h⟩ := Setup.exists_of_bind_eq_ok h
  obtain ⟨_, hkafka, h⟩ := Setup.exists_of_bind_eq_ok h
  obtain ⟨_, hamqp, h⟩ := Setup.exists_of_bind_eq_ok h
  obtain ⟨_, hqueue, -⟩ := Setup.exists_of_bind_eq_ok h
  exact ⟨fun _ => exists_of_mapM_eq_ok hhttp, fun _ => exists_of_mapM_eq_ok hkafka,
    fun _ => exists_of_mapM_eq_ok hamqp, fun _ => exists_of_mapM_eq_ok hqueue⟩

theorem Config.Service.checked_of_ofYaml {text : String} {c : Config.Service}
    (h : ofYaml text = .ok c) : c.Checked := by
  rw [ofYaml] at h
  cases hn : (Yaml.Node.ofText? text).bind ofNode with
  | none => simp [hn] at h
  | some s =>
    rw [hn] at h
    dsimp only at h
    cases hv : s.validate with
    | error e =>
      rw [hv] at h
      cases h
    | ok u =>
      rw [hv] at h
      obtain rfl := Except.ok.inj h
      exact checked_of_validate hv

theorem Server.HttpServer.ofConfig_resolves {config : Config.Http} {limit : Nat}
    (h : config.limit = .ok limit) (registry : Registry) :
    registry.Resolves config.baseMiddleware (ofConfig config registry) := by
  have hbase : registry.Resolves config.baseMiddleware
      ((MethodRouter.empty registry).withBase config.baseMiddleware) :=
    (Registry.Resolves.resolve registry config.baseMiddleware).map _
  rw [ofConfig, h]
  exact hbase.andThen _

namespace Server.Consumer

variable {config : Config.Consumer} {limit : Nat}

theorem ofMode_eq_map (h : config.limit = .ok limit) (mode : Mode) (registry : Registry) :
    ofMode config mode registry =
      (registry.resolve (config.baseMiddleware.getD (defaultBase registry))).map fun base =>
        ⟨config.name, mode, ⟨registry, base, .empty⟩, .ofLimit limit, .zero, false, false, .idle,
          none, #[]⟩ := by
  rw [ofMode, h, Router.withBase, Router.empty]
  cases registry.resolve (config.baseMiddleware.getD (defaultBase registry)) <;> rfl

/-- The default chain is there if it is known. -/
theorem resolve_defaultBase (registry : Registry) :
    registry.resolve (defaultBase registry) = .ok (registry.get? "timing").toList := by
  rw [defaultBase, Registry.contains_eq_isSome]
  cases hg : registry.get? "timing" <;> simp [Registry.resolve, hg, Except.map]

theorem ofMode_of_default (h : config.limit = .ok limit) (hnone : config.baseMiddleware = none)
    (mode : Mode) (registry : Registry) :
    ∃ c, ofMode config mode registry = .ok c ∧ c.router.base = (registry.get? "timing").toList := by
  rw [ofMode_eq_map h, hnone, Option.getD_none, resolve_defaultBase]
  exact ⟨_, rfl, rfl⟩

theorem ofMode_resolves (h : config.limit = .ok limit) (mode : Mode) (registry : Registry) :
    registry.Resolves config.baseNames (ofMode config mode registry) := by
  rw [Config.Consumer.baseNames]
  cases hb : config.baseMiddleware with
  | none =>
    obtain ⟨c, hc, -⟩ := ofMode_of_default h hb mode registry
    rw [hc]
    exact .ok c
  | some names =>
    rw [ofMode_eq_map h, hb]
    exact (Registry.Resolves.resolve registry names).map _

theorem amqp_eq_ofMode {queue : String} (h : config.boundQueue = .ok queue) (registry : Registry) :
    amqp config registry = ofMode config (.amqp queue) registry := by
  rw [amqp, h]
  rfl

end Server.Consumer

namespace Service

variable {R : Type} {around : Surroundings} {c : Config.Service}

/-- The front ends of a configuration that was checked fail on unknown names alone. -/
theorem ofConfig_resolves (hc : c.Checked) {setup : Setup} (date : Nat)
    (hs : Setup.ofConfig around c.middlewares = .ok setup) :
    setup.registry.Resolves c.baseNames
      (ofConfig around date c : Except SetupError (Service R)) := by
  -- Limits and the queue are read once more here, and cannot fail as they were read before.
  have hhttp : setup.registry.Resolves ((c.http.map (·.baseMiddleware)).getD [])
      (c.http.mapM (HttpServer.ofConfig · setup.registry)) := by
    refine .mapM fun config hm => ?_
    obtain ⟨limit, hl⟩ := hc.http config hm
    exact HttpServer.ofConfig_resolves hl _
  have hkafka : setup.registry.Resolves ((c.kafka.map (·.baseNames)).getD [])
      (c.kafka.mapM (Consumer.kafka · setup.registry)) := by
    refine .mapM fun config hm => ?_
    obtain ⟨limit, hl⟩ := hc.kafka config hm
    exact Consumer.ofMode_resolves hl _ _
  have hamqp : setup.registry.Resolves ((c.amqp.map (·.baseNames)).getD [])
      (c.amqp.mapM (Consumer.amqp · setup.registry)) := by
    refine .mapM fun config hm => ?_
    obtain ⟨limit, hl⟩ := hc.amqp config hm
    obtain ⟨queue, hq⟩ := hc.queue config hm
    rw [Consumer.amqp_eq_ofMode hq]
    exact Consumer.ofMode_resolves hl _ _
  rw [ofConfig, hs]
  exact hhttp.bind fun http _ => hkafka.bind fun kafka _ => hamqp.andThen _

theorem ofConfig_cases (hc : c.Checked) (around : Surroundings) (date : Nat) :
    let result : Except SetupError (Service R) := ofConfig around date c
    (∃ p ∈ c.middlewares, ¬ p.2.Sound around ∧
      ∃ reason, result = .error (.invalidMiddleware p.1 reason)) ∨
    (∀ p ∈ c.middlewares, p.2.Sound around) ∧
      (((∀ name ∈ c.baseNames, name ∈ c.middlewares.keys) ∧ ∃ s, result = .ok s) ∨
      ∃ first name rest, c.baseNames = first ++ name :: rest ∧
        (∀ known ∈ first, known ∈ c.middlewares.keys) ∧ name ∉ c.middlewares.keys ∧
        result = .error (.middlewareNotFound name)) := by
  intro result
  rcases Setup.ofConfig_cases around c.middlewares with
    ⟨hall, setup, hs, -, hkeys⟩ | ⟨p, hp, hbad, reason, hs⟩
  · have hresolves := ofConfig_resolves (R := R) hc date hs
    simp only [Registry.Resolves, hkeys, ← Bool.not_eq_true] at hresolves
    exact .inr ⟨hall, hresolves⟩
  · refine .inl ⟨p, hp, hbad, reason, ?_⟩
    simp only [result, ofConfig, hs]
    rfl

/-- A consumer without a list of its own is made whatever is registered, and its base chain is the
middleware under the default name or nothing. -/
theorem default_consumer (hc : c.Checked) {k : Config.Consumer} (hk : k.baseMiddleware = none)
    {make : Config.Consumer → Registry → Except SetupError Consumer} (hmake : c.Makes k make)
    (registry : Registry) :
    ∃ consumer, make k registry = .ok consumer ∧
      consumer.router.base = (registry.get? "timing").toList := by
  rcases hmake with ⟨hsome, rfl⟩ | ⟨hsome, rfl⟩
  · obtain ⟨limit, hl⟩ := hc.kafka k hsome
    exact Consumer.ofMode_of_default hl hk _ _
  · obtain ⟨limit, hl⟩ := hc.amqp k hsome
    obtain ⟨queue, hq⟩ := hc.queue k hsome
    rw [Consumer.amqp_eq_ofMode hq]
    exact Consumer.ofMode_of_default hl hk _ _

theorem mem_consumers {date : Nat} {s : Service R} {setup : Setup} {k : Config.Consumer}
    {consumer : Consumer} (h : ofConfig around date c = .ok s)
    (hs : Setup.ofConfig around c.middlewares = .ok setup)
    {make : Config.Consumer → Registry → Except SetupError Consumer} (hmake : c.Makes k make)
    (hk : make k setup.registry = .ok consumer) : consumer ∈ s.consumers := by
  obtain ⟨setup', hs', h⟩ := Setup.exists_of_bind_eq_ok h
  obtain rfl := Except.ok.inj (hs.symm.trans hs')
  obtain ⟨http, -, h⟩ := Setup.exists_of_bind_eq_ok h
  obtain ⟨kafka, hkafka, h⟩ := Setup.exists_of_bind_eq_ok h
  obtain ⟨amqp, hamqp, h⟩ := Setup.exists_of_bind_eq_ok h
  obtain rfl := Except.ok.inj h
  rcases hmake with ⟨hsome, rfl⟩ | ⟨hsome, rfl⟩
  · rw [hsome, Option.mapM_some, hk] at hkafka
    obtain rfl := Except.ok.inj hkafka
    simp
  · rw [hsome, Option.mapM_some, hk] at hamqp
    obtain rfl := Except.ok.inj hamqp
    simp

/-- In a build that checks its arithmetic a service comes up if it would in a release and no span
overflows. Such a build panics on nothing else, and what it does not panic on ends as in a release. -/
theorem ofConfigChecked_cases (around : Surroundings) (date : Nat) (c : Config.Service) :
    let checked : Option (Except SetupError (Service R)) := ofConfigChecked around date c
    (checked = none ∧ ∃ p ∈ c.middlewares, ∃ raw ∈ p.2.spans, Duration.overflows raw = true) ∨
      checked = some (ofConfig around date c) ∧
        ((∀ p ∈ c.middlewares, p.2.Sound around) →
          ∀ p ∈ c.middlewares, ∀ raw ∈ p.2.spans, Duration.overflows raw = false) := by
  intro checked
  rcases Setup.addAllChecked_cases .empty around c.middlewares with
    ⟨hnone, p, hp, hover⟩ | ⟨hsome, hfits⟩
  · obtain ⟨raw, hraw⟩ := Config.Middleware.exists_of_overflows hover
    refine .inl ⟨?_, p, hp, raw, hraw⟩
    simp only [checked, ofConfigChecked, hnone, Option.map_none]
  · refine .inr ⟨?_, fun hsound p hp => ?_⟩
    · simp only [checked, ofConfigChecked, hsome, Option.map_some]
    · rcases Setup.ofConfig_cases around c.middlewares with ⟨-, setup, hs, -⟩ | ⟨p', hp', hbad, -⟩
      · exact Config.Middleware.fits_of_not_overflows (hsound p hp) (hfits ⟨setup, hs⟩ p hp)
      · exact absurd (hsound p' hp') hbad

/-- A service comes up from a configuration that was loaded just when all its middleware can be made
and all names of the base chains are configured, whatever the order in which the middleware is made.
Middleware that cannot be made is refused before any name is looked up, and of unknown names the
first is the error: those of the HTTP server, then those of the two consumers. A consumer without a
list of its own always comes up, with `timing` around its routes if that is configured.

That is a release, where the spans that overflow are wrapped around. A build that checks its
arithmetic does the same unless it panics on a span that overflows. -/
theorem ofConfig_ok_iff_sound {text : String} (h : Config.Service.ofYaml text = .ok c)
    (around : Surroundings) (date : Nat) {order : Table Config.Middleware}
    (ho : order.Perm c.middlewares) :
    let config := { c with middlewares := order }
    let result : Except SetupError (Service R) := ofConfig around date config
    let checked : Option (Except SetupError (Service R)) := ofConfigChecked around date config
    let sound := ∀ p ∈ c.middlewares, p.2.Sound around
    let fits := ∀ p ∈ c.middlewares, ∀ raw ∈ p.2.spans, Duration.overflows raw = false
    let configured := fun name => name ∈ c.middlewares.keys
    ((∃ s, result = .ok s) ↔ sound ∧ ∀ name ∈ c.baseNames, configured name) ∧
    (∀ e, result = .error e →
      (∃ name m reason, (name, m) ∈ c.middlewares ∧ ¬ m.Sound around ∧
        e = .invalidMiddleware name reason) ∨
      sound ∧ ∃ first name rest, c.baseNames = first ++ name :: rest ∧
        (∀ known ∈ first, configured known) ∧ ¬ configured name ∧ e = .middlewareNotFound name) ∧
    (∀ setup k make, Setup.ofConfig around order = .ok setup → k.baseMiddleware = none →
      c.Makes k make →
      ∃ consumer, make k setup.registry = .ok consumer ∧
        (∀ s, result = .ok s → consumer ∈ s.consumers) ∧
        ((configured "timing" ∧ ∃ m, setup.registry.get? "timing" = some m ∧ m.name = "timing" ∧
            consumer.router.base = [m]) ∨
          (¬ configured "timing" ∧ consumer.router.base = []))) ∧
    ((∃ s, checked = some (.ok s)) ↔
      sound ∧ fits ∧ ∀ name ∈ c.baseNames, configured name) ∧
    (∀ r, checked = some r → r = result) ∧ (checked = none → ¬ fits) := by
  intro config result checked sound fits configured
  have hc : config.Checked :=
    have hc := Config.Service.checked_of_ofYaml h
    ⟨hc.http, hc.kafka, hc.amqp, hc.queue⟩
  have hkeys : ∀ name, name ∈ order.keys ↔ configured name := fun name => (ho.map _).mem_iff
  have hcases := ofConfig_cases (R := R) hc around date
  simp only [config, ho.mem_iff, hkeys] at hcases
  have hiff : (∃ s, result = .ok s) ↔ sound ∧ ∀ name ∈ c.baseNames, configured name := by
    constructor
    · rintro ⟨s, hs⟩
      rcases hcases with ⟨_, -, -, _, hr⟩ | ⟨hall, ⟨hnames, -⟩ | ⟨_, _, _, -, -, -, hr⟩⟩
      · cases hs.symm.trans hr
      · exact ⟨hall, hnames⟩
      · cases hs.symm.trans hr
    · rintro ⟨hall, hnames⟩
      rcases hcases with ⟨p, hp, hbad, -⟩ | ⟨-, ⟨-, hok⟩ | ⟨first, name, rest, hn, -, hu, -⟩⟩
      · exact absurd (hall p hp) hbad
      · exact hok
      · have hm : name ∈ c.baseNames := hn ▸ List.mem_append_right _ List.mem_cons_self
        exact absurd (hnames name hm) hu
  have hchecked := ofConfigChecked_cases (R := R) around date config
  simp only [config, ho.mem_iff] at hchecked
  refine ⟨hiff, ?failure, ?default, ?fits, ?same, ?panics⟩
  case failure =>
    intro e he
    rcases hcases with ⟨⟨name, m⟩, hp, hbad, reason, hr⟩ |
      ⟨hall, ⟨-, s, hr⟩ | ⟨first, name, rest, hn, hf, hu, hr⟩⟩
    · exact .inl ⟨name, m, reason, hp, hbad, Except.error.inj (he.symm.trans hr)⟩
    · cases he.symm.trans hr
    · exact .inr ⟨hall, first, name, rest, hn, hf, hu, Except.error.inj (he.symm.trans hr)⟩
  case default =>
    intro setup k make hs hk hmake
    rcases Setup.ofConfig_cases around order with ⟨-, _, hs', hnamed, hknown⟩ | ⟨_, -, -, _, hs'⟩
    · obtain rfl := Except.ok.inj (hs.symm.trans hs')
      obtain ⟨consumer, hconsumer, hbase⟩ := default_consumer hc hk hmake setup.registry
      refine ⟨consumer, hconsumer, fun s hr => mem_consumers hr hs hmake hconsumer, ?_⟩
      rw [← hkeys, ← hknown, Registry.contains_eq_isSome, hbase]
      cases hg : setup.registry.get? "timing" with
      | none => exact .inr ⟨by simp, rfl⟩
      | some m => exact .inl ⟨rfl, m, rfl, hnamed _ _ hg, rfl⟩
    · cases hs.symm.trans hs'
  case fits =>
    rcases hchecked with ⟨hnone, p, hp, raw, hraw, hover⟩ | ⟨hsome, hfits⟩
    · have hnot : ¬ fits := fun hf => by
        rw [hf p hp raw hraw] at hover
        cases hover
      exact iff_of_false (fun ⟨s, hs⟩ => by cases hs.symm.trans hnone) fun hall => hnot hall.2.1
    · have hsame : (∃ s, checked = some (.ok s)) ↔ ∃ s, result = .ok s := by
        simp only [checked, hsome, Option.some.injEq, result, config]
      rw [hsame, hiff]
      exact ⟨fun hall => ⟨hall.1, hfits hall.1, hall.2⟩, fun hall => ⟨hall.1, hall.2.2⟩⟩
  case same =>
    intro r hr
    rcases hchecked with ⟨hnone, -⟩ | ⟨hsome, -⟩
    · cases hr.symm.trans hnone
    · exact Option.some.inj (hr.symm.trans hsome)
  case panics =>
    intro hnone hf
    rcases hchecked with ⟨-, p, hp, raw, hraw, hover⟩ | ⟨hsome, -⟩
    · rw [hf p hp raw hraw] at hover
      cases hover
    · cases hnone.symm.trans hsome

/-- A name that is not configured keeps the service from coming up. The consumer would have had the
default chain. -/
theorem ofConfig_ok_iff_sound_gate :
    let text := "middlewares:\n  timing:\n    type: timing\n" ++
      "http:\n  base_middleware: [timing, gate]\nkafka:\n  name: events\n"
    ∃ c, Config.Service.ofYaml text = .ok c ∧
      (∀ s, (ofConfig .empty 0 c : Except SetupError (Service Rat)) ≠ .ok s) ∧
      (∀ e, (ofConfig .empty 0 c : Except SetupError (Service Rat)) = .error e →
        e = .middlewareNotFound "gate") ∧
      ∃ setup consumer, Setup.ofConfig .empty c.middlewares = .ok setup ∧
        Consumer.kafka (.ofName "events") setup.registry = .ok consumer ∧
        consumer.router.base.map (·.name) = ["timing"] := by
  intro text
  have hview : (Config.Service.ofYaml text).toOption.map
      (fun c => (c.middlewares, c.http.map (·.baseMiddleware), c.kafka, c.amqp)) =
        some ([("timing", .timing)], some ["timing", "gate"], some (.ofName "events"), none) := by
    decide +kernel
  cases hc : Config.Service.ofYaml text with
  | error e =>
    rw [hc] at hview
    cases hview
  | ok c =>
    rw [hc] at hview
    obtain ⟨hm, hhttp, hkafka, hamqp⟩ : c.middlewares = [("timing", .timing)] ∧
        c.http.map (·.baseMiddleware) = some ["timing", "gate"] ∧
        c.kafka = some (.ofName "events") ∧ c.amqp = none := by
      simpa [Except.toOption] using hview
    have hkeys : c.middlewares.keys = ["timing"] := by rw [hm]; rfl
    have hnames : c.baseNames = ["timing", "gate"] := by
      rw [Config.Service.baseNames, hhttp, hkafka, hamqp]
      rfl
    have hsound : ∀ p ∈ c.middlewares, p.2.Sound .empty := by
      rw [hm]
      simp [Config.Middleware.Sound]
    obtain ⟨hok, herror, hdefault, -⟩ :=
      ofConfig_ok_iff_sound (R := Rat) hc .empty 0 (List.Perm.refl c.middlewares)
    obtain ⟨setup, hsetup⟩ : ∃ setup, Setup.ofConfig .empty c.middlewares = .ok setup := by
      rw [hm]
      exact ⟨_, rfl⟩
    obtain ⟨consumer, hconsumer, -, hbase⟩ :=
      hdefault setup (.ofName "events") _ hsetup rfl (.inl ⟨hkafka, rfl⟩)
    refine ⟨c, rfl, ?_, ?_, setup, consumer, hsetup, hconsumer, ?_⟩
    · intro s hs
      have hgate := (hok.mp ⟨s, hs⟩).2 "gate" (by simp [hnames])
      simp [hkeys] at hgate
    · intro e he
      rcases herror e he with ⟨_, _, _, hp, hbad, -⟩ | ⟨-, first, name, rest, hn, -, hu, rfl⟩
      · exact absurd (hsound _ hp) hbad
      · have hne : name ≠ "timing" := by simpa [hkeys] using hu
        have hmem : name ∈ ["timing", "gate"] := by simp [← hnames, hn]
        have hgate : name = "gate" := by simpa [hne] using hmem
        rw [hgate]
    · rcases hbase with ⟨-, m, -, hname, hb⟩ | ⟨hno, -⟩
      · rw [hb, List.map_singleton, hname]
      · simp [hkeys] at hno

end Service

end Switchboard
