import Mathlib.Data.List.Forall2
import Switchboard.Middleware
import Switchboard.Proofs.Call.Runs

/-! The way of a call through a composed chain: into it from the outside up to the first middleware
that answers by itself or to the handler, and out of it again through the same middleware. -/

namespace Switchboard.Middleware

/-- A chain in two parts is composed as the first part around the second. -/
theorem compose_append (outer inner : List Middleware) (handler : Handler) :
    compose (outer ++ inner) handler =
      ⟨(compose outer (compose inner handler).handler).handler,
        (compose inner handler).lines ++ (compose outer (compose inner handler).handler).lines⟩ := by
  induction outer with
  | nil => simp [compose]
  | cons m outer ih => simp [compose, ih, List.append_assoc]

/-- Which middleware of a chain is invoked on which handler, in the order of composition. -/
def invocations : List Middleware → Handler → List (Middleware × Handler)
  | [], _ => []
  | m :: chain, handler => invocations chain handler ++ [(m, (compose chain handler).handler)]

theorem map_fst_invocations (chain : List Middleware) (handler : Handler) :
    (invocations chain handler).map (·.1) = chain.reverse := by
  induction chain with
  | nil => rfl
  | cons m chain ih => simp [invocations, ih]

theorem lines_compose (chain : List Middleware) (handler : Handler) :
    (compose chain handler).lines =
      (invocations chain handler).flatMap fun i => (i.1.invoke i.2).lines := by
  induction chain with
  | nil => rfl
  | cons m chain ih => simp [compose, invocations, ih]

/-- From one context to another, with the exchanges in between. -/
abbrev Part := Context → List Exchange → Context → Prop

namespace Part

/-- What a handler does on a context when it does not panic. -/
def of (handler : Handler) : Part :=
  fun ctx trace last => (handler ctx).Runs trace (.replied last)

def skip : Part :=
  fun ctx trace last => trace = [] ∧ last = ctx

inductive Series : List Part → Context → List (List Exchange) → Context → Prop
  | nil (ctx : Context) : Series [] ctx [] ctx
  | cons {part : Part} {parts : List Part} {ctx next last : Context} {trace : List Exchange}
    {traces : List (List Exchange)} (h : part ctx trace next) (ht : Series parts next traces last) :
    Series (part :: parts) ctx (trace :: traces) last

theorem series_concat_iff {parts : List Part} {part : Part} {ctx last : Context}
    {traces : List (List Exchange)} :
    Series (parts ++ [part]) ctx traces last ↔
      ∃ first next trace, Series parts ctx first next ∧ part next trace last ∧
        traces = first ++ [trace] := by
  induction parts generalizing ctx traces with
  | nil =>
    constructor
    · intro h
      cases h with
      | cons h ht =>
        cases ht
        exact ⟨[], ctx, _, .nil ctx, h, rfl⟩
    · rintro ⟨first, next, trace, hs, h, rfl⟩
      cases hs
      exact .cons h (.nil last)
  | cons head parts ih =>
    constructor
    · intro h
      cases h with
      | cons h ht =>
        obtain ⟨first, next, trace, hs, hp, rfl⟩ := ih.mp ht
        exact ⟨_, next, trace, .cons h hs, hp, rfl⟩
    · rintro ⟨first, next, trace, hs, hp, rfl⟩
      cases hs with
      | cons h ht => exact .cons h (ih.mpr ⟨_, next, trace, ht, hp, rfl⟩)

end Part

/-- What middleware does before it calls or answers, the context it goes on with, which of the two
it does, and the part that comes after that. -/
structure Entry where
  before : List Exchange
  ctx : Context
  calls : Bool
  after : Part

/-- The ways in which middleware may enter on a context. -/
abbrev Layer := Context → Entry → Prop

def Describes (layer : Layer) (m : Middleware) : Prop :=
  ∀ next ctx trace last, Part.of (m.invoke next).handler ctx trace last ↔
    ∃ entry inner ctx' outer, layer ctx entry ∧
      (if entry.calls then Part.of next else .skip) entry.ctx inner ctx' ∧
      entry.after ctx' outer last ∧ trace = entry.before ++ inner ++ outer

/-- The entries of the layers from the outermost to the first that does not call, or of all, with
the context that comes out of them and whether the handler is reached. -/
inductive Entered : List Layer → Context → List Entry → Context → Bool → Prop
  | handler (ctx : Context) : Entered [] ctx [] ctx true
  | answer {layer : Layer} {ctx : Context} {entry : Entry} (rest : List Layer)
    (h : layer ctx entry) (hc : entry.calls = false) :
    Entered (layer :: rest) ctx [entry] entry.ctx false
  | call {layer : Layer} {rest : List Layer} {ctx inmost : Context} {entry : Entry}
    {entries : List Entry} {reached : Bool} (h : layer ctx entry) (hc : entry.calls = true)
    (ht : Entered rest entry.ctx entries inmost reached) :
    Entered (layer :: rest) ctx (entry :: entries) inmost reached

/-- A call through all layers: the parts before the call from the outside to the inside, the handler
if it is reached, and the parts after the call of the same layers from the inside to the outside. -/
inductive Passage (layers : List Layer) (handler : Handler) (ctx : Context) :
    List Exchange → Context → Prop
  | intro {entries : List Entry} {inmost back last : Context} {reached : Bool}
    {trace inner : List Exchange} {outers : List (List Exchange)}
    (he : Entered layers ctx entries inmost reached)
    (hi : (if reached then Part.of handler else .skip) inmost inner back)
    (ho : Part.Series (entries.reverse.map (·.after)) back outers last)
    (ht : trace = (entries.map (·.before)).flatten ++ inner ++ outers.flatten) :
    Passage layers handler ctx trace last

variable {layers : List Layer} {layer : Layer} {chain : List Middleware} {handler : Handler}
  {ctx last : Context} {trace : List Exchange}

theorem passage_nil_iff : Passage [] handler ctx trace last ↔ Part.of handler ctx trace last := by
  constructor
  · rintro ⟨he, hi, ho, rfl⟩
    cases he
    cases ho
    simpa using hi
  · intro h
    exact .intro (.handler ctx) h (.nil last) (by simp)

/-- A passage is one through the outermost layer, inside of which is the passage through the rest
or nothing. -/
theorem passage_cons_iff :
    Passage (layer :: layers) handler ctx trace last ↔
      ∃ entry inner ctx' outer, layer ctx entry ∧
        (if entry.calls then Passage layers handler else Part.skip) entry.ctx inner ctx' ∧
        entry.after ctx' outer last ∧ trace = entry.before ++ inner ++ outer := by
  constructor
  · intro hp
    cases hp with
    | @intro entries inmost back _ reached _ inner outers he hi ho ht =>
      subst ht
      cases he with
      | @answer _ _ entry _ h hc =>
        cases ho with
        | cons ha hn =>
          cases hn
          refine ⟨entry, inner, back, _, h, ?_, ha, by simp⟩
          rw [hc]
          exact hi
      | @call _ _ _ _ entry entries _ h hc he =>
        rw [List.reverse_cons, List.map_append] at ho
        obtain ⟨first, ctx', outer, hs, ha, rfl⟩ := Part.series_concat_iff.mp ho
        refine ⟨entry, (entries.map (·.before)).flatten ++ inner ++ first.flatten, ctx', outer, h,
          ?_, ha, by simp⟩
        rw [if_pos hc]
        exact .intro he hi hs rfl
  · rintro ⟨entry, inner, ctx', outer, h, hi, ha, rfl⟩
    cases hc : entry.calls with
    | false =>
      rw [hc] at hi
      exact .intro (.answer layers h hc) hi (.cons ha (.nil last)) (by simp)
    | true =>
      rw [hc] at hi
      cases hi with
      | @intro entries inmost back _ reached _ inner' outers he hi ho ht =>
        have hs : Part.Series ((entry :: entries).reverse.map (·.after)) back (outers ++ [outer])
            last := by
          rw [List.reverse_cons, List.map_append]
          exact Part.series_concat_iff.mpr ⟨outers, ctx', outer, ho, ha, rfl⟩
        exact .intro (.call h hc he) hi hs (by simp [ht])

/-- A chain of layers does on a call what the passage through the layers says. -/
theorem runs_compose_iff (h : List.Forall₂ Describes layers chain) :
    Part.of (compose chain handler).handler ctx trace last ↔
      Passage layers handler ctx trace last := by
  induction h generalizing ctx trace last with
  | nil => exact passage_nil_iff.symm
  | @cons layer m layers chain hm _ ih =>
    rw [passage_cons_iff, compose, hm]
    have hinner : ∀ calls : Bool,
        (if calls then Part.of (compose chain handler).handler else .skip) =
          if calls then Passage layers handler else Part.skip := by
      intro calls
      cases calls with
      | false => rfl
      | true =>
        funext ctx trace last
        exact propext ih
    simp only [hinner]

/-- What a world goes through while a chain of layers does a call on it is a passage. -/
theorem passage_of_poll {R : Type} [RateLimit.Amount R] {w w' : World R}
    (h : List.Forall₂ Describes layers chain)
    (hp : ((compose chain handler).handler ctx).poll w = (.ended (.replied last), w')) :
    ∃ trace, w.Answers trace w' ∧ Passage layers handler ctx trace last := by
  obtain ⟨trace, hw, hr⟩ := Call.runs_of_poll ((compose chain handler).handler ctx) w
  rw [hp] at hw hr
  have hruns := hr (.reply last)
  rw [List.append_nil] at hruns
  exact ⟨trace, hw, (runs_compose_iff h).mp hruns⟩

end Switchboard.Middleware
