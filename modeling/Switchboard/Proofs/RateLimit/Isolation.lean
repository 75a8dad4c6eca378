import Switchboard.Middleware.Limiter
import Switchboard.Proofs.RateLimit.Operations
import Switchboard.Script
import Switchboard.World

/-! What one key is told does not depend on the traffic on other keys, nor on calls that are let
through uncounted. -/

namespace Switchboard

open RateLimit

namespace RateLimit

variable {R : Type} {key : String}

/-- An operation that has a say in what a key is told: one on the key, or a sweep. -/
def Op.concerns (key : String) (op : Op R) : Bool :=
  op.key? == some key || !op.isCall

def answersTo (key : String) (log : Log R) : Log R :=
  log.filter (·.1.key? == some key)

theorem answersTo_concat (log : Log R) (op : Op R) (answer : Option Decision) :
    answersTo key (log ++ [(op, answer)]) =
      answersTo key log ++ if op.key? = some key then [(op, answer)] else [] := by
  by_cases h : op.key? = some key <;> simp [answersTo, h]

namespace Store

variable [Amount R] {s s' : Store R} {op : Op R}

theorem bucketOf_perform_call (hv : s.Valid) (hc : op.isCall = true) (hk : op.key? ≠ some key) :
    (s.perform op).1.bucketOf key = s.bucketOf key := by
  cases op with
  | acquire other capacity rate now =>
    have hne : key ≠ other := fun he => hk (by rw [he]; rfl)
    by_cases hr : isUsable rate = true
    · rw [perform, (acquire_spec hv hr other capacity now).2.2, if_neg hne]
    · simp [perform, acquire, hr]
  | evict after now => cases hc

/-- Where two stores have the same bucket for a key, they tell the key the same and go on to have
the same bucket. -/
theorem perform_congr (hv : s.Valid) (hv' : s'.Valid) (hb : s.bucketOf key = s'.bucketOf key)
    (hc : op.concerns key = true) :
    (s.perform op).1.bucketOf key = (s'.perform op).1.bucketOf key ∧
      (op.key? = some key → (s.perform op).2 = (s'.perform op).2) := by
  cases op with
  | acquire other capacity rate now =>
    obtain rfl : other = key := by simpa [Op.concerns, Op.key?, Op.isCall] using hc
    by_cases hr : isUsable rate = true
    · obtain ⟨-, ha, hbuckets⟩ := acquire_spec hv hr other capacity now
      obtain ⟨-, ha', hbuckets'⟩ := acquire_spec hv' hr other capacity now
      have hverdict : s.verdict other capacity rate now = s'.verdict other capacity rate now := by
        rw [verdict, verdict, hb]
      rw [perform, perform, ha, ha', hbuckets, hbuckets', hverdict, if_pos rfl, if_pos rfl]
      exact ⟨rfl, fun _ => rfl⟩
    · simp [perform, acquire, hr, hb]
  | evict after now =>
    refine ⟨?_, fun hk => by cases hk⟩
    rw [perform, perform, bucketOf_evict, bucketOf_evict, hb]

/-- A key is told the same as if there had been no traffic on other keys. -/
theorem run_filter_concerns (hv : s.Valid) (ops : List (Op R)) :
    (s.run ops).1.bucketOf key = (s.run (ops.filter (·.concerns key))).1.bucketOf key ∧
      answersTo key (s.run ops).2 = answersTo key (s.run (ops.filter (·.concerns key))).2 := by
  induction ops using List.reverseRecOn with
  | nil => exact ⟨rfl, rfl⟩
  | append_singleton ops op ih =>
    obtain ⟨hb, ha⟩ := ih
    rw [run_concat, answersTo_concat]
    by_cases hc : op.concerns key = true
    · have hnext := perform_congr (hv.run ops) (hv.run (ops.filter (·.concerns key))) hb hc
      rw [List.filter_append, List.filter_cons_of_pos hc, List.filter_nil, run_concat,
        answersTo_concat, ha]
      refine ⟨hnext.1, ?_⟩
      by_cases hk : op.key? = some key
      · rw [if_pos hk, if_pos hk, hnext.2 hk]
      · rw [if_neg hk, if_neg hk]
    · have hk : op.key? ≠ some key := by
        intro hk
        simp [Op.concerns, hk] at hc
      have hcall : op.isCall = true := by
        cases hi : op.isCall with
        | true => rfl
        | false => simp [Op.concerns, hi] at hc
      rw [List.filter_append, List.filter_cons_of_neg hc, List.filter_nil, List.append_nil,
        if_neg hk, List.append_nil, bucketOf_perform_call (hv.run ops) hcall hk]
      exact ⟨hb, ha⟩

end Store

end RateLimit

/-- A call that asks nothing of a store, however it goes. -/
def Call.Spares (store : Nat) : Call → Prop
  | .reply _ | .panic _ => True
  | .journal _ rest | .report _ rest | .sleep _ rest => rest.Spares store
  | .clock rest => ∀ now, (rest now).Spares store
  | .today rest => ∀ date, (rest date).Spares store
  | .acquire other _ _ _ rest => other ≠ store ∧ ∀ decision, (rest decision).Spares store
  | .rescue body rest => body.Spares store ∧ ∀ outcome, (rest outcome).Spares store
  | .race body _ rest => body.Spares store ∧ ∀ verdict, (rest verdict).Spares store

namespace World

variable {R : Type} {w w' : World R} {i : Nat}

theorem storeAt_setStore (w : World R) (i : Nat) (s : Store R) :
    (w.setStore i s).storeAt i = if i < w.stores.size then s else w.storeAt i := by
  by_cases h : i < w.stores.size <;> simp [storeAt, setStore, h]

theorem storeAt_setStore_of_ne {j : Nat} (h : j ≠ i) (s : Store R) :
    (w.setStore j s).storeAt i = w.storeAt i := by
  simp [storeAt, setStore, Array.getElem?_setIfInBounds_ne h]

/-- Worlds with as many stores that are alike in one of them. -/
def Agrees (i : Nat) (w w' : World R) : Prop :=
  w.stores.size = w'.stores.size ∧ w.storeAt i = w'.storeAt i

theorem Agrees.symm (h : Agrees i w w') : Agrees i w' w :=
  ⟨h.1.symm, h.2.symm⟩

theorem Agrees.trans {w'' : World R} (h : Agrees i w w') (h' : Agrees i w' w'') :
    Agrees i w w'' :=
  ⟨h.1.trans h'.1, h.2.trans h'.2⟩

theorem Agrees.setStore (h : Agrees i w w') (s : Store R) :
    Agrees i (w.setStore i s) (w'.setStore i s) := by
  obtain ⟨hsize, hstore⟩ := h
  refine ⟨by simpa [World.setStore] using hsize, ?_⟩
  rw [storeAt_setStore, storeAt_setStore, hsize, hstore]

/-- The steps of a call that spares a store leave it as it is. -/
theorem agrees_poll [Amount R] (call : Call) (h : call.Spares i) (w : World R) :
    Agrees i (call.poll w).2 w := by
  induction call generalizing w with
  | reply ctx => exact ⟨rfl, rfl⟩
  | panic fault => exact ⟨rfl, rfl⟩
  | journal line rest ih => exact ih h (w.write [line])
  | report event rest ih => exact ih h (w.report event)
  | clock rest ih => exact ih w.now (h w.now) w
  | today rest ih => exact ih w.date (h w.date) w
  | sleep span rest ih =>
    rw [Call.poll]
    split
    · exact ih h w
    · exact ⟨rfl, rfl⟩
  | acquire store key capacity pace rest ih =>
    obtain ⟨hne, hrest⟩ := h
    have hset : ∀ s, Agrees i (w.setStore store s) w := fun s =>
      ⟨by simp [World.setStore], storeAt_setStore_of_ne hne s⟩
    rw [Call.poll]
    split
    · rename_i s decision _
      exact (ih decision (hrest decision) (w.setStore store s)).trans (hset s)
    · exact hset _
  | rescue body rest ihb ih =>
    obtain ⟨hbody, hrest⟩ := h
    have hb := ihb hbody w
    rw [Call.poll]
    cases hp : body.poll w with
    | mk pause next =>
      rw [hp] at hb
      cases pause with
      | ended outcome =>
        exact (ih outcome (hrest outcome) next).trans hb
      | asleep span inner => exact hb
      | racing racer limit inner => exact hb
  | race body limit rest => exact ⟨rfl, rfl⟩

theorem Agrees.poll [Amount R] {call : Call} (hs : call.Spares i) (h : Agrees i w w') :
    Agrees i (call.poll w).2 (call.poll w').2 :=
  ((agrees_poll call hs w).trans h).trans (agrees_poll call hs w').symm

end World

namespace Limiter

variable {R : Type} [Amount R]

/-- What comes to the store of a limiter: a call, or an operation of the sweeper or of others that
share the store. -/
inductive Visit (R : Type) where
  | call (now : Instant) (ctx : Context)
  | direct (op : Op R)

def isUncounted (l : Limiter) : Visit R → Bool
  | .call _ ctx => (l.keyOf ctx).2 == 0
  | .direct _ => false

def attend (l : Limiter) (next : Handler) (w : World R) : Visit R → World R
  | .call now ctx => ((l.wrap next ctx).poll { w with now := now }).2
  | .direct op => w.setStore l.store ((w.storeAt l.store).perform op).1

def attendAll (l : Limiter) (next : Handler) (w : World R) (visits : List (Visit R)) : World R :=
  visits.foldl (l.attend next) w

variable {l : Limiter} {next : Handler} {w w' : World R}

theorem wrap_of_burst_zero {ctx : Context} (h : (l.keyOf ctx).2 = 0) :
    l.wrap next ctx = next ctx := by
  simp [wrap, h]

theorem spares_reject (l : Limiter) (key : String) (ctx : Context) (retry : Nat)
    (reset : Option Nat) (i : Nat) : (l.reject key ctx retry reset).Spares i :=
  trivial

theorem attendAll_cons (visit : Visit R) (visits : List (Visit R)) :
    l.attendAll next w (visit :: visits) = l.attendAll next (l.attend next w visit) visits :=
  rfl

/-- What becomes of the store of a limiter depends on nothing else of the world. -/
theorem agrees_attend (hn : ∀ ctx, (next ctx).Spares l.store) (h : w.Agrees l.store w')
    (visit : Visit R) : (l.attend next w visit).Agrees l.store (l.attend next w' visit) := by
  cases visit with
  | direct op =>
    rw [attend, attend, h.2]
    exact h.setStore _
  | call now ctx =>
    have htimed : World.Agrees l.store { w with now := now } { w' with now := now } := h
    simp only [attend, wrap]
    by_cases hz : (l.keyOf ctx).2 = 0
    · simp only [hz, beq_self_eq_true, if_true]
      exact htimed.poll (hn ctx)
    · have hb : ((l.keyOf ctx).2 == 0) = false := by simpa using hz
      simp only [hb, Bool.false_eq_true, if_false]
      split
      · exact htimed.poll (spares_reject ..)
      · -- The bucket is asked at the same time in both worlds, so the answers are the same.
        have hstore : World.storeAt { w with now := now } l.store =
            World.storeAt { w' with now := now } l.store := htimed.2
        simp only [Call.poll]
        rw [hstore]
        cases (World.storeAt { w' with now := now } l.store).acquire (l.keyOf ctx).1
            (l.keyOf ctx).2 (l.settings.pace.rate R) now with
        | mk s answer =>
          have hset := htimed.setStore s
          rcases answer with _ | remaining | ⟨wait, retry⟩
          · exact hset
          · exact hset.poll (hn _)
          · exact hset.poll fun date => spares_reject ..

/-- An uncounted call does no more than what is inside the limiter does. -/
theorem agrees_attend_uncounted (hn : ∀ ctx, (next ctx).Spares l.store) {visit : Visit R}
    (hv : l.isUncounted visit = true) : (l.attend next w visit).Agrees l.store w := by
  cases visit with
  | call now ctx =>
    have hz : (l.keyOf ctx).2 = 0 := by simpa [isUncounted] using hv
    rw [attend, wrap_of_burst_zero hz]
    exact World.agrees_poll (next ctx) (hn ctx) { w with now := now }
  | direct op => cases hv

theorem agrees_attendAll (hn : ∀ ctx, (next ctx).Spares l.store) (visits : List (Visit R))
    (h : w.Agrees l.store w') :
    (l.attendAll next w visits).Agrees l.store
      (l.attendAll next w' (visits.filter (!l.isUncounted ·))) := by
  induction visits generalizing w w' with
  | nil => exact h
  | cons visit visits ih =>
    rw [attendAll_cons]
    cases hu : l.isUncounted visit with
    | true =>
      rw [List.filter_cons_of_neg (by simp [hu])]
      exact ih ((agrees_attend_uncounted hn hu).trans h)
    | false =>
      rw [List.filter_cons_of_pos (by simp [hu]), attendAll_cons]
      exact ih (agrees_attend hn h visit)

end Limiter

/-- Two runs that agree on a key and on the sweeps tell the key the same. A limiter lets a call with
a burst of zero through as it is, and such calls leave its store as if they had not come. -/
theorem decisions_isolated {R : Type} [Amount R] :
    (∀ (earlier ops ops' : List (Op R)) (key : String),
      ops.filter (·.concerns key) = ops'.filter (·.concerns key) →
      answersTo key ((Store.empty.run earlier).1.run ops).2 =
        answersTo key ((Store.empty.run earlier).1.run ops').2) ∧
    ∀ (l : Limiter) (sweeper : Option Nat) (next : Handler),
      (∀ ctx, (l.keyOf ctx).2 = 0 →
        ((l.middleware sweeper).invoke next).handler ctx = next ctx) ∧
      ((∀ ctx, (next ctx).Spares l.store) →
        ∀ (w : World R) (visits : List (Limiter.Visit R)),
          (l.attendAll next w visits).storeAt l.store =
            (l.attendAll next w (visits.filter (!l.isUncounted ·))).storeAt l.store) := by
  refine ⟨fun earlier ops ops' key h => ?_, fun l sweeper next => ⟨fun ctx hz => ?_, ?_⟩⟩
  · have hv := (Store.empty_valid (R := R)).run earlier
    rw [(Store.run_filter_concerns hv ops).2, h, ← (Store.run_filter_concerns hv ops').2]
  · exact Limiter.wrap_of_burst_zero hz
  · intro hn w visits
    exact (Limiter.agrees_attendAll hn visits ⟨rfl, rfl⟩).2

/-- Another key drains its bucket, and a call is let through uncounted, between two calls on a key.
The second of these is told to wait for its own first. -/
theorem decisions_isolated_neighbour :
    let mine : Nat → Op Rat := .acquire "mine" 1 1
    let theirs : Nat → Op Rat := .acquire "theirs" 1 1
    let settings : Settings := { Settings.default with keyStrategy := .global }
    let l : Limiter :=
      ⟨"limit", settings, 0, fun ctx =>
        ("global", if ctx.request.path == "/health" then 0 else settings.burst)⟩
    let health := Context.ofRequest ⟨"GET", "/health", .empty, [], none⟩
    let w : World Rat := ⟨0, 0, #[.empty], #[], #[]⟩
    decisions (answersTo "mine" (Store.empty.run [mine 0, theirs 0, theirs 1, mine 5]).2) =
        [some (.admitted 0), some (.rejected ⟨999999995⟩ 1)] ∧
      ((l.middleware none).invoke (Script.handler [])).handler health = .reply health ∧
      (l.attendAll (Script.handler []) w [.call 3 health]).storeAt 0 = .empty := by
  intro mine theirs settings l health w
  obtain ⟨hkeys, hlimiters⟩ := decisions_isolated (R := Rat)
  obtain ⟨hthrough, hstore⟩ := hlimiters l none (Script.handler [])
  have hsame : [mine 0, theirs 0, theirs 1, mine 5].filter (·.concerns "mine") =
      [mine 0, mine 5].filter (·.concerns "mine") := rfl
  have halone : decisions (answersTo "mine" (Store.empty.run [mine 0, mine 5]).2) =
      [some (.admitted 0), some (.rejected ⟨999999995⟩ 1)] := by decide +kernel
  have hkey := hkeys [] _ _ "mine" hsame
  exact ⟨(congrArg decisions hkey).trans halone, hthrough health rfl,
    hstore (fun _ => trivial) w [.call 3 health]⟩

end Switchboard
