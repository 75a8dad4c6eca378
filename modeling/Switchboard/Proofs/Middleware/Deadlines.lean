import Switchboard.Middleware.Deadline
import Switchboard.Proofs.Service.Races
import Switchboard.Proofs.Service.Unheard

/-! A call behind a deadline. Its handler runs as a task of its own, to its end and to the same
effect as without the deadline, and the answer is that of the handler or, at the deadline, the
context as it came in with the status of a timeout. -/

namespace Switchboard

open RateLimit (Amount)

namespace Middleware.Deadline

/-- How a call goes on after its race. -/
def goOn (name : String) (limit : Duration) (ctx : Context) : Verdict → Call
  | .ended outcome => .ofOutcome outcome
  | .late =>
    .report (.deadlineExceeded name ctx.request.path limit)
      (.reply (ctx.mapResponse Rejection.timeout.writeTo))

def lateAnswer (ctx : Context) : Outcome :=
  .replied { ctx with response := { ctx.response with status := 499 } }

/-- What is reported when the deadline is missed. -/
def isMissed (name path : String) (limit : Duration) : Event → Bool
  | .deadlineExceeded name' path' limit' => name' == name && path' == path && limit' == limit
  | _ => false

theorem handler_eq (name : String) (limit : Duration) (handler : Handler) (ctx : Context) :
    ((deadline name limit).invoke handler).handler ctx =
      .race (handler ctx) limit (goOn name limit ctx) := by
  have hrest : goOn name limit ctx = fun
      | .ended outcome => .ofOutcome outcome
      | .late =>
        .report (.deadlineExceeded name ctx.request.path limit)
          (.reply (ctx.mapResponse Rejection.timeout.writeTo)) := by
    funext verdict
    cases verdict <;> rfl
  rw [hrest]
  rfl

theorem settles_goOn {R : Type} [Amount R] (name : String) (limit : Duration) (ctx : Context) :
    Service.Settles R (goOn name limit ctx) (lateAnswer ctx) := by
  intro verdict w
  cases verdict with
  | ended outcome => cases outcome <;> rfl
  | late => rfl

theorem endsUnheard_goOn (name : String) (limit : Duration) (ctx : Context) (verdict : Verdict) :
    (goOn name limit ctx verdict).EndsUnheard (isMissed name ctx.request.path limit) := by
  cases verdict with
  | ended outcome => cases outcome <;> trivial
  | late => exact ⟨by simp [isMissed], trivial⟩

end Middleware.Deadline

namespace Service

variable {R : Type} {s : Service R} {p : Nat}

/-- A task that nobody waits for, and that waits for nobody. -/
structure Lone (p : Nat) (s : Service R) : Prop where
  owner : s.owner? p = some .nobody
  races {q : Nat} : s.isRacing q p = false
  childless {q : Nat} : s.owner? q ≠ some (.parent p)
  /-- Parents are there before their children. -/
  parents {q r : Nat} : s.owner? q = some (.parent r) → r < s.tasks.size
  inOrder : InOrder s.timers
  ahead {timer : Instant × Agent} : timer ∈ s.timers → timer.2 = .task p → s.world.now ≤ timer.1

/-- A service in which nothing refers to a task that is not there. -/
structure Tidy (s : Service R) : Prop where
  parents {q r : Nat} : s.owner? q = some (.parent r) → r < s.tasks.size
  races {q r : Nat} : s.isRacing q r = true → r < s.tasks.size
  inOrder : InOrder s.timers
  timers {timer : Instant × Agent} {q : Nat} : timer ∈ s.timers → timer.2 = .task q →
    q < s.tasks.size

theorem tidy_fresh (date : Nat) : (fresh date : Service R).Tidy where
  parents hq := by simp [owner?, fresh] at hq
  races hr := by simp [isRacing, stage?, fresh] at hr
  inOrder := .nil
  timers hm := absurd hm List.not_mem_nil

/-- A call that comes to such a service from outside is made by a task of this kind. -/
theorem Tidy.lone_addTask (h : s.Tidy) (call : Call) :
    (s.addTask (.ready call) .nobody).1.Lone s.tasks.size := by
  have hturn : Turn (.intake 0) s (s.addTask (.ready call) .nobody).1 :=
    .addTask (fun _ _ _ => Stage.noConfusion) fun _ => Owner.noConfusion
  have hparents : ∀ {q r}, (s.addTask (.ready call) .nobody).1.owner? q = some (.parent r) →
      r < s.tasks.size := fun hq => h.parents ((hturn.parents hq).resolve_right Agent.noConfusion)
  refine ⟨?_, ?_, fun hq => Nat.lt_irrefl _ (hparents hq),
    fun hq => Nat.lt_of_lt_of_le (hparents hq) hturn.size, h.inOrder,
    fun hm ht => absurd (h.timers hm ht) (Nat.lt_irrefl _)⟩
  · simp [owner?, addTask]
  · refine Bool.eq_false_iff.mpr fun hr => ?_
    obtain ⟨task, deadline, rest, ht, hs⟩ := isRacing_iff.mp hr
    rw [addTask, Array.getElem?_push] at ht
    split at ht
    · obtain rfl := Option.some.inj ht
      exact Stage.noConfusion hs
    · exact Nat.lt_irrefl _ (h.races (isRacing_iff.mpr ⟨task, deadline, rest, ht, hs⟩))

theorem Lone.ready (h : s.Lone p) (call : Call) : (s.setStage p (.ready call)).Lone p := by
  have hturn : Turn (.task p) s (s.setStage p (.ready call)) :=
    (Turn.refl s).setStage fun _ _ _ => Stage.noConfusion
  refine ⟨(owner?_setStage ..).trans h.owner,
    hturn.isRacing_eq_false (lt_size_of_owner? h.owner) h.races, fun {q} => ?_, fun ho => ?_,
    h.inOrder, h.ahead⟩
  · rw [owner?_setStage]
    exact h.childless
  · rw [owner?_setStage] at ho
    exact Nat.lt_of_lt_of_le (h.parents ho) hturn.size

theorem size_setStage (s : Service R) (id : Nat) (stage : Stage) :
    (s.setStage id stage).tasks.size = s.tasks.size :=
  Array.size_modify

variable [Amount R]

/-- The turn in which a task sets about a call. -/
def setAbout (s : Service R) (p : Nat) (call : Call) : Service R :=
  (s.setStage p (.ready call)).runTask p

theorem Turn.setAbout (s : Service R) (p : Nat) (call : Call) :
    Turn (.task p) s (s.setAbout p call) :=
  ((Turn.refl s).setStage fun _ _ _ => Stage.noConfusion).trans (Turn.runTask ..)

namespace Lone

variable {body : Call} {limit : Duration} {rest : Verdict → Call} {mute : Event → Bool}

theorem setAbout_eq (h : s.Lone p) (call : Call) :
    s.setAbout p call = (s.setStage p (.ready call)).proceed p call := by
  rw [setAbout, runTask, stage?_setStage h.owner]

theorem race (h : s.Lone p) {late : Outcome} (hl : 0 < limit.nanos) :
    Race rest late p s.tasks.size (s.world.now + limit.nanos)
      (s.setAbout p (.race body limit rest)) := by
  have hready := h.ready (.race body limit rest)
  have hrace : Race rest late p (s.setStage p (.ready (.race body limit rest))).tasks.size
      (s.world.now + limit.nanos) _ :=
    race_proceed body hready.inOrder hready.owner rfl (fun _ => hready.childless) hl
  rwa [size_setStage, ← h.setAbout_eq] at hrace

theorem stage?_setAbout (h : s.Lone p) : (s.setAbout p (.race body limit rest)).stage? p =
    some (.racing s.tasks.size (s.world.now + limit.nanos) rest) := by
  rw [h.setAbout_eq, stage?_proceed_race (h.ready _).owner, size_setStage]
  rfl

theorem owner?_setAbout (h : s.Lone p) (q : Nat) :
    (s.setAbout p (.race body limit rest)).owner? q =
      if q = s.tasks.size then some (.parent p) else s.owner? q := by
  rw [h.setAbout_eq, owner?_proceed_race, size_setStage, owner?_setStage]

theorem child_setAbout (h : s.Lone p) :
    (s.setAbout p (.race body limit rest)).stage? s.tasks.size = some (.ready body) ∧
      (s.setAbout p (.race body limit rest)).Pending (.task s.tasks.size) := by
  rw [h.setAbout_eq, ← size_setStage s p (.ready (.race body limit rest))]
  exact child_proceed_race (h.ready _).owner

theorem unheard (h : s.Lone p) (hr : ∀ verdict, (rest verdict).EndsUnheard mute) :
    (s.setAbout p (.race body limit rest)).Unheard p mute := by
  have hturn := Turn.setAbout s p (.race body limit rest)
  have hp := lt_size_of_owner? h.owner
  refine ⟨⟨_, task?_iff.mpr ⟨h.stage?_setAbout, ?_⟩, hr⟩, hturn.isRacing_eq_false hp h.races,
    hturn.inOrder h.inOrder, fun hm ht => ?_⟩
  · rw [h.owner?_setAbout, if_neg (Nat.ne_of_lt hp), h.owner]
  · rw [hturn.now]
    rcases hturn.set hm with hm | ⟨-, hle | ⟨id, he⟩⟩
    · exact h.ahead hm ht
    · exact hle
    · exact Agent.noConfusion he

/-- Without the task that races it, its child is a task of its own. -/
theorem without_setAbout (h : s.Lone p) : (s.setAbout p (.race body limit rest)).without p mute =
    ((s.without p mute).spawn (.ready body) .nobody).1 := by
  have hp := lt_size_of_owner? (h.ready (.race body limit rest)).owner
  have hspawn : (spawn (s.setStage p (.ready (.race body limit rest))) (.ready body)
      (.parent p)).1.without p mute = _ := without_spawn hp _ _
  rw [without_setStage_self] at hspawn
  rw [h.setAbout_eq]
  refine (without_setTimer_self _ _).trans ((without_setStage_self _ _).trans (hspawn.trans ?_))
  simp [Owner.without]

/-- A child that is to race another task does so in its first turn. -/
theorem begins (h : s.Lone p) (innerBody : Call) (innerLimit : Duration)
    (innerRest : Verdict → Call) : Begins innerBody innerLimit innerRest s.tasks.size s.world.now
      (s.setAbout p (.race (.race innerBody innerLimit innerRest) limit rest)) := by
  have hturn := Turn.setAbout s p (.race (.race innerBody innerLimit innerRest) limit rest)
  obtain ⟨hstage, hpending⟩ := h.child_setAbout
  refine ⟨hturn.inOrder h.inOrder, ⟨.parent p, ?_, rfl⟩, fun {q} hq => ?_, hstage, hpending,
    hturn.now⟩
  · rw [h.owner?_setAbout, if_pos rfl]
  · rw [h.owner?_setAbout] at hq
    split at hq
    · have he := Owner.parent.inj (Option.some.inj hq)
      exact absurd he (Nat.ne_of_lt (lt_size_of_owner? h.owner))
    · exact absurd (h.parents hq) (Nat.lt_irrefl _)

/-- Of two deadlines, one around the other, the earlier decides. -/
theorem exists_ending_nested (h : s.Lone p) {inner outer : Duration} {innerRest : Verdict → Call}
    {late : Outcome} (hir : Settles R innerRest late) (hor : Settles R rest late)
    (hi : 0 < inner.nanos) (ho : 0 < outer.nanos) (hne : outer.nanos ≠ inner.nanos) {r : Service R}
    (hg : (s.setAbout p (.race (.race body inner innerRest) outer rest)).Goes r) (hr : r.AtRest) :
    ∃ work, (∀ q, r.owner? q = some (.parent s.tasks.size) ↔ q = work) ∧
      ((∀ outcome time, r.ending work = some (outcome, time) →
        time ≠ s.world.now + outer.nanos ∧ time ≠ s.world.now + inner.nanos) →
        r.ending p = cutOff (s.world.now + min outer.nanos inner.nanos) late r.world.now
          (r.ending work)) := by
  have houter := (h.race ho).goes hor hg
  obtain ⟨work, hinner⟩ : ∃ work,
      Race innerRest late s.tasks.size work (s.world.now + inner.nanos) r :=
    ((h.begins body inner innerRest).goes hi hir hg).resolve_left
      fun hb => hr.not_pending _ hb.pending
  refine ⟨work, fun q => hinner.child, fun hd => ?_⟩
  have hchild := hinner.ending_eq hr fun outcome time he => (hd outcome time he).2
  have hapart : ∀ outcome time, r.ending s.tasks.size = some (outcome, time) →
      time ≠ s.world.now + outer.nanos := by
    intro outcome time he
    rw [hchild] at he
    rcases eq_of_cutOff he with rfl | he
    · exact fun he => hne (Nat.add_left_cancel he).symm
    · exact (hd outcome time he).1
  rw [houter.ending_eq hr hapart, hchild, cutOff_cutOff, Nat.add_min_add_left]

end Lone

end Service

open Service Middleware.Deadline

/-- A handler behind a deadline, made by a task that nobody waits for. -/
theorem deadline_race {R : Type} [Amount R] {s : Service R} {p : Nat} (h : s.Lone p)
    (name : String) {limit : Duration} (hl : 0 < limit.nanos) (handler : Handler) (ctx : Context) :
    let within (name : String) (limit : Duration) (handler : Handler) : Handler :=
      ((Middleware.deadline name limit).invoke handler).handler
    let missed := isMissed name ctx.request.path limit
    let raced := s.setAbout p (within name limit handler ctx)
    let alone := ((s.without p missed).spawn (.ready (handler ctx)) .nobody).1
    let child := s.tasks.size
    let due := s.world.now + limit.nanos
    (∀ r, raced.Goes r → (∀ q, r.owner? q = some (.parent p) ↔ q = child) ∧
      (r.AtRest → (∀ outcome time, r.ending child = some (outcome, time) → time ≠ due) →
        r.ending p = cutOff due (lateAnswer ctx) r.world.now (r.ending child))) ∧
    (∀ r, raced.Goes r → ∃ a, alone.Goes a ∧ (r.AtRest → a.AtRest) ∧
      r.without p missed = a.without p missed) ∧
    (∀ a, alone.Goes a → ∃ r, raced.Goes r ∧ (a.AtRest → r.AtRest) ∧
      a.without p missed = r.without p missed) ∧
    ∀ (outerName innerName : String) (outer inner : Duration), 0 < outer.nanos → 0 < inner.nanos →
      outer.nanos ≠ inner.nanos → ∀ r,
      (s.setAbout p (within outerName outer (within innerName inner handler) ctx)).Goes r →
      r.AtRest → ∃ work, (∀ q, r.owner? q = some (.parent child) ↔ q = work) ∧
        ((∀ outcome time, r.ending work = some (outcome, time) →
          time ≠ s.world.now + outer.nanos ∧ time ≠ s.world.now + inner.nanos) →
          r.ending p = cutOff (s.world.now + min outer.nanos inner.nanos) (lateAnswer ctx)
            r.world.now (r.ending work) ∧
          ∀ single, limit.nanos = min outer.nanos inner.nanos → raced.Goes single →
            single.AtRest → single.ending child = r.ending work →
            (r.ending work = none → single.world.now = r.world.now) →
              single.ending p = r.ending p) := by
  intro within missed raced alone child due
  have hwithin : ∀ name limit (handler : Handler),
      within name limit handler ctx = .race (handler ctx) limit (goOn name limit ctx) :=
    fun name limit handler => handler_eq name limit handler ctx
  have hraced : raced = s.setAbout p (.race (handler ctx) limit (goOn name limit ctx)) :=
    congrArg (s.setAbout p) (hwithin ..)
  have hrace : ∀ r, raced.Goes r → Race (goOn name limit ctx) (lateAnswer ctx) p child due r :=
    fun r hg => (hraced ▸ h.race hl).goes (settles_goOn name limit ctx) hg
  have hunheard : raced.Unheard p missed := hraced ▸ h.unheard (endsUnheard_goOn name limit ctx)
  have halone : raced.without p missed = alone := hraced ▸ h.without_setAbout
  have hhidden : alone.Unheard p missed := halone ▸ hunheard.hidden
  have halike : raced.without p missed = alone.without p missed := by
    rw [← halone, without_without]
  refine ⟨fun r hg => ⟨fun q => (hrace r hg).child, (hrace r hg).ending_eq⟩, fun r hg => ?_,
    fun a hg => ?_, ?_⟩
  · exact hunheard.exists_goes_atRest hhidden halike hg
  · exact hhidden.exists_goes_atRest hunheard halike.symm hg
  · intro outerName innerName outer inner ho hi hne r hg hr
    have hnested : s.setAbout p (within outerName outer (within innerName inner handler) ctx) =
        s.setAbout p (.race (.race (handler ctx) inner (goOn innerName inner ctx)) outer
          (goOn outerName outer ctx)) := by
      rw [hwithin, hwithin]
    obtain ⟨work, hwork, hending⟩ := h.exists_ending_nested (settles_goOn innerName inner ctx)
      (settles_goOn outerName outer ctx) hi ho hne (hnested ▸ hg) hr
    refine ⟨work, hwork, fun hd => ⟨hending hd, fun single hmin hs hrest hsame hclock => ?_⟩⟩
    have hfirst : due = s.world.now + min outer.nanos inner.nanos := by rw [← hmin]
    have hapart : ∀ outcome time, single.ending child = some (outcome, time) → time ≠ due := by
      intro outcome time he
      have hne' := hd outcome time (hsame ▸ he)
      rw [hfirst, Nat.min_def]
      split
      · exact hne'.1
      · exact hne'.2
    rw [hending hd, (hrace single hs).ending_eq hrest hapart, hsame, hfirst]
    cases hw : r.ending work with
    | none => rw [hclock hw]
    | some found => rfl

/-- A handler that takes two seconds and has one. -/
theorem deadline_race_slow :
    let ctx := Context.ofRequest ⟨"GET", "/slow", .empty, [], none⟩
    let handler : Handler := fun ctx => .sleep (.ofSeconds 2) (.journal "done" (.reply ctx))
    let s : Service Rat := ((fresh 0).addTask (.ready (.reply ctx)) .nobody).1
    let timely := ((Middleware.deadline "timeout" (.ofSeconds 1)).invoke handler).handler
    ∃ r, (s.setAbout 0 (timely ctx)).Goes r ∧ r.AtRest ∧ r.world.journal = #["done"] ∧
      (r.ending 1).map (·.2) = some 2000000000 ∧
      r.ending 0 = some (lateAnswer ctx, 1000000000) := by
  intro ctx handler s timely
  have hlimit : 0 < (Duration.ofSeconds 1).nanos := by decide
  obtain ⟨hsettled, -, -, -⟩ :=
    deadline_race ((tidy_fresh 0).lone_addTask (.reply ctx) : s.Lone 0) "timeout" hlimit handler ctx
  let raced := s.setAbout 0 (timely ctx)
  have hpunctual : raced.Punctual := by
    have htimers : raced.timers = [(1000000000, .task 0)] := by decide +kernel
    have hsweepers : raced.sweepers = #[] := rfl
    have hnow : raced.world.now = 0 := by decide +kernel
    refine ⟨?_, fun _ => ?_, fun hs => ?_⟩
    · rw [htimers]
      exact List.pairwise_singleton _ _
    · rw [hnow]
      exact Nat.zero_le _
    · simp [hsweepers] at hs
  have hgoes := goes_drive (fun _ => false) 6 hpunctual
  have hqueue : (raced.drive (fun _ => false) 6).queue = [] := by decide +kernel
  have hresumed : (raced.drive (fun _ => false) 6).resumed = false := by decide +kernel
  have hjournal : (raced.drive (fun _ => false) 6).world.journal = #["done"] := by decide +kernel
  have hend : ((raced.drive (fun _ => false) 6).ending 1).map (·.2) = some 2000000000 := by
    decide +kernel
  generalize raced.drive (fun _ => false) 6 = r at hgoes hqueue hresumed hjournal hend
  have hrest : r.AtRest := ⟨hqueue, fun hr => by simp [hresumed] at hr⟩
  obtain ⟨⟨outcome, time⟩, hchild, htime⟩ := Option.map_eq_some_iff.mp hend
  obtain rfl : time = 2000000000 := htime
  have hapart : ∀ outcome time, r.ending 1 = some (outcome, time) → time ≠ 0 + 1000000000 := by
    intro outcome' time he
    obtain ⟨-, rfl⟩ := Prod.mk.inj (Option.some.inj (hchild.symm.trans he))
    decide
  have hlate : r.ending 0 = cutOff (0 + 1000000000) (lateAnswer ctx) r.world.now (r.ending 1) :=
    (hsettled r hgoes).2 hrest hapart
  rw [hchild] at hlate
  exact ⟨r, hgoes, hrest, hjournal, hend, hlate⟩

end Switchboard
