import Switchboard.Middleware.Auth
import Switchboard.Middleware.Timing
import Switchboard.Proofs.Middleware.Passage

/-! Middleware as layers: its parts before and after the call, written apart. -/

namespace Switchboard

mutual

theorem Action.run_andThen : (action : Action) → (ctx : Context) →
    (first second : Context → Call) →
    (action.run ctx first).andThen second =
      action.run ctx fun ctx => (first ctx).andThen second
  | .status _, _, _, _ => rfl
  | .body _, _, _, _ => rfl
  | .header name value, ctx, first, second => by
    simp only [Action.run]
    split <;> rfl
  | .append _, _, _, _ => rfl
  | .echo, _, _, _ => rfl
  | .upper, _, _, _ => rfl
  | .param _, _, _, _ => rfl
  | .params, _, _, _ => rfl
  | .request, _, _, _ => rfl
  | .value _, _, _, _ => rfl
  | .set _ _, _, _, _ => rfl
  | .clear, _, _, _ => rfl
  | .log _, _, _, _ => rfl
  | .sleep _, _, _, _ => rfl
  | .panic _, _, _, _ => rfl
  | .ifHeader name actions, ctx, first, second => by
    simp only [Action.run]
    split
    · exact Script.run_andThen actions ctx first second
    · rfl
  | .ifPath path actions, ctx, first, second => by
    simp only [Action.run]
    split
    · exact Script.run_andThen actions ctx first second
    · rfl

theorem Script.run_andThen : (script : Script) → (ctx : Context) →
    (first second : Context → Call) →
    (Script.run script ctx first).andThen second =
      Script.run script ctx fun ctx => (first ctx).andThen second
  | [], _, _, _ => rfl
  | action :: rest, ctx, first, second => by
    rw [Script.run, Script.run, Action.run_andThen action ctx]
    congr 1
    funext ctx
    exact Script.run_andThen rest ctx first second

end

/-- A script goes on where its handler would reply. -/
theorem Script.run_eq_andThen (script : Script) (ctx : Context) (next : Context → Call) :
    Script.run script ctx next = (script.handler ctx).andThen next :=
  (Script.run_andThen script ctx .reply next).symm

namespace Middleware

def Layer.scripted (name : String) (before after : Script) (skip : Bool) : Layer :=
  fun ctx entry => ∃ trace ctx', Part.of before.handler ctx trace ctx' ∧
    entry = ⟨.journal (name ++ ":in") :: trace, ctx', !skip,
      .of fun ctx => Script.run after ctx fun ctx => .journal (name ++ ":out") (.reply ctx)⟩

theorem part_skip_iff {ctx last : Context} {trace : List Exchange} :
    (Call.reply ctx).Runs trace (.replied last) ↔ Part.skip ctx trace last := by
  rw [Call.runs_reply_iff, Part.skip, Outcome.replied.injEq]

theorem describes_scripted (name : String) (before after : Script) (skip : Bool) :
    Describes (.scripted name before after skip) (.scripted name before after skip) := by
  intro next ctx trace last
  have hinner : ∀ {ctx ctx' : Context} {inner : List Exchange},
      (if skip then Call.reply ctx else next ctx).Runs inner (.replied ctx') ↔
        (if !skip then Part.of next else Part.skip) ctx inner ctx' := by
    cases skip with
    | false => exact Iff.rfl
    | true => exact part_skip_iff
  constructor
  · intro h
    obtain ⟨tail, rfl, hs⟩ := Call.runs_journal_iff.mp h
    rw [Script.run_eq_andThen before] at hs
    obtain ⟨first, ctx', second, hb, hr, rfl⟩ := Call.runs_andThen_iff.mp hs
    obtain ⟨inner, back, outer, hi, ha, rfl⟩ := Call.runs_andThen_iff.mp hr
    exact ⟨_, inner, back, outer, ⟨first, ctx', hb, rfl⟩, hinner.mp hi, ha, by simp⟩
  · rintro ⟨_, inner, back, outer, ⟨first, ctx', hb, rfl⟩, hi, ha, rfl⟩
    refine Call.runs_journal_iff.mpr ⟨first ++ (inner ++ outer), by simp, ?_⟩
    rw [Script.run_eq_andThen before]
    exact hb.andThen ((hinner.mpr hi).andThen ha)

def Layer.timing : Layer :=
  fun ctx entry => ∃ start, entry = ⟨[.clock start], ctx, true,
    .of fun ctx => .clock fun stop => .reply (ctx.set "request_time" (.duration ⟨stop - start⟩))⟩

theorem describes_timing (name : String) : Describes .timing (.timing name) := by
  intro next ctx trace last
  constructor
  · intro h
    obtain ⟨start, tail, rfl, hr⟩ := Call.runs_clock_iff.mp h
    obtain ⟨inner, ctx', outer, hn, ha, rfl⟩ := Call.runs_andThen_iff.mp hr
    exact ⟨_, inner, ctx', outer, ⟨start, rfl⟩, hn, ha, rfl⟩
  · rintro ⟨_, inner, ctx', outer, ⟨start, rfl⟩, hn, ha, rfl⟩
    exact Call.runs_clock_iff.mpr
      ⟨start, inner ++ outer, rfl, Call.runs_andThen_iff.mpr ⟨inner, ctx', outer, hn, ha, rfl⟩⟩

end Middleware

end Switchboard
