import SetGrammar.Proofs.Recognition.Steps

/-!
# Silent computations

A computation that is silent adds no error to those that were there, also if it ends
early. There is a rule for each way in which computations are put together.
-/
namespace SetGrammar

namespace Run

/-- The state in which a computation ends, also if it ends early. -/
def stateAfter {α : Type} (m : Run α) (s : RunState) : RunState :=
  match m s with
  | .ok _ s' | .error _ s' => s'

/-- A computation reports nothing, also if it ends early. -/
def Silent {α : Type} (m : Run α) : Prop := ∀ s, (m.stateAfter s).errors = s.errors

variable {α β : Type}

theorem stateAfter_of_ok {m : Run α} {x : α} {s s' : RunState} (run : m s = .ok x s') :
    m.stateAfter s = s' := by
  rw [stateAfter, run]

theorem stateAfter_of_error {m : Run α} {e : RunError} {s s' : RunState}
    (run : m s = .error e s') : m.stateAfter s = s' := by
  rw [stateAfter, run]

theorem stateAfter_bind (m : Run α) (f : α → Run β) (s : RunState) :
    (m >>= f).stateAfter s =
      match m s with
      | .ok x s₁ => (f x).stateAfter s₁
      | .error _ s₁ => s₁ := by
  unfold stateAfter
  show (match EStateM.bind m f s with
    | .ok _ s' | .error _ s' => s') = _
  unfold EStateM.bind
  cases m s with
  | ok x s₁ => rfl
  | error e s₁ => rfl

theorem silent_pure {x : α} : (pure x : Run α).Silent := fun _ => rfl

theorem silent_bind {m : Run α} {f : α → Run β} (first : m.Silent) (next : ∀ x, (f x).Silent) :
    (m >>= f).Silent := by
  intro s
  rw [stateAfter_bind]
  have began := first s
  cases run : m s with
  | ok x s₁ =>
    rw [stateAfter_of_ok run] at began
    exact (next x s₁).trans began
  | error e s₁ =>
    rw [stateAfter_of_error run] at began
    exact began

theorem silent_get : (get : Run RunState).Silent := fun _ => rfl

theorem silent_modify {f : RunState → RunState} (keeps : ∀ s, (f s).errors = s.errors) :
    (modify f : Run Unit).Silent := keeps

theorem silent_ite {p : Prop} [Decidable p] {m n : Run α} (yes : p → m.Silent)
    (no : ¬p → n.Silent) : (if p then m else n).Silent := by
  by_cases holds : p
  · rw [if_pos holds]
    exact yes holds
  · rw [if_neg holds]
    exact no holds

theorem silent_emit {e : Event} : (emit e).Silent := silent_modify fun _ => rfl

theorem silent_takeBindings : takeBindings.Silent := fun _ => rfl

theorem silent_bindLabel {rule label : String} {value : Capture} :
    (Run.bind rule label value).Silent :=
  silent_bind silent_emit fun _ => silent_modify fun _ => rfl

theorem silent_tick {limits : Limits} : (tick limits).Silent := by
  refine silent_bind silent_get fun s => ?_
  cases s.fuel with
  | zero => exact fun _ => rfl
  | succ left => exact silent_modify fun _ => rfl

theorem silent_attempt {m : Run Bool} (inner : m.Silent) : (attempt m).Silent := by
  refine silent_bind silent_get fun start => silent_bind inner fun matched => ?_
  refine silent_ite (fun _ => ?_) fun _ => silent_pure
  exact silent_bind (silent_modify fun _ => rfl) fun _ => silent_pure

end Run

namespace Recognizer

open Run

/-- Using up a symbol reports nothing. -/
theorem silent_accept {scope : Scope} {t : Transition} {outcome : TestResult} :
    (accept scope t outcome).Silent := by
  have moves {next : Run Unit} (inner : next.Silent) :
      (if outcome.consumes then get >>= fun s => Run.seek (s.index + 1) >>= fun _ => next
        else next : Run Unit).Silent :=
    silent_ite (fun _ => silent_bind silent_get fun _ =>
      silent_bind (silent_modify fun _ => rfl) fun _ => inner) fun _ => inner
  unfold accept
  cases t.label with
  | none => exact moves silent_pure
  | some label =>
    cases outcome.bound? with
    | none => exact moves silent_pure
    | some value => exact moves silent_bindLabel

end Recognizer

end SetGrammar
