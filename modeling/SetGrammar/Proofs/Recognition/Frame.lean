import SetGrammar.Proofs.Recognition.Silence

/-!
# What a match leaves as it was

Whatever is matched, the bindings that were made before are still there, and the
furthest index does not go back. A part that fails leaves the index and the
bindings as they were, also after recovery has skipped symbols. While alternatives
are being tried nothing is reported.
-/
namespace SetGrammar

/-- A later state of a run, in which only the bindings at the front are new. -/
structure RunState.Extends (speculative : Bool) (s s' : RunState) : Prop where
  bindings : s.bindings <:+ s'.bindings
  furthest : s.furthest ≤ s'.furthest
  errors : speculative = true → s'.errors = s.errors

namespace RunState.Extends

variable {speculative : Bool} {s s₁ s' : RunState}

theorem refl (s : RunState) : s.Extends speculative s :=
  ⟨List.suffix_refl _, Nat.le_refl _, fun _ => rfl⟩

theorem trans (first : s.Extends speculative s₁) (next : s₁.Extends speculative s') :
    s.Extends speculative s' :=
  ⟨first.bindings.trans next.bindings, Nat.le_trans first.furthest next.furthest,
    fun tried => (next.errors tried).trans (first.errors tried)⟩

end RunState.Extends

namespace Run

variable {α β : Type} {speculative : Bool}

/-- A computation that goes well ends in a later state. -/
def Extends (speculative : Bool) (m : Run α) : Prop :=
  ∀ ⦃s a s'⦄, m s = .ok a s' → s.Extends speculative s'

/-- A computation that goes well and ends in a later state. If its result is a
    failure, the index and the bindings are as they were. -/
structure Framed (speculative : Bool) (failure : α) (m : Run α) : Prop where
  later : m.Extends speculative
  undone : ∀ ⦃s s'⦄, m s = .ok failure s' → s'.index = s.index ∧ s'.bindings = s.bindings

theorem extends_pure {a : α} : Extends speculative (pure a : Run α) := by
  intro s b s' run
  obtain ⟨-, rfl⟩ := pure_eq_ok.1 run
  exact .refl s

theorem extends_throw {e : RunError} : Extends speculative (throw e : Run α) :=
  fun _ _ _ run => (throw_eq_ok.1 run).elim

theorem extends_bind {m : Run α} {f : α → Run β} (first : m.Extends speculative)
    (next : ∀ a, (f a).Extends speculative) : (m >>= f).Extends speculative := by
  intro s b s' run
  obtain ⟨a, s₁, began, ended⟩ := bind_eq_ok.1 run
  exact (first began).trans (next a ended)

theorem extends_get : Extends speculative (get : Run RunState) := by
  rintro s a s' ⟨⟩
  exact .refl s

theorem extends_modify {f : RunState → RunState}
    (later : ∀ s : RunState, s.Extends speculative (f s)) :
    (modify f : Run Unit).Extends speculative := by
  rintro s a s' ⟨⟩
  exact later s

theorem extends_ite {p : Prop} [Decidable p] {m n : Run α} (yes : p → m.Extends speculative)
    (no : ¬p → n.Extends speculative) : (if p then m else n).Extends speculative := by
  by_cases holds : p
  · rw [if_pos holds]
    exact yes holds
  · rw [if_neg holds]
    exact no holds

theorem extends_emit {e : Event} : (emit e).Extends speculative :=
  extends_modify fun _ => ⟨List.suffix_refl _, Nat.le_refl _, fun _ => rfl⟩

theorem extends_seek {i : Nat} : (seek i).Extends speculative :=
  extends_modify fun _ => ⟨List.suffix_refl _, Nat.le_refl _, fun _ => rfl⟩

theorem extends_bindLabel {rule label : String} {value : Capture} :
    (Run.bind rule label value).Extends speculative :=
  extends_bind extends_emit fun _ =>
    extends_modify fun _ => ⟨List.suffix_cons _ _, Nat.le_refl _, fun _ => rfl⟩

theorem extends_tick {limits : Limits} : (tick limits).Extends speculative := by
  intro s a s' run
  obtain ⟨left, -, rfl⟩ := tick_eq_ok.1 run
  exact ⟨List.suffix_refl _, Nat.le_refl _, fun _ => rfl⟩

theorem extends_discard {m : Run α} (inner : m.Extends speculative) :
    (discard m : Run Unit).Extends speculative := by
  intro s a s' run
  obtain ⟨b, run⟩ := discard_eq_ok.1 run
  exact inner run

/-- An attempt takes bindings away, but only those that it made. -/
theorem framed_attempt {m : Run Bool} (inner : m.Extends speculative) :
    (attempt m).Framed speculative false := by
  constructor
  · intro s matched s' run
    obtain ⟨s₁, ran, rfl⟩ := attempt_eq_ok.1 run
    have later := inner ran
    cases matched with
    | true => exact later
    | false => exact ⟨List.suffix_refl _, later.furthest, later.errors⟩
  · intro s s' run
    obtain ⟨s₁, -, rfl⟩ := attempt_eq_ok.1 run
    exact ⟨rfl, rfl⟩

end Run

namespace Recognizer

open Run

variable {r : Recognizer} {scope : Scope}

/-! ## Sets -/

theorem extends_testSymbol {t : Transition} {l : Repetition} :
    (r.testSymbol scope t l).Extends scope.speculative := by
  intro s outcome s' run
  have looked {events : List Event} : s.Extends scope.speculative
      { s with furthest := max s.furthest s.index, events } :=
    ⟨List.suffix_refl _, Nat.le_max_left _ _, fun _ => rfl⟩
  obtain ⟨events, ⟨-, -, rfl⟩ | ⟨-, ⟨-, rfl, -⟩ | ⟨-, -, calm, recovered⟩⟩⟩ := testSymbol_ok run
  · exact looked
  · exact looked
  · have speaks {P : Prop} (tried : scope.speculative = true) : P := by
      rw [calm] at tried
      cases tried
    rcases recover_ok calm recovered with ⟨events', -, -, -, rfl⟩ | ⟨-, -, rfl⟩ | ⟨-, rfl⟩ <;>
      exact ⟨List.suffix_refl _, Nat.le_max_left _ _, speaks⟩

/-- A test that fails may report, but it stays where it is. -/
theorem testSymbol_failed {t : Transition} {l : Repetition} {s s' : RunState}
    (run : r.testSymbol scope t l s = .ok .failed s') :
    s'.index = s.index ∧ s'.bindings = s.bindings := by
  obtain ⟨events, ⟨-, matched, -⟩ | ⟨-, ⟨-, rfl, -⟩ | ⟨-, -, calm, recovered⟩⟩⟩ :=
    testSymbol_ok run
  · cases matched
  · exact ⟨rfl, rfl⟩
  · rcases recover_ok calm recovered with ⟨events', -, admits, tested, -⟩ | ⟨-, conjured, -⟩ |
      ⟨-, rfl⟩
    · -- a symbol is skipped only if the next one is admitted
      rw [Transition.test, if_pos admits] at tested
      cases tested
    · cases conjured
    · exact ⟨rfl, rfl⟩

theorem extends_accept {t : Transition} {outcome : TestResult} {speculative : Bool} :
    (accept scope t outcome).Extends speculative := by
  have moves {next : Run Unit} (inner : next.Extends speculative) :
      (if outcome.consumes then get >>= fun s => Run.seek (s.index + 1) >>= fun _ => next
        else next : Run Unit).Extends speculative :=
    extends_ite (fun _ => extends_bind extends_get fun _ =>
      extends_bind extends_seek fun _ => inner) fun _ => inner
  unfold accept
  cases t.label with
  | none => exact moves extends_pure
  | some label =>
    cases outcome.bound? with
    | none => exact moves extends_pure
    | some value => exact moves extends_bindLabel

theorem extends_repeatSet {t : Transition} {tests : Nat} {l : Repetition} :
    (r.repeatSet scope t tests l).Extends scope.speculative := by
  induction tests generalizing l with
  | zero => exact extends_throw
  | succ tests ih =>
    refine extends_bind extends_tick fun _ => ?_
    refine extends_bind extends_testSymbol fun outcome => ?_
    refine extends_bind extends_accept fun _ => ?_
    cases state : (l.step outcome.succeeds).state with
    | done =>
      simp only [state]
      exact extends_ite (fun _ => extends_bind extends_emit fun _ => extends_pure)
        fun _ => extends_pure
    | failed =>
      simp only [state]
      exact extends_pure
    | start | looping =>
      simp only [state]
      exact ih

/-- After a match, nothing is required any more. -/
theorem state_step_true {l : Repetition} (opened : l.state = .start ∨ l.state = .looping) :
    (l.step true).state = .looping ∨ (l.step true).state = .done := by
  unfold Repetition.step
  rcases opened with state | state <;> rw [state] <;> cases l.quantifier.repeats <;> simp

theorem repeatSet_looping {t : Transition} {tests : Nat} {l : Repetition} {s s' : RunState}
    (looping : l.state = .looping) (run : r.repeatSet scope t tests l s = .ok false s') :
    False := by
  induction tests generalizing l s with
  | zero => exact repeatSet_zero_ok run
  | succ tests ih =>
    obtain ⟨left, outcome, s₁, s₂, -, -, -, continues⟩ := repeatSet_succ_ok run
    unfold Continues at continues
    cases succeeds : outcome.succeeds with
    | true =>
      rw [succeeds] at continues
      rcases state_step_true (.inr looping) with next | next <;> rw [next] at continues
      · exact ih next continues
      · exact Bool.false_ne_true continues.1
    | false =>
      have done : (l.step false).state = .done := by simp [Repetition.step, looping]
      rw [succeeds, done] at continues
      exact Bool.false_ne_true continues.1

/-- Only the first test can make the loop fail, and it used up nothing. -/
theorem repeatSet_start {t : Transition} {tests : Nat} {l : Repetition} {s s' : RunState}
    (start : l.state = .start) (run : r.repeatSet scope t tests l s = .ok false s') :
    s'.index = s.index ∧ s'.bindings = s.bindings := by
  cases tests with
  | zero => exact (repeatSet_zero_ok run).elim
  | succ tests =>
    obtain ⟨left, outcome, s₁, s₂, -, tested, accepted, continues⟩ := repeatSet_succ_ok run
    unfold Continues at continues
    cases outcome with
    | matched | conjured =>
      rcases state_step_true (.inl start) with next | next <;>
        rw [TestResult.succeeds, next] at continues
      · exact (repeatSet_looping next continues).elim
      · cases continues.1
    | failed =>
      have failed : (l.step false).state = .failed := by simp [Repetition.step, start]
      rw [TestResult.succeeds, failed] at continues
      obtain ⟨-, rfl⟩ := continues
      cases accepted.symm.trans (accept_unused rfl)
      have undone := testSymbol_failed tested
      exact undone

theorem framed_set {t : Transition} : (r.set scope t).Framed scope.speculative false := by
  refine ⟨extends_bind extends_get fun _ => extends_repeatSet, fun s s' run => ?_⟩
  have run : r.repeatSet scope t (s.fuel + 1) (.ofQuantifier t.quantifier) s = .ok false s' := run
  cases optional : t.quantifier.allowsNone with
  | true =>
    exact (repeatSet_looping (by simp [Repetition.ofQuantifier, optional]) run).elim
  | false => exact repeatSet_start (by simp [Repetition.ofQuantifier, optional]) run

/-! ## Branches -/

/-- A failure may be reported, but not while alternatives are being tried further out. -/
theorem framed_decision {isMandatory : Bool} {choice : Run Bool}
    (tried : choice.Framed true false) :
    (r.decision scope isMandatory choice).Framed scope.speculative false := by
  constructor
  · intro s matched s' run
    obtain ⟨s₁, chosen, ⟨rfl, -⟩ | ⟨-, -, -, calm, rfl⟩⟩ := decision_ok run
    · have later := tried.later chosen
      exact ⟨later.bindings, Nat.le_max_left _ _, fun _ => later.errors rfl⟩
    · have later := tried.later chosen
      refine ⟨later.bindings, Nat.le_max_left _ _, fun speculative => ?_⟩
      cases speculative.symm.trans calm
  · intro s s' run
    obtain ⟨s₁, chosen, outcome⟩ := decision_ok run
    have undone := tried.undone chosen
    rcases outcome with ⟨rfl, -⟩ | ⟨-, -, -, -, rfl⟩ <;> exact undone

theorem framed_iterate {label : Option String} {iteration : Run Bool}
    (inner : iteration.Framed scope.speculative false) :
    (r.iterate scope label iteration).Framed scope.speculative Iteration.failed := by
  constructor
  · intro s outcome s' run
    obtain ⟨matched, s₁, iterated, ⟨-, -, rfl⟩ | ⟨-, -, events, rfl⟩⟩ := iterate_ok run
    · exact inner.later iterated
    · have later := inner.later iterated
      exact ⟨later.bindings.trans (List.suffix_append _ _), later.furthest, later.errors⟩
  · intro s s' run
    obtain ⟨matched, s₁, iterated, ⟨rfl, -, rfl⟩ | ⟨-, failed, -⟩⟩ := iterate_ok run
    · exact inner.undone iterated
    · split at failed <;> cases failed

theorem extends_repeatWhile {iteration : Run Iteration} {rounds : Nat}
    (inner : iteration.Extends scope.speculative) :
    (r.repeatWhile iteration rounds).Extends scope.speculative := by
  induction rounds with
  | zero => exact extends_throw
  | succ rounds ih =>
    refine extends_bind inner fun outcome => ?_
    cases outcome with
    | failed | stalled => exact extends_pure
    | advanced => exact ih

theorem bind_return_true {α : Type} {m : Run α} {s s' : RunState}
    (run : (m >>= fun _ => pure true) s = .ok false s') : False := by
  obtain ⟨a, s₁, -, done⟩ := bind_eq_ok.1 run
  cases (pure_eq_ok.1 done).1

/-- A repetition fails only where the iteration that is required does. -/
theorem framed_repeated {q : Quantifier} {mandatory optional : Run Iteration}
    (required : mandatory.Framed scope.speculative Iteration.failed)
    (allowed : optional.Framed scope.speculative Iteration.failed) :
    (r.repeated q mandatory optional).Framed scope.speculative false := by
  have rest : Framed scope.speculative false
      (do r.repeatWhile optional ((← get).fuel + 1); return true : Run Bool) :=
    ⟨extends_bind extends_get fun _ =>
      extends_bind (extends_repeatWhile allowed.later) fun _ => extends_pure,
      fun s s' run => (bind_return_true (get_bind_apply.symm.trans run)).elim⟩
  cases q with
  | once =>
    refine ⟨extends_bind required.later fun _ => extends_pure, fun s s' run => ?_⟩
    obtain ⟨outcome, s₁, ran, ended⟩ := bind_eq_ok.1 run
    obtain ⟨failed, rfl⟩ := pure_eq_ok.1 ended
    cases outcome with
    | failed => exact required.undone ran
    | stalled | advanced => cases failed
  | optional =>
    exact ⟨extends_bind (extends_discard allowed.later) fun _ => extends_pure,
      fun s s' run => (bind_return_true run).elim⟩
  | star => exact rest
  | plus =>
    constructor
    · refine extends_bind required.later fun outcome => ?_
      cases outcome with
      | failed | stalled => exact extends_pure
      | advanced => exact rest.later
    · intro s s' run
      obtain ⟨outcome, s₁, ran, ended⟩ := bind_eq_ok.1 run
      cases outcome with
      | failed =>
        obtain ⟨-, rfl⟩ := pure_eq_ok.1 ended
        exact required.undone ran
      | stalled => cases (pure_eq_ok.1 ended).1
      | advanced => exact (bind_return_true (get_bind_apply.symm.trans ended)).elim

theorem framed_iterations {q : Quantifier} {label : Option String} {mandatory choice : Run Bool}
    (required : mandatory.Framed scope.speculative false) (tried : choice.Framed true false) :
    (r.repeated q (r.iterate scope label mandatory)
      (r.iterate scope label (r.decision scope false choice))).Framed scope.speculative false :=
  framed_repeated (framed_iterate required) (framed_iterate (framed_decision tried))

/-! ## Bodies of rules -/

section Bodies

variable {call : Scope → String → Run Bool}

theorem framed_false {speculative : Bool} : (pure false : Run Bool).Framed speculative false := by
  refine ⟨extends_pure, fun s s' run => ?_⟩
  obtain ⟨-, rfl⟩ := pure_eq_ok.1 run
  exact ⟨rfl, rfl⟩

/-- After an alternative that fails, the next is tried from the same place. -/
theorem framed_choice_cons {number : Nat} {alternative : CompiledSequence}
    {rest : List CompiledSequence}
    (first : (r.sequence call scope alternative).Extends true)
    (others : (r.choice call scope (number + 1) rest).Framed true false) :
    (r.choice call scope number (alternative :: rest)).Framed true false := by
  have attempted := framed_attempt first
  constructor
  · refine extends_bind extends_tick fun _ => extends_bind extends_emit fun _ => ?_
    refine extends_bind attempted.later fun _ => extends_ite (fun _ => extends_pure) fun _ => ?_
    exact extends_bind extends_emit fun _ => others.later
  · intro s s' run
    obtain ⟨left, found, s₁, -, run, ⟨-, matched, -⟩ | ⟨rfl, next⟩⟩ := choice_cons_ok run
    · cases matched
    · have undone := attempted.undone run
      have undone' := others.undone next
      exact ⟨undone'.1.trans undone.1, undone'.2.trans undone.2⟩

mutual

/-- A block leaves what it should as it was if its calls do. -/
theorem framed_block (calls : ∀ scope name, (call scope name).Framed scope.speculative false)
    (scope : Scope) : (b : CompiledBlock) →
    (r.block call scope b).Framed scope.speculative false
  | .set _ => framed_set
  | .branches [] _ _ _ => framed_iterations (framed_decision framed_false) framed_false
  | .branches [only] _ _ _ =>
    framed_iterations (framed_attempt (extends_sequence calls scope only))
      (framed_choice calls _ rfl 0 [only])
  | .branches (first :: second :: rest) _ _ _ =>
    have tried := framed_choice calls { scope with speculative := true } rfl 0
      (first :: second :: rest)
    framed_iterations (framed_decision tried) tried

theorem framed_element (calls : ∀ scope name, (call scope name).Framed scope.speculative false)
    (scope : Scope) : (e : CompiledElement) →
    (r.element call scope e).Framed scope.speculative false
  | .set _ => framed_set
  | .call name => calls scope name
  | .block b => framed_block calls scope b

/-- A sequence that fails is left where it failed, which is why it is attempted. -/
theorem extends_sequence (calls : ∀ scope name, (call scope name).Framed scope.speculative false)
    (scope : Scope) : (elements : CompiledSequence) →
    (r.sequence call scope elements).Extends scope.speculative
  | [] => extends_pure
  | e :: rest =>
    extends_bind (framed_element calls { scope with follow := rest :: scope.follow } e).later
      fun _ => extends_ite (fun _ => extends_sequence calls scope rest) fun _ => extends_pure

theorem framed_choice (calls : ∀ scope name, (call scope name).Framed scope.speculative false)
    (scope : Scope) (tried : scope.speculative = true) : (number : Nat) →
    (alternatives : List CompiledSequence) →
    (r.choice call scope number alternatives).Framed true false
  | _, [] => framed_false
  | number, alternative :: rest =>
    framed_choice_cons (tried ▸ extends_sequence calls scope alternative)
      (framed_choice calls scope tried (number + 1) rest)

end

end Bodies

/-! ## Rules -/

theorem framed_callAt {depth : Nat}
    (rules : ∀ scope called, (r.rule depth scope called).Framed scope.speculative false)
    (scope : Scope) (name : String) :
    (r.callAt depth scope name).Framed scope.speculative false := by
  constructor
  · intro s matched s' run
    obtain ⟨called, -, run⟩ := callAt_ok run
    exact (rules scope called).later run
  · intro s s' run
    obtain ⟨called, -, run⟩ := callAt_ok run
    exact (rules scope called).undone run

/-- A rule leaves what it should as it was, at any depth. -/
theorem framed_rule (depth : Nat) (scope : Scope) (called : CompiledRule) :
    (r.rule depth scope called).Framed scope.speculative false := by
  induction depth generalizing scope called with
  | zero =>
    exact ⟨fun _ _ _ run => (rule_zero_ok run).elim, fun _ _ run => (rule_zero_ok run).elim⟩
  | succ depth ih =>
    have body := framed_attempt (framed_block (r := r) (framed_callAt ih)
      { scope with rule := called.name } called.body).later
    refine ⟨fun s matched s' run => ?_, fun s s' run => rule_failed run⟩
    obtain ⟨-, left, s₁, -, ran, rfl⟩ := rule_succ_ok run
    have later := body.later ran
    exact ⟨later.bindings, later.furthest, later.errors⟩

end Recognizer

end SetGrammar
