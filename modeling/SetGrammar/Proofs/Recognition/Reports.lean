import SetGrammar.Parse
import SetGrammar.Proofs.Leaves
import SetGrammar.Proofs.Recognition.Adequacy
import SetGrammar.Proofs.Recognition.Silence

/-!
# Reported errors

A run adds errors to those that were there. Each one that says what was expected
is about a set test of the grammar that refused the symbol, and it shows the
symbols that the test admits.
-/
namespace SetGrammar

/-- What a complaint says was expected, if it does. -/
def Complaint.expected? : Complaint → Option String
  | missing expected _ | extraneous _ expected | mismatched _ expected => some expected
  | unrecognized _ | noViableAlternative _ => none

namespace Run

variable {α β : Type} {P : InputError → Prop}

/-- All errors that a computation adds have a property. -/
def Reports (P : InputError → Prop) (m : Run α) : Prop :=
  ∀ ⦃s a s'⦄, m s = .ok a s' → ∀ e ∈ s'.errors, e ∈ s.errors ∨ P e

theorem Silent.reports {m : Run α} (silent : m.Silent) : Reports P m := by
  intro s a s' run e member
  have same := silent s
  rw [stateAfter_of_ok run] at same
  exact .inl (same ▸ member)

theorem reports_pure {a : α} : Reports P (pure a) := silent_pure.reports

theorem reports_throw {e : RunError} : Reports P (throw e : Run α) :=
  fun _ _ _ run => (throw_eq_ok.1 run).elim

theorem reports_bind {m : Run α} {f : α → Run β} (first : Reports P m)
    (next : ∀ a, Reports P (f a)) : Reports P (m >>= f) := by
  intro s b s' run e member
  obtain ⟨a, s₁, began, ended⟩ := bind_eq_ok.1 run
  rcases next a ended e member with member | has
  · exact first began e member
  · exact .inr has

theorem reports_get : Reports P (get : Run RunState) := silent_get.reports

theorem reports_modify {f : RunState → RunState} (silent : ∀ s, (f s).errors = s.errors) :
    Reports P (modify f : Run Unit) := (silent_modify silent).reports

theorem reports_emit {e : Event} : Reports P (emit e) := silent_emit.reports

theorem reports_bindLabel {rule label : String} {value : Capture} :
    Reports P (Run.bind rule label value) := silent_bindLabel.reports

theorem reports_report {e : InputError} (has : P e) : Reports P (report e) := by
  intro s a s' run e' member
  cases run
  rcases List.mem_cons.1 member with rfl | member
  · exact .inr has
  · exact .inl member

theorem reports_tick {limits : Limits} : Reports P (tick limits) := silent_tick.reports

theorem reports_discard {m : Run α} (inner : Reports P m) : Reports P (discard m) := by
  intro s a s' run
  obtain ⟨b, run⟩ := discard_eq_ok.1 run
  exact inner run

theorem reports_attempt {m : Run Bool} (inner : Reports P m) : Reports P (attempt m) := by
  refine reports_bind reports_get fun start => reports_bind inner fun matched => ?_
  split
  · exact reports_bind (reports_modify fun _ => rfl) fun _ => reports_pure
  · exact reports_pure

end Run

namespace Recognizer

open Run

variable {r : Recognizer} {scope : Scope} {isTest : Transition → Prop}

/-- If the error says what was expected, it shows what some test admits that
    refuses the symbol. -/
def Explains (r : Recognizer) (isTest : Transition → Prop) (e : InputError) : Prop :=
  ∀ expected, e.complaint.expected? = some expected →
    ∃ t, isTest t ∧ expected = t.expected r.grammar.vocabulary ∧
      t.admits (r.input.symbol? e.index) = false

theorem explains_of_none {e : InputError} (none : e.complaint.expected? = none) :
    r.Explains isTest e := by
  intro expected some
  rw [none] at some
  cases some

/-- Recovery shows the symbols of the test that it saves. -/
theorem recover_explains {t : Transition} {s s' : RunState} {outcome : TestResult}
    (known : isTest t) (calm : scope.speculative = false)
    (run : r.recover scope t s = .ok outcome s')
    (refused : t.admits (r.input.symbol? s.index) = false) :
    ∀ e ∈ s'.errors, e ∈ s.errors ∨ r.Explains isTest e := by
  have shows {complaint : Complaint}
      (same : complaint.expected? = none ∨
        complaint.expected? = some (t.expected r.grammar.vocabulary)) :
      r.Explains isTest ⟨complaint, s.index, r.input.position s.index⟩ := by
    intro expected some
    rcases same with same | same
    · cases same.symm.trans some
    · cases same.symm.trans some
      exact ⟨t, known, rfl, refused⟩
  have added {new : InputError} {errors : List InputError} (has : r.Explains isTest new) :
      ∀ e ∈ new :: errors, e ∈ errors ∨ r.Explains isTest e := by
    intro e member
    rcases List.mem_cons.1 member with rfl | member
    · exact .inr has
    · exact .inl member
  rcases recover_ok calm run with ⟨events, -, -, -, rfl⟩ | ⟨-, -, rfl⟩ | ⟨-, rfl⟩
  · exact added (shows (.inr rfl))
  · exact added (shows (.inr rfl))
  · refine added ?_
    unfold Transition.failure
    cases t.domain.kind with
    | lexer => exact shows (.inl rfl)
    | parser => exact shows (.inr rfl)

theorem testSymbol_reports {t : Transition} {l : Repetition} (known : isTest t) :
    Reports (r.Explains isTest) (r.testSymbol scope t l) := by
  intro s outcome s' run
  obtain ⟨events, ⟨-, -, rfl⟩ | ⟨refused, ⟨-, rfl, -⟩ | ⟨-, -, calm, recovered⟩⟩⟩ :=
    testSymbol_ok run
  · exact fun e member => .inl member
  · exact fun e member => .inl member
  · have explained := recover_explains known calm recovered refused
    exact explained

theorem repeatSet_reports {t : Transition} {tests : Nat} {l : Repetition} (known : isTest t) :
    Reports (r.Explains isTest) (r.repeatSet scope t tests l) := by
  induction tests generalizing l with
  | zero => exact reports_throw
  | succ tests ih =>
    refine reports_bind reports_tick fun _ => ?_
    refine reports_bind (testSymbol_reports known) fun outcome => ?_
    refine reports_bind silent_accept.reports fun _ => ?_
    cases state : (l.step outcome.succeeds).state with
    | done =>
      simp only [state]
      split
      · exact reports_bind reports_emit fun _ => reports_pure
      · exact reports_pure
    | failed =>
      simp only [state]
      exact reports_pure
    | start | looping =>
      simp only [state]
      exact ih

theorem set_reports {t : Transition} (known : isTest t) :
    Reports (r.Explains isTest) (r.set scope t) :=
  reports_bind reports_get fun _ => repeatSet_reports known

theorem complain_reports {complaint : Complaint} {i : Nat} (none : complaint.expected? = none) :
    Reports (r.Explains isTest) (r.complain scope complaint i) := by
  unfold complain
  split
  · exact reports_report (explains_of_none none)
  · exact reports_pure

theorem decision_reports {isMandatory : Bool} {choice : Run Bool}
    (inner : Reports (r.Explains isTest) choice) :
    Reports (r.Explains isTest) (r.decision scope isMandatory choice) := by
  refine reports_bind reports_get fun start => ?_
  refine reports_bind (reports_modify fun _ => rfl) fun _ => ?_
  refine reports_bind inner fun matched => reports_bind reports_get fun reached => ?_
  refine reports_bind (reports_modify fun _ => rfl) fun _ => ?_
  split
  · exact reports_bind (complain_reports rfl) fun _ => reports_pure
  · exact reports_pure

theorem iterate_reports {label : Option String} {iteration : Run Bool}
    (inner : Reports (r.Explains isTest) iteration) :
    Reports (r.Explains isTest) (r.iterate scope label iteration) := by
  refine reports_bind reports_get fun start => reports_bind inner fun matched => ?_
  cases matched with
  | false => exact reports_pure
  | true =>
    refine reports_bind reports_get fun stop => ?_
    cases label with
    | none => exact reports_pure
    | some name => exact reports_bind reports_bindLabel fun _ => reports_pure

theorem repeatWhile_reports {iteration : Run Iteration} {rounds : Nat}
    (inner : Reports (r.Explains isTest) iteration) :
    Reports (r.Explains isTest) (r.repeatWhile iteration rounds) := by
  induction rounds with
  | zero => exact reports_throw
  | succ rounds ih =>
    refine reports_bind inner fun outcome => ?_
    cases outcome with
    | failed | stalled => exact reports_pure
    | advanced => exact ih

theorem repeated_reports {q : Quantifier} {mandatory optional : Run Iteration}
    (required : Reports (r.Explains isTest) mandatory)
    (allowed : Reports (r.Explains isTest) optional) :
    Reports (r.Explains isTest) (r.repeated q mandatory optional) := by
  have rest : Reports (r.Explains isTest)
      (do r.repeatWhile optional ((← get).fuel + 1); return true) :=
    reports_bind reports_get fun _ =>
      reports_bind (repeatWhile_reports allowed) fun _ => reports_pure
  cases q with
  | once => exact reports_bind required fun _ => reports_pure
  | optional => exact reports_bind (reports_discard allowed) fun _ => reports_pure
  | star => exact rest
  | plus =>
    refine reports_bind required fun outcome => ?_
    cases outcome with
    | failed | stalled => exact reports_pure
    | advanced => exact rest

theorem iterations_reports {q : Quantifier} {label : Option String} {mandatory choice : Run Bool}
    (required : Reports (r.Explains isTest) mandatory)
    (tried : Reports (r.Explains isTest) choice) :
    Reports (r.Explains isTest)
      (r.repeated q (r.iterate scope label mandatory)
        (r.iterate scope label (r.decision scope false choice))) :=
  repeated_reports (iterate_reports required) (iterate_reports (decision_reports tried))

mutual

theorem block_reports {call : Scope → String → Run Bool}
    (calls : ∀ scope name, Reports (r.Explains isTest) (call scope name)) {scope : Scope} :
    (b : CompiledBlock) → (∀ t, .set t ∈ b.leaves → isTest t) →
    Reports (r.Explains isTest) (r.block call scope b)
  | .set t, tests => set_reports (tests t (List.mem_singleton_self _))
  | .branches [] _ _ _, _ => iterations_reports (decision_reports reports_pure) reports_pure
  | .branches [only] _ _ _, tests =>
    iterations_reports
      (reports_attempt (sequence_reports calls only fun t member =>
        tests t (List.mem_append_left _ member)))
      (choice_reports calls 0 [only] tests)
  | .branches (first :: second :: rest) _ _ _, tests =>
    have tried := choice_reports calls 0 (first :: second :: rest) tests
    iterations_reports (decision_reports tried) tried

theorem element_reports {call : Scope → String → Run Bool}
    (calls : ∀ scope name, Reports (r.Explains isTest) (call scope name)) {scope : Scope} :
    (e : CompiledElement) → (∀ t, .set t ∈ e.leaves → isTest t) →
    Reports (r.Explains isTest) (r.element call scope e)
  | .set t, tests => set_reports (tests t (List.mem_singleton_self _))
  | .call name, _ => calls scope name
  | .block b, tests => block_reports calls b tests

theorem sequence_reports {call : Scope → String → Run Bool}
    (calls : ∀ scope name, Reports (r.Explains isTest) (call scope name)) {scope : Scope} :
    (elements : CompiledSequence) → (∀ t, .set t ∈ leavesOfSequence elements → isTest t) →
    Reports (r.Explains isTest) (r.sequence call scope elements)
  | [], _ => reports_pure
  | e :: rest, tests => by
    refine reports_bind (element_reports calls e fun t member => tests t ?_) fun matched => ?_
    · exact List.mem_append_left _ member
    split
    · exact sequence_reports calls rest fun t member => tests t (List.mem_append_right _ member)
    · exact reports_pure

theorem choice_reports {call : Scope → String → Run Bool}
    (calls : ∀ scope name, Reports (r.Explains isTest) (call scope name)) {scope : Scope} :
    (number : Nat) → (alternatives : List CompiledSequence) →
    (∀ t, .set t ∈ leavesOfBranches alternatives → isTest t) →
    Reports (r.Explains isTest) (r.choice call scope number alternatives)
  | _, [], _ => reports_pure
  | number, alternative :: rest, tests => by
    refine reports_bind reports_tick fun _ => reports_bind reports_emit fun _ => ?_
    refine reports_bind (reports_attempt
      (sequence_reports calls alternative fun t member => tests t ?_)) fun matched => ?_
    · exact List.mem_append_left _ member
    split
    · exact reports_pure
    · refine reports_bind reports_emit fun _ => ?_
      exact choice_reports calls (number + 1) rest
        fun t member => tests t (List.mem_append_right _ member)

end

/-- A rule explains its errors by the set tests of rules of its kind. -/
theorem rule_reports {depth : Nat} {called : CompiledRule} (member : called ∈ r.grammar.rules)
    (tests : ∀ rule ∈ r.grammar.rules, rule.kind = r.kind →
      ∀ t, .set t ∈ rule.body.leaves → isTest t) :
    Reports (r.Explains isTest) (r.rule depth scope called) := by
  induction depth generalizing scope called with
  | zero => exact fun _ _ _ run => (rule_zero_ok run).elim
  | succ depth ih =>
    intro s matched s' run
    obtain ⟨kind, left, s₁, -, body, rfl⟩ := rule_succ_ok run
    have calls (scope : Scope) (name : String) :
        Reports (r.Explains isTest) (r.callAt depth scope name) := by
      intro s matched s' run
      obtain ⟨target, found, run⟩ := callAt_ok run
      exact ih (CompiledGrammar.mem_of_rule? found) run
    have explained :=
      reports_attempt (block_reports calls called.body (tests called member kind)) body
    exact explained

end Recognizer

/-- Each error of a parse that says what was expected shows what a set test of a
    parser rule admits, and that test refuses the symbol that the error is about. -/
theorem parse_explains {g : CompiledGrammar} {limits : Limits} {rule : String}
    {tokens : List Token} {o : Parse} (ran : (g.parse limits rule tokens).result = .ok o)
    {e : InputError} (member : e ∈ o.errors) {expected : String}
    (told : e.complaint.expected? = some expected) :
    ∃ r ∈ g.rules, r.kind = .parser ∧ ∃ t, .set t ∈ r.body.leaves ∧
      expected = t.expected g.vocabulary ∧
      t.admits ((Input.tokens (.ofList tokens)).symbol? e.index) = false := by
  obtain ⟨s, outcome⟩ := parse_ok ran
  obtain ⟨called, matched, found, started, rfl⟩ := outcome_ok outcome
  let isTest (t : Transition) : Prop := ∃ r ∈ g.rules, r.kind = .parser ∧ .set t ∈ r.body.leaves
  have tests : ∀ r ∈ g.rules, r.kind = .parser → ∀ t, .set t ∈ r.body.leaves → isTest t :=
    fun r inside kind t leaf => ⟨r, inside, kind, leaf⟩
  have reports := Recognizer.rule_reports (CompiledGrammar.mem_of_rule? found) tests started
  rcases reports e (List.mem_reverse.1 member) with none | explained
  · cases none
  · obtain ⟨t, ⟨r, inside, kind, leaf⟩, shown, refused⟩ := explained expected told
    exact ⟨r, inside, kind, t, leaf, shown, refused⟩

end SetGrammar
