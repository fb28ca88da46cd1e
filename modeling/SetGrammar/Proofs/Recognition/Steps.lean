import SetGrammar.Recognition.Recognizer

/-!
# Steps of a run that goes well

What each computation of a recognizer does to the state when it does not end the
run. Later proofs take a run apart with these lemmas and never unfold the
computations.
-/
namespace SetGrammar

namespace Run

variable {α β : Type} {s s' : RunState}

theorem bind_eq_ok {m : Run α} {f : α → Run β} {b : β} :
    (m >>= f) s = .ok b s' ↔ ∃ a s₁, m s = .ok a s₁ ∧ f a s₁ = .ok b s' := by
  show EStateM.bind m f s = _ ↔ _
  unfold EStateM.bind
  cases m s <;> simp [and_assoc]

@[simp] theorem pure_eq_ok {a b : α} : (pure a : Run α) s = .ok b s' ↔ a = b ∧ s = s' := by
  show EStateM.Result.ok a s = _ ↔ _
  simp

@[simp] theorem throw_eq_ok {e : RunError} {a : α} : (throw e : Run α) s = .ok a s' ↔ False := by
  show EStateM.Result.error e s = _ ↔ _
  simp

@[simp] theorem pure_bind_apply {a : α} {f : α → Run β} : ((pure a : Run α) >>= f) s = f a s := rfl

@[simp] theorem get_bind_apply {f : RunState → Run β} :
    ((get : Run RunState) >>= f) s = f s s := rfl

@[simp] theorem modify_bind_apply {g : RunState → RunState} {f : Unit → Run β} :
    ((modify g : Run Unit) >>= f) s = f () (g s) := rfl

@[simp] theorem emit_bind_apply {e : Event} {f : Unit → Run β} :
    (emit e >>= f) s = f () { s with events := e :: s.events } := rfl

@[simp] theorem seek_bind_apply {i : Nat} {f : Unit → Run β} :
    (seek i >>= f) s = f () { s with index := i } := rfl

@[simp] theorem takeBindings_bind_apply {f : List Binding → Run β} :
    (takeBindings >>= f) s = f s.bindings.reverse { s with bindings := [] } := rfl

@[simp] theorem look_bind_apply {f : Unit → Run β} :
    (look >>= f) s = f () { s with furthest := max s.furthest s.index } := rfl

@[simp] theorem report_bind_apply {e : InputError} {f : Unit → Run β} :
    (report e >>= f) s = f () { s with errors := e :: s.errors } := rfl

theorem tick_eq_ok {limits : Limits} {u : Unit} :
    tick limits s = .ok u s' ↔ ∃ left, s.fuel = left + 1 ∧ s' = { s with fuel := left } := by
  simp only [tick, get_bind_apply]
  cases fuel : s.fuel with
  | zero => simp
  | succ left =>
    constructor
    · rintro ⟨⟩
      exact ⟨left, rfl, rfl⟩
    · rintro ⟨same, equal, rfl⟩
      cases Nat.succ.inj equal
      rfl

theorem tick_bind_eq_ok {limits : Limits} {f : Unit → Run β} {b : β} :
    (tick limits >>= f) s = .ok b s' ↔
      ∃ left, s.fuel = left + 1 ∧ f () { s with fuel := left } = .ok b s' := by
  rw [bind_eq_ok]
  constructor
  · rintro ⟨⟨⟩, s₁, ticked, rest⟩
    obtain ⟨left, fuel, rfl⟩ := tick_eq_ok.1 ticked
    exact ⟨left, fuel, rest⟩
  · rintro ⟨left, fuel, rest⟩
    exact ⟨(), _, tick_eq_ok.2 ⟨left, fuel, rfl⟩, rest⟩

theorem discard_eq_ok {m : Run α} {u : Unit} :
    (discard m : Run Unit) s = .ok u s' ↔ ∃ a, m s = .ok a s' := by
  show EStateM.map _ m s = _ ↔ _
  unfold EStateM.map
  cases m s <;> simp

theorem attempt_apply (action : Run Bool) (s : RunState) :
    attempt action s =
      match action s with
      | .ok true s₁ => .ok true s₁
      | .ok false s₁ => .ok false { s₁ with index := s.index, bindings := s.bindings }
      | .error e s₁ => .error e s₁ := by
  show EStateM.bind action _ s = _
  unfold EStateM.bind
  rcases action s with ⟨_ | _, s₁⟩ | ⟨e, s₁⟩ <;> rfl

theorem attempt_eq_ok {m : Run Bool} {matched : Bool} :
    attempt m s = .ok matched s' ↔ ∃ s₁, m s = .ok matched s₁ ∧
      s' = if matched then s₁ else { s₁ with index := s.index, bindings := s.bindings } := by
  simp only [attempt, get_bind_apply, bind_eq_ok (m := m)]
  constructor
  · rintro ⟨found, s₁, run, rest⟩
    cases found <;> simp_all [pure_eq_ok]
  · rintro ⟨s₁, run, rfl⟩
    refine ⟨matched, s₁, run, ?_⟩
    cases matched <;> simp

end Run

/-- How a report shows the symbols from one index through another. -/
def Input.shownThrough (input : Input) (first last : Nat) : String :=
  let text := input.text first (last + 1)
  if text.isEmpty then endText else Text.escape text

namespace Recognizer

variable {r : Recognizer} {scope : Scope} {s s' : RunState}

theorem complain_bind_apply {β : Type} {complaint : Complaint} {i : Nat} {f : Unit → Run β} :
    (r.complain scope complaint i >>= f) s = f ()
      (if scope.speculative then s
       else { s with errors := ⟨complaint, i, r.input.position i⟩ :: s.errors }) := by
  unfold complain
  cases scope.speculative <;> rfl

/-- A decision matches what its alternatives match. One that has to match reports
    the failure about the furthest symbol that was looked at. -/
theorem decision_ok {isMandatory : Bool} {choice : Run Bool} {matched : Bool}
    (run : r.decision scope isMandatory choice s = .ok matched s') :
    ∃ s₁, choice { s with furthest := s.index } = .ok matched s₁ ∧
      (s' = { s₁ with furthest := max s.furthest s₁.furthest } ∧
          (isMandatory = true → r.kind = .parser → scope.speculative = false → matched = true) ∨
        matched = false ∧ isMandatory = true ∧ r.kind = .parser ∧ scope.speculative = false ∧ s' =
          { s₁ with
            furthest := max s.furthest s₁.furthest
            errors := ⟨.noViableAlternative (r.input.shownThrough s.index s₁.furthest),
              s₁.furthest, r.input.position s₁.furthest⟩ :: s₁.errors }) := by
  simp only [decision, Run.get_bind_apply, Run.modify_bind_apply] at run
  obtain ⟨found, s₁, chosen, rest⟩ := Run.bind_eq_ok.1 run
  refine ⟨s₁, ?_⟩
  simp only [Run.get_bind_apply, Run.modify_bind_apply] at rest
  split at rest
  · rename_i fails
    simp only [Bool.and_eq_true, Bool.not_eq_true', decide_eq_true_eq] at fails
    obtain ⟨⟨rfl, mandatory⟩, parser⟩ := fails
    rw [complain_bind_apply, Run.pure_eq_ok] at rest
    obtain ⟨rfl, same⟩ := rest
    refine ⟨chosen, ?_⟩
    split at same
    · rename_i speculative
      exact .inl ⟨same.symm, fun _ _ calm => by cases speculative.symm.trans calm⟩
    · rename_i calm
      exact .inr ⟨rfl, mandatory, parser, by simpa using calm, same.symm⟩
  · rename_i quiet
    obtain ⟨rfl, same⟩ := Run.pure_eq_ok.1 rest
    refine ⟨chosen, .inl ⟨same.symm, fun mandatory parser _ => ?_⟩⟩
    simpa [mandatory, parser] using quiet

/-- An iteration binds the label to what it takes. -/
theorem iterate_ok {label : Option String} {iteration : Run Bool} {outcome : Iteration}
    (run : r.iterate scope label iteration s = .ok outcome s') :
    ∃ matched s₁, iteration s = .ok matched s₁ ∧
      (matched = false ∧ outcome = .failed ∧ s' = s₁ ∨
        matched = true ∧ outcome = (if s₁.index = s.index then .stalled else .advanced) ∧
          ∃ events, s' =
            { s₁ with
              bindings := (label.toList.map fun name => ⟨scope.rule, name,
                if s₁.index = s.index + 1 then r.input.value s.index
                else .text (r.input.text s.index s₁.index)⟩) ++ s₁.bindings
              events }) := by
  simp only [iterate, Run.get_bind_apply] at run
  obtain ⟨matched, s₁, iterated, rest⟩ := Run.bind_eq_ok.1 run
  refine ⟨matched, s₁, iterated, ?_⟩
  cases matched with
  | false =>
    obtain ⟨failed, same⟩ := Run.pure_eq_ok.1 rest
    exact .inl ⟨rfl, failed.symm, same.symm⟩
  | true =>
    refine .inr ⟨rfl, ?_⟩
    cases label with
    | none =>
      obtain ⟨ended, same⟩ := Run.pure_eq_ok.1 rest
      exact ⟨ended.symm, s₁.events, same.symm⟩
    | some name =>
      obtain ⟨ended, same⟩ := Run.pure_eq_ok.1 rest
      exact ⟨ended.symm, _, same.symm⟩

/-- Recovery always reports something. It skips a symbol, takes one as present or
    gives up. -/
theorem recover_ok {t : Transition} {outcome : TestResult} (calm : scope.speculative = false)
    (run : r.recover scope t s = .ok outcome s') :
    (∃ events, (r.input.symbol? s.index).isSome ∧ t.admits (r.input.symbol? (s.index + 1)) ∧
        outcome = t.test r.input (s.index + 1) ∧
        s' = { s with
          index := s.index + 1
          errors := ⟨.extraneous (r.input.shown s.index) (t.expected r.grammar.vocabulary), s.index,
            r.input.position s.index⟩ :: s.errors
          events }) ∨
      (r.canFollow (r.input.symbol? s.index) scope.follow ∧ outcome = .conjured ∧
        s' = { s with
          errors := ⟨.missing (t.expected r.grammar.vocabulary) (r.input.shown s.index), s.index,
            r.input.position s.index⟩ :: s.errors }) ∨
      outcome = .failed ∧
        s' = { s with errors := t.failure r.input s.index r.grammar.vocabulary :: s.errors } := by
  simp only [recover, Run.get_bind_apply] at run
  split at run
  · rename_i skips
    simp only [Bool.and_eq_true] at skips
    simp only [complain_bind_apply, calm, Bool.false_eq_true, if_false, Run.seek_bind_apply] at run
    left
    cases next : r.input.symbol? (s.index + 1) with
    | none =>
      simp only [next, Run.pure_eq_ok] at run
      exact ⟨s.events, skips.1, next ▸ skips.2, run.1.symm, run.2.symm⟩
    | some symbol =>
      simp only [next, Run.emit_bind_apply, Run.pure_eq_ok] at run
      exact ⟨_, skips.1, next ▸ skips.2, run.1.symm, run.2.symm⟩
  · right
    split at run
    · rename_i follows
      simp only [complain_bind_apply, calm, Bool.false_eq_true, if_false, Run.pure_eq_ok] at run
      exact .inl ⟨follows, run.1.symm, run.2.symm⟩
    · simp only [Run.report_bind_apply, Run.pure_eq_ok] at run
      exact .inr ⟨run.1.symm, run.2.symm⟩

/-- A test either admits the symbol at hand, fails quietly or is left to
    recovery. -/
theorem testSymbol_ok {t : Transition} {l : Repetition} {outcome : TestResult}
    (run : r.testSymbol scope t l s = .ok outcome s') :
    ∃ events, let looked := { s with furthest := max s.furthest s.index, events }
      t.admits (r.input.symbol? s.index) = true ∧
          outcome = .matched (t.label.map fun _ => r.input.value s.index) ∧ s' = looked ∨
        t.admits (r.input.symbol? s.index) = false ∧
          (outcome = .failed ∧ s' = looked ∧
              (l.state = .start → r.kind = .parser → scope.speculative = true) ∨
            l.state = .start ∧ r.kind = .parser ∧ scope.speculative = false ∧
              r.recover scope t looked = .ok outcome s') := by
  simp only [testSymbol, Run.look_bind_apply, Run.get_bind_apply, Transition.test] at run
  cases admits : t.admits (r.input.symbol? s.index) with
  | true =>
    simp only [admits, if_true] at run
    cases symbol : r.input.symbol? s.index with
    | none =>
      simp only [symbol, Run.pure_eq_ok] at run
      exact ⟨s.events, .inl ⟨rfl, run.1.symm, run.2.symm⟩⟩
    | some symbol' =>
      simp only [symbol, Run.emit_bind_apply, Run.pure_eq_ok] at run
      exact ⟨_, .inl ⟨rfl, run.1.symm, run.2.symm⟩⟩
  | false =>
    simp only [admits, Bool.false_eq_true, if_false, Run.emit_bind_apply] at run
    refine ⟨.refuse (r.input.symbol? s.index) r.kind :: s.events, .inr ⟨rfl, ?_⟩⟩
    split at run
    · rename_i recovers
      simp only [Bool.and_eq_true, decide_eq_true_eq, Bool.not_eq_true'] at recovers
      exact .inr ⟨recovers.1.1, recovers.1.2, recovers.2, run⟩
    · rename_i quiet
      obtain ⟨failed, same⟩ := Run.pure_eq_ok.1 run
      exact .inl ⟨failed.symm, same.symm, fun start parser => by simpa [start, parser] using quiet⟩

theorem accept_unused {t : Transition} {outcome : TestResult} (unused : outcome.consumes = false) :
    accept scope t outcome s = .ok () s := by
  cases outcome with
  | matched => cases unused
  | failed | conjured =>
    unfold accept
    cases t.label <;> rfl

/-- A symbol that is matched is used up and bound to the label. -/
theorem accept_matched {t : Transition} {value : Capture} {u : Unit}
    (run : accept scope t (.matched (t.label.map fun _ => value)) s = .ok u s') :
    ∃ events, s' =
      { s with
        index := s.index + 1
        bindings := (t.label.toList.map fun name => ⟨scope.rule, name, value⟩) ++ s.bindings
        events } := by
  unfold accept at run
  cases label : t.label with
  | none =>
    rw [label] at run
    exact ⟨s.events, (EStateM.Result.ok.inj run).2.symm⟩
  | some name =>
    rw [label] at run
    exact ⟨_, (EStateM.Result.ok.inj run).2.symm⟩

theorem accept_errors {t : Transition} {outcome : TestResult} {u : Unit}
    (run : accept scope t outcome s = .ok u s') : s'.errors = s.errors := by
  unfold accept at run
  cases label : t.label with
  | none =>
    rw [label] at run
    cases outcome <;> (obtain ⟨-, rfl⟩ := EStateM.Result.ok.inj run; rfl)
  | some name =>
    rw [label] at run
    cases outcome with
    | failed | conjured => obtain ⟨-, rfl⟩ := EStateM.Result.ok.inj run; rfl
    | matched bound => cases bound <;> (obtain ⟨-, rfl⟩ := EStateM.Result.ok.inj run; rfl)

/-- A test in a loop and what it uses up, from one state to another. The test succeeds
    or fails, and only one that is required is recovered from. -/
inductive Round (r : Recognizer) (scope : Scope) (t : Transition) (l : Repetition)
    (s s' : RunState) : Bool → Prop where
  | admitted : t.admits (r.input.symbol? s.index) = true → s'.index = s.index + 1 →
      s'.errors = s.errors → Round r scope t l s s' true
  | refused : t.admits (r.input.symbol? s.index) = false →
      (l.state = .start → r.kind = .parser → scope.speculative = true) → s'.index = s.index →
      s'.errors = s.errors → Round r scope t l s s' false
  | skipped : t.admits (r.input.symbol? s.index) = false → l.state = .start →
      t.admits (r.input.symbol? (s.index + 1)) = true → s'.index = s.index + 2 →
      s'.errors = ⟨.extraneous (r.input.shown s.index) (t.expected r.grammar.vocabulary), s.index,
        r.input.position s.index⟩ :: s.errors → Round r scope t l s s' true
  | conjured : t.admits (r.input.symbol? s.index) = false → l.state = .start →
      r.canFollow (r.input.symbol? s.index) scope.follow = true → s'.index = s.index →
      s'.errors = ⟨.missing (t.expected r.grammar.vocabulary) (r.input.shown s.index), s.index,
        r.input.position s.index⟩ :: s.errors → Round r scope t l s s' true
  | lost : t.admits (r.input.symbol? s.index) = false → l.state = .start → s'.index = s.index →
      s'.errors = t.failure r.input s.index r.grammar.vocabulary :: s.errors →
      Round r scope t l s s' false

theorem round_ok {t : Transition} {l : Repetition} {outcome : TestResult} {s₁ : RunState}
    {u : Unit} (tested : r.testSymbol scope t l s = .ok outcome s₁)
    (accepted : accept scope t outcome s₁ = .ok u s') :
    r.Round scope t l s s' outcome.succeeds := by
  rcases testSymbol_ok tested with
    ⟨events, ⟨admits, rfl, rfl⟩ | ⟨refuses, ⟨rfl, rfl, quiet⟩ | ⟨start, -, calm, recovered⟩⟩⟩
  · obtain ⟨events', rfl⟩ := accept_matched accepted
    exact .admitted admits rfl rfl
  · cases accepted.symm.trans (accept_unused rfl)
    exact .refused refuses quiet rfl rfl
  · rcases recover_ok calm recovered with
      ⟨events', -, admits, rfl, rfl⟩ | ⟨follows, rfl, rfl⟩ | ⟨rfl, rfl⟩
    · have admits : t.admits (r.input.symbol? (s.index + 1)) = true := admits
      have next : t.test r.input (s.index + 1) =
          .matched (t.label.map fun _ => r.input.value (s.index + 1)) := by
        rw [Transition.test, if_pos admits]
      simp only [next] at accepted ⊢
      obtain ⟨events'', rfl⟩ := accept_matched accepted
      exact .skipped refuses start admits rfl rfl
    · cases accepted.symm.trans (accept_unused rfl)
      exact .conjured refuses start follows rfl rfl
    · cases accepted.symm.trans (accept_unused rfl)
      exact .lost refuses start rfl rfl

/-- A loop around a set test goes on from a state after a round. -/
def Continues (r : Recognizer) (scope : Scope) (t : Transition) (tests : Nat) (l : Repetition)
    (s : RunState) (matched : Bool) (s' : RunState) : Prop :=
  match l.state with
  | .done => matched = true ∧ ∃ events, s' = { s with events }
  | .failed => matched = false ∧ s' = s
  | .start | .looping => r.repeatSet scope t tests l s = .ok matched s'

/-- A round of a loop around a set test. -/
theorem repeatSet_succ_ok {t : Transition} {tests : Nat} {l : Repetition} {matched : Bool}
    (run : r.repeatSet scope t (tests + 1) l s = .ok matched s') :
    ∃ left outcome s₁ s₂, s.fuel = left + 1 ∧
      r.testSymbol scope t l { s with fuel := left } = .ok outcome s₁ ∧
      accept scope t outcome s₁ = .ok () s₂ ∧
      r.Continues scope t tests (l.step outcome.succeeds) s₂ matched s' := by
  simp only [repeatSet] at run
  obtain ⟨left, fuel, run⟩ := Run.tick_bind_eq_ok.1 run
  obtain ⟨outcome, s₁, tested, run⟩ := Run.bind_eq_ok.1 run
  obtain ⟨⟨⟩, s₂, accepted, run⟩ := Run.bind_eq_ok.1 run
  refine ⟨left, outcome, s₁, s₂, fuel, tested, accepted, ?_⟩
  unfold Continues
  cases state : (l.step outcome.succeeds).state with
  | done =>
    simp only [state] at run
    split at run
    · simp only [Run.emit_bind_apply, Run.pure_eq_ok] at run
      exact ⟨run.1.symm, _, run.2.symm⟩
    · simp only [Run.pure_eq_ok] at run
      exact ⟨run.1.symm, s₂.events, run.2.symm⟩
  | failed =>
    simp only [state, Run.pure_eq_ok] at run
    exact ⟨run.1.symm, run.2.symm⟩
  | start | looping => simpa only [state] using run

theorem repeatSet_zero_ok {t : Transition} {l : Repetition} {matched : Bool}
    (run : r.repeatSet scope t 0 l s = .ok matched s') : False := by
  simp only [repeatSet, Run.throw_eq_ok] at run

theorem repeatWhile_succ_ok {iteration : Run Iteration} {rounds : Nat} {u : Unit}
    (run : r.repeatWhile iteration (rounds + 1) s = .ok u s') :
    ∃ outcome s₁, iteration s = .ok outcome s₁ ∧
      match outcome with
      | .failed | .stalled => s' = s₁
      | .advanced => r.repeatWhile iteration rounds s₁ = .ok () s' := by
  simp only [repeatWhile] at run
  obtain ⟨outcome, s₁, iterated, rest⟩ := Run.bind_eq_ok.1 run
  refine ⟨outcome, s₁, iterated, ?_⟩
  cases outcome with
  | failed | stalled => exact (Run.pure_eq_ok.1 rest).2.symm
  | advanced => exact rest

theorem repeatWhile_zero_ok {iteration : Run Iteration} {u : Unit}
    (run : r.repeatWhile iteration 0 s = .ok u s') : False := by
  simp only [repeatWhile, Run.throw_eq_ok] at run

theorem sequence_cons_ok {call : Scope → String → Run Bool} {e : CompiledElement}
    {rest : CompiledSequence} {matched : Bool}
    (run : r.sequence call scope (e :: rest) s = .ok matched s') :
    ∃ found s₁, r.element call { scope with follow := rest :: scope.follow } e s = .ok found s₁ ∧
      (found = true ∧ r.sequence call scope rest s₁ = .ok matched s' ∨
        found = false ∧ matched = false ∧ s' = s₁) := by
  simp only [sequence] at run
  obtain ⟨found, s₁, tried, next⟩ := Run.bind_eq_ok.1 run
  refine ⟨found, s₁, tried, ?_⟩
  cases found with
  | true => exact .inl ⟨rfl, next⟩
  | false =>
    obtain ⟨failed, same⟩ := Run.pure_eq_ok.1 next
    exact .inr ⟨rfl, failed.symm, same.symm⟩

theorem choice_cons_ok {call : Scope → String → Run Bool} {number : Nat}
    {alternative : CompiledSequence} {rest : List CompiledSequence} {matched : Bool}
    (run : r.choice call scope number (alternative :: rest) s = .ok matched s') :
    ∃ left found s₁, s.fuel = left + 1 ∧
      Run.attempt (r.sequence call scope alternative)
        { s with fuel := left, events := .branch number :: s.events } = .ok found s₁ ∧
      (found = true ∧ matched = true ∧ s' = s₁ ∨
        found = false ∧ r.choice call scope (number + 1) rest
          { s₁ with events := .backtrack :: s₁.events } = .ok matched s') := by
  simp only [choice] at run
  obtain ⟨left, fuel, run⟩ := Run.tick_bind_eq_ok.1 run
  rw [Run.emit_bind_apply] at run
  obtain ⟨found, s₁, tried, next⟩ := Run.bind_eq_ok.1 run
  refine ⟨left, found, s₁, fuel, tried, ?_⟩
  cases found with
  | true =>
    obtain ⟨done, same⟩ := Run.pure_eq_ok.1 next
    exact .inl ⟨rfl, done.symm, same.symm⟩
  | false => exact .inr ⟨rfl, next⟩

/-- Calls a rule by name while `depth` more calls may be opened. -/
def callAt (r : Recognizer) (depth : Nat) (scope : Scope) (name : String) : Run Bool := do
  r.rule depth scope (← r.findRule name)

theorem findRule_ok {name : String} {called : CompiledRule}
    (run : r.findRule name s = .ok called s') : r.grammar.rule? name = some called ∧ s' = s := by
  unfold findRule at run
  cases found : r.grammar.rule? name with
  | none =>
    rw [found] at run
    exact (Run.throw_eq_ok.1 run).elim
  | some target =>
    rw [found] at run
    obtain ⟨rfl, rfl⟩ := Run.pure_eq_ok.1 run
    exact ⟨rfl, rfl⟩

theorem callAt_ok {depth : Nat} {name : String} {matched : Bool}
    (run : r.callAt depth scope name s = .ok matched s') :
    ∃ called, r.grammar.rule? name = some called ∧ r.rule depth scope called s = .ok matched s' := by
  obtain ⟨called, s₁, looked, ran⟩ := Run.bind_eq_ok.1 run
  obtain ⟨found, rfl⟩ := findRule_ok looked
  exact ⟨called, found, ran⟩

theorem checkKind_bind_ok {β : Type} {called : CompiledRule} {f : Unit → Run β} {b : β}
    (run : (r.checkKind called >>= f) s = .ok b s') :
    called.kind = r.kind ∧ f () s = .ok b s' := by
  unfold checkKind at run
  by_cases kind : called.kind = r.kind
  · rw [if_neg (not_not_intro kind)] at run
    exact ⟨kind, run⟩
  · rw [if_pos kind] at run
    simp only [Run.bind_eq_ok, Run.throw_eq_ok, false_and, exists_false] at run

theorem rule_zero_ok {called : CompiledRule} {matched : Bool}
    (run : r.rule 0 scope called s = .ok matched s') : False := by
  obtain ⟨-, thrown⟩ := checkKind_bind_ok run
  exact Run.throw_eq_ok.1 thrown

theorem rule_succ_ok {depth : Nat} {called : CompiledRule} {matched : Bool}
    (run : r.rule (depth + 1) scope called s = .ok matched s') :
    called.kind = r.kind ∧ ∃ left s₁, s.fuel = left + 1 ∧
      Run.attempt (r.block (r.callAt depth) { scope with rule := called.name } called.body)
        { s with fuel := left, events := .enter called.name :: s.events } = .ok matched s₁ ∧
      s' = { s₁ with events := .exit called.name matched :: s₁.events } := by
  obtain ⟨kind, run⟩ := checkKind_bind_ok run
  obtain ⟨left, fuel, run⟩ := Run.tick_bind_eq_ok.1 run
  rw [Run.emit_bind_apply] at run
  obtain ⟨found, s₁, tried, rest⟩ := Run.bind_eq_ok.1 run
  rw [Run.emit_bind_apply] at rest
  obtain ⟨rfl, same⟩ := Run.pure_eq_ok.1 rest
  exact ⟨kind, left, s₁, fuel, tried, same.symm⟩

/-- A rule that fails goes back to where it began. -/
theorem rule_failed {depth : Nat} {called : CompiledRule}
    (run : r.rule depth scope called s = .ok false s') :
    s'.index = s.index ∧ s'.bindings = s.bindings := by
  cases depth with
  | zero => exact (rule_zero_ok run).elim
  | succ depth =>
    obtain ⟨-, left, s₁, -, tried, rfl⟩ := rule_succ_ok run
    obtain ⟨s₂, -, rfl⟩ := Run.attempt_eq_ok.1 tried
    exact ⟨rfl, rfl⟩

end Recognizer

end SetGrammar
