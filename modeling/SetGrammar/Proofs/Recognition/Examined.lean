import SetGrammar.Proofs.Leaves
import SetGrammar.Proofs.OrderedChoice
import SetGrammar.Proofs.Recognition.Silence

/-!
# What a run examines

A run in the lexer reads an input only from the index where it begins through the
furthest index that a set test looked at. What it binds was tested before. So a run
that goes well is the same on every input that agrees there. The furthest index is
set back inside of decisions and raised again after them, and nothing that was
looked at is lost on the way.
-/
namespace SetGrammar

/-- Two inputs have the same symbols from one index through another, where the end
    counts as a symbol. -/
structure Input.Agree (a b : Input) (first last : Nat) : Prop where
  symbol? : ∀ i, first ≤ i → i ≤ last → a.symbol? i = b.symbol? i
  captured : ∀ i j, first ≤ i → i ≤ j → j ≤ max i (last + 1) → a.captured i j = b.captured i j

namespace Input

variable {a b : Input} {first last : Nat}

theorem Agree.mono (agree : a.Agree b first last) {first' last' : Nat} (later : first ≤ first')
    (sooner : last' ≤ last) : a.Agree b first' last' where
  symbol? i after before := agree.symbol? i (Nat.le_trans later after) (Nat.le_trans before sooner)
  captured i j after forward before := by
    exact agree.captured i j (Nat.le_trans later after) forward (by omega)

end Input

/-- What is known of the states at the start and the end of a run. It never goes back
    and only passes symbols that it looked at. -/
structure RunState.Reads (s s' : RunState) : Prop where
  index : s.index ≤ s'.index
  furthest : s.furthest ≤ s'.furthest
  passed : s'.index ≤ max s.index (s'.furthest + 1)

namespace RunState.Reads

variable {s s₁ s' : RunState}

theorem refl (s : RunState) : s.Reads s := ⟨Nat.le_refl _, Nat.le_refl _, Nat.le_max_left _ _⟩

theorem trans (first : s.Reads s₁) (second : s₁.Reads s') : s.Reads s' := by
  obtain ⟨index, furthest, passed⟩ := first
  obtain ⟨index', furthest', passed'⟩ := second
  exact ⟨by omega, by omega, by omega⟩

/-- Only what is not about the input changes. -/
theorem of_same (index : s'.index = s.index) (furthest : s'.furthest = s.furthest) : s.Reads s' :=
  ⟨Nat.le_of_eq index.symm, Nat.le_of_eq furthest.symm, by omega⟩

end RunState.Reads

namespace Run

/-- The first computation reports nothing. If it goes well, then the second one is
    the same, provided the inputs agree wherever the first one looked. -/
structure Examines {α : Type} (a b : Input) (m n : Run α) : Prop where
  silent : m.Silent
  same : ∀ ⦃s x s'⦄, m s = .ok x s' →
    s.Reads s' ∧ (a.Agree b s.index s'.furthest → n s = .ok x s')

variable {α β : Type} {a b : Input}

theorem bind_of_ok {m : Run α} {f : α → Run β} {x : α} {s s₁ : RunState} (run : m s = .ok x s₁) :
    (m >>= f) s = f x s₁ := by
  show EStateM.bind m f s = _
  unfold EStateM.bind
  rw [run]

theorem examines_pure {x : α} : Examines a b (pure x) (pure x) := by
  refine ⟨silent_pure, fun s y s' run => ?_⟩
  obtain ⟨-, rfl⟩ := pure_eq_ok.1 run
  exact ⟨.refl s, fun _ => run⟩

theorem examines_throw {e : RunError} {n : Run α} : Examines a b (throw e) n :=
  ⟨fun _ => rfl, fun _ _ _ run => (throw_eq_ok.1 run).elim⟩

theorem examines_get : Examines a b (get : Run RunState) get := by
  refine ⟨silent_get, fun s x s' run => ?_⟩
  obtain ⟨rfl, rfl⟩ := EStateM.Result.ok.inj run
  exact ⟨.refl s, fun _ => run⟩

theorem examines_bind {m n : Run α} {f k : α → Run β} (first : Examines a b m n)
    (next : ∀ x, Examines a b (f x) (k x)) : Examines a b (m >>= f) (n >>= k) := by
  refine ⟨silent_bind first.silent fun x => (next x).silent, fun s y s' run => ?_⟩
  obtain ⟨x, s₁, ran, rest⟩ := bind_eq_ok.1 run
  obtain ⟨reads, same⟩ := first.same ran
  obtain ⟨reads', same'⟩ := (next x).same rest
  refine ⟨reads.trans reads', fun agree => bind_eq_ok.2 ⟨x, s₁, ?_, ?_⟩⟩
  · exact same (agree.mono (Nat.le_refl _) reads'.furthest)
  · exact same' (agree.mono reads.index (Nat.le_refl _))

theorem examines_discard {m n : Run α} (inner : Examines a b m n) :
    Examines a b (discard m) (discard n) :=
  examines_bind inner fun _ => examines_pure

theorem examines_ite {p : Prop} [Decidable p] {m m' n n' : Run α}
    (yes : p → Examines a b m n) (no : ¬p → Examines a b m' n') :
    Examines a b (if p then m else m') (if p then n else n') := by
  by_cases holds : p
  · rw [if_pos holds, if_pos holds]
    exact yes holds
  · rw [if_neg holds, if_neg holds]
    exact no holds

theorem examines_emit {e : Event} : Examines a b (emit e) (emit e) := by
  refine ⟨silent_emit, fun s u s' run => ?_⟩
  obtain ⟨-, rfl⟩ := EStateM.Result.ok.inj run
  exact ⟨.of_same rfl rfl, fun _ => run⟩

theorem examines_tick {limits : Limits} : Examines a b (tick limits) (tick limits) := by
  refine ⟨silent_tick, fun s u s' run => ?_⟩
  obtain ⟨left, -, rfl⟩ := tick_eq_ok.1 run
  exact ⟨.of_same rfl rfl, fun _ => run⟩

/-- An attempt that goes back has looked at what it looked at. -/
theorem examines_attempt {m n : Run Bool} (inner : Examines a b m n) :
    Examines a b (attempt m) (attempt n) := by
  refine ⟨silent_attempt inner.silent, fun s matched s' run => ?_⟩
  obtain ⟨s₁, ran, rfl⟩ := attempt_eq_ok.1 run
  obtain ⟨reads, same⟩ := inner.same ran
  cases matched with
  | true => exact ⟨reads, fun agree => attempt_eq_ok.2 ⟨s₁, same agree, rfl⟩⟩
  | false =>
    refine ⟨⟨Nat.le_refl _, reads.furthest, Nat.le_max_left _ _⟩, fun agree => ?_⟩
    exact attempt_eq_ok.2 ⟨s₁, same agree, rfl⟩

end Run

namespace Recognizer

open Run

variable {r : Recognizer} {b : Input} {scope : Scope} {s s' : RunState}

/-- The recognizer on another input. -/
def reading (r : Recognizer) (b : Input) : Recognizer := { r with input := b }

/-! ## Set tests -/

/-- A test in the lexer depends on the symbol at hand. -/
theorem testSymbol_reading (lexer : r.kind = .lexer) {t : Transition} {l : Repetition}
    (symbol : r.input.symbol? s.index = b.symbol? s.index)
    (value : r.input.value s.index = b.value s.index) :
    (r.reading b).testSymbol scope t l s = r.testSymbol scope t l s := by
  have kind : (r.reading b).kind = .lexer := lexer
  have input : (r.reading b).input = b := rfl
  simp only [testSymbol, look_bind_apply, get_bind_apply, Transition.test, symbol, value, input,
    lexer, kind]
  cases t.admits (b.symbol? s.index) <;> simp

theorem silent_testSymbol (lexer : r.kind = .lexer) {t : Transition} {l : Repetition} :
    (r.testSymbol scope t l).Silent := by
  refine silent_bind (silent_modify fun _ => rfl) fun _ => silent_bind silent_get fun s => ?_
  cases tested : t.test r.input s.index with
  | failed =>
    simp only [tested]
    refine silent_bind silent_emit fun _ => silent_ite (fun recovers => ?_) fun _ => silent_pure
    simp [lexer] at recovers
  | matched value | conjured =>
    simp only [tested]
    cases r.input.symbol? s.index with
    | none => exact silent_pure
    | some symbol => exact silent_bind silent_emit fun _ => silent_pure

/-- Tests the symbol at hand and uses it up if it is admitted. -/
def round (r : Recognizer) (scope : Scope) (t : Transition) (l : Repetition) : Run TestResult := do
  let outcome ← r.testSymbol scope t l
  accept scope t outcome
  return outcome

theorem examines_round (lexer : r.kind = .lexer) {t : Transition} {l : Repetition} :
    Examines r.input b (r.round scope t l) ((r.reading b).round scope t l) := by
  have silent : (r.round scope t l).Silent :=
    silent_bind (silent_testSymbol lexer) fun _ => silent_bind silent_accept fun _ => silent_pure
  refine ⟨silent, fun s outcome s' run => ?_⟩
  obtain ⟨_, s₁, tested, rest⟩ := bind_eq_ok.1 run
  obtain ⟨⟨⟩, s₂, accepted, rest⟩ := bind_eq_ok.1 rest
  obtain ⟨rfl, rfl⟩ := pure_eq_ok.1 rest
  have reads : s.Reads s₂ ∧ s.index ≤ s₂.furthest := by
    rcases testSymbol_ok tested with
      ⟨events, ⟨-, rfl, rfl⟩ | ⟨-, ⟨rfl, rfl, -⟩ | ⟨-, parser, -⟩⟩⟩
    · obtain ⟨events', rfl⟩ := accept_matched accepted
      refine ⟨⟨Nat.le_succ _, Nat.le_max_left _ _, ?_⟩, Nat.le_max_right _ _⟩
      show s.index + 1 ≤ max s.index (max s.furthest s.index + 1)
      omega
    · cases accepted.symm.trans (accept_unused rfl)
      exact ⟨⟨Nat.le_refl _, Nat.le_max_left _ _, Nat.le_max_left _ _⟩, Nat.le_max_right _ _⟩
    · cases lexer.symm.trans parser
  obtain ⟨reads, looked⟩ := reads
  refine ⟨reads, fun agree => ?_⟩
  have symbol := agree.symbol? s.index (Nat.le_refl _) looked
  have value := agree.captured s.index (s.index + 1) (Nat.le_refl _) (Nat.le_succ _) (by omega)
  simp only [Input.captured, if_true] at value
  refine bind_eq_ok.2 ⟨_, s₁, (testSymbol_reading lexer symbol value).trans tested, ?_⟩
  exact bind_eq_ok.2 ⟨(), s₂, accepted, rfl⟩

theorem round_bind {α : Type} {t : Transition} {l : Repetition} (next : TestResult → Run α) :
    (r.round scope t l >>= next) = (do
      let outcome ← r.testSymbol scope t l
      accept scope t outcome
      next outcome) := by
  simp only [round, bind_assoc, pure_bind]

theorem repeatSet_succ {t : Transition} {tests : Nat} {l : Repetition} :
    r.repeatSet scope t (tests + 1) l = (do
      Run.tick r.limits
      let outcome ← r.round scope t l
      let next := l.step outcome.succeeds
      match next.state with
      | .done =>
        if t.quantifier.repeats then Run.emit (.loopExit next.matched)
        return true
      | .failed => return false
      | .start | .looping => r.repeatSet scope t tests next) := by
  rw [round_bind]
  rfl

theorem examines_repeatSet (lexer : r.kind = .lexer) {t : Transition} {tests : Nat}
    {l : Repetition} :
    Examines r.input b (r.repeatSet scope t tests l) ((r.reading b).repeatSet scope t tests l) := by
  induction tests generalizing l with
  | zero => exact examines_throw
  | succ tests ih =>
    rw [repeatSet_succ, repeatSet_succ]
    refine examines_bind examines_tick fun _ => ?_
    refine examines_bind (examines_round lexer) fun outcome => ?_
    cases state : (l.step outcome.succeeds).state with
    | done =>
      simp only [state]
      refine examines_ite (fun _ => ?_) fun _ => examines_pure
      exact examines_bind examines_emit fun _ => examines_pure
    | failed =>
      simp only [state]
      exact examines_pure
    | start | looping =>
      simp only [state]
      exact ih

theorem examines_set (lexer : r.kind = .lexer) {t : Transition} :
    Examines r.input b (r.set scope t) ((r.reading b).set scope t) :=
  examines_bind examines_get fun _ => examines_repeatSet lexer

/-! ## Branches -/

theorem silent_decision (lexer : r.kind = .lexer) {isMandatory : Bool} {choice : Run Bool}
    (inner : choice.Silent) : (r.decision scope isMandatory choice).Silent := by
  refine silent_bind silent_get fun start => silent_bind (silent_modify fun _ => rfl) fun _ => ?_
  refine silent_bind inner fun matched => silent_bind silent_get fun reached => ?_
  refine silent_bind (silent_modify fun _ => rfl) fun _ => ?_
  refine silent_ite (fun complains => ?_) fun _ => silent_pure
  simp [lexer] at complains

/-- In the lexer a decision reports nothing. -/
theorem decision_lexer_ok (lexer : r.kind = .lexer) {isMandatory : Bool} {choice : Run Bool}
    {matched : Bool} :
    r.decision scope isMandatory choice s = .ok matched s' ↔
      ∃ s₁, choice { s with furthest := s.index } = .ok matched s₁ ∧
        s' = { s₁ with furthest := max s.furthest s₁.furthest } := by
  have quiet : ¬(r.kind = .parser) := by simp [lexer]
  simp only [decision, get_bind_apply, modify_bind_apply, bind_eq_ok (m := choice), quiet,
    decide_false, Bool.and_false, Bool.false_eq_true, if_false, pure_eq_ok]
  constructor
  · rintro ⟨_, s₁, ran, rfl, rfl⟩
    exact ⟨s₁, ran, rfl⟩
  · rintro ⟨s₁, ran, rfl⟩
    exact ⟨matched, s₁, ran, rfl, rfl⟩

/-- A decision sets the furthest index back, and after it raises it again. -/
theorem examines_decision (lexer : r.kind = .lexer) {isMandatory : Bool} {choice choice' : Run Bool}
    (inner : Examines r.input b choice choice') :
    Examines r.input b (r.decision scope isMandatory choice)
      ((r.reading b).decision scope isMandatory choice') := by
  refine ⟨silent_decision lexer inner.silent, fun s matched s' run => ?_⟩
  obtain ⟨s₁, ran, rfl⟩ := (decision_lexer_ok lexer).1 run
  obtain ⟨⟨index, furthest, passed⟩, same⟩ := inner.same ran
  refine ⟨⟨index, Nat.le_max_left _ _, ?_⟩, fun agree => ?_⟩
  · simp only at index passed ⊢
    omega
  · -- what the choice looked at is at most the maximum that is left at the end
    refine (decision_lexer_ok (r := r.reading b) lexer).2 ⟨s₁, same ?_, rfl⟩
    exact agree.mono (Nat.le_refl _) (Nat.le_max_right _ _)

theorem silent_iterate {label : Option String} {iteration : Run Bool} (inner : iteration.Silent) :
    (r.iterate scope label iteration).Silent := by
  refine silent_bind silent_get fun start => silent_bind inner fun matched => ?_
  refine silent_ite (fun _ => silent_pure) fun _ => silent_bind silent_get fun stop => ?_
  cases label with
  | none => exact silent_pure
  | some label => exact silent_bind silent_bindLabel fun _ => silent_pure

/-- What an iteration binds depends on the symbols that it passed. -/
theorem iterate_reading {label : Option String} {iteration iteration' : Run Bool} {matched : Bool}
    {s₁ : RunState} (ran : iteration s = .ok matched s₁) (ran' : iteration' s = .ok matched s₁)
    (same : r.input.captured s.index s₁.index = b.captured s.index s₁.index) :
    (r.reading b).iterate scope label iteration' s = r.iterate scope label iteration s := by
  simp only [iterate, get_bind_apply]
  rw [bind_of_ok ran, bind_of_ok ran']
  cases matched with
  | false => rfl
  | true =>
    cases label with
    | none => rfl
    | some label =>
      have input : (r.reading b).input = b := rfl
      unfold Input.captured at same
      simp only [Bool.not_true, Bool.false_eq_true, if_false, get_bind_apply, same, input]

/-- An iteration passes what it binds. -/
theorem examines_iterate {label : Option String} {iteration iteration' : Run Bool}
    (inner : Examines r.input b iteration iteration') :
    Examines r.input b (r.iterate scope label iteration)
      ((r.reading b).iterate scope label iteration') := by
  refine ⟨silent_iterate inner.silent, fun s outcome s' run => ?_⟩
  obtain ⟨matched, s₁, ran, ended⟩ := iterate_ok run
  obtain ⟨reads, same⟩ := inner.same ran
  have kept : s'.index = s₁.index ∧ s'.furthest = s₁.furthest := by
    rcases ended with ⟨-, -, rfl⟩ | ⟨-, -, events, rfl⟩ <;> exact ⟨rfl, rfl⟩
  obtain ⟨index, furthest⟩ := kept
  refine ⟨reads.trans (.of_same index furthest), fun agree => ?_⟩
  -- the bound text ends where the iteration did, and it looked at every symbol before
  rw [furthest] at agree
  rw [← run]
  refine iterate_reading ran (same agree) ?_
  exact agree.captured s.index s₁.index (Nat.le_refl _) reads.index reads.passed

theorem examines_repeatWhile {iteration iteration' : Run Iteration} {rounds : Nat}
    (inner : Examines r.input b iteration iteration') :
    Examines r.input b (r.repeatWhile iteration rounds)
      ((r.reading b).repeatWhile iteration' rounds) := by
  induction rounds with
  | zero => exact examines_throw
  | succ rounds ih =>
    refine examines_bind inner fun outcome => ?_
    cases outcome with
    | failed | stalled => exact examines_pure
    | advanced => exact ih

theorem examines_repeated {q : Quantifier} {mandatory mandatory' optional optional' : Run Iteration}
    (required : Examines r.input b mandatory mandatory')
    (allowed : Examines r.input b optional optional') :
    Examines r.input b (r.repeated q mandatory optional)
      ((r.reading b).repeated q mandatory' optional') := by
  have rest : Examines r.input b
      (do r.repeatWhile optional ((← get).fuel + 1); return true)
      (do (r.reading b).repeatWhile optional' ((← get).fuel + 1); return true) :=
    examines_bind examines_get fun _ =>
      examines_bind (examines_repeatWhile allowed) fun _ => examines_pure
  cases q with
  | once => exact examines_bind required fun _ => examines_pure
  | optional => exact examines_bind (examines_discard allowed) fun _ => examines_pure
  | star => exact rest
  | plus =>
    refine examines_bind required fun outcome => ?_
    cases outcome with
    | failed | stalled => exact examines_pure
    | advanced => exact rest

theorem examines_iterations (lexer : r.kind = .lexer) {q : Quantifier} {label : Option String}
    {mandatory mandatory' choice choice' : Run Bool}
    (required : Examines r.input b mandatory mandatory')
    (tried : Examines r.input b choice choice') :
    Examines r.input b
      (r.repeated q (r.iterate scope label mandatory)
        (r.iterate scope label (r.decision scope false choice)))
      ((r.reading b).repeated q ((r.reading b).iterate scope label mandatory')
        ((r.reading b).iterate scope label ((r.reading b).decision scope false choice'))) :=
  examines_repeated (examines_iterate required)
    (examines_iterate (examines_decision lexer tried))

/-! ## Bodies of rules -/

section Bodies

variable {call call' : Scope → String → Run Bool}

mutual

/-- A block examines what it passes or looks at if its calls do. -/
theorem examines_block (lexer : r.kind = .lexer)
    (calls : ∀ scope name, Examines r.input b (call scope name) (call' scope name))
    (scope : Scope) : (body : CompiledBlock) →
    Examines r.input b (r.block call scope body) ((r.reading b).block call' scope body)
  | .set _ => examines_set lexer
  | .branches [] _ _ _ =>
    examines_iterations lexer (examines_decision lexer examines_pure) examines_pure
  | .branches [only] _ _ _ =>
    examines_iterations lexer (examines_attempt (examines_sequence lexer calls scope only))
      (examines_choice lexer calls _ 0 [only])
  | .branches (first :: second :: rest) _ _ _ =>
    have tried := examines_choice lexer calls _ 0 (first :: second :: rest)
    examines_iterations lexer (examines_decision lexer tried) tried

theorem examines_element (lexer : r.kind = .lexer)
    (calls : ∀ scope name, Examines r.input b (call scope name) (call' scope name))
    (scope : Scope) : (e : CompiledElement) →
    Examines r.input b (r.element call scope e) ((r.reading b).element call' scope e)
  | .set _ => examines_set lexer
  | .call name => calls scope name
  | .block body => examines_block lexer calls scope body

theorem examines_sequence (lexer : r.kind = .lexer)
    (calls : ∀ scope name, Examines r.input b (call scope name) (call' scope name))
    (scope : Scope) : (elements : CompiledSequence) →
    Examines r.input b (r.sequence call scope elements)
      ((r.reading b).sequence call' scope elements)
  | [] => examines_pure
  | e :: rest =>
    examines_bind (examines_element lexer calls _ e) fun _ =>
      examines_ite (fun _ => examines_sequence lexer calls scope rest) fun _ => examines_pure

theorem examines_choice (lexer : r.kind = .lexer)
    (calls : ∀ scope name, Examines r.input b (call scope name) (call' scope name))
    (scope : Scope) : (number : Nat) → (alternatives : List CompiledSequence) →
    Examines r.input b (r.choice call scope number alternatives)
      ((r.reading b).choice call' scope number alternatives)
  | _, [] => examines_pure
  | number, alternative :: rest => by
    refine examines_bind examines_tick fun _ => ?_
    refine examines_bind examines_emit fun _ => ?_
    refine examines_bind (examines_attempt (examines_sequence lexer calls scope alternative)) ?_
    refine fun _ => examines_ite (fun _ => examines_pure) fun _ => ?_
    exact examines_bind examines_emit fun _ =>
      examines_choice lexer calls scope (number + 1) rest

end

end Bodies

/-! ## Rules -/

theorem examines_checkKind {called : CompiledRule} :
    Examines r.input b (r.checkKind called) ((r.reading b).checkKind called) :=
  examines_ite (fun _ => examines_throw) fun _ => examines_pure

theorem examines_findRule {name : String} :
    Examines r.input b (r.findRule name) ((r.reading b).findRule name) := by
  constructor
  · unfold findRule
    cases r.grammar.rule? name with
    | some called => exact silent_pure
    | none => exact fun _ => rfl
  · intro s called s' run
    obtain ⟨-, rfl⟩ := findRule_ok run
    exact ⟨.refl _, fun _ => run⟩

/-- A lexer rule that goes well is the same on an input that agrees with the one it
    read, from where it begins through the furthest index that it looked at. -/
theorem examines_rule (lexer : r.kind = .lexer) {depth : Nat} {called : CompiledRule} :
    Examines r.input b (r.rule depth scope called) ((r.reading b).rule depth scope called) := by
  induction depth generalizing scope called with
  | zero => exact examines_bind examines_checkKind fun _ => examines_throw
  | succ depth ih =>
    refine examines_bind examines_checkKind fun _ => ?_
    refine examines_bind examines_tick fun _ => ?_
    refine examines_bind examines_emit fun _ => ?_
    refine examines_bind (examines_attempt (examines_block lexer ?_ _ called.body)) fun _ => ?_
    · exact fun scope name => examines_bind examines_findRule fun target => ih
    · exact examines_bind examines_emit fun _ => examines_pure

end Recognizer

end SetGrammar
