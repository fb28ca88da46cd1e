import SetGrammar.Proofs.OrderedChoice
import SetGrammar.Proofs.Recognition.Steps

/-!
# Runs follow ordered choice

Whatever a recognizer matches without ending the run has a meaning under ordered
choice. Either the run shows just that meaning, or it has reported something,
which only happens where the meaning is a failure.
-/
namespace SetGrammar

namespace Quantifier

theorem least_le_one (q : Quantifier) : q.least ≤ 1 := by cases q <;> decide

theorem isReached_of_repeats {q : Quantifier} (repeats : q.repeats = true) (count : Nat) :
    q.isReached count = false := by
  cases q <;> first | rfl | cases repeats

theorem isReached_succ {q : Quantifier} (repeats : q.repeats = false) (count : Nat) :
    q.isReached (count + 1) = true := by
  cases q with
  | once | optional => simp [isReached, greatest?]
  | star | plus => cases repeats

theorem isReached_zero (q : Quantifier) : q.isReached 0 = false := by cases q <;> rfl

end Quantifier

/-- A loop under a quantifier tests on. It is at its start just when a match is
    still required. -/
structure Repetition.Testing (l : Repetition) (q : Quantifier) : Prop where
  quantifier : l.quantifier = q
  opened : q.isReached l.matched = false
  state : l.state = if l.matched < q.least then .start else .looping

namespace Repetition.Testing

variable {l : Repetition} {q : Quantifier}

theorem ofQuantifier (q : Quantifier) : (Repetition.ofQuantifier q).Testing q :=
  ⟨rfl, q.isReached_zero, by cases q <;> rfl⟩

theorem step_success (testing : l.Testing q) :
    l.step true = ⟨q, if q.repeats then .looping else .done, l.matched + 1⟩ := by
  have state := testing.state
  split at state <;> simp [step, state, testing.quantifier]

theorem step_failure (testing : l.Testing q) :
    l.step false = { l with state := if l.matched < q.least then .failed else .done } := by
  have state := testing.state
  split at state <;> simp [step, *]

theorem matched_succ (testing : l.Testing q) : (l.step true).matched = l.matched + 1 := by
  rw [testing.step_success]

theorem next (testing : l.Testing q) (repeats : q.repeats = true) : (l.step true).Testing q := by
  have enough : ¬ l.matched + 1 < q.least := by
    have := q.least_le_one
    omega
  rw [testing.step_success]
  exact ⟨rfl, q.isReached_of_repeats repeats _, by simp [repeats, enough]⟩

theorem required (testing : l.Testing q) (start : l.state = .start) : l.matched < q.least := by
  have state := testing.state
  rw [start] at state
  split at state
  · assumption
  · cases state

end Repetition.Testing

/-- The states at the start and the end of a run show what a trial comes to. -/
def Trial.Shown (o : Trial) (s : RunState) (matched : Bool) (s' : RunState) : Prop :=
  s'.errors = s.errors ∧ s'.furthest = max s.furthest o.reach ∧
    match o with
    | failed _ => matched = false ∧ s'.index = s.index ∧ s'.bindings = s.bindings
    | .matched stop bindings _ =>
      matched = true ∧ s'.index = stop ∧ s'.bindings = bindings.reverse ++ s.bindings

/-- Something was reported, outside of speculation in a parser rule. -/
def Recognizer.Complained (r : Recognizer) (scope : Scope) (s s' : RunState) : Prop :=
  r.kind = .parser ∧ scope.speculative = false ∧ s.errors.length < s'.errors.length

/-- A run of a computation shows the meaning of a part, or the part cannot match
    and this was reported. -/
def Recognizer.Realizes (r : Recognizer) (scope : Scope) (m : Run Bool) (part : Part) : Prop :=
  ∀ ⦃s matched s'⦄, m s = .ok matched s' →
    ∃ o, Yields r.grammar r.input scope.rule part s.index o ∧
      (o.Shown s matched s' ∨ (∃ reach, o = .failed reach) ∧ r.Complained scope s s')

namespace Trial

variable {s s₁ s₂ s' : RunState} {matched : Bool} {bindings : List Binding} {stop reach : Nat}

theorem shown_of_failed (shown : (failed reach).Shown s matched s') :
    matched = false ∧ s'.index = s.index ∧ s'.bindings = s.bindings := shown.2.2

theorem shown_of_matched (shown : (Trial.matched stop bindings reach).Shown s matched s') :
    matched = true ∧ s'.index = stop ∧ s'.bindings = bindings.reverse ++ s.bindings := shown.2.2

/-- A run that goes on after a match shows a trial that follows it. -/
theorem Shown.after {o : Trial} (first : (Trial.matched stop bindings reach).Shown s true s₁)
    (second : o.Shown s₁ true s') : (o.after bindings reach).Shown s true s' := by
  cases o with
  | failed => cases second.2.2.1
  | matched =>
    obtain ⟨errors, furthest, -, index, bound⟩ := first
    obtain ⟨errors', furthest', -, index', bound'⟩ := second
    refine ⟨errors'.trans errors, ?_, rfl, index', ?_⟩
    · simp only [Trial.after, Trial.reach] at *
      omega
    · rw [bound', bound, List.reverse_append, List.append_assoc]

/-- A run that fails after a match and goes back shows a failure that follows the
    match. -/
theorem Shown.after_restored {o : Trial}
    (first : (Trial.matched stop bindings reach).Shown s true s₁) (second : o.Shown s₁ false s₂) :
    (o.after bindings reach).Shown s false { s₂ with index := s.index, bindings := s.bindings } := by
  cases o with
  | matched => cases second.2.2.1
  | failed =>
    refine ⟨second.1.trans first.1, ?_, rfl, rfl, rfl⟩
    have := first.2.1
    have := second.2.1
    simp only [Trial.after, Trial.reach] at *
    omega

end Trial

namespace Recognizer

variable {r : Recognizer} {scope : Scope}

theorem Realizes.errors_le {m : Run Bool} {part : Part} (realizes : r.Realizes scope m part)
    {s s' : RunState} {matched : Bool} (run : m s = .ok matched s') :
    s.errors.length ≤ s'.errors.length := by
  obtain ⟨o, -, shown | ⟨-, -, -, more⟩⟩ := realizes run
  · exact Nat.le_of_eq (by rw [shown.1])
  · exact Nat.le_of_lt more

theorem recover_errors {t : Transition} {outcome : TestResult} {s s' : RunState}
    (calm : scope.speculative = false) (run : r.recover scope t s = .ok outcome s') :
    s.errors.length < s'.errors.length := by
  rcases recover_ok calm run with ⟨events, -, -, -, rfl⟩ | ⟨-, -, rfl⟩ | ⟨-, rfl⟩ <;> simp

theorem labelled_succ (input : Input) (rule : String) (label : Option String) (i : Nat) :
    input.labelled rule label i (i + 1) =
      label.toList.map fun name => ⟨rule, name, input.value i⟩ := by
  simp [Input.labelled, Input.captured]

theorem labelled_reverse (input : Input) (rule : String) (label : Option String) (i j : Nat) :
    (input.labelled rule label i j).reverse = input.labelled rule label i j := by
  cases label <;> rfl

/-- After a match a loop is over or tests on, and it cannot fail any more. -/
theorem continues_match {t : Transition} {tests : Nat} {l : Repetition}
    (testing : l.Testing t.quantifier)
    (later : t.quantifier.repeats = true → r.Realizes scope (r.repeatSet scope t tests (l.step true))
      (.loop (.test t.toSetTest) t.quantifier t.label (l.matched + 1)))
    {s s' : RunState} {matched : Bool}
    (rest : r.Continues scope t tests (l.step true) s matched s') :
    ∃ o, Yields r.grammar r.input scope.rule
        (.loop (.test t.toSetTest) t.quantifier t.label (l.matched + 1)) s.index o ∧
      o.Shown s true s' ∧ matched = true := by
  have enough : t.quantifier.least ≤ l.matched + 1 :=
    Nat.le_trans t.quantifier.least_le_one (Nat.le_add_left 1 l.matched)
  cases repeats : t.quantifier.repeats with
  | false =>
    simp only [Continues, testing.step_success, repeats, Bool.false_eq_true, if_false] at rest
    obtain ⟨rfl, events, rfl⟩ := rest
    exact ⟨_, .full (t.quantifier.isReached_succ repeats _),
      ⟨rfl, by simp [Trial.reach], rfl, rfl, rfl⟩, rfl⟩
  | true =>
    have goes := later repeats
    simp only [Continues, testing.step_success, repeats, if_true] at rest goes
    obtain ⟨o, yields, outcome⟩ := goes rest
    obtain ⟨stop, bindings, reach, rfl⟩ := yields.loop_matches enough
    rcases outcome with shown | ⟨⟨_, failed⟩, -⟩
    · obtain ⟨rfl, -⟩ := Trial.shown_of_matched shown
      exact ⟨_, yields, shown, rfl⟩
    · cases failed

/-- A loop that meets a symbol outside of its set is over. -/
theorem continues_failure {t : Transition} {tests : Nat} {l : Repetition}
    (testing : l.Testing t.quantifier) {s s' : RunState} {matched : Bool}
    (rest : r.Continues scope t tests (l.step false) s matched s') :
    matched = decide (t.quantifier.least ≤ l.matched) ∧ ∃ events, s' = { s with events } := by
  rw [Continues, testing.step_failure] at rest
  by_cases required : l.matched < t.quantifier.least
  · simp only [required, if_true] at rest
    obtain ⟨rfl, rfl⟩ := rest
    exact ⟨by simpa using required, s'.events, rfl⟩
  · simp only [required, if_false] at rest
    obtain ⟨rfl, events, rfl⟩ := rest
    exact ⟨by simpa using required, events, rfl⟩

/-- A loop around a set test, with its progress `l`, is the rest of the
    repetition. -/
theorem realizes_repeatSet {t : Transition} {tests : Nat} {l : Repetition}
    (testing : l.Testing t.quantifier) : r.Realizes scope (r.repeatSet scope t tests l)
      (.loop (.test t.toSetTest) t.quantifier t.label l.matched) := by
  induction tests generalizing l with
  | zero => exact fun s matched s' run => (repeatSet_zero_ok run).elim
  | succ tests ih =>
    intro s matched s' run
    obtain ⟨left, outcome, s₁, s₂, -, tested, accepted, rest⟩ := repeatSet_succ_ok run
    have later (repeats : t.quantifier.repeats = true) :
        r.Realizes scope (r.repeatSet scope t tests (l.step true))
          (.loop (.test t.toSetTest) t.quantifier t.label (l.matched + 1)) := by
      have goes := ih (testing.next repeats)
      rwa [testing.matched_succ] at goes
    rcases testSymbol_ok tested with
      ⟨events, ⟨admits, rfl, rfl⟩ | ⟨refuses, ⟨rfl, rfl, -⟩ | ⟨start, parser, calm, recovered⟩⟩⟩
    · obtain ⟨events', rfl⟩ := accept_matched accepted
      have shown : (Trial.matched (s.index + 1)
          ([] ++ r.input.labelled scope.rule t.label s.index (s.index + 1)) s.index).Shown s true
            { s with
              index := s.index + 1
              fuel := left
              furthest := max s.furthest s.index
              bindings := (t.label.toList.map fun name =>
                ⟨scope.rule, name, r.input.value s.index⟩) ++ s.bindings
              events := events' } :=
        ⟨rfl, rfl, rfl, rfl, by rw [List.nil_append, labelled_reverse, labelled_succ]⟩
      obtain ⟨o, yields, shown', rfl⟩ := continues_match testing later rest
      exact ⟨_, .advances testing.opened (.admitted admits) (by omega) yields,
        .inl (shown.after shown')⟩
    · cases accepted.symm.trans (accept_unused rfl)
      obtain ⟨rfl, events', rfl⟩ := continues_failure testing rest
      refine ⟨_, .ends testing.opened (.refused refuses), .inl ?_⟩
      by_cases enough : t.quantifier.least ≤ l.matched <;>
        simp only [enough, decide_true, decide_false] <;> exact ⟨rfl, rfl, rfl, rfl, rfl⟩
    · -- Only a required test is recovered from, so that the loop fails under ordered choice.
      have required := testing.required start
      refine ⟨_, .ends testing.opened (.refused refuses), .inr ⟨⟨s.index, ?_⟩, parser, calm, ?_⟩⟩
      · rw [Trial.stay, if_neg (by simpa using required)]
      · have reported := recover_errors calm recovered
        rw [← accept_errors accepted] at reported
        cases succeeds : outcome.succeeds with
        | true =>
          rw [succeeds] at rest
          obtain ⟨_, -, shown, -⟩ := continues_match testing later rest
          rwa [shown.1]
        | false =>
          rw [succeeds] at rest
          obtain ⟨-, events', rfl⟩ := continues_failure testing rest
          exact reported

theorem realizes_set {t : Transition} : r.Realizes scope (r.set scope t) (.ofSet t) := by
  intro s matched s' run
  simp only [set, Run.get_bind_apply] at run
  exact realizes_repeatSet (.ofQuantifier t.quantifier) run

/-- While alternatives are tried nothing is reported, so that a run shows the
    meaning. -/
theorem Realizes.shown_of_speculative {m : Run Bool} {part : Part}
    (realizes : r.Realizes scope m part) (speculative : scope.speculative = true)
    {s s' : RunState} {matched : Bool} (run : m s = .ok matched s') :
    ∃ o, Yields r.grammar r.input scope.rule part s.index o ∧ o.Shown s matched s' := by
  obtain ⟨o, yields, shown | ⟨-, -, calm, -⟩⟩ := realizes run
  · exact ⟨o, yields, shown⟩
  · rw [speculative] at calm
    cases calm

/-- A decision has the meaning of its alternatives. It reports a failure only if
    it has to match. -/
theorem decision_shown {isMandatory : Bool} {alternatives : List CompiledSequence}
    {choice : Run Bool} (rivals : isMandatory = false ∨ alternatives.length ≠ 1)
    (realizes : r.Realizes { scope with speculative := true } choice (.choice alternatives))
    {s s' : RunState} {matched : Bool}
    (run : r.decision scope isMandatory choice s = .ok matched s') :
    ∃ o, Yields r.grammar r.input scope.rule (.body (.alternatives alternatives) isMandatory)
        s.index o ∧
      (o.Shown s matched s' ∨
        isMandatory = true ∧ (∃ reach, o = .failed reach) ∧ r.Complained scope s s') := by
  obtain ⟨s₁, chosen, outcome⟩ := decision_ok run
  obtain ⟨o, yields, shown⟩ := realizes.shown_of_speculative rfl chosen
  refine ⟨_, .decision rivals yields, ?_⟩
  have furthest : max s.furthest s₁.furthest = max s.furthest (o.after [] s.index).reach := by
    have := shown.2.1
    cases o <;> simp only [Trial.after, Trial.reach] at * <;> omega
  rcases outcome with ⟨rfl, -⟩ | ⟨rfl, mandatory, parser, calm, rfl⟩
  · left
    refine ⟨shown.1, furthest, ?_⟩
    cases o with
    | failed => exact shown.2.2
    | matched => exact shown.2.2
  · cases o with
    | failed =>
      refine .inr ⟨mandatory, ⟨_, rfl⟩, parser, calm, ?_⟩
      simp [shown.1]
    | matched => cases shown.2.2.1

theorem realizes_sequence_nil {call : Scope → String → Run Bool} :
    r.Realizes scope (Run.attempt (r.sequence call scope [])) (.sequence []) := by
  intro s matched s' run
  obtain ⟨s₁, done, rfl⟩ := Run.attempt_eq_ok.1 run
  simp only [sequence] at done
  obtain ⟨rfl, rfl⟩ := Run.pure_eq_ok.1 done
  exact ⟨_, .done, .inl ⟨rfl, by simp [Trial.reach], rfl, rfl, rfl⟩⟩

theorem realizes_sequence_cons {call : Scope → String → Run Bool} {e : CompiledElement}
    {rest : CompiledSequence}
    (first : r.Realizes scope (r.element call { scope with follow := rest :: scope.follow } e)
      (.ofElement e))
    (others : r.Realizes scope (Run.attempt (r.sequence call scope rest)) (.sequence rest)) :
    r.Realizes scope (Run.attempt (r.sequence call scope (e :: rest))) (.sequence (e :: rest)) := by
  intro s matched s' run
  obtain ⟨s₂, tried, rfl⟩ := Run.attempt_eq_ok.1 run
  obtain ⟨found, s₁, began, next⟩ := sequence_cons_ok tried
  obtain ⟨o, yields, outcome⟩ := first began
  rcases next with ⟨rfl, continued⟩ | ⟨rfl, rfl, rfl⟩
  · have attempted := Run.attempt_eq_ok.2 ⟨s₂, continued, rfl⟩
    rcases outcome with shown | ⟨⟨reach, rfl⟩, parser, calm, more⟩
    · cases o with
      | failed => cases shown.2.2.1
      | matched stop bindings reach =>
        obtain ⟨-, index, -⟩ := Trial.shown_of_matched shown
        obtain ⟨o', yields', outcome'⟩ := others attempted
        rw [index] at yields'
        refine ⟨_, .goes yields yields', ?_⟩
        rcases outcome' with shown' | ⟨⟨reach', rfl⟩, parser, calm, more⟩
        · cases matched with
          | true => exact .inl (shown.after shown')
          | false =>
            have restored := shown.after_restored shown'
            exact .inl restored
        · refine .inr ⟨⟨_, rfl⟩, parser, calm, ?_⟩
          rw [shown.1] at more
          cases matched <;> exact more
    · -- After a report the rest may match, but the sequence has no match.
      refine ⟨_, .stops yields, .inr ⟨⟨_, rfl⟩, parser, calm, ?_⟩⟩
      have := others.errors_le attempted
      cases matched <;> exact Nat.lt_of_lt_of_le more this
  · rcases outcome with shown | ⟨⟨reach, rfl⟩, parser, calm, more⟩
    · cases o with
      | failed => exact ⟨_, .stops yields, .inl ⟨shown.1, shown.2.1, rfl, rfl, rfl⟩⟩
      | matched => cases shown.2.2.1
    · exact ⟨_, .stops yields, .inr ⟨⟨_, rfl⟩, parser, calm, more⟩⟩

theorem realizes_choice_nil {call : Scope → String → Run Bool} {number : Nat} :
    r.Realizes scope (r.choice call scope number []) (.choice []) := by
  intro s matched s' run
  simp only [choice] at run
  obtain ⟨rfl, rfl⟩ := Run.pure_eq_ok.1 run
  exact ⟨_, .none, .inl ⟨rfl, by simp [Trial.reach], rfl, rfl, rfl⟩⟩

theorem realizes_choice_cons {call : Scope → String → Run Bool} {number : Nat}
    {alternative : CompiledSequence} {rest : List CompiledSequence}
    (speculative : scope.speculative = true)
    (first : r.Realizes scope (Run.attempt (r.sequence call scope alternative))
      (.sequence alternative))
    (others : r.Realizes scope (r.choice call scope (number + 1) rest) (.choice rest)) :
    r.Realizes scope (r.choice call scope number (alternative :: rest))
      (.choice (alternative :: rest)) := by
  intro s matched s' run
  obtain ⟨left, found, s₁, -, tried, next⟩ := choice_cons_ok run
  obtain ⟨o, yields, shown⟩ := first.shown_of_speculative speculative tried
  rcases next with ⟨rfl, rfl, rfl⟩ | ⟨rfl, continued⟩
  · cases o with
    | failed => cases shown.2.2.1
    | matched => exact ⟨_, .first yields, .inl shown⟩
  · cases o with
    | matched => cases shown.2.2.1
    | failed =>
      obtain ⟨o', yields', shown'⟩ := others.shown_of_speculative speculative continued
      obtain ⟨errors, furthest, -, index, bindings⟩ := shown
      have index : s₁.index = s.index := index
      rw [index] at yields'
      refine ⟨_, .later yields yields', .inl ⟨shown'.1.trans errors, ?_, ?_⟩⟩
      · have := shown'.2.1
        cases o' <;> simp only [Trial.after, Trial.reach] at * <;> omega
      · cases o' with
        | failed =>
          obtain ⟨rfl, index', bindings'⟩ := Trial.shown_of_failed shown'
          exact ⟨rfl, index'.trans index, bindings'.trans bindings⟩
        | matched =>
          obtain ⟨rfl, index', bindings'⟩ := Trial.shown_of_matched shown'
          exact ⟨rfl, index', bindings'.trans (by rw [bindings]; rfl)⟩

/-- An iteration fails, matches with what its label binds, or reports that it
    cannot match. -/
theorem iterate_shown {label : Option String} {m : Run Bool} {body : Body} {isRequired : Bool}
    (realizes : r.Realizes scope m (.body body isRequired)) {outcome : Iteration} {s s' : RunState}
    (run : r.iterate scope label m s = .ok outcome s') :
    ∃ o, Yields r.grammar r.input scope.rule (.body body isRequired) s.index o ∧
      match o with
      | .failed reach =>
        outcome = .failed ∧ (Trial.failed reach).Shown s false s' ∨ r.Complained scope s s'
      | .matched stop bindings reach =>
        outcome = (if stop = s.index then .stalled else .advanced) ∧
          (Trial.matched stop (bindings ++ r.input.labelled scope.rule label s.index stop)
            reach).Shown s true s' := by
  obtain ⟨matched, s₁, tried, rest⟩ := iterate_ok run
  obtain ⟨o, yields, shown | ⟨⟨reach, rfl⟩, parser, calm, more⟩⟩ := realizes tried
  · refine ⟨o, yields, ?_⟩
    cases o with
    | failed reach =>
      obtain ⟨rfl, -⟩ := Trial.shown_of_failed shown
      rcases rest with ⟨-, rfl, rfl⟩ | ⟨matched, -⟩
      · exact .inl ⟨rfl, shown⟩
      · cases matched
    | matched stop bindings reach =>
      obtain ⟨rfl, index, bound⟩ := Trial.shown_of_matched shown
      rcases rest with ⟨failed, -⟩ | ⟨-, rfl, events, rfl⟩
      · cases failed
      · refine ⟨by rw [index], shown.1, shown.2.1, rfl, index, ?_⟩
        rw [List.reverse_append, labelled_reverse, List.append_assoc, ← bound, ← index]
        rfl
  · refine ⟨_, yields, .inr ⟨parser, calm, ?_⟩⟩
    rcases rest with ⟨-, -, rfl⟩ | ⟨-, -, events, rfl⟩ <;> exact more

/-- Optional iterations are the rest of a repetition that has enough matches. -/
theorem repeatWhile_shown {label : Option String} {m : Run Bool} {body : Body} {q : Quantifier}
    {count rounds : Nat} (repeats : q.repeats = true) (enough : q.least ≤ count)
    (realizes : r.Realizes { scope with speculative := true } m (.body body false))
    {s s' : RunState} {u : Unit}
    (run : r.repeatWhile (r.iterate scope label m) rounds s = .ok u s') :
    ∃ o, Yields r.grammar r.input scope.rule (.loop body q label count) s.index o ∧
      o.Shown s true s' := by
  induction rounds generalizing count s with
  | zero => exact (repeatWhile_zero_ok run).elim
  | succ rounds ih =>
    obtain ⟨outcome, s₁, iterated, rest⟩ := repeatWhile_succ_ok run
    have opened := q.isReached_of_repeats repeats count
    have optional : decide (count < q.least) = false := by simpa using enough
    obtain ⟨o, yields, shown⟩ := iterate_shown realizes iterated
    rw [← optional] at yields
    cases o with
    | failed reach =>
      rcases shown with ⟨rfl, shown⟩ | ⟨-, calm, -⟩
      · cases rest
        refine ⟨_, .ends opened yields, ?_⟩
        rw [Trial.stay, if_pos (by simpa using enough)]
        exact ⟨shown.1, shown.2.1, rfl, shown.2.2.2⟩
      · cases calm
    | matched stop bindings reach =>
      obtain ⟨rfl, shown⟩ := shown
      by_cases stalled : stop = s.index
      · subst stalled
        rw [if_pos rfl] at rest
        cases rest
        exact ⟨_, .stalls opened yields, shown⟩
      · rw [if_neg stalled] at rest
        obtain ⟨-, index, -⟩ := Trial.shown_of_matched shown
        obtain ⟨o', yields', shown'⟩ := ih (Nat.le_succ_of_le enough) rest
        rw [index] at yields'
        exact ⟨_, .advances opened yields stalled yields', shown.after shown'⟩

/-- A repetition that starts with a required iteration goes on only if that
    advances. -/
theorem realizes_first {label : Option String} {m : Run Bool} {body : Body} {q : Quantifier}
    {next : Iteration → Run Bool} (least : q.least = 1)
    (realizes : r.Realizes scope m (.body body true))
    (failed : next .failed = pure false) (stalled : next .stalled = pure true)
    (advanced : ∀ ⦃s matched s'⦄, next .advanced s = .ok matched s' → ∃ o,
      Yields r.grammar r.input scope.rule (.loop body q label 1) s.index o ∧ o.Shown s true s' ∧
        matched = true) :
    r.Realizes scope (r.iterate scope label m >>= next) (.loop body q label 0) := by
  intro s matched s' run
  obtain ⟨outcome, s₁, iterated, rest⟩ := Run.bind_eq_ok.1 run
  have opened := q.isReached_zero
  have required : decide (0 < q.least) = true := by simp [least]
  obtain ⟨o, yields, shown⟩ := iterate_shown realizes iterated
  rw [← required] at yields
  cases o with
  | failed reach =>
    refine ⟨_, .ends opened yields, ?_⟩
    rw [Trial.stay, if_neg (by simp [least])]
    rcases shown with ⟨rfl, shown⟩ | ⟨parser, calm, more⟩
    · rw [failed] at rest
      obtain ⟨rfl, rfl⟩ := Run.pure_eq_ok.1 rest
      exact .inl shown
    · refine .inr ⟨⟨reach, rfl⟩, parser, calm, ?_⟩
      cases outcome with
      | failed | stalled =>
        simp only [failed, stalled, Run.pure_eq_ok] at rest
        obtain ⟨-, rfl⟩ := rest
        exact more
      | advanced =>
        obtain ⟨o, -, shown, -⟩ := advanced rest
        rw [shown.1]
        exact more
  | matched stop bindings reach =>
    obtain ⟨rfl, shown⟩ := shown
    by_cases stalls : stop = s.index
    · subst stalls
      rw [if_pos rfl, stalled] at rest
      obtain ⟨rfl, rfl⟩ := Run.pure_eq_ok.1 rest
      exact ⟨_, .stalls opened yields, .inl shown⟩
    · rw [if_neg stalls] at rest
      obtain ⟨-, index, -⟩ := Trial.shown_of_matched shown
      obtain ⟨o', yields', shown', rfl⟩ := advanced rest
      rw [index] at yields'
      exact ⟨_, .advances opened yields stalls yields', .inl (shown.after shown')⟩

theorem realizes_repeated {label : Option String} {mandatory optional : Run Bool} {body : Body}
    {q : Quantifier} (required : r.Realizes scope mandatory (.body body true))
    (further : r.Realizes { scope with speculative := true } optional (.body body false)) :
    r.Realizes scope
      (r.repeated q (r.iterate scope label mandatory) (r.iterate scope label optional))
      (.loop body q label 0) := by
  cases q with
  | once =>
    refine realizes_first rfl required rfl rfl fun s matched s' run => ?_
    obtain ⟨rfl, rfl⟩ := Run.pure_eq_ok.1 run
    exact ⟨_, .full rfl, ⟨rfl, by simp [Trial.reach], rfl, rfl, rfl⟩, rfl⟩
  | plus =>
    refine realizes_first rfl required rfl rfl fun s matched s' run => ?_
    simp only [Run.get_bind_apply] at run
    obtain ⟨⟨⟩, s₁, repeated, rest⟩ := Run.bind_eq_ok.1 run
    obtain ⟨rfl, rfl⟩ := Run.pure_eq_ok.1 rest
    obtain ⟨o, yields, shown⟩ :=
      repeatWhile_shown (q := .plus) rfl (Nat.le_refl 1) further repeated
    exact ⟨o, yields, shown, rfl⟩
  | star =>
    intro s matched s' run
    simp only [repeated, Run.get_bind_apply] at run
    obtain ⟨⟨⟩, s₁, repeated, rest⟩ := Run.bind_eq_ok.1 run
    obtain ⟨rfl, rfl⟩ := Run.pure_eq_ok.1 rest
    obtain ⟨o, yields, shown⟩ :=
      repeatWhile_shown (q := .star) rfl (Nat.le_refl 0) further repeated
    exact ⟨o, yields, .inl shown⟩
  | optional =>
    intro s matched s' run
    obtain ⟨⟨⟩, s₁, discarded, rest⟩ := Run.bind_eq_ok.1 run
    obtain ⟨rfl, rfl⟩ := Run.pure_eq_ok.1 rest
    obtain ⟨outcome, iterated⟩ := Run.discard_eq_ok.1 discarded
    obtain ⟨o, yields, shown⟩ := iterate_shown further iterated
    cases o with
    | failed reach =>
      rcases shown with ⟨-, shown⟩ | ⟨-, calm, -⟩
      · exact ⟨_, .ends (q := .optional) rfl yields, .inl ⟨shown.1, shown.2.1, rfl, shown.2.2.2⟩⟩
      · cases calm
    | matched stop bindings reach =>
      obtain ⟨-, shown⟩ := shown
      by_cases stalls : stop = s.index
      · subst stalls
        exact ⟨_, .stalls (q := .optional) rfl yields, .inl shown⟩
      · refine ⟨_, .advances (q := .optional) rfl yields stalls (.full rfl), .inl (shown.after ?_)⟩
        exact ⟨rfl, by simp [Trial.reach], rfl, shown.2.2.2.1, rfl⟩

/-- An optional iteration of a block. -/
theorem realizes_optional {alternatives : List CompiledSequence} {choice : Run Bool}
    (realizes : r.Realizes { scope with speculative := true } choice (.choice alternatives)) :
    r.Realizes { scope with speculative := true } (r.decision scope false choice)
      (.body (.alternatives alternatives) false) := by
  intro s matched s' run
  obtain ⟨o, yields, shown | ⟨mandatory, -⟩⟩ := decision_shown (.inl rfl) realizes run
  · exact ⟨o, yields, .inl shown⟩
  · cases mandatory

/-- A mandatory iteration of a block with rivals. -/
theorem realizes_mandatory {alternatives : List CompiledSequence} {choice : Run Bool}
    (rivals : alternatives.length ≠ 1)
    (realizes : r.Realizes { scope with speculative := true } choice (.choice alternatives)) :
    r.Realizes scope (r.decision scope true choice) (.body (.alternatives alternatives) true) := by
  intro s matched s' run
  obtain ⟨o, yields, shown | ⟨-, complained⟩⟩ := decision_shown (.inr rivals) realizes run
  · exact ⟨o, yields, .inl shown⟩
  · exact ⟨o, yields, .inr complained⟩

/-- A mandatory iteration of a block without rivals. -/
theorem realizes_only {alternative : CompiledSequence} {m : Run Bool}
    (realizes : r.Realizes scope m (.sequence alternative)) :
    r.Realizes scope m (.body (.alternatives [alternative]) true) := by
  intro s matched s' run
  obtain ⟨o, yields, shown⟩ := realizes run
  exact ⟨o, .only yields, shown⟩

variable {call : Scope → String → Run Bool}

mutual

/-- If calls have their meaning, then so does every part of a rule. -/
theorem realizes_block (calls : ∀ scope name, r.Realizes scope (call scope name) (.call name))
    (scope : Scope) : (b : CompiledBlock) → r.Realizes scope (r.block call scope b) (.ofBlock b)
  | .set _ => realizes_set
  | .branches alternatives q label reason => by
    have choice := realizes_choice calls { scope with speculative := true } rfl 0 alternatives
    match alternatives with
    | [alternative] =>
      have only := realizes_sequence calls scope alternative
      exact realizes_repeated (realizes_only only) (realizes_optional choice)
    | [] => exact realizes_repeated (realizes_mandatory (by simp) choice) (realizes_optional choice)
    | first :: second :: rest =>
      exact realizes_repeated (realizes_mandatory (by simp) choice) (realizes_optional choice)

theorem realizes_element (calls : ∀ scope name, r.Realizes scope (call scope name) (.call name))
    (scope : Scope) :
    (e : CompiledElement) → r.Realizes scope (r.element call scope e) (.ofElement e)
  | .set _ => realizes_set
  | .call name => calls scope name
  | .block b => realizes_block calls scope b

theorem realizes_sequence (calls : ∀ scope name, r.Realizes scope (call scope name) (.call name))
    (scope : Scope) : (elements : List CompiledElement) →
      r.Realizes scope (Run.attempt (r.sequence call scope elements)) (.sequence elements)
  | [] => realizes_sequence_nil
  | e :: rest =>
    realizes_sequence_cons (realizes_element calls { scope with follow := rest :: scope.follow } e)
      (realizes_sequence calls scope rest)

theorem realizes_choice (calls : ∀ scope name, r.Realizes scope (call scope name) (.call name))
    (scope : Scope) (speculative : scope.speculative = true) :
    (number : Nat) → (alternatives : List (List CompiledElement)) →
      r.Realizes scope (r.choice call scope number alternatives) (.choice alternatives)
  | _, [] => realizes_choice_nil
  | number, alternative :: rest =>
    realizes_choice_cons speculative (realizes_sequence calls scope alternative)
      (realizes_choice calls scope speculative (number + 1) rest)

end

theorem realizes_attempt {m : Run Bool} {part : Part} (realizes : r.Realizes scope m part) :
    r.Realizes scope (Run.attempt m) part := by
  intro s matched s' run
  obtain ⟨s₁, tried, rfl⟩ := Run.attempt_eq_ok.1 run
  obtain ⟨o, yields, shown | ⟨failed, parser, calm, more⟩⟩ := realizes tried
  · refine ⟨o, yields, .inl ?_⟩
    cases o with
    | failed =>
      obtain ⟨rfl, -⟩ := Trial.shown_of_failed shown
      exact ⟨shown.1, shown.2.1, rfl, rfl, rfl⟩
    | matched =>
      obtain ⟨rfl, -⟩ := Trial.shown_of_matched shown
      exact shown
  · refine ⟨o, yields, .inr ⟨failed, parser, calm, ?_⟩⟩
    cases matched <;> exact more

/-- A call has its meaning if the rules that it may lead to follow their bodies. -/
theorem realizes_call {depth : Nat} {name : String}
    (rules : ∀ called : CompiledRule, r.Realizes { scope with rule := called.name }
      (r.rule depth scope called) (.ofBlock called.body)) :
    r.Realizes scope (r.callAt depth scope name) (.call name) := by
  intro s matched s' run
  obtain ⟨called, found, ran⟩ := callAt_ok run
  obtain ⟨o, yields, outcome⟩ := rules called ran
  exact ⟨o, .call found yields, outcome⟩

/-- A run of a rule follows the rule's body. -/
theorem realizes_rule {depth : Nat} {called : CompiledRule} :
    r.Realizes { scope with rule := called.name } (r.rule depth scope called)
      (.ofBlock called.body) := by
  induction depth generalizing scope called with
  | zero => exact fun s matched s' run => (rule_zero_ok run).elim
  | succ depth ih =>
    -- Called rules are one level further down, in whatever scope the call is made.
    have calls (scope : Scope) (name : String) :
        r.Realizes scope (r.callAt depth scope name) (.call name) :=
      realizes_call fun _ => ih
    intro s matched s' run
    obtain ⟨-, left, s₁, -, tried, rfl⟩ := rule_succ_ok run
    have body := realizes_block calls { scope with rule := called.name } called.body
    obtain ⟨o, yields, outcome⟩ := realizes_attempt body tried
    exact ⟨o, yields, outcome⟩

theorem realizes_callAt {depth : Nat} {name : String} :
    r.Realizes scope (r.callAt depth scope name) (.call name) :=
  realizes_call fun _ => realizes_rule

end Recognizer

end SetGrammar
