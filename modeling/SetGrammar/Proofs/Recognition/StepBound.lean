import Mathlib.Algebra.Order.BigOperators.Group.List
import Mathlib.Algebra.Order.Group.Nat
import SetGrammar.Proofs.Leaves
import SetGrammar.Proofs.Recognition.Budget
import SetGrammar.Proofs.Recognition.Extent
import SetGrammar.Proofs.Recognition.Meaning
import SetGrammar.Parse
import SetGrammar.Tokenization

/-!
# Bounds on steps

Every run has a bound on its steps that depends on the grammar, the length of the
input and the depth of calls only. A loop around a set test uses up a symbol in each
round but the first and the last. A loop around branches goes on only after an
iteration that used up a symbol. Calls are bounded one level after the other, so
that rules may call themselves before they use up anything.
-/
namespace SetGrammar

mutual

/-- How many steps a block takes at most on an input with a number of symbols, if a
    call takes no more than `call`. -/
def CompiledBlock.stepBound (symbols call : Nat) : CompiledBlock → Nat
  | .set _ => symbols + 2
  | .branches alternatives _ _ _ => (symbols + 2) * (branchesBound symbols call alternatives + 1)

def CompiledElement.stepBound (symbols call : Nat) : CompiledElement → Nat
  | .set _ => symbols + 2
  | .call _ => call
  | .block b => b.stepBound symbols call

def sequenceBound (symbols call : Nat) : List CompiledElement → Nat
  | [] => 0
  | e :: rest => e.stepBound symbols call + sequenceBound symbols call rest

/-- Each alternative takes a step more than its sequence. -/
def branchesBound (symbols call : Nat) : List (List CompiledElement) → Nat
  | [] => 0
  | alternative :: rest =>
    sequenceBound symbols call alternative + 1 + branchesBound symbols call rest

end

namespace CompiledGrammar

/-- How many steps a rule takes at most while `depth` more calls may be opened. -/
def ruleBound (g : CompiledGrammar) (symbols : Nat) : Nat → Nat
  | 0 => 0
  | depth + 1 =>
    (g.rules.map fun rule => rule.body.stepBound symbols (g.ruleBound symbols depth)).sum + 1

theorem body_lt_ruleBound {g : CompiledGrammar} {called : CompiledRule} (member : called ∈ g.rules)
    (symbols depth : Nat) :
    called.body.stepBound symbols (g.ruleBound symbols depth) + 1 ≤
      g.ruleBound symbols (depth + 1) :=
  Nat.succ_le_succ (List.le_sum_of_mem (List.mem_map.2 ⟨called, member, rfl⟩))

end CompiledGrammar

/-- The steps that are allowed are not used up. -/
def RunError.NotTired (e : RunError) : Prop := ∀ limit, e ≠ .outOfFuel limit

namespace Recognizer

open Run RunError

variable {r : Recognizer} {scope : Scope} {early : RunError → Prop} {n last : Nat} {s s' : RunState}

/-! ## Loops around a set test -/

/-- A round that succeeds leaves less to do. It uses up a symbol unless it was the
    first one, and only that can be followed by two more. -/
theorem Round.less {t : Transition} {l : Repetition} (testing : l.Testing t.quantifier)
    (ends : r.input.EndsBy last) (round : r.Round scope t l s s' true) :
    last - s'.index + 2 ≤ last - s.index + (if l.matched < t.quantifier.least then 2 else 1) := by
  have one_le : 1 ≤ if l.matched < t.quantifier.least then 2 else 1 := by split <;> decide
  cases round with
  | admitted admits index =>
    have := ends.lt_of_admits admits
    omega
  | skipped _ start _ index =>
    rw [if_pos (testing.required start)]
    omega
  | conjured _ start _ index =>
    rw [if_pos (testing.required start), index]

theorem endsFrom_repeatSet {t : Transition} {l : Repetition} {tests : Nat}
    (ends : r.input.EndsBy last) (testing : l.Testing t.quantifier)
    (enough : last - s.index + (if l.matched < t.quantifier.least then 2 else 1) ≤ n)
    (counted : n ≤ tests) : EndsFrom early n (r.repeatSet scope t tests l) s := by
  -- On the rounds that are left: a symbol each, one that fails and one that is made up for.
  induction n generalizing tests l s with
  | zero =>
    have one_le : 1 ≤ if l.matched < t.quantifier.least then 2 else 1 := by split <;> decide
    omega
  | succ n ih =>
    obtain ⟨tests, rfl⟩ := Nat.exists_eq_add_one.2 (Nat.lt_of_lt_of_le n.succ_pos counted)
    have steps : 1 + (0 + (0 + n)) ≤ n + 1 := by omega
    refine (endsFrom_bind (endsWithin_tick.endsFrom s) fun _ s₀ ticked =>
      endsFrom_bind (endsWithin_testSymbol.endsFrom s₀) fun outcome s₁ tested =>
        endsFrom_bind (endsWithin_accept.endsFrom s₁) fun _ s₂ accepted => ?_).mono steps
    obtain ⟨left, -, rfl⟩ := tick_eq_ok.1 ticked
    have round := round_ok tested accepted
    generalize outcome.succeeds = success at round ⊢
    cases success with
    | false =>
      simp only [testing.step_failure]
      by_cases required : l.matched < t.quantifier.least
      · simpa only [required, if_true] using endsFrom_pure
      · simp only [required, if_false]
        split
        · refine EndsFrom.mono (EndsWithin.endsFrom ?_ s₂) n.zero_le
          exact endsWithin_after endsWithin_emit fun _ => endsWithin_pure
        · exact endsFrom_pure
    | true =>
      have less : last - s₂.index + 2 ≤ n + 1 := Nat.le_trans (round.less testing ends) enough
      cases repeats : t.quantifier.repeats with
      | false =>
        simpa only [testing.step_success, repeats, Bool.false_eq_true, if_false] using endsFrom_pure
      | true =>
        have testing' := testing.next repeats
        have optional : ¬ (l.step true).matched < t.quantifier.least := by
          have := t.quantifier.least_le_one
          rw [testing.matched_succ]
          omega
        have enough' : last - s₂.index +
            (if (l.step true).matched < t.quantifier.least then 2 else 1) ≤ n := by
          rw [if_neg optional]
          omega
        have rest := ih testing' enough' (Nat.le_of_succ_le_succ counted)
        simpa only [testing.step_success, repeats, if_true] using rest

theorem endsWithin_setBound {t : Transition} (ends : r.input.EndsBy last) :
    EndsWithin early (last + 2) (r.set scope t) := by
  intro s enough
  have counted : last + 2 ≤ s.fuel + 1 := Nat.le_succ_of_le enough
  have required : last - s.index +
      (if (Repetition.ofQuantifier t.quantifier).matched < t.quantifier.least then 2 else 1) ≤
        last + 2 := by
    split <;> omega
  exact endsFrom_repeatSet ends (.ofQuantifier t.quantifier) required counted enough

/-! ## Loops around branches -/

theorem endsFrom_repeatWhile {iteration : Run Iteration} {rounds k : Nat}
    (inner : EndsWithin early n iteration)
    (advances : ∀ s s', iteration s = .ok .advanced s' → s.index < s'.index ∧ s'.index ≤ last)
    (left : last - s.index ≤ k) (counted : k < rounds) :
    EndsFrom early ((k + 1) * n) (r.repeatWhile iteration rounds) s := by
  -- An iteration that is gone on after uses up one of the `k` symbols that are left.
  induction rounds generalizing k s with
  | zero => omega
  | succ rounds ih =>
    have steps : n + k * n ≤ (k + 1) * n := by rw [Nat.succ_mul, Nat.add_comm]
    refine (endsFrom_bind (inner.endsFrom s) fun outcome s₁ iterated => ?_).mono steps
    cases outcome with
    | failed | stalled => exact endsFrom_pure
    | advanced =>
      obtain ⟨forward, inside⟩ := advances s s₁ iterated
      obtain ⟨k, rfl⟩ : ∃ k', k = k' + 1 := Nat.exists_eq_add_one.2 (by omega)
      exact ih (by omega) (by omega)

theorem endsWithin_repeated {q : Quantifier} {mandatory optional : Run Iteration}
    (required : EndsWithin early n mandatory) (allowed : EndsWithin early n optional)
    (advances : ∀ s s', optional s = .ok .advanced s' → s.index < s'.index ∧ s'.index ≤ last) :
    EndsWithin early ((last + 2) * (n + 1)) (r.repeated q mandatory optional) := by
  have all : (last + 2) * (n + 1) = n + 1 + (last + 1) * (n + 1) := by
    rw [Nat.succ_mul (last + 1), Nat.add_comm]
  have once : n ≤ (last + 2) * (n + 1) := by omega
  have rest : EndsWithin early ((last + 1) * (n + 1))
      (do r.repeatWhile optional ((← get).fuel + 1); return true) := by
    intro s enough
    have counted : last < s.fuel + 1 := by
      have : last + 1 ≤ (last + 1) * (n + 1) := Nat.le_mul_of_pos_right _ n.succ_pos
      omega
    have rounds : EndsFrom early ((last + 1) * (n + 1))
        (r.repeatWhile optional (s.fuel + 1)) s :=
      endsFrom_repeatWhile (allowed.mono n.le_succ) advances (Nat.sub_le _ _) counted
    have ended : EndsFrom early ((last + 1) * (n + 1) + 0)
        (r.repeatWhile optional (s.fuel + 1) >>= fun _ => pure true) s :=
      endsFrom_bind rounds fun _ _ _ => endsFrom_pure
    exact ended enough
  cases q with
  | once => exact (endsWithin_before required fun _ => endsWithin_pure).mono once
  | optional =>
    exact (endsWithin_before (endsWithin_discard allowed) fun _ => endsWithin_pure).mono once
  | star => exact rest.mono (by omega)
  | plus =>
    rw [all]
    refine endsWithin_bind (required.mono n.le_succ) fun outcome => ?_
    cases outcome with
    | failed | stalled => exact endsWithin_pure.mono (Nat.zero_le _)
    | advanced => exact rest

/-- An optional iteration that advances uses up some of the input. -/
theorem iterate_advances {label : Option String} {m : Run Bool} {body : Body}
    (ends : r.input.EndsBy last)
    (realizes : r.Realizes { scope with speculative := true } m (.body body false))
    (run : r.iterate scope label m s = .ok .advanced s') :
    s.index < s'.index ∧ s'.index ≤ last := by
  obtain ⟨o, yields, shown⟩ := iterate_shown realizes run
  cases o with
  | failed =>
    rcases shown with ⟨failed, -⟩ | ⟨-, calm, -⟩
    · cases failed
    · cases calm
  | matched stop bindings reach =>
    obtain ⟨advanced, shown⟩ := shown
    obtain ⟨-, index, -⟩ := Trial.shown_of_matched shown
    obtain ⟨forward, inside⟩ := yields.stop_le ends
    have moved : stop ≠ s.index := by
      intro stalled
      rw [if_pos stalled] at advanced
      cases advanced
    omega

/-! ## Bodies of rules -/

/-- Calls take no more than a number of steps, and they have their meaning. -/
structure CallsEnd (r : Recognizer) (early : RunError → Prop) (steps : Nat)
    (call : Scope → String → Run Bool) : Prop where
  ends : ∀ scope name, EndsWithin early steps (call scope name)
  realizes : ∀ scope name, r.Realizes scope (call scope name) (.call name)

variable {call : Scope → String → Run Bool} {steps : Nat}

theorem endsWithin_iterations {q : Quantifier} {label : Option String} {mandatory choice : Run Bool}
    {alternatives : List CompiledSequence} (ends : r.input.EndsBy last)
    (required : EndsWithin early n mandatory) (tried : EndsWithin early n choice)
    (realizes : r.Realizes { scope with speculative := true } choice (.choice alternatives)) :
    EndsWithin early ((last + 2) * (n + 1))
      (r.repeated q (r.iterate scope label mandatory)
        (r.iterate scope label (r.decision scope false choice))) :=
  endsWithin_repeated (endsWithin_iterate required) (endsWithin_iterate (endsWithin_decision tried))
    fun _ _ run => iterate_advances ends (realizes_optional realizes) run

mutual

theorem endsWithin_blockBound (ends : r.input.EndsBy last) (calls : r.CallsEnd early steps call)
    {scope : Scope} : (b : CompiledBlock) →
      EndsWithin early (b.stepBound last steps) (r.block call scope b)
  | .set _ => endsWithin_setBound ends
  | .branches [] _ _ _ =>
    endsWithin_iterations ends (endsWithin_decision endsWithin_pure) endsWithin_pure
      realizes_choice_nil
  | .branches [only] _ _ _ =>
    -- An only alternative is matched without trying, which saves a step.
    have alone := endsWithin_attempt (endsWithin_sequenceBound ends calls only)
    endsWithin_iterations ends (alone.mono (Nat.le_add_right _ 1))
      (endsWithin_branchesBound ends calls 0 [only])
      (realizes_choice calls.realizes { scope with speculative := true } rfl 0 [only])
  | .branches (first :: second :: rest) _ _ _ =>
    have tried := endsWithin_branchesBound ends calls 0 (first :: second :: rest)
    endsWithin_iterations ends (endsWithin_decision tried) tried
      (realizes_choice calls.realizes { scope with speculative := true } rfl 0 _)

theorem endsWithin_elementBound (ends : r.input.EndsBy last) (calls : r.CallsEnd early steps call)
    {scope : Scope} : (e : CompiledElement) →
      EndsWithin early (e.stepBound last steps) (r.element call scope e)
  | .set _ => endsWithin_setBound ends
  | .call name => calls.ends scope name
  | .block b => endsWithin_blockBound ends calls b

theorem endsWithin_sequenceBound (ends : r.input.EndsBy last) (calls : r.CallsEnd early steps call)
    {scope : Scope} : (elements : List CompiledElement) →
      EndsWithin early (sequenceBound last steps elements) (r.sequence call scope elements)
  | [] => endsWithin_pure
  | e :: rest =>
    endsWithin_sequence_cons (endsWithin_elementBound ends calls e)
      (endsWithin_sequenceBound ends calls rest)

theorem endsWithin_branchesBound (ends : r.input.EndsBy last) (calls : r.CallsEnd early steps call)
    {scope : Scope} : (number : Nat) → (alternatives : List (List CompiledElement)) →
      EndsWithin early (branchesBound last steps alternatives)
        (r.choice call scope number alternatives)
  | _, [] => endsWithin_pure
  | number, alternative :: rest =>
    endsWithin_choice_cons (endsWithin_sequenceBound ends calls alternative)
      (endsWithin_branchesBound ends calls (number + 1) rest)

end

/-! ## Rules -/

theorem endsWithin_findRule {name : String} : EndsWithin NotTired 0 (r.findRule name) := by
  unfold findRule
  cases r.grammar.rule? name with
  | none => exact endsWithin_throw nofun
  | some called => exact endsWithin_pure

/-- What goes on with a rule of a name goes on with a rule of the grammar. -/
theorem endsWithin_named {α : Type} {name : String} {next : CompiledRule → Run α}
    (rules : ∀ called ∈ r.grammar.rules, EndsWithin NotTired n (next called)) :
    EndsWithin NotTired n (r.findRule name >>= next) := by
  intro s
  refine (endsFrom_bind (endsWithin_findRule.endsFrom s) fun called s₁ looked => ?_).mono
    (Nat.le_of_eq (Nat.zero_add n))
  obtain ⟨found, -⟩ := findRule_ok looked
  exact rules called (CompiledGrammar.mem_of_rule? found) s₁

theorem endsWithin_ruleBound {depth : Nat} {called : CompiledRule} (ends : r.input.EndsBy last)
    (member : called ∈ r.grammar.rules) :
    EndsWithin NotTired (r.grammar.ruleBound last depth) (r.rule depth scope called) := by
  have misuse (name : String) (kind : RuleKind) : (wrongKind name kind).NotTired := nofun
  induction depth generalizing scope called with
  | zero =>
    exact endsWithin_after (endsWithin_checkKind (.inr misuse)) fun _ => endsWithin_throw nofun
  | succ depth ih =>
    -- A rule may call itself before it reads anything, but only one level further down.
    have calls : r.CallsEnd NotTired (r.grammar.ruleBound last depth) (r.callAt depth) :=
      ⟨fun _ _ => endsWithin_named fun _ member => ih member, fun _ _ => realizes_callAt⟩
    have body (scope : Scope) : EndsWithin NotTired
        (called.body.stepBound last (r.grammar.ruleBound last depth))
        (r.block (r.callAt depth) scope called.body) := endsWithin_blockBound ends calls called.body
    exact (endsWithin_rule (.inr misuse) body).mono
      (CompiledGrammar.body_lt_ruleBound member last depth)

theorem endsWithin_start {called : CompiledRule} (ends : r.input.EndsBy last)
    (member : called ∈ r.grammar.rules) :
    EndsWithin NotTired (r.grammar.ruleBound last r.limits.depth) (r.start called) :=
  endsWithin_ruleBound ends member

/-! ## Tokenizations and parses -/

theorem endsWithin_candidate {start : Nat} {called : CompiledRule}
    (tried : EndsWithin early n (r.start called)) :
    EndsWithin early n (r.candidate? start called) := by
  refine endsWithin_after endsWithin_seek fun _ => endsWithin_before tried fun matched => ?_
  cases matched with
  | false => exact endsWithin_pure
  | true =>
    exact endsWithin_after endsWithin_get fun _ =>
      endsWithin_after endsWithin_takeBindings fun _ => endsWithin_pure

theorem endsWithin_bestCandidate {start : Nat} {best : Option Candidate}
    {rules : List CompiledRule} (tried : ∀ called ∈ rules, EndsWithin early n (r.start called)) :
    EndsWithin early (rules.length * n) (r.bestCandidate start best rules) := by
  induction rules generalizing best with
  | nil => exact endsWithin_pure.mono (Nat.zero_le _)
  | cons called rest ih =>
    rw [List.forall_mem_cons] at tried
    refine (endsWithin_bind (endsWithin_candidate tried.1) fun _ => ih tried.2).mono ?_
    rw [List.length_cons, Nat.succ_mul, Nat.add_comm]

theorem endsWithin_stretch {start : Nat} {position : Position} {rules : List CompiledRule}
    (tried : ∀ called ∈ rules, EndsWithin early n (r.start called)) :
    EndsWithin early (rules.length * n) (r.stretch rules start position) := by
  refine endsWithin_after (endsWithin_modify fun _ => rfl) fun _ =>
    endsWithin_before (endsWithin_bestCandidate tried) fun best => ?_
  cases best with
  | none =>
    exact endsWithin_after endsWithin_get fun _ => endsWithin_after endsWithin_report fun _ =>
      endsWithin_after endsWithin_seek fun _ => endsWithin_pure
  | some c =>
    have emitted (found : Stretch) : EndsWithin early 0 (emitStretch found) := by
      cases found with
      | token | skipped => exact endsWithin_emit
      | unrecognized => exact endsWithin_pure
    exact endsWithin_after (emitted _) fun _ =>
      endsWithin_after endsWithin_seek fun _ => endsWithin_pure

theorem endsWithin_stretches {characters : Nat} {position : Position} {found : List Stretch}
    {rules : List CompiledRule} (tried : ∀ called ∈ rules, EndsWithin early n (r.start called)) :
    EndsWithin early (characters * (rules.length * n))
      (r.stretches rules characters position found) := by
  induction characters generalizing position found with
  | zero => exact endsWithin_pure.mono (Nat.zero_le _)
  | succ characters ih =>
    refine endsWithin_after endsWithin_get fun s => endsWithin_ite (fun _ => ?_) fun _ =>
      endsWithin_pure.mono (Nat.zero_le _)
    refine (endsWithin_bind (endsWithin_stretch tried) fun _ =>
      endsWithin_after endsWithin_get fun _ => ih).mono ?_
    rw [Nat.succ_mul, Nat.add_comm]

theorem endsWithin_tokens (ends : r.input.EndsBy last) :
    EndsWithin NotTired
      (r.input.endIndex * (r.grammar.tokenRules.length * r.grammar.ruleBound last r.limits.depth))
      r.tokens := by
  have tried : ∀ called ∈ r.grammar.tokenRules,
      EndsWithin NotTired (r.grammar.ruleBound last r.limits.depth) (r.start called) :=
    fun called member => endsWithin_start ends (List.mem_of_mem_filter member)
  exact endsWithin_before (endsWithin_stretches tried) fun _ =>
    endsWithin_after endsWithin_emit fun _ => endsWithin_pure

theorem endsWithin_outcome {name : String} (ends : r.input.EndsBy last) :
    EndsWithin NotTired (r.grammar.ruleBound last r.limits.depth) (r.outcome name) :=
  endsWithin_named fun _ member => endsWithin_before (endsWithin_start ends member) fun _ =>
    endsWithin_after endsWithin_get fun _ => endsWithin_pure

end Recognizer

end SetGrammar
