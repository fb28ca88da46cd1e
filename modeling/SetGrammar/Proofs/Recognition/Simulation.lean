import SetGrammar.Parse
import SetGrammar.Proofs.Leaves
import SetGrammar.Proofs.Recognition.View
import SetGrammar.Tokenization

/-!
# Runs with more fuel

A recognizer that goes well does the same with more fuel, more depth and other
logs behind it. In a linked grammar it ends early only by limits, and its own
events are never about stretches. Tokenizations and parses inherit this.
-/
namespace SetGrammar

namespace Recognizer

open View

variable {r : Recognizer} {limits : Limits} {v : View} {scope : Scope}

/-- The recognizer under other limits. -/
def allow (r : Recognizer) (limits : Limits) : Recognizer := { r with limits }

@[simp] theorem allow_grammar : (r.allow limits).grammar = r.grammar := rfl

@[simp] theorem allow_kind : (r.allow limits).kind = r.kind := rfl

@[simp] theorem allow_input : (r.allow limits).input = r.input := rfl

@[simp] theorem canBegin_allow {symbol : Option Nat} (elements : CompiledSequence) :
    (r.allow limits).canBegin symbol elements = r.canBegin symbol elements := by
  induction elements with
  | nil => rfl
  | cons e rest ih =>
    simp only [canBegin, ih]
    rfl

@[simp] theorem canFollow_allow {symbol : Option Nat} (follow : List CompiledSequence) :
    (r.allow limits).canFollow symbol follow = r.canFollow symbol follow := by
  induction follow with
  | nil => rfl
  | cons rest outer ih => simp only [canFollow, canBegin_allow, ih]

theorem follows_complain {complaint : Complaint} {i : Nat} :
    v.Follows Eq (r.complain scope complaint i) ((r.allow limits).complain scope complaint i) := by
  exact follows_ite (fun _ => follows_report) fun _ => follows_pure rfl

theorem follows_recover {t : Transition} :
    v.Follows Eq (r.recover scope t) ((r.allow limits).recover scope t) := by
  unfold recover
  refine follows_bind follows_get fun s s' sim => ?_
  simp only [sim.index, canFollow_allow, allow_grammar, allow_kind, allow_input]
  split
  · refine follows_bind follows_complain fun _ _ _ => ?_
    refine follows_bind follows_seek fun _ _ _ => ?_
    split
    · exact follows_bind (follows_emit rfl) fun _ _ _ => follows_pure rfl
    · exact follows_pure rfl
  · split
    · exact follows_bind follows_complain fun _ _ _ => follows_pure rfl
    · exact follows_bind follows_report fun _ _ _ => follows_pure rfl

theorem follows_testSymbol {t : Transition} {l : Repetition} :
    v.Follows Eq (r.testSymbol scope t l) ((r.allow limits).testSymbol scope t l) := by
  refine follows_bind follows_look fun _ _ _ => ?_
  refine follows_bind follows_get fun s s' sim => ?_
  simp only [sim.index, allow_input]
  split
  · refine follows_bind (follows_emit rfl) fun _ _ _ => ?_
    exact follows_ite (fun _ => follows_recover) fun _ => follows_pure rfl
  · split
    · exact follows_bind (follows_emit rfl) fun _ _ _ => follows_pure rfl
    · exact follows_pure rfl

theorem follows_accept {t : Transition} {outcome : TestResult} :
    v.Follows Eq (accept scope t outcome) (accept scope t outcome) := by
  have moves {next : Run Unit} (inner : v.Follows Eq next next) :
      v.Follows Eq
        (if outcome.consumes then get >>= fun s => Run.seek (s.index + 1) >>= fun _ => next
          else next)
        (if outcome.consumes then get >>= fun s => Run.seek (s.index + 1) >>= fun _ => next
          else next) := by
    refine follows_ite (fun _ => ?_) fun _ => inner
    refine follows_bind follows_get fun s s' sim => ?_
    rw [sim.index]
    exact follows_bind follows_seek fun _ _ _ => inner
  unfold accept
  cases t.label with
  | none => exact moves (follows_pure rfl)
  | some label =>
    cases outcome.bound? with
    | none => exact moves (follows_pure rfl)
    | some value => exact moves follows_bindLabel

/-- A loop may be given more tests. -/
theorem follows_repeatSet {t : Transition} {tests tests' : Nat} {l : Repetition}
    (more : tests ≤ tests') :
    v.Follows Eq (r.repeatSet scope t tests l) ((r.allow limits).repeatSet scope t tests' l) := by
  induction tests generalizing tests' l with
  | zero => exact follows_throw (v.mayEnd_of_isLimit _ rfl)
  | succ tests ih =>
    cases tests' with
    | zero => omega
    | succ tests' =>
      have more := Nat.le_of_succ_le_succ more
      refine follows_bind follows_tick fun _ _ _ => ?_
      refine follows_bind follows_testSymbol ?_
      rintro outcome _ rfl
      refine follows_bind follows_accept fun _ _ _ => ?_
      cases state : (l.step outcome.succeeds).state with
      | done =>
        simp only [state]
        refine follows_ite (fun _ => ?_) fun _ => follows_pure rfl
        exact follows_bind (follows_emit rfl) fun _ _ _ => follows_pure rfl
      | failed =>
        simp only [state]
        exact follows_pure rfl
      | start | looping =>
        simp only [state]
        exact ih more

theorem follows_set {t : Transition} :
    v.Follows Eq (r.set scope t) ((r.allow limits).set scope t) := by
  refine follows_bind follows_get fun s s' sim => ?_
  exact follows_repeatSet (Nat.succ_le_succ sim.fuel)

/-- A complaint tells the furthest index, which is only compared as part of the
    whole state. -/
theorem follows_decision {isMandatory : Bool} {choice choice' : Run Bool}
    (calm : v.whole = true ∨ r.kind = .lexer) (inner : v.Follows Eq choice choice') :
    v.Follows Eq (r.decision scope isMandatory choice)
      ((r.allow limits).decision scope isMandatory choice') := by
  refine follows_bind follows_get fun start start' began => ?_
  refine follows_bind (follows_modify fun s s' sim => ?_) fun _ _ _ => ?_
  · exact { sim with furthest := fun _ => sim.index }
  refine follows_bind inner ?_
  rintro matched _ rfl
  refine follows_bind follows_get fun reached reached' sim => ?_
  refine follows_bind (follows_modify fun s s' sim' => ?_) fun _ _ _ => ?_
  · refine { sim' with furthest := fun whole => ?_ }
    show max start.furthest reached.furthest = max start'.furthest reached'.furthest
    rw [began.furthest whole, sim.furthest whole]
  rcases calm with whole | lexer
  · simp only [began.index, sim.furthest whole, allow_input]
    refine follows_ite (fun _ => ?_) fun _ => follows_pure rfl
    exact follows_bind follows_complain fun _ _ _ => follows_pure rfl
  · refine follows_ite (fun complains => ?_) fun _ => follows_pure rfl
    simp [lexer] at complains

theorem follows_iterate {label : Option String} {iteration iteration' : Run Bool}
    (inner : v.Follows Eq iteration iteration') :
    v.Follows Eq (r.iterate scope label iteration)
      ((r.allow limits).iterate scope label iteration') := by
  refine follows_bind follows_get fun start start' began => ?_
  refine follows_bind inner ?_
  rintro matched _ rfl
  cases matched with
  | false => exact follows_pure rfl
  | true =>
    refine follows_bind follows_get fun stop stop' sim => ?_
    simp only [began.index, sim.index, allow_input]
    split
    · exact follows_bind follows_bindLabel fun _ _ _ => follows_pure rfl
    · exact follows_pure rfl

theorem follows_repeatWhile {iteration iteration' : Run Iteration} {rounds rounds' : Nat}
    (inner : v.Follows Eq iteration iteration') (more : rounds ≤ rounds') :
    v.Follows Eq (r.repeatWhile iteration rounds)
      ((r.allow limits).repeatWhile iteration' rounds') := by
  induction rounds generalizing rounds' with
  | zero => exact follows_throw (v.mayEnd_of_isLimit _ rfl)
  | succ rounds ih =>
    cases rounds' with
    | zero => omega
    | succ rounds' =>
      refine follows_bind inner ?_
      rintro outcome _ rfl
      cases outcome with
      | failed | stalled => exact follows_pure rfl
      | advanced => exact ih (Nat.le_of_succ_le_succ more)

theorem follows_repeated {q : Quantifier} {mandatory mandatory' optional optional' : Run Iteration}
    (required : v.Follows Eq mandatory mandatory') (allowed : v.Follows Eq optional optional') :
    v.Follows Eq (r.repeated q mandatory optional)
      ((r.allow limits).repeated q mandatory' optional') := by
  have rest : v.Follows Eq
      (do r.repeatWhile optional ((← get).fuel + 1); return true)
      (do (r.allow limits).repeatWhile optional' ((← get).fuel + 1); return true) := by
    refine follows_bind follows_get fun s s' sim => ?_
    refine follows_bind (follows_repeatWhile allowed ?_) fun _ _ _ => follows_pure rfl
    exact Nat.succ_le_succ sim.fuel
  cases q with
  | once =>
    refine follows_bind required ?_
    rintro outcome _ rfl
    exact follows_pure rfl
  | optional => exact follows_bind (follows_discard allowed) fun _ _ _ => follows_pure rfl
  | star => exact rest
  | plus =>
    refine follows_bind required ?_
    rintro outcome _ rfl
    cases outcome with
    | failed | stalled => exact follows_pure rfl
    | advanced => exact rest

theorem follows_iterations {q : Quantifier} {label : Option String}
    {mandatory mandatory' choice choice' : Run Bool} (calm : v.whole = true ∨ r.kind = .lexer)
    (required : v.Follows Eq mandatory mandatory') (tried : v.Follows Eq choice choice') :
    v.Follows Eq
      (r.repeated q (r.iterate scope label mandatory)
        (r.iterate scope label (r.decision scope false choice)))
      ((r.allow limits).repeated q ((r.allow limits).iterate scope label mandatory')
        ((r.allow limits).iterate scope label ((r.allow limits).decision scope false choice'))) :=
  follows_repeated (follows_iterate required) (follows_iterate (follows_decision calm tried))

mutual

/-- A block does the same if its calls do. -/
theorem follows_block {call call' : Scope → String → Run Bool} {scope : Scope}
    (calm : v.whole = true ∨ r.kind = .lexer) :
    (b : CompiledBlock) →
    (∀ name, .call name ∈ b.leaves → ∀ scope, v.Follows Eq (call scope name) (call' scope name)) →
    v.Follows Eq (r.block call scope b) ((r.allow limits).block call' scope b)
  | .set _, _ => follows_set
  | .branches [] _ _ _, _ =>
    follows_iterations calm (follows_decision calm (follows_pure rfl)) (follows_pure rfl)
  | .branches [only] _ _ _, calls =>
    follows_iterations calm
      (follows_attempt (follows_sequence calm only fun name member =>
        calls name (List.mem_append_left _ member)))
      (follows_choice calm 0 [only] calls)
  | .branches (first :: second :: rest) _ _ _, calls =>
    have tried := follows_choice calm 0 (first :: second :: rest) calls
    follows_iterations calm (follows_decision calm tried) tried

/-- A part of an alternative does the same if its calls do. -/
theorem follows_element {call call' : Scope → String → Run Bool} {scope : Scope}
    (calm : v.whole = true ∨ r.kind = .lexer) :
    (e : CompiledElement) →
    (∀ name, .call name ∈ e.leaves → ∀ scope, v.Follows Eq (call scope name) (call' scope name)) →
    v.Follows Eq (r.element call scope e) ((r.allow limits).element call' scope e)
  | .set _, _ => follows_set
  | .call name, calls => calls name List.mem_cons_self scope
  | .block b, calls => follows_block calm b calls

/-- A sequence does the same if its calls do. -/
theorem follows_sequence {call call' : Scope → String → Run Bool} {scope : Scope}
    (calm : v.whole = true ∨ r.kind = .lexer) :
    (elements : CompiledSequence) →
    (∀ name, .call name ∈ leavesOfSequence elements →
      ∀ scope, v.Follows Eq (call scope name) (call' scope name)) →
    v.Follows Eq (r.sequence call scope elements) ((r.allow limits).sequence call' scope elements)
  | [], _ => follows_pure rfl
  | e :: rest, calls => by
    refine follows_bind (follows_element calm e fun name member => calls name ?_) ?_
    · exact List.mem_append_left _ member
    rintro matched _ rfl
    refine follows_ite (fun _ => ?_) fun _ => follows_pure rfl
    exact follows_sequence calm rest fun name member => calls name (List.mem_append_right _ member)

/-- Alternatives do the same if their calls do. -/
theorem follows_choice {call call' : Scope → String → Run Bool} {scope : Scope}
    (calm : v.whole = true ∨ r.kind = .lexer) :
    (number : Nat) → (alternatives : List CompiledSequence) →
    (∀ name, .call name ∈ leavesOfBranches alternatives →
      ∀ scope, v.Follows Eq (call scope name) (call' scope name)) →
    v.Follows Eq (r.choice call scope number alternatives)
      ((r.allow limits).choice call' scope number alternatives)
  | _, [], _ => follows_pure rfl
  | number, alternative :: rest, calls => by
    refine follows_bind follows_tick fun _ _ _ => ?_
    refine follows_bind (follows_emit rfl) fun _ _ _ => ?_
    refine follows_bind (follows_attempt
      (follows_sequence calm alternative fun name member => calls name ?_)) ?_
    · exact List.mem_append_left _ member
    rintro matched _ rfl
    refine follows_ite (fun _ => follows_pure rfl) fun _ => ?_
    refine follows_bind (follows_emit rfl) fun _ _ _ => ?_
    exact follows_choice calm (number + 1) rest
      fun name member => calls name (List.mem_append_right _ member)

end

/-- A rule of the recognizer's kind in a linked grammar. It does not matter which
    rule it is where misuse may end the first run. -/
def Known (r : Recognizer) (v : View) (called : CompiledRule) : Prop :=
  (∀ e, v.mayEnd e) ∨ r.grammar.Linked ∧ called ∈ r.grammar.rules ∧ called.kind = r.kind

theorem Known.has {called : CompiledRule} {name : String} (known : r.Known v called)
    (member : .call name ∈ called.body.leaves) :
    (∀ e, v.mayEnd e) ∨ r.grammar.Has r.kind name := by
  refine known.imp_right fun ⟨linked, member', kind⟩ => ?_
  rw [← kind]
  exact (linked called member').calls name member

theorem Known.target {called target : CompiledRule} {name : String} (known : r.Known v called)
    (member : .call name ∈ called.body.leaves) (found : r.grammar.rule? name = some target) :
    r.Known v target := by
  rcases known.has member with all | ⟨target', found', kind⟩
  · exact .inl all
  · refine known.imp_right fun ⟨linked, _⟩ => ⟨linked, CompiledGrammar.mem_of_rule? found, ?_⟩
    rw [Option.some.inj (found.symm.trans found'), kind]

theorem follows_checkKind {called : CompiledRule} (known : r.Known v called) :
    v.Follows Eq (r.checkKind called) ((r.allow limits).checkKind called) := by
  refine follows_ite (fun wrong => ?_) fun _ => follows_pure rfl
  rcases known with all | ⟨-, -, kind⟩
  · exact follows_throw (all _)
  · exact (wrong kind).elim

theorem follows_findRule {name : String}
    (known : (∀ e, v.mayEnd e) ∨ r.grammar.Has r.kind name) :
    v.Follows (fun called called' => called = called' ∧ r.grammar.rule? name = some called)
      (r.findRule name) ((r.allow limits).findRule name) := by
  unfold findRule
  simp only [allow_grammar]
  cases found : r.grammar.rule? name with
  | some called => exact follows_pure ⟨rfl, rfl⟩
  | none =>
    rcases known with all | ⟨called, found', -⟩
    · exact follows_throw (all _)
    · cases found.symm.trans found'

/-- A rule does the same if more calls may be opened. -/
theorem follows_rule {depth depth' : Nat} {called : CompiledRule}
    (calm : v.whole = true ∨ r.kind = .lexer) (more : depth ≤ depth') (known : r.Known v called) :
    v.Follows Eq (r.rule depth scope called) ((r.allow limits).rule depth' scope called) := by
  induction depth generalizing depth' scope called with
  | zero =>
    have deep : v.mayEnd (.tooDeep r.limits.depth) := v.mayEnd_of_isLimit _ rfl
    cases depth' with
    | zero | succ =>
      exact follows_bind (follows_checkKind known) fun _ _ _ => follows_throw deep
  | succ depth ih =>
    cases depth' with
    | zero => omega
    | succ depth' =>
      refine follows_bind (follows_checkKind known) fun _ _ _ => ?_
      refine follows_bind follows_tick fun _ _ _ => ?_
      refine follows_bind (follows_emit rfl) fun _ _ _ => ?_
      refine follows_bind (follows_attempt (follows_block calm called.body ?_)) ?_
      · intro name member scope
        refine follows_bind (follows_findRule (known.has member)) ?_
        rintro target _ ⟨rfl, found⟩
        exact ih (Nat.le_of_succ_le_succ more) (known.target member found)
      rintro matched _ rfl
      exact follows_bind (follows_emit rfl) fun _ _ _ => follows_pure rfl

theorem follows_start {called : CompiledRule} (calm : v.whole = true ∨ r.kind = .lexer)
    (more : r.limits.depth ≤ limits.depth) (known : r.Known v called) :
    v.Follows Eq (r.start called) ((r.allow limits).start called) :=
  follows_rule calm more known

/-! ## Tokenization -/

theorem follows_candidate {start : Nat} {called : CompiledRule}
    (calm : v.whole = true ∨ r.kind = .lexer) (more : r.limits.depth ≤ limits.depth)
    (known : r.Known v called) :
    v.Follows Eq (r.candidate? start called) ((r.allow limits).candidate? start called) := by
  refine follows_bind follows_seek fun _ _ _ => follows_bind (follows_start calm more known) ?_
  rintro matched _ rfl
  cases matched with
  | false => exact follows_pure rfl
  | true =>
    refine follows_bind follows_get fun s t sim => follows_bind follows_takeBindings ?_
    rintro bindings _ rfl
    rw [sim.index]
    exact follows_pure rfl

theorem follows_bestCandidate {start : Nat} {best : Option Candidate} {rules : List CompiledRule}
    (calm : v.whole = true ∨ r.kind = .lexer) (more : r.limits.depth ≤ limits.depth)
    (known : ∀ called ∈ rules, r.Known v called) :
    v.Follows Eq (r.bestCandidate start best rules)
      ((r.allow limits).bestCandidate start best rules) := by
  induction rules generalizing best with
  | nil => exact follows_pure rfl
  | cons called rest ih =>
    rw [List.forall_mem_cons] at known
    refine follows_bind (follows_candidate calm more known.1) ?_
    rintro next _ rfl
    exact ih known.2

theorem follows_emitStretch {found : Stretch} (silent : ∀ log, v.cuts log) :
    v.Follows Eq (emitStretch found) (emitStretch found) := by
  cases found with
  | token | skipped => exact follows_emit_cut silent
  | unrecognized => exact follows_pure rfl

section Whole

variable (whole : v.whole = true) (silent : ∀ log, v.cuts log)

include whole silent

theorem follows_stretch {start : Nat} {position : Position} {rules : List CompiledRule}
    (more : r.limits.depth ≤ limits.depth) (known : ∀ called ∈ rules, r.Known v called) :
    v.Follows Eq (r.stretch rules start position)
      ((r.allow limits).stretch rules start position) := by
  refine follows_bind (follows_modify fun s t sim => ?_) fun _ _ _ => ?_
  · exact { sim with furthest := fun _ => rfl }
  refine follows_bind (follows_bestCandidate (.inl whole) more known) ?_
  rintro best _ rfl
  cases best with
  | some c =>
    refine follows_bind (follows_emitStretch silent) fun _ _ _ => ?_
    exact follows_bind follows_seek fun _ _ _ => follows_pure rfl
  | none =>
    refine follows_bind follows_get fun s t sim => ?_
    rw [sim.furthest whole]
    refine follows_bind follows_report fun _ _ _ => ?_
    exact follows_bind follows_seek fun _ _ _ => follows_pure rfl

theorem follows_stretches {characters : Nat} {position : Position} {found : List Stretch}
    {rules : List CompiledRule} (more : r.limits.depth ≤ limits.depth)
    (known : ∀ called ∈ rules, r.Known v called) :
    v.Follows Eq (r.stretches rules characters position found)
      ((r.allow limits).stretches rules characters position found) := by
  induction characters generalizing position found with
  | zero => exact follows_pure rfl
  | succ characters ih =>
    refine follows_bind follows_get fun s t sim => ?_
    rw [sim.index]
    refine follows_ite (fun _ => ?_) fun _ => follows_pure rfl
    refine follows_bind (follows_stretch whole silent more known) ?_
    rintro next _ rfl
    refine follows_bind follows_get fun s' t' sim' => ?_
    rw [sim'.index]
    exact ih

/-- A tokenization does the same with more fuel and depth. -/
theorem follows_tokens (more : r.limits.depth ≤ limits.depth)
    (known : ∀ called ∈ r.grammar.tokenRules, r.Known v called) :
    v.Follows Eq r.tokens (r.allow limits).tokens := by
  refine follows_bind (follows_stretches whole silent more known) ?_
  rintro ⟨found, position⟩ _ rfl
  exact follows_bind (follows_emit_cut silent) fun _ _ _ => follows_pure rfl

end Whole

/-! ## Parsing -/

/-- A parse with a known rule does the same with more fuel and depth. -/
theorem follows_outcome {name : String} (whole : v.whole = true)
    (more : r.limits.depth ≤ limits.depth)
    (known : ∀ called, r.grammar.rule? name = some called → r.Known v called)
    (found : (∀ e, v.mayEnd e) ∨ r.grammar.Has r.kind name) :
    v.Follows Eq (r.outcome name) ((r.allow limits).outcome name) := by
  refine follows_bind (follows_findRule found) ?_
  rintro called _ ⟨rfl, found⟩
  refine follows_bind (follows_start (.inl whole) more (known called found)) ?_
  rintro matched _ rfl
  refine follows_bind follows_get fun s t sim => ?_
  rw [sim.index, sim.bindings, sim.errors whole]
  exact follows_pure rfl

end Recognizer

end SetGrammar
