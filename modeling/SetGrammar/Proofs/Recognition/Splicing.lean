import SetGrammar.Proofs.Recognition.Steps

/-!
# Branches in the place of a group

A block with one branch, no label and no repetition only groups. Among the
characters nothing is recovered and nothing is reported, so that what surrounds a
part of a rule plays no role, and the branch itself can stand where the block
does. Every run remains as it was, with all that it records.
-/
namespace SetGrammar

/-- What stands for an element among others: a block that only groups is dissolved. -/
def CompiledElement.parts : CompiledElement → CompiledSequence
  | .block (.branches [only] .once none _) => only
  | e => [e]

mutual

/-- A block in whose sequences no block only groups. -/
def CompiledBlock.spliced : CompiledBlock → CompiledBlock
  | .set t => .set t
  | .branches alternatives quantifier label reason =>
    .branches (splicedBranches alternatives) quantifier label reason

/-- An element in whose sequences no block only groups. -/
def CompiledElement.spliced : CompiledElement → CompiledElement
  | .set t => .set t
  | .call rule => .call rule
  | .block b => .block b.spliced

/-- A sequence in which no block only groups. -/
def splicedSequence : List CompiledElement → List CompiledElement
  | [] => []
  | e :: rest => e.spliced.parts ++ splicedSequence rest

/-- Branches in whose sequences no block only groups. -/
def splicedBranches : List (List CompiledElement) → List (List CompiledElement)
  | [] => []
  | sequence :: rest => splicedSequence sequence :: splicedBranches rest

end

/-- A rule in which no block only groups. -/
def CompiledRule.spliced (r : CompiledRule) : CompiledRule := { r with body := r.body.spliced }

/-- A grammar in whose rules no block only groups. -/
def CompiledGrammar.spliced (g : CompiledGrammar) : CompiledGrammar :=
  { g with rules := g.rules.map CompiledRule.spliced }

theorem CompiledGrammar.rule?_spliced {g : CompiledGrammar} {name : String} :
    g.spliced.rule? name = (g.rule? name).map CompiledRule.spliced := List.find?_map

namespace Run

/-- One action after the other, as long as they match. -/
def andThen (first next : Run Bool) : Run Bool := do
  if ← first then next else return false

theorem pure_true_andThen (next : Run Bool) : andThen (pure true) next = next := rfl

theorem andThen_pure_true (first : Run Bool) : andThen first (pure true) = first := by
  have same : (fun matched => if matched = true then pure true else pure false : Bool → Run Bool) =
      pure := by
    funext matched
    cases matched <;> rfl
  rw [andThen, same, bind_pure]

theorem andThen_assoc (first second third : Run Bool) :
    andThen (andThen first second) third = andThen first (andThen second third) := by
  rw [andThen, andThen, andThen, bind_assoc]
  refine congrArg (first >>= ·) (funext fun matched => ?_)
  cases matched <;> rfl

theorem andThen_apply (first next : Run Bool) (s : RunState) :
    andThen first next s =
      match first s with
      | .ok true s₁ => next s₁
      | .ok false s₁ => .ok false s₁
      | .error e s₁ => .error e s₁ := by
  show EStateM.bind first _ s = _
  unfold EStateM.bind
  rcases first s with ⟨_ | _, s₁⟩ | ⟨e, s₁⟩ <;> rfl

/-- It does not matter whether the parts of an attempt are attempts too. -/
theorem attempt_andThen_attempt (first next : Run Bool) :
    attempt (andThen (attempt first) (attempt next)) = attempt (andThen first next) := by
  funext s
  simp only [attempt_apply, andThen_apply]
  rcases first s with ⟨_ | _, s₁⟩ | ⟨e, s₁⟩
  · rfl
  · dsimp only
    rcases next s₁ with ⟨_ | _, s₂⟩ | ⟨e, s₂⟩ <;> rfl
  · rfl

theorem attempt_attempt (action : Run Bool) : attempt (attempt action) = attempt action := by
  funext s
  simp only [attempt_apply]
  rcases action s with ⟨_ | _, s₁⟩ | ⟨e, s₁⟩ <;> rfl

theorem attempt_andThen_congr {first first' next next' : Run Bool}
    (begins : attempt first = attempt first') (goesOn : attempt next = attempt next') :
    attempt (andThen first next) = attempt (andThen first' next') := by
  rw [← attempt_andThen_attempt first, begins, goesOn, attempt_andThen_attempt]

end Run

namespace Recognizer

variable {r : Recognizer}

/-- The recognizer of the rules in which no block only groups. -/
def spliced (r : Recognizer) : Recognizer := { r with grammar := r.grammar.spliced }

/-! ## What surrounds a part of a lexer rule -/

section Surroundings

variable {scope other : Scope}

theorem testSymbol_of_lexer {grammar : CompiledGrammar} (lexer : r.kind = .lexer) (t : Transition)
    (l : Repetition) : testSymbol { r with grammar } other t l = r.testSymbol scope t l := by
  simp only [testSymbol, lexer, reduceCtorEq, decide_false, Bool.and_false, Bool.false_and,
    Bool.false_eq_true, if_false]

theorem repeatSet_of_lexer {grammar : CompiledGrammar} (lexer : r.kind = .lexer)
    (rule : other.rule = scope.rule) (t : Transition) (tests : Nat) (l : Repetition) :
    repeatSet { r with grammar } other t tests l = r.repeatSet scope t tests l := by
  induction tests generalizing l with
  | zero => rfl
  | succ tests ih =>
    have accepts : accept other t = accept scope t := by
      funext outcome
      simp only [accept, rule]
    have tested : testSymbol { r with grammar } other t l = r.testSymbol scope t l :=
      testSymbol_of_lexer lexer t l
    simp only [repeatSet, tested, accepts, ih]

/-- Only the name of the rule matters to a set, for what it binds. -/
theorem set_of_lexer {grammar : CompiledGrammar} (lexer : r.kind = .lexer)
    (rule : other.rule = scope.rule) (t : Transition) :
    set { r with grammar } other t = r.set scope t := by
  simp only [set, repeatSet_of_lexer lexer rule]

theorem decision_of_lexer {grammar : CompiledGrammar} (lexer : r.kind = .lexer)
    (isMandatory : Bool) (choice : Run Bool) :
    decision { r with grammar } other isMandatory choice = r.decision scope isMandatory choice := by
  simp only [decision, lexer, reduceCtorEq, decide_false, Bool.and_false, Bool.false_eq_true,
    if_false]

theorem iterate_of_lexer {grammar : CompiledGrammar} (rule : other.rule = scope.rule)
    (label : Option String) (iteration : Run Bool) :
    iterate { r with grammar } other label iteration = r.iterate scope label iteration := by
  simp only [iterate, rule]

theorem repeated_of_lexer {grammar : CompiledGrammar} (quantifier : Quantifier)
    (mandatory optional : Run Iteration) :
    repeated { r with grammar } quantifier mandatory optional =
      r.repeated quantifier mandatory optional := by
  have whiles : ∀ rounds, repeatWhile { r with grammar } optional rounds =
      r.repeatWhile optional rounds := by
    intro rounds
    induction rounds with
    | zero => rfl
    | succ rounds ih => simp only [repeatWhile, ih]
  simp only [repeated, whiles]

/-- The iterations of a block are the same if what they try is. -/
theorem iterations_of_lexer {grammar : CompiledGrammar} (lexer : r.kind = .lexer)
    (rule : other.rule = scope.rule) {mandatory mandatory' choice choice' : Run Bool}
    (required : mandatory' = mandatory) (tried : choice' = choice) (quantifier : Quantifier)
    (label : Option String) :
    repeated { r with grammar } quantifier (iterate { r with grammar } other label mandatory')
        (iterate { r with grammar } other label (decision { r with grammar } other false choice')) =
      r.repeated quantifier (r.iterate scope label mandatory)
        (r.iterate scope label (r.decision scope false choice)) := by
  have decides : decision { r with grammar } other false choice' =
      r.decision scope false choice' := decision_of_lexer lexer false choice'
  rw [repeated_of_lexer, iterate_of_lexer rule, iterate_of_lexer rule, decides, required, tried]

end Surroundings

/-- What a call does is the same wherever it stands. -/
def Closed (call : Scope → String → Run Bool) : Prop :=
  ∀ scope other name, call other name = call scope name

section Bodies

variable {call : Scope → String → Run Bool}

mutual

/-- In a lexer rule only the name of the rule matters to a block. -/
theorem block_of_lexer (lexer : r.kind = .lexer) (closed : Closed call) (scope other : Scope)
    (rule : other.rule = scope.rule) : (b : CompiledBlock) →
    r.block call other b = r.block call scope b
  | .set t => set_of_lexer lexer rule t
  | .branches [] _ _ _ =>
    iterations_of_lexer lexer rule (decision_of_lexer lexer true _) rfl _ _
  | .branches [only] _ _ _ =>
    iterations_of_lexer lexer rule
      (congrArg Run.attempt (sequence_of_lexer lexer closed scope other rule only))
      (choice_of_lexer lexer closed scope other rule 0 [only]) _ _
  | .branches (first :: second :: rest) _ _ _ =>
    have tried := choice_of_lexer lexer closed scope other rule 0 (first :: second :: rest)
    iterations_of_lexer lexer rule (tried ▸ decision_of_lexer lexer true _) tried _ _

theorem element_of_lexer (lexer : r.kind = .lexer) (closed : Closed call) (scope other : Scope)
    (rule : other.rule = scope.rule) : (e : CompiledElement) →
    r.element call other e = r.element call scope e
  | .set t => set_of_lexer lexer rule t
  | .call name => closed scope other name
  | .block b => block_of_lexer lexer closed scope other rule b

theorem sequence_of_lexer (lexer : r.kind = .lexer) (closed : Closed call) (scope other : Scope)
    (rule : other.rule = scope.rule) : (elements : CompiledSequence) →
    r.sequence call other elements = r.sequence call scope elements
  | [] => rfl
  | e :: rest => by
    rw [sequence, sequence, sequence_of_lexer lexer closed scope other rule rest,
      element_of_lexer lexer closed { scope with follow := rest :: scope.follow }
        { other with follow := rest :: other.follow } rule e]

theorem choice_of_lexer (lexer : r.kind = .lexer) (closed : Closed call) (scope other : Scope)
    (rule : other.rule = scope.rule) : (number : Nat) → (alternatives : List CompiledSequence) →
    r.choice call { other with speculative := true } number alternatives =
      r.choice call { scope with speculative := true } number alternatives
  | _, [] => rfl
  | number, alternative :: rest => by
    rw [choice, choice, choice_of_lexer lexer closed scope other rule (number + 1) rest,
      sequence_of_lexer lexer closed { scope with speculative := true }
        { other with speculative := true } rule alternative]

end

/-! ## Dissolved blocks -/

theorem sequence_cons (e : CompiledElement) (rest : CompiledSequence) (scope : Scope) :
    r.sequence call scope (e :: rest) =
      Run.andThen (r.element call { scope with follow := rest :: scope.follow } e)
        (r.sequence call scope rest) := rfl

theorem sequence_append (lexer : r.kind = .lexer) (closed : Closed call) (scope : Scope)
    (first rest : CompiledSequence) :
    r.sequence call scope (first ++ rest) =
      Run.andThen (r.sequence call scope first) (r.sequence call scope rest) := by
  induction first with
  | nil => exact (Run.pure_true_andThen _).symm
  | cons e more ih =>
    rw [List.cons_append, sequence_cons, sequence_cons, Run.andThen_assoc, ih,
      element_of_lexer lexer closed { scope with follow := more :: scope.follow }
        { scope with follow := (more ++ rest) :: scope.follow } rfl]

/-- One iteration that binds nothing is what is iterated. -/
theorem repeated_once_iterate (scope : Scope) (iteration : Run Bool) (optional : Run Iteration) :
    r.repeated .once (r.iterate scope none iteration) optional = iteration := by
  funext s
  simp only [repeated, iterate, bind_assoc, Run.get_bind_apply]
  show EStateM.bind iteration _ s = _
  unfold EStateM.bind
  rcases iteration s with ⟨_ | _, s₁⟩ | ⟨e, s₁⟩
  · rfl
  · -- whether the iteration advanced plays no role without a repetition
    show EStateM.Result.ok
      ((if s₁.index = s.index then Iteration.stalled else .advanced) != .failed) s₁ = .ok true s₁
    split <;> rfl
  · rfl

/-- A block that only groups matches what its branch matches. -/
theorem block_group (scope : Scope) (only : CompiledSequence) (reason : BranchReason) :
    r.block call scope (.branches [only] .once none reason) =
      Run.attempt (r.sequence call scope only) := by
  rw [block]
  exact repeated_once_iterate scope _ _

theorem attempt_sequence_parts (lexer : r.kind = .lexer) (closed : Closed call) (scope : Scope)
    (e : CompiledElement) :
    Run.attempt (r.sequence call scope e.parts) = Run.attempt (r.element call scope e) := by
  unfold CompiledElement.parts
  split
  · rw [element, block_group, Run.attempt_attempt]
  · rw [sequence_cons, sequence, Run.andThen_pure_true,
      element_of_lexer lexer closed scope { scope with follow := [] :: scope.follow } rfl]

mutual

/-- A block matches as before when the blocks in it that only group are dissolved. -/
theorem block_spliced (lexer : r.kind = .lexer)
    (closed : Closed call) (scope : Scope) : (b : CompiledBlock) →
    r.spliced.block call scope b.spliced = r.block call scope b
  | .set t => set_of_lexer lexer rfl t
  | .branches [] _ _ _ =>
    iterations_of_lexer lexer rfl (decision_of_lexer lexer true _) rfl _ _
  | .branches [only] _ _ _ =>
    iterations_of_lexer lexer rfl (attempt_sequence_spliced lexer closed scope only)
      (choice_spliced lexer closed _ 0 [only]) _ _
  | .branches (first :: second :: rest) _ _ _ =>
    have tried := choice_spliced lexer closed _ 0 (first :: second :: rest)
    iterations_of_lexer lexer rfl (tried ▸ decision_of_lexer lexer true _) tried _ _

theorem element_spliced (lexer : r.kind = .lexer) (closed : Closed call) (scope : Scope) :
    (e : CompiledElement) → r.spliced.element call scope e.spliced = r.element call scope e
  | .set t => set_of_lexer lexer rfl t
  | .call _ => rfl
  | .block b => block_spliced lexer closed scope b

/-- A branch may fail at another index, but an attempt goes back from there. -/
theorem attempt_sequence_spliced (lexer : r.kind = .lexer) (closed : Closed call) (scope : Scope) :
    (elements : CompiledSequence) →
    Run.attempt (r.spliced.sequence call scope (splicedSequence elements)) =
      Run.attempt (r.sequence call scope elements)
  | [] => rfl
  | e :: rest => by
    -- the parts of the first element are one piece of the sequence, the rest is another
    rw [splicedSequence, sequence_append (r := r.spliced) lexer closed, sequence_cons]
    refine Run.attempt_andThen_congr ?_ (attempt_sequence_spliced lexer closed scope rest)
    rw [attempt_sequence_parts (r := r.spliced) lexer closed, element_spliced lexer closed scope e,
      element_of_lexer lexer closed scope { scope with follow := rest :: scope.follow } rfl]

theorem choice_spliced (lexer : r.kind = .lexer) (closed : Closed call) (scope : Scope) :
    (number : Nat) → (alternatives : List CompiledSequence) →
    r.spliced.choice call scope number (splicedBranches alternatives) =
      r.choice call scope number alternatives
  | _, [] => rfl
  | number, alternative :: rest => by
    rw [splicedBranches, choice, choice, attempt_sequence_spliced lexer closed scope alternative,
      choice_spliced lexer closed scope (number + 1) rest]
    rfl

end

end Bodies

/-! ## Rules -/

theorem rule_succ (depth : Nat) (scope : Scope) (called : CompiledRule) :
    r.rule (depth + 1) scope called = (do
      r.checkKind called
      Run.tick r.limits
      Run.emit (.enter called.name)
      let matched ← Run.attempt
        (r.block (r.callAt depth) { scope with rule := called.name } called.body)
      Run.emit (.exit called.name matched)
      return matched) := rfl

/-- What surrounds a call does not matter to the rule that is called. -/
theorem closed_callAt (lexer : r.kind = .lexer) (depth : Nat) : Closed (r.callAt depth) := by
  intro scope other name
  refine congrArg (r.findRule name >>= ·) (funext fun called => ?_)
  induction depth generalizing scope other name called with
  | zero => rfl
  | succ depth ih =>
    have closed : Closed (r.callAt depth) := fun scope other name =>
      congrArg (r.findRule name >>= ·) (funext (ih scope other name))
    rw [rule_succ, rule_succ, block_of_lexer lexer closed { scope with rule := called.name }
      { other with rule := called.name } rfl]

theorem findRule_spliced (name : String) :
    r.spliced.findRule name = CompiledRule.spliced <$> r.findRule name := by
  have found : r.spliced.grammar.rule? name = (r.grammar.rule? name).map CompiledRule.spliced :=
    CompiledGrammar.rule?_spliced
  rw [findRule, findRule, found]
  cases r.grammar.rule? name <;> rfl

/-- A lexer rule has the same runs when the blocks that only group are dissolved, with
    the same bindings and the same events, also where a run ends early. -/
theorem rule_spliced (lexer : r.kind = .lexer) (depth : Nat) (scope : Scope)
    (called : CompiledRule) :
    r.spliced.rule depth scope called.spliced = r.rule depth scope called := by
  induction depth generalizing scope called with
  | zero => rfl
  | succ depth ih =>
    have calls : r.spliced.callAt depth = r.callAt depth := by
      funext scope name
      rw [callAt, callAt, findRule_spliced, bind_map_left]
      exact congrArg (r.findRule name >>= ·) (funext (ih scope))
    rw [rule_succ, rule_succ, calls]
    have body : r.spliced.block (r.callAt depth) { scope with rule := called.name }
        called.spliced.body = r.block (r.callAt depth) { scope with rule := called.name }
          called.body := block_spliced lexer (closed_callAt lexer depth) _ called.body
    rw [← body]
    rfl

end Recognizer

end SetGrammar
