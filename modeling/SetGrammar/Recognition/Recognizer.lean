import SetGrammar.Recognition.Recovery

/-!
# Recognizers

A recognizer matches compiled rules. Alternatives are tried in order, and the
first that matches its whole sequence is kept. Repetition takes as much as it
can and stops at an iteration that fails or takes nothing.
-/
namespace SetGrammar

/-- What became of one iteration of a block. -/
inductive Iteration where
  | failed
  /-- It matched without using up a symbol. -/
  | stalled
  | advanced
deriving DecidableEq, Repr

namespace Recognizer

/-! ## Sets -/

/-- Tests the symbol at hand for a loop. A test that is required may be saved by
    recovery. -/
def testSymbol (r : Recognizer) (scope : Scope) (t : Transition) (l : Repetition) :
    Run TestResult := do
  Run.look
  let index := (← get).index
  let symbol := r.input.symbol? index
  match t.test r.input index with
  | .failed =>
    Run.emit (.refuse symbol r.kind)
    if l.state = .start && r.kind = .parser && !scope.speculative then r.recover scope t
    else return .failed
  | outcome =>
    if let some symbol := symbol then Run.emit (.accept symbol r.kind)
    return outcome

/-- Uses up a symbol that was matched and binds it. -/
def accept (scope : Scope) (t : Transition) (outcome : TestResult) : Run Unit := do
  if outcome.consumes then
    Run.seek ((← get).index + 1)
  if let some label := t.label then
    if let some value := outcome.bound? then
      Run.bind scope.rule label value

/-- Goes on with a loop around a set test. Every test uses up a step, so that
    `tests` need not exceed the steps left by more than one. -/
def repeatSet (r : Recognizer) (scope : Scope) (t : Transition) : Nat → Repetition → Run Bool
  | 0, _ => throw (.outOfFuel r.limits.fuel)
  | tests + 1, l => do
    Run.tick r.limits
    let outcome ← r.testSymbol scope t l
    accept scope t outcome
    let next := l.step outcome.succeeds
    match next.state with
    | .done =>
      if t.quantifier.repeats then Run.emit (.loopExit next.matched)
      return true
    | .failed => return false
    | .start | .looping => r.repeatSet scope t tests next

/-- Matches a set under its quantifier. -/
def set (r : Recognizer) (scope : Scope) (t : Transition) : Run Bool := do
  r.repeatSet scope t ((← get).fuel + 1) (.ofQuantifier t.quantifier)

/-! ## Branches -/

/-- Tries alternatives, of which one must match if the iteration is mandatory.
    Only then is a failure reported, from the start of the decision through the
    symbol that ended it. -/
def decision (r : Recognizer) (scope : Scope) (isMandatory : Bool) (choice : Run Bool) :
    Run Bool := do
  let start ← get
  modify fun s => { s with furthest := s.index }
  let matched ← choice
  let reached := (← get).furthest
  modify fun s => { s with furthest := max start.furthest reached }
  if !matched && isMandatory && r.kind = .parser then
    let text := r.input.text start.index (reached + 1)
    let found := if text.isEmpty then endText else Text.escape text
    r.complain scope (.noViableAlternative found) reached
  return matched

/-- Runs one iteration and binds the label of the block to what it matches. One
    symbol is bound as such, anything else as text. -/
def iterate (r : Recognizer) (scope : Scope) (label : Option String) (iteration : Run Bool) :
    Run Iteration := do
  let start := (← get).index
  if !(← iteration) then return .failed
  let stop := (← get).index
  if let some label := label then
    Run.bind scope.rule label <|
      if stop = start + 1 then r.input.value start else .text (r.input.text start stop)
  return if stop = start then .stalled else .advanced

/-- Runs optional iterations until one fails or stalls. An iteration that
    advances uses up a step, so that `rounds` need not exceed the steps left by
    more than one. -/
def repeatWhile (r : Recognizer) (iteration : Run Iteration) : Nat → Run Unit
  | 0 => throw (.outOfFuel r.limits.fuel)
  | rounds + 1 => do
    match ← iteration with
    | .failed | .stalled => return ()
    | .advanced => r.repeatWhile iteration rounds

/-- Runs as many iterations as a quantifier asks for. -/
def repeated (r : Recognizer) (quantifier : Quantifier) (mandatory optional : Run Iteration) :
    Run Bool := do
  match quantifier with
  | .once => return (← mandatory) != .failed
  | .optional =>
    discard optional
    return true
  | .star =>
    r.repeatWhile optional ((← get).fuel + 1)
    return true
  | .plus =>
    match ← mandatory with
    | .failed => return false
    | .stalled => return true
    | .advanced =>
      r.repeatWhile optional ((← get).fuel + 1)
      return true

/-! ## Bodies of rules -/

mutual

/-- Matches a block. Rules are called through `call`. An iteration that is
    mandatory and has one alternative is matched without trying. -/
def block (r : Recognizer) (call : Scope → String → Run Bool) (scope : Scope) :
    CompiledBlock → Run Bool
  | .set t => r.set scope t
  | .branches alternatives quantifier label _ =>
    let choice := r.choice call { scope with speculative := true } 0 alternatives
    let mandatory := match alternatives with
      | [only] => Run.attempt (r.sequence call scope only)
      | _ => r.decision scope true choice
    r.repeated quantifier (r.iterate scope label mandatory)
      (r.iterate scope label (r.decision scope false choice))
termination_by structural x => x

/-- Matches a part of an alternative. -/
def element (r : Recognizer) (call : Scope → String → Run Bool) (scope : Scope) :
    CompiledElement → Run Bool
  | .set t => r.set scope t
  | .call rule => call scope rule
  | .block b => r.block call scope b
termination_by structural x => x

/-- Matches elements one after the other. -/
def sequence (r : Recognizer) (call : Scope → String → Run Bool) (scope : Scope) :
    List CompiledElement → Run Bool
  | [] => return true
  | e :: rest => do
    if ← r.element call { scope with follow := rest :: scope.follow } e then
      r.sequence call scope rest
    else return false
termination_by structural x => x

/-- Matches the first of the alternatives that can be matched. They are numbered
    from `number`. -/
def choice (r : Recognizer) (call : Scope → String → Run Bool) (scope : Scope) (number : Nat) :
    List (List CompiledElement) → Run Bool
  | [] => return false
  | alternative :: rest => do
    Run.tick r.limits
    Run.emit (.branch number)
    if ← Run.attempt (r.sequence call scope alternative) then return true
    Run.emit .backtrack
    r.choice call scope (number + 1) rest
termination_by structural x => x

end

/-! ## Rules -/

/-- The rule of a name. -/
def findRule (r : Recognizer) (name : String) : Run CompiledRule :=
  match r.grammar.rule? name with
  | some rule => return rule
  | none => throw (.unknownRule name)

/-- Only rules of the recognizer's kind can be matched. -/
def checkKind (r : Recognizer) (rule : CompiledRule) : Run Unit := do
  if rule.kind ≠ r.kind then throw (.wrongKind rule.name rule.kind)

/-- Matches a rule while `depth` more calls may be opened. -/
def rule (r : Recognizer) : Nat → Scope → CompiledRule → Run Bool
  | 0, _, called => do
    r.checkKind called
    throw (.tooDeep r.limits.depth)
  | depth + 1, scope, called => do
    r.checkKind called
    Run.tick r.limits
    Run.emit (.enter called.name)
    let call (scope : Scope) (name : String) := do
      r.rule depth scope (← r.findRule name)
    let matched ← Run.attempt (r.block call { scope with rule := called.name } called.body)
    Run.emit (.exit called.name matched)
    return matched

/-- Matches a rule at the current index. -/
def start (r : Recognizer) (called : CompiledRule) : Run Bool :=
  r.rule r.limits.depth ⟨"", false, []⟩ called

end Recognizer

end SetGrammar
