import SetGrammar.Recognition.Run

/-!
# Recovery from an unexpected symbol

Where a parser rule needs a symbol and finds another, the other symbol is
skipped if the right one comes next. Else the right one is taken as present if
what is found can follow it.
-/
namespace SetGrammar

/-- What a recognizer runs on: a grammar, one kind of its rules, an input and
    limits. -/
structure Recognizer where
  grammar : CompiledGrammar
  kind : RuleKind
  input : Input
  limits : Limits

/-- Whether a symbol can come first in what is left of a sequence. -/
inductive Continuation where
  | possible
  /-- Something else has to come first, or it is not known what does. -/
  | impossible
  /-- Everything that is left may be absent. -/
  | nullable
deriving DecidableEq, Repr

namespace Recognizer

/-- The transition that an element comes down to, if it does. A call comes down
    to the set of the rule that is called. -/
def transition? (r : Recognizer) : CompiledElement → Option Transition
  | .set transition => some transition
  | .block block => block.transition?
  | .call rule => (r.grammar.rule? rule).bind (·.body.transition?)

/-- Whether a symbol can come first in a sequence. -/
def canBegin (r : Recognizer) (symbol : Option Nat) : CompiledSequence → Continuation
  | [] => .nullable
  | element :: rest =>
    match r.transition? element with
    | none => .impossible
    | some t =>
      if t.admits symbol then .possible
      else if t.quantifier.allowsNone then r.canBegin symbol rest
      else .impossible

/-- Whether a symbol can come after what is being matched. Only the end of the
    input follows the outermost sequence. -/
def canFollow (r : Recognizer) (symbol : Option Nat) : List CompiledSequence → Bool
  | [] => symbol.isNone
  | rest :: outer =>
    match r.canBegin symbol rest with
    | .possible => true
    | .impossible => false
    | .nullable => r.canFollow symbol outer

/-- Records a complaint about the symbol at an index, unless alternatives are
    being tried. -/
def complain (r : Recognizer) (scope : Scope) (complaint : Complaint) (index : Nat) : Run Unit := do
  if !scope.speculative then
    Run.report ⟨complaint, index, r.input.position index⟩

/-- Stands in for a failed test that was required. Without a way to go on, the
    failure is recorded. -/
def recover (r : Recognizer) (scope : Scope) (t : Transition) : Run TestResult := do
  let index := (← get).index
  let current := r.input.symbol? index
  let found := r.input.shown index
  let expected := t.expected r.grammar.vocabulary
  if current.isSome && t.admits (r.input.symbol? (index + 1)) then
    r.complain scope (.extraneous found expected) index
    Run.seek (index + 1)
    if let some symbol := r.input.symbol? (index + 1) then
      Run.emit (.accept symbol r.kind)
    return t.test r.input (index + 1)
  else if r.canFollow current scope.follow then
    r.complain scope (.missing expected found) index
    return .conjured
  else
    Run.report (t.failure r.input index r.grammar.vocabulary)
    return .failed

end Recognizer

end SetGrammar
