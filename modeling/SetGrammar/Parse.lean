import SetGrammar.Recognition.Recognizer

/-!
# Parsing

A parser rule is matched from the first token on. What is wrong with the tokens
is reported, and it does not end the run.
-/
namespace SetGrammar

/-- What a rule made of the tokens. -/
structure Parse where
  rule : String
  matched : Bool
  /-- How many tokens were used up. -/
  consumed : Nat
  /-- The text of these tokens. -/
  text : String
  bindings : List Binding
  errors : List InputError

namespace Parse

/-- The latest binding of a label in any rule. -/
def binding? (o : Parse) (label : String) : Option Binding :=
  o.bindings.reverse.find? (·.label == label)

/-- Whether the rule matched and nothing was reported. -/
def isClean (o : Parse) : Bool := o.matched && o.errors.isEmpty

end Parse

/-- A run of a parser rule. -/
structure ParseRun where
  /-- The outcome, unless the run ended early. -/
  result : Except RunError Parse
  events : List Event

/-- What a run reports. One that ended early reports nothing. -/
def ParseRun.errors (p : ParseRun) : List InputError :=
  match p.result with
  | .ok outcome => outcome.errors
  | .error _ => []

namespace Recognizer

/-- Matches a rule from the start of the input. -/
def outcome (r : Recognizer) (name : String) : Run Parse := do
  let rule ← r.findRule name
  let matched ← r.start rule
  let s ← get
  return {
    rule := rule.name
    matched
    consumed := s.index
    text := r.input.text 0 s.index
    bindings := s.bindings.reverse
    errors := s.errors.reverse }

end Recognizer

/-- Matches a rule with tokens. -/
def CompiledGrammar.parse (g : CompiledGrammar) (limits : Limits) (rule : String)
    (tokens : List Token) : ParseRun :=
  let r : Recognizer := ⟨g, .parser, .tokens (.ofList tokens), limits⟩
  match (r.outcome rule).run (.initial limits) with
  | .ok outcome s => ⟨.ok outcome, s.events.reverse⟩
  | .error e s => ⟨.error e, s.events.reverse⟩

end SetGrammar
