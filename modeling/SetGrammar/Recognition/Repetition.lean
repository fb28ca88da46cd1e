import SetGrammar.Compiled.Transition
import SetGrammar.Input
import SetGrammar.Recognition.Error

/-!
# Matching a set

One membership test for each symbol. A quantified set is a greedy loop around
the test, which never goes back.
-/
namespace SetGrammar

/-- The result of testing one symbol. -/
inductive TestResult where
  /-- The symbol is not admitted. -/
  | failed
  /-- The symbol is admitted. It is bound if the transition has a label. -/
  | matched (bound : Option Capture)
  /-- An absent symbol is taken as present. -/
  | conjured

namespace TestResult

/-- Whether a symbol is used up. -/
def consumes : TestResult → Bool
  | matched _ => true
  | failed | conjured => false

/-- Whether the test succeeds. -/
def succeeds : TestResult → Bool
  | matched _ | conjured => true
  | failed => false

/-- What is bound. -/
def bound? : TestResult → Option Capture
  | matched bound => bound
  | failed | conjured => none

end TestResult

namespace Transition

/-- Tests the symbol at an index. -/
def test (t : Transition) (input : Input) (i : Nat) : TestResult :=
  if t.admits (input.symbol? i) then .matched (t.label.map fun _ => input.value i)
  else .failed

/-- The error about a symbol that is not admitted. -/
def failure (t : Transition) (input : Input) (i : Nat) (vocabulary : Vocabulary) :
    InputError :=
  let found := input.shown i
  let complaint := match t.domain.kind with
    | .lexer => Complaint.unrecognized found
    | .parser => Complaint.mismatched found (t.expected vocabulary)
  ⟨complaint, i, input.position i⟩

end Transition

/-- How far a loop is. -/
inductive RepetitionState where
  /-- A match is still required. -/
  | start
  /-- Further matches are optional. -/
  | looping
  | done
  | failed
deriving DecidableEq, Repr

/-- Whether the loop is over. -/
def RepetitionState.isTerminal : RepetitionState → Bool
  | done | failed => true
  | start | looping => false

/-- The progress of a loop under a quantifier. -/
structure Repetition where
  quantifier : Quantifier
  state : RepetitionState
  /-- How many tests succeeded. -/
  matched : Nat
deriving DecidableEq, Repr

namespace Repetition

/-- A loop before its first test. -/
def ofQuantifier (quantifier : Quantifier) : Repetition :=
  ⟨quantifier, if quantifier.allowsNone then .looping else .start, 0⟩

/-- The loop after a test. -/
def step (l : Repetition) (success : Bool) : Repetition :=
  match l.state, success with
  | .done, _ | .failed, _ => l
  | .start, false => { l with state := .failed }
  | .looping, false => { l with state := .done }
  | .start, true | .looping, true =>
    { l with
      state := if l.quantifier.repeats then .looping else .done
      matched := l.matched + 1 }

end Repetition

end SetGrammar
