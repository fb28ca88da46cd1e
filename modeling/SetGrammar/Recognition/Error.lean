import SetGrammar.Input.Position
import SetGrammar.Symbol.Domain

/-!
# Errors of a run

Limits and misuse end a run. What is wrong with the input never does: it is
recorded, and the run goes on.
-/
namespace SetGrammar

/-- Why a run ended early. -/
inductive RunError where
  /-- The steps that were allowed are used up. -/
  | outOfFuel (limit : Nat)
  /-- More calls are open than allowed. -/
  | tooDeep (limit : Nat)
  /-- The grammar has no such rule. -/
  | unknownRule (name : String)
  /-- The rule reads symbols of the other kind. -/
  | wrongKind (name : String) (kind : RuleKind)
deriving DecidableEq, Repr

/-- The wording of an error. -/
def RunError.message : RunError → String
  | .outOfFuel limit => s!"runtime execution limit exceeded ({limit} steps)"
  | .tooDeep limit => s!"runtime recursion limit exceeded ({limit} nested calls)"
  | .unknownRule name => "rule `" ++ name ++ "` is not defined"
  | .wrongKind name kind => "`" ++ name ++ "` is a " ++ kind.name ++ " rule"

/-- What is wrong with the input. -/
inductive Complaint where
  /-- No lexer rule matches. The text ends with the character that stopped the
      longest attempt. -/
  | unrecognized (text : String)
  /-- An expected symbol is absent and was taken as present. -/
  | missing (expected found : String)
  /-- One symbol too many was skipped. -/
  | extraneous (found expected : String)
  /-- A symbol is not the expected one. -/
  | mismatched (found expected : String)
  /-- No alternative of a block matches. -/
  | noViableAlternative (found : String)
deriving DecidableEq, Repr

namespace Complaint

/-- The wording of a complaint. -/
def message : Complaint → String
  | unrecognized text => "token recognition error at: '" ++ text ++ "'"
  | missing expected found => "missing " ++ expected ++ " at '" ++ found ++ "'"
  | extraneous found expected => "extraneous input '" ++ found ++ "' expecting " ++ expected
  | mismatched found expected => "mismatched input '" ++ found ++ "' expecting " ++ expected
  | noViableAlternative found => "no viable alternative at input '" ++ found ++ "'"

/-- The offending text, or what was expected in its place. -/
def subject : Complaint → String
  | unrecognized text => text
  | missing expected _ | extraneous _ expected | mismatched _ expected => expected
  | noViableAlternative found => found

end Complaint

/-- A complaint about a symbol of the input. -/
structure InputError where
  complaint : Complaint
  /-- The index of the symbol. -/
  index : Nat
  position : Position
deriving DecidableEq, Repr

/-- An error with its position. -/
def InputError.render (e : InputError) : String :=
  s!"line {e.position.render} " ++ e.complaint.message

/-- All errors, one on a line. -/
def renderErrors (errors : List InputError) : String :=
  "\n".intercalate (errors.map InputError.render)

end SetGrammar
