import SetGrammar.Analysis.Rejection

/-!
# Diagnostics

Findings about a grammar, each with the rule and the range it concerns. A
finding never stops a compilation, so that one run shows them all.
-/
namespace SetGrammar

/-- How grave a finding is. -/
inductive Severity where
  | error
  | warning
deriving DecidableEq, Repr

/-- The severity in words. -/
def Severity.name : Severity → String
  | .error => "error"
  | .warning => "warning"

/-- What a finding is about. An earlier kind takes precedence. -/
inductive DiagnosticKind where
  | invalidNegationTarget
  | inconsistentDomain
  | undefinedRule
  | unknownTokenType
  | labelOnNonSet
  | fragmentCycle
  | emptyComplement
deriving DecidableEq, Repr

namespace DiagnosticKind

/-- The place of a kind in the order of precedence. -/
def rank (kind : DiagnosticKind) : Nat := kind.ctorIdx

/-- What compiles, but is hardly meant, is a warning. -/
def severity : DiagnosticKind → Severity
  | fragmentCycle | emptyComplement => .warning
  | invalidNegationTarget | inconsistentDomain | undefinedRule | unknownTokenType
  | labelOnNonSet => .error

/-- The wording of a finding without a detail. -/
def summary : DiagnosticKind → String
  | invalidNegationTarget => "negation requires a single-symbol operand"
  | inconsistentDomain => "symbol does not belong to this rule's domain"
  | undefinedRule => "undefined rule"
  | unknownTokenType => "rule does not define a token type"
  | labelOnNonSet => "label is assigned to a block which is not a set"
  | fragmentCycle => "fragment refers to itself"
  | emptyComplement => "negated set matches nothing"

/-- The wording of a finding with a detail, mostly the name of a rule or a
    label. -/
def detailed (kind : DiagnosticKind) (detail : String) : String :=
  match kind with
  | undefinedRule => "`" ++ detail ++ "` is not defined"
  | unknownTokenType => "`" ++ detail ++ "` does not define a token type"
  | labelOnNonSet => "label `" ++ detail ++ "` is assigned to a block which is not a set"
  | fragmentCycle => "fragment `" ++ detail ++ "` refers to itself"
  | _ => kind.summary ++ ": " ++ detail

end DiagnosticKind

/-- One finding. -/
structure Diagnostic where
  kind : DiagnosticKind
  /-- The rule in which it was found. -/
  rule : Option String
  span : Span
  detail : Option String
  hints : List String := []
deriving DecidableEq, Repr

namespace Diagnostic

/-- The wording of a finding. -/
def message (d : Diagnostic) : String :=
  match d.detail with
  | some detail => d.kind.detailed detail
  | none => d.kind.summary

/-- The severity of a finding is that of its kind. -/
def severity (d : Diagnostic) : Severity := d.kind.severity

/-- Whether a finding is an error. -/
def isError (d : Diagnostic) : Bool := d.severity == .error

/-- Whether a finding is a warning. -/
def isWarning (d : Diagnostic) : Bool := d.severity == .warning

/-- A finding on one line. -/
def render (d : Diagnostic) : String :=
  let place := match d.rule with
    | some rule => " in `" ++ rule ++ "`"
    | none => ""
  let hints := d.hints.map fun hint => " (hint: " ++ hint ++ ")"
  s!"{d.severity.name} at {d.span.start}..{d.span.stop}" ++ place ++ ": " ++ d.message
    ++ String.join hints

/-- Two findings about the same range of the same rule. -/
def SamePlace (d e : Diagnostic) : Prop := d.span = e.span ∧ d.rule = e.rule

instance (d e : Diagnostic) : Decidable (SamePlace d e) := inferInstanceAs (Decidable (_ ∧ _))

end Diagnostic

/-- The findings whose kind takes precedence at their place, in their order. -/
def foremost (found : List Diagnostic) : List Diagnostic :=
  found.filter fun d => !found.any fun e => e.SamePlace d && e.kind.rank < d.kind.rank

/-- How many findings are errors. -/
def errorCount (found : List Diagnostic) : Nat := found.countP Diagnostic.isError

/-- How many findings are warnings. -/
def warningCount (found : List Diagnostic) : Nat := found.countP Diagnostic.isWarning

/-- All findings, one on a line. -/
def renderDiagnostics (found : List Diagnostic) : String :=
  "\n".intercalate (found.map Diagnostic.render)

/-- The kind of finding that a rejection is. -/
def Rejection.kind : Rejection → DiagnosticKind
  | .invalidNegationTarget _ => .invalidNegationTarget
  | .outOfDomain _ | .classOutsideLexer _ | .crossDomainReference _ _ => .inconsistentDomain
  | .undefinedRule _ => .undefinedRule
  | .noTokenType _ => .unknownTokenType

/-- The detail with which a rejection is reported. -/
def Rejection.detail : Rejection → String
  | .undefinedRule name | .noTokenType name => name
  | other => other.message

end SetGrammar
