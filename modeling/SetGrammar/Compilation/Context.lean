import SetGrammar.Analysis.SetTest
import SetGrammar.Diagnostic
import SetGrammar.Grammar
import SetGrammar.Symbol.Rendering

/-!
# Compiling in a rule

The rule, grammar and options that a block is compiled under, the checks that
an alternative has to pass there, and the findings reported about it.
-/
namespace SetGrammar

/-- What the compiler may do to make recognition faster. -/
structure CompileOptions where
  /-- Turn alternatives of one symbol into a set. -/
  formSets : Bool := true
  /-- Replace references to rules that match one character. -/
  inlineRules : Bool := true
deriving DecidableEq, Repr, Inhabited

/-- Every alternation stays a list of branches. -/
def CompileOptions.plain : CompileOptions := ⟨false, false⟩

/-- The surroundings of a block that is compiled. -/
structure CompileContext where
  grammar : Grammar
  options : CompileOptions
  rule : Rule

namespace CompileContext

/-- The symbols that the rule may name. -/
def domain (c : CompileContext) : Domain := c.grammar.domain c.rule.kind

/-- Checks a reference that was not replaced. -/
def checkReference (c : CompileContext) (name : String) : Except Rejection Unit :=
  match c.grammar.rule? name with
  | none => throw (.undefinedRule name)
  | some target =>
    match c.rule.kind, target.kind with
    | .lexer, .parser => throw (.crossDomainReference .lexer name)
    | .parser, .lexer =>
      if target.isFragment then throw (.crossDomainReference .parser name)
      else throw (.noTokenType name)
    | .lexer, .lexer | .parser, .parser => return ()

mutual

/-- Checks the references of an alternative, but not those in nested blocks. -/
def checkReferences (c : CompileContext) : Element → Except Rejection Unit
  | .reference name => c.checkReference name
  | .sequence items => checkReferencesOfAll c items
  | _ => return ()

/-- Checks the references of elements in order. -/
def checkReferencesOfAll (c : CompileContext) : List Element → Except Rejection Unit
  | [] => return ()
  | element :: rest => do
    checkReferences c element
    checkReferencesOfAll c rest

end

/-- Checks the symbols of an alternative and then its references. -/
def check (c : CompileContext) (alternative : Element) : Except Rejection Unit := do
  alternative.check c.domain
  c.checkReferences alternative

/-- Whether an alternative is compiled at all. -/
def accepts (c : CompileContext) (alternative : Element) : Bool := (c.check alternative).isOk

/-- Why an alternative is left out. -/
def rejection? (c : CompileContext) (alternative : Element) : Option Rejection :=
  match c.check alternative with
  | .ok _ => none
  | .error rejection => some rejection

/-- The foremost reason to keep branches that rejections give. -/
def rejectionReason? (rejections : List Rejection) : Option BranchReason :=
  rejections.foldr (fun rejection reason => BranchReason.first? rejection.reason reason) none

/-- A finding in the rule. -/
def diagnostic (c : CompileContext) (kind : DiagnosticKind) (span : Span) (detail : String) :
    Diagnostic :=
  ⟨kind, some c.rule.name, span, some detail, []⟩

/-- A rejection as a finding. -/
def rejectionDiagnostic (c : CompileContext) (span : Span) (rejection : Rejection) : Diagnostic :=
  c.diagnostic rejection.kind span rejection.detail

/-- The warning about a negated test that admits nothing. -/
def emptyComplement (c : CompileContext) (span : Span) (t : SetTest) : List Diagnostic :=
  if t.negated && t.admissible.isEmpty then
    let named := t.named.render c.domain.kind (some c.grammar.vocabulary)
    [c.diagnostic .emptyComplement span ("~" ++ named)]
  else []

/-- The error about a label on a block with branches. Only a block that would
    have been a set may have one. -/
def misplacedLabel (c : CompileContext) (marks : BlockMarks) (reason : BranchReason) :
    List Diagnostic :=
  match marks.label with
  | some label =>
    if reason = .disabled then [] else [c.diagnostic .labelOnNonSet marks.span label]
  | none => []

end CompileContext

end SetGrammar
