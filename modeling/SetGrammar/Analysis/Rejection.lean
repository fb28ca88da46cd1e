import SetGrammar.Grammar.Element
import SetGrammar.Symbol.Bounded

/-!
# Rejected alternatives

An alternative that cannot be compiled is rejected with a cause. Each cause has
its wording.
-/
namespace SetGrammar

namespace Element

/-- What kind of element something is, in words. -/
def description : Element → String
  | literal _ => "a literal"
  | charClass _ => "a character class"
  | sequence _ => "a sequence"
  | reference _ => "a rule that does not match a single symbol"
  | negated _ => "a negation"
  | block _ _ => "a quantified or labeled block"

end Element

/-- Why an alternative is rejected. -/
inductive Rejection where
  /-- The operand of a negation that can match more or less than one symbol. -/
  | invalidNegationTarget (description : String)
  /-- A symbol that the domain of the rule does not have. -/
  | outOfDomain (error : SymbolError)
  /-- A character class in a rule that reads tokens. -/
  | classOutsideLexer (kind : RuleKind)
  /-- A lexer rule that refers to a parser rule, or a parser rule that refers to
      a fragment. -/
  | crossDomainReference (kind : RuleKind) (name : String)
  /-- A reference to a rule that the grammar does not have. -/
  | undefinedRule (name : String)
  /-- A parser reference to a lexer rule that makes no tokens. -/
  | noTokenType (name : String)
deriving DecidableEq, Repr

/-- The wording of a cause. -/
def Rejection.message : Rejection → String
  | .invalidNegationTarget description => s!"cannot negate {description}"
  | .outOfDomain error => error.message
  | .classOutsideLexer kind => s!"character class in a {kind.name} rule"
  | .crossDomainReference kind name => kind.name ++ " rule cannot reference `" ++ name ++ "`"
  | .undefinedRule name => "`" ++ name ++ "` is not defined"
  | .noTokenType name => "`" ++ name ++ "` does not define a token type"

end SetGrammar
