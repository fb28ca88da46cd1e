import SetGrammar.Compiled.Transition
import SetGrammar.Grammar.Rule

/-!
# Compiled grammars

What a recognizer runs. Each block of a rule is either one set transition or a
list of branches in order, with the reason for keeping them.
-/
namespace SetGrammar

mutual

/-- A compiled block. -/
inductive CompiledBlock where
  /-- All alternatives in one set. -/
  | set (transition : Transition)
  /-- Alternatives that are tried in order. -/
  | branches (alternatives : List (List CompiledElement)) (quantifier : Quantifier)
      (label : Option String) (reason : BranchReason)

/-- A part of a compiled alternative. -/
inductive CompiledElement where
  | set (transition : Transition)
  /-- A call of another rule. -/
  | call (rule : String)
  | block (block : CompiledBlock)

end

/-- A compiled alternative: elements one after the other. -/
abbrev CompiledSequence := List CompiledElement

namespace CompiledBlock

/-- The quantifier around a block. -/
def quantifier : CompiledBlock → Quantifier
  | set transition => transition.quantifier
  | branches _ quantifier _ _ => quantifier

/-- The transition of a block that is one set. -/
def transition? : CompiledBlock → Option Transition
  | set transition => some transition
  | branches _ _ _ _ => none

/-- Why a block has branches. -/
def reason? : CompiledBlock → Option BranchReason
  | set _ => none
  | branches _ _ _ reason => some reason

end CompiledBlock

/-- A rule with a compiled body. -/
structure CompiledRule where
  name : String
  kind : RuleKind
  isFragment : Bool
  command : Option LexerCommand
  tokenType : Option Nat
  body : CompiledBlock

/-- Whether the lexer tries a rule at each position. -/
def CompiledRule.isTokenRule (r : CompiledRule) : Bool := r.kind == .lexer && !r.isFragment

/-- A grammar whose rules are compiled. -/
structure CompiledGrammar where
  name : String
  lexerDomain : Domain
  parserDomain : Domain
  vocabulary : Vocabulary
  /-- In order of definition. -/
  rules : List CompiledRule

namespace CompiledGrammar

/-- The rule of a name. -/
def rule? (g : CompiledGrammar) (name : String) : Option CompiledRule :=
  g.rules.find? (·.name == name)

/-- The rules that the lexer tries, in order of precedence. -/
def tokenRules (g : CompiledGrammar) : List CompiledRule := g.rules.filter CompiledRule.isTokenRule

/-- The symbols that rules of a kind may name. -/
def domain (g : CompiledGrammar) : RuleKind → Domain
  | .lexer => g.lexerDomain
  | .parser => g.parserDomain

end CompiledGrammar

end SetGrammar
