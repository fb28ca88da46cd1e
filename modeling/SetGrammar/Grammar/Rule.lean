import SetGrammar.Grammar.Element
import SetGrammar.Symbol.Domain

/-!
# Rules

A rule gives a name to a body. Lexer rules read characters and mostly make
tokens, parser rules read tokens.
-/
namespace SetGrammar

/-- What the lexer does with a match instead of making a token. -/
inductive LexerCommand where
  /-- Drops the match. -/
  | skip
deriving DecidableEq, Repr

/-- A named body. -/
structure Rule where
  name : String
  kind : RuleKind
  /-- A fragment is a lexer rule that serves other rules only. -/
  isFragment : Bool := false
  command : Option LexerCommand := none
  tokenType : Option Nat := none
  body : Block
  span : Span := body.marks.span

namespace Rule

/-- Whether a rule reads characters. -/
def isLexer (r : Rule) : Bool := r.kind == .lexer

/-- Whether the lexer makes tokens of the rule's matches. -/
def makesToken (r : Rule) : Bool := r.isLexer && !r.isFragment && r.command.isNone

end Rule

/-- Puts a rule in the place of the one with its name, or else at the end. -/
def replaceRule (new : Rule) : List Rule → List Rule
  | [] => [new]
  | r :: rest => if r.name = new.name then new :: rest else r :: replaceRule new rest

theorem mem_names_replaceRule {new : Rule} {rules : List Rule} {name : String} :
    name ∈ (replaceRule new rules).map Rule.name ↔
      name = new.name ∨ name ∈ rules.map Rule.name := by
  induction rules with
  | nil => simp [replaceRule]
  | cons r rest ih =>
    unfold replaceRule
    split
    · rename_i same
      simp [same]
    · simp only [List.map_cons, List.mem_cons, ih]
      exact or_left_comm

theorem nodup_names_replaceRule (new : Rule) {rules : List Rule}
    (distinct : (rules.map Rule.name).Nodup) : ((replaceRule new rules).map Rule.name).Nodup := by
  induction rules with
  | nil => simp [replaceRule]
  | cons r rest ih =>
    obtain ⟨fresh, others⟩ := List.nodup_cons.1 distinct
    unfold replaceRule
    split
    · rename_i same
      exact List.nodup_cons.2 ⟨same ▸ fresh, others⟩
    · rename_i different
      refine List.nodup_cons.2 ⟨fun member => ?_, ih others⟩
      rcases mem_names_replaceRule.1 member with same | member
      · exact different same
      · exact fresh member

end SetGrammar
