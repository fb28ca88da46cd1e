import SetGrammar.Grammar.Rule
import SetGrammar.Vocabulary

/-!
# Grammars

A grammar is a list of named rules and the names of its token types. It is made
by defining rules one after the other. A rule that takes the name of an earlier
one takes its place.
-/
namespace SetGrammar

/-- Rules and token names. -/
structure Grammar where
  name : String
  /-- In order of definition. -/
  rules : List Rule
  vocabulary : Vocabulary
  /-- How many token rules stand for literals. -/
  literalRules : Nat
  distinct : (rules.map Rule.name).Nodup

namespace Grammar

/-- A grammar without rules. -/
def empty (name : String) : Grammar := ⟨name, [], .empty, 0, .nil⟩

/-- The rule of a name. -/
def rule? (g : Grammar) (name : String) : Option Rule := g.rules.find? (·.name == name)

theorem rule?_eq_some {g : Grammar} {name : String} {r : Rule} (found : g.rule? name = some r) :
    r ∈ g.rules ∧ r.name = name :=
  ⟨List.mem_of_find?_eq_some found, by simpa using List.find?_some found⟩

/-- The symbols that rules of a kind may name. For parser rules these are the
    token types defined so far. -/
def domain (g : Grammar) : RuleKind → Domain
  | .lexer => .lexer
  | .parser => .parser g.vocabulary.largestType

/-- Adds a rule as it is. The token type of the rule gets its name. -/
def add (g : Grammar) (r : Rule) : Grammar where
  name := g.name
  rules := replaceRule r g.rules
  vocabulary := match r.tokenType with
    | some tokenType => g.vocabulary.define tokenType none (some r.name)
    | none => g.vocabulary
  literalRules := g.literalRules
  distinct := nodup_names_replaceRule r g.distinct

/-- Adds a lexer rule that makes tokens of a new type. -/
def addToken (g : Grammar) (name : String) (body : Block) : Nat × Grammar :=
  let tokenType := g.vocabulary.freshType
  (tokenType, g.add { name, kind := .lexer, tokenType := some tokenType, body })

/-- The token type of a literal text. Unless its quoted text names one already,
    a token rule for it is added. -/
def tokenForLiteral (g : Grammar) (text : String) : Nat × Grammar :=
  let quoted := "'" ++ text ++ "'"
  match g.vocabulary.typeOf? quoted with
  | some tokenType => (tokenType, g)
  | none =>
    let (tokenType, added) := g.addToken s!"T__{g.literalRules}" ⟨{}, [.text text.toList]⟩
    (tokenType,
      { added with
        vocabulary := added.vocabulary.define tokenType (some quoted) none
        literalRules := g.literalRules + 1 })

/-- Adds a lexer rule that serves other rules only. -/
def addFragment (g : Grammar) (name : String) (body : Block) : Grammar :=
  g.add { name, kind := .lexer, isFragment := true, body }

/-- Adds a lexer rule whose matches are dropped. -/
def addSkip (g : Grammar) (name : String) (body : Block) : Grammar :=
  g.add { name, kind := .lexer, command := some .skip, body }

/-- Adds a parser rule. -/
def addParserRule (g : Grammar) (name : String) (body : Block) : Grammar :=
  g.add { name, kind := .parser, body }

end Grammar

end SetGrammar
