import SetGrammar.Compiled
import SetGrammar.Json

/-!
# Export of compiled grammars

The JSON form of a compiled grammar, complete except for the token names.
-/
namespace SetGrammar

/-- A set as the list of its intervals. -/
def SymbolSet.json (a : SymbolSet) : JsonValue :=
  .array (a.toIntervals.map fun i => .object [("low", .number i.low), ("high", .number i.high)])

/-- A domain with its kind. -/
def Domain.json (d : Domain) : JsonValue :=
  .object [("kind", .string d.kind.name), ("min", .number d.min), ("max", .number d.max)]

/-- The fields of a transition. -/
def Transition.jsonFields (t : Transition) : List (String × JsonValue) :=
  [("set", t.named.json), ("negated", .bool t.negated), ("quantifier", .string t.quantifier.name),
    ("label", .ofString? t.label), ("domain", t.domain.json)]

mutual

/-- The fields of a block. -/
def CompiledBlock.jsonFields : CompiledBlock → List (String × JsonValue)
  | .set transition => ("kind", .string "set") :: transition.jsonFields
  | .branches alternatives quantifier label reason =>
    [("kind", .string "branches"), ("alternatives", .array (jsonAlternatives alternatives)),
      ("quantifier", .string quantifier.name), ("label", .ofString? label),
      ("reason", .string reason.name)]
termination_by structural x => x

/-- A part of an alternative with its type. -/
def CompiledElement.json : CompiledElement → JsonValue
  | .set transition => .object (("type", .string "set") :: transition.jsonFields)
  | .call rule => .object [("type", .string "call"), ("rule", .string rule)]
  | .block block => .object (("type", .string "block") :: block.jsonFields)
termination_by structural x => x

/-- The parts of an alternative. -/
def jsonSequence : List CompiledElement → List JsonValue
  | [] => []
  | element :: rest => element.json :: jsonSequence rest
termination_by structural x => x

/-- Alternatives as lists of their parts. -/
def jsonAlternatives : List (List CompiledElement) → List JsonValue
  | [] => []
  | sequence :: rest => .array (jsonSequence sequence) :: jsonAlternatives rest
termination_by structural x => x

end

/-- The name of a command. -/
def LexerCommand.name : LexerCommand → String
  | .skip => "skip"

/-- A rule with its body. -/
def CompiledRule.json (r : CompiledRule) : JsonValue :=
  .object
    [("name", .string r.name), ("kind", .string r.kind.name), ("fragment", .bool r.isFragment),
      ("command", .ofString? (r.command.map LexerCommand.name)),
      ("token_type", .ofNat? r.tokenType), ("body", .object r.body.jsonFields)]

namespace CompiledGrammar

/-- A grammar with its rules under their names. -/
def json (g : CompiledGrammar) : JsonValue :=
  .object
    [("name", .string g.name), ("lexer_domain", g.lexerDomain.json),
      ("parser_domain", g.parserDomain.json),
      ("rules", .object (g.rules.map fun r => (r.name, r.json)))]

/-- The text of the export. -/
def toJson (g : CompiledGrammar) : String := g.json.pretty

end CompiledGrammar

end SetGrammar
