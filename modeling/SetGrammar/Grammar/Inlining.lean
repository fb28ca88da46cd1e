import SetGrammar.Analysis.SetTest
import SetGrammar.Diagnostic
import SetGrammar.Grammar
import SetGrammar.Grammar.Reference

/-!
# Rules that match one character

The table holds the lexer rules that always match exactly one character, each
with the set of these characters. A reference to such a rule can be replaced by
a class. The table is filled by a search along the exposed references: a rule
has an entry when the rules it exposes have entries and its alternatives then
form one set. A rule that leads back to itself has none.
-/
namespace SetGrammar

/-- Whether a rule may have an entry at all. -/
def Rule.isInlinable (r : Rule) : Bool := r.isLexer && r.command.isNone && r.body.marks.isPlain

/-- A class in place of a reference to a rule with a known set. -/
def Element.classOf (set : Option SymbolSet) : Option Element := set.map .charClass

/-- The characters that alternatives admit if they form one set. -/
def formedSet? (alternatives : List Element) : Option SymbolSet :=
  match Verdict.ofAlternatives alternatives .lexer with
  | .set choice => (choice.test .lexer).toOption.map SetTest.admissible
  | .branches _ => none

/-- What the search has found out. -/
structure InlineSearch where
  /-- The rules that are finished, with their sets. -/
  settled : List (String × Option SymbolSet)
  /-- The cycles met, in order. -/
  cycles : List Diagnostic

namespace InlineSearch

/-- Finishes a rule. -/
def settle (name : String) (set : Option SymbolSet) (s : InlineSearch) : InlineSearch :=
  { s with settled := (name, set) :: s.settled }

/-- Reports that a rule leads back to itself. -/
def reportCycle (r : Rule) (s : InlineSearch) : InlineSearch :=
  { s with cycles := s.cycles ++ [⟨.fragmentCycle, some r.name, r.span, some r.name, []⟩] }

/-- Finds the set of a rule after those of the rules it exposes. The path holds
    the rules whose sets are being looked for, so that it never holds more than
    all rules and `depth` need only count those not on it. -/
def resolve (g : Grammar) : Nat → List String → String → StateM InlineSearch (Option SymbolSet)
  | 0, _, _ => return none
  | depth + 1, path, name => do
    match (← get).settled.lookup name, g.rule? name with
    | some set, _ => return set
    | none, none => return none
    | none, some r =>
      if !r.isInlinable then
        modify (settle name none)
        return none
      else if path.contains name then
        modify (reportCycle r)
        return none
      else
        let exposed := Element.exposedReferencesOfAll r.body.alternatives
        let sets ← exposed.mapM fun target =>
          return (target, ← resolve g depth (name :: path) target)
        let replacement target := Element.classOf (sets.lookup target).join
        let set := formedSet? (Element.replaceExposedInAll replacement r.body.alternatives)
        modify (settle name set)
        return set

/-- Finds the sets of all lexer rules in order. -/
def run (g : Grammar) : InlineSearch :=
  let names := (g.rules.filter Rule.isLexer).map Rule.name
  ((names.forM fun name => discard (resolve g (g.rules.length + 1) [] name)).run ⟨[], []⟩).2

end InlineSearch

/-- Lexer rules that match exactly one character, with their characters. -/
structure InlineTable where
  entries : List (String × SymbolSet)

namespace InlineTable

/-- No rule. -/
def empty : InlineTable := ⟨[]⟩

/-- The set of a rule, if it has an entry. -/
def find? (t : InlineTable) (name : String) : Option SymbolSet := t.entries.lookup name

/-- How many rules have an entry. -/
def size (t : InlineTable) : Nat := t.entries.length

/-- The table of a grammar, and the cycles of references met on the way. -/
def build (g : Grammar) : InlineTable × List Diagnostic :=
  let search := InlineSearch.run g
  (⟨search.settled.filterMap fun (name, set) => set.map (name, ·)⟩, search.cycles)

end InlineTable

/-- What stands for a reference in a rule of a kind. In lexer rules a class
    stands for a rule with an entry, in parser rules a literal for a rule that
    makes tokens. -/
def Grammar.replacement? (g : Grammar) (table : InlineTable) (kind : RuleKind)
    (name : String) : Option Element :=
  match kind with
  | .lexer => Element.classOf (table.find? name)
  | .parser => do
    let r ← g.rule? name
    if r.isLexer then r.tokenType.map .literal else none

/-- A block in which every reference that can be is replaced. -/
def Block.resolve (b : Block) (kind : RuleKind) (g : Grammar) (table : InlineTable) : Block :=
  { b with alternatives :=
      Element.replaceReferencesInAll (g.replacement? table kind) b.alternatives }

end SetGrammar
