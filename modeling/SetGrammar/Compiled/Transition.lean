import SetGrammar.Analysis.SetTest
import SetGrammar.Symbol.Rendering

/-!
# Set transitions

A set transition is a test of one symbol under a quantifier, with a label for
what it matches.
-/
namespace SetGrammar

/-- A test for a set that may be repeated. -/
structure Transition extends SetTest where
  quantifier : Quantifier
  /-- Binds each symbol that is matched. -/
  label : Option String
deriving DecidableEq, Repr

namespace Transition

/-- The transition of a set, of which only the part in the domain counts. -/
def ofSet (set : SymbolSet) (negated : Bool) (quantifier : Quantifier) (label : Option String)
    (domain : Domain) : Transition :=
  ⟨⟨set.restrict domain, negated, domain⟩, quantifier, label⟩

/-- Exactly one symbol of a set. -/
def single (set : SymbolSet) (domain : Domain) : Transition := ofSet set false .once none domain

/-- A test without quantifier and label. -/
def ofTest (test : SetTest) : Transition := ⟨test, .once, none⟩

/-- The admitted symbols as messages show them. -/
def expected (t : Transition) (vocabulary : Vocabulary) : String :=
  t.admissible.render t.domain.kind (some vocabulary)

end Transition

/-- The transition of alternatives that form one set. -/
def SetChoice.transition (c : SetChoice) (quantifier : Quantifier) (label : Option String)
    (d : Domain) : Except Rejection Transition := do
  return ⟨← c.test d, quantifier, label⟩

end SetGrammar
