import SetGrammar.Analysis.Verdict

/-!
# Tests for a set

Alternatives that form one set are a test of one symbol. The test names a set
and admits its symbols, or if it is negated the other symbols of the domain.
-/
namespace SetGrammar

/-- The intervals of a source, checked against a domain. -/
def SymbolSource.intervals (d : Domain) : SymbolSource → Except Rejection (List Interval)
  | .literal symbol => do
    Rejection.ofCheck (d.check symbol)
    return [.single symbol]
  | .charClass set => do
    Rejection.ofCheck (d.checkMembers set)
    return set.toIntervals

/-- The symbols that sources name, checked against a domain. -/
def SymbolSource.union (sources : List SymbolSource) (d : Domain) : Except Rejection SymbolSet := do
  let intervals ← sources.mapM (·.intervals d)
  return .ofIntervals intervals.flatten

/-- A test whether a symbol belongs to a set. -/
structure SetTest where
  /-- The symbols that the grammar names. -/
  named : SymbolSet
  /-- The test admits the symbols of the domain that are not named. -/
  negated : Bool
  domain : Domain
deriving DecidableEq, Repr

namespace SetTest

/-- The symbols that the test admits. -/
def admissible (t : SetTest) : SymbolSet :=
  if t.negated then t.named.complement t.domain else t.named

/-- Whether a symbol is admitted. The end of the input never is. -/
def admits (t : SetTest) : Option Nat → Bool
  | some s => t.domain.contains s && t.named.contains s != t.negated
  | none => false

end SetTest

/-- The test that alternatives of one set come down to. -/
def SetChoice.test (c : SetChoice) (d : Domain) : Except Rejection SetTest := do
  return ⟨← SymbolSource.union c.sources d, c.negated, d⟩

/-- The test that a literal, a class or a negation is. -/
def Element.test (element : Element) (d : Domain) : Except Rejection SetTest :=
  match element with
  | .negated operand => do SetChoice.test ⟨← operand.negatedSources d, true⟩ d
  | other => do SetChoice.test ⟨[← other.source d], false⟩ d

end SetGrammar
