import SetGrammar.Analysis.Rejection

/-!
# Sources of a set

A source is a literal or a class, checked against the domain of its rule. The
operand of a negation gives a list of sources.
-/
namespace SetGrammar

/-- What an alternative of one symbol adds to a set. -/
inductive SymbolSource where
  | literal (symbol : Nat)
  | charClass (set : SymbolSet)
deriving DecidableEq, Repr

/-- Turns the error of a domain check into a rejection. -/
def Rejection.ofCheck {α : Type} (checked : Except SymbolError α) : Except Rejection α :=
  checked.mapError .outOfDomain

namespace Element

/-- The source that a literal or a class is. -/
def source (element : Element) (d : Domain) : Except Rejection SymbolSource :=
  match element with
  | literal symbol => do
    Rejection.ofCheck (d.check symbol)
    return .literal symbol
  | charClass set => do
    if d.kind ≠ .lexer then throw (.classOutsideLexer d.kind)
    Rejection.ofCheck (d.checkMembers set)
    return .charClass set
  | other => throw (.invalidNegationTarget other.description)

mutual

/-- The sources that the operand of a negation names: one symbol, or a plain
    block of such operands. -/
def negatedSources (d : Domain) : Element → Except Rejection (List SymbolSource)
  | block marks alternatives =>
    if marks.isPlain then negatedSourcesOfAll d alternatives
    else throw (.invalidNegationTarget (block marks alternatives).description)
  | operand => return [← operand.source d]

/-- The sources of several operands in order. -/
def negatedSourcesOfAll (d : Domain) : List Element → Except Rejection (List SymbolSource)
  | [] => return []
  | operand :: rest => return (← negatedSources d operand) ++ (← negatedSourcesOfAll d rest)

end

mutual

/-- Checks the symbols of an alternative, but not those in nested blocks. -/
def check (d : Domain) : Element → Except Rejection Unit
  | sequence items => checkAll d items
  | negated operand => do discard (operand.negatedSources d)
  | reference _ | block _ _ => return ()
  | element => do discard (element.source d)

/-- Checks elements in order. -/
def checkAll (d : Domain) : List Element → Except Rejection Unit
  | [] => return ()
  | element :: rest => do
    check d element
    checkAll d rest

end

end Element

end SetGrammar
