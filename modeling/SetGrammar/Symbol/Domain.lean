/-!
# Symbols and their domains

A symbol is a natural number: a code point in a lexer rule and a token type in a
parser rule. A domain is the range of symbols that one kind of rule may name.
The end of the input is a symbol of no domain.
-/
namespace SetGrammar

/-- The two kinds of rule: one reads characters, the other reads tokens. -/
inductive RuleKind where
  | lexer
  | parser
deriving DecidableEq, Repr

/-- The name of a kind in messages and exports. -/
def RuleKind.name : RuleKind → String
  | .lexer => "lexer"
  | .parser => "parser"

/-- The symbols from `min` to `max`, none if `max` is smaller. -/
structure Domain where
  kind : RuleKind
  min : Nat
  max : Nat
deriving DecidableEq, Repr

namespace Domain

/-- The largest code point. -/
def maxCodePoint : Nat := 0x10FFFF

/-- Every code point, surrogates included. -/
def lexer : Domain := ⟨.lexer, 0, maxCodePoint⟩

/-- The token types from 1 to the given one. -/
def parser (largestType : Nat) : Domain := ⟨.parser, 1, largestType⟩

/-- Whether the domain has no symbol. -/
def isEmpty (d : Domain) : Bool := d.max < d.min

/-- Whether a symbol belongs to the domain. -/
def contains (d : Domain) (s : Nat) : Bool := d.min ≤ s && s ≤ d.max

theorem contains_iff {d : Domain} {s : Nat} : d.contains s ↔ d.min ≤ s ∧ s ≤ d.max := by
  simp [contains]

end Domain

/-- Why symbols cannot be used as asked. -/
inductive SymbolError where
  /-- The bounds of an interval in the wrong order. -/
  | reversedBounds (low high : Nat)
  /-- A symbol that its domain does not have. -/
  | outOfDomain (symbol : Nat) (domain : Domain)
deriving DecidableEq, Repr

/-- The wording of an error. -/
def SymbolError.message : SymbolError → String
  | .reversedBounds low high => s!"invalid interval: {low} > {high}"
  | .outOfDomain symbol d =>
    s!"symbol {symbol} is outside the {d.kind.name} domain [{d.min}, {d.max}]"

/-- Accepts exactly the symbols of the domain. -/
def Domain.check (d : Domain) (s : Nat) : Except SymbolError Unit :=
  if d.contains s then .ok () else .error (.outOfDomain s d)

theorem Domain.check_eq_ok_iff {d : Domain} {s : Nat} : d.check s = .ok () ↔ d.contains s := by
  unfold Domain.check
  split <;> simp_all

end SetGrammar
