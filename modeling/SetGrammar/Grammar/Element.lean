import SetGrammar.Quantifier
import SetGrammar.Symbol.Set

/-!
# Elements of rule bodies

The body of a rule is a block, a list of alternatives with a quantifier and a
label. Alternatives are elements: single symbols, classes, sequences,
references, negations and nested blocks.
-/
namespace SetGrammar

/-- A range of byte offsets in the text of a grammar. -/
structure Span where
  start : Nat
  stop : Nat
deriving DecidableEq, Repr, Inhabited

/-- What surrounds the alternatives of a block. -/
structure BlockMarks where
  quantifier : Quantifier := .once
  /-- Binds what the block matches. -/
  label : Option String := none
  span : Span := ⟨0, 0⟩
deriving DecidableEq, Repr, Inhabited

/-- Without a quantifier and a label a block only groups. -/
def BlockMarks.isPlain (marks : BlockMarks) : Bool :=
  marks.quantifier == .once && marks.label.isNone

/-- An alternative or a part of one. -/
inductive Element where
  /-- Exactly one symbol. -/
  | literal (symbol : Nat)
  /-- One symbol of a set, in lexer rules only. -/
  | charClass (set : SymbolSet)
  /-- Elements one after the other. -/
  | sequence (items : List Element)
  /-- What the rule of that name matches. -/
  | reference (name : String)
  /-- One symbol of the domain that the operand does not match. -/
  | negated (operand : Element)
  /-- A choice between alternatives. -/
  | block (marks : BlockMarks) (alternatives : List Element)

/-- A list of alternatives with its marks. -/
structure Block where
  marks : BlockMarks
  alternatives : List Element

namespace Element

/-- One character. -/
def char (c : Char) : Element := .literal c.toNat

/-- The items of an element that stands inside a sequence. -/
def items : Element → List Element
  | sequence items => items
  | element => [element]

/-- A sequence in which sequences among the items are dissolved. An only item
    stands for itself. -/
def seq (elements : List Element) : Element :=
  match elements.flatMap items with
  | [element] => element
  | elements => .sequence elements

/-- The characters of a text one after the other. -/
def text (characters : List Char) : Element := seq (characters.map char)

/-- One character between two bounds, none if they are reversed. -/
def range (low high : Char) : Element :=
  .charClass (((SymbolSet.range low.toNat high.toNat).toOption).getD .empty)

/-- A block as an element. -/
def ofBlock (b : Block) : Element := .block b.marks b.alternatives

mutual

/-- Whether an element always matches exactly one symbol. -/
def isOneSymbol : Element → Bool
  | literal _ | charClass _ | negated _ => true
  | sequence _ | reference _ => false
  | block marks alternatives => marks.isPlain && areOneSymbol alternatives

/-- Whether each of the elements always matches exactly one symbol. -/
def areOneSymbol : List Element → Bool
  | [] => true
  | element :: rest => element.isOneSymbol && areOneSymbol rest

end

end Element

end SetGrammar
