/-!
# Positions in a text

A position counts lines from 1 and columns from 0. A line feed begins a line.
-/
namespace SetGrammar

/-- A line and a column. -/
structure Position where
  line : Nat
  column : Nat
deriving DecidableEq, Repr, Inhabited

namespace Position

/-- The start of a text. -/
def origin : Position := ⟨1, 0⟩

/-- The position after a character. -/
def after (p : Position) (c : Char) : Position :=
  if c = '\n' then ⟨p.line + 1, 0⟩ else ⟨p.line, p.column + 1⟩

/-- The position after several characters. -/
def afterAll (p : Position) (characters : List Char) : Position := characters.foldl after p

/-- Line and column with a colon. -/
def render (p : Position) : String := s!"{p.line}:{p.column}"

theorem afterAll_append (p : Position) (a b : List Char) :
    p.afterAll (a ++ b) = (p.afterAll a).afterAll b := List.foldl_append

end Position

end SetGrammar
