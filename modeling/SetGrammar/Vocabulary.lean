/-!
# Token names

A token type can have a literal name such as `'+'` and a symbolic name such as
`PLUS`. A vocabulary is the list of the definitions made so far. In every
look-up the latest definition wins.
-/
namespace SetGrammar

/-- Names given to a token type by one definition. -/
structure TokenNames where
  tokenType : Nat
  literal : Option String
  symbolic : Option String
deriving DecidableEq, Repr

/-- Definitions of token names, the latest first. -/
structure Vocabulary where
  definitions : List TokenNames
deriving DecidableEq, Repr, Inhabited

namespace Vocabulary

/-- No names. -/
def empty : Vocabulary := ⟨[]⟩

/-- Adds names for a token type. What it does not name keeps its names. -/
def define (v : Vocabulary) (tokenType : Nat) (literal symbolic : Option String) : Vocabulary :=
  ⟨⟨tokenType, literal, symbolic⟩ :: v.definitions⟩

/-- The largest token type defined, 0 if there is none. -/
def largestType (v : Vocabulary) : Nat :=
  v.definitions.foldr (fun names largest => max names.tokenType largest) 0

/-- The largest token type that there can be. Types are numbers of 32 bits. -/
def lastType : Nat := 4294967295

/-- The first token type above all that are defined. After the last type it starts again
    from 0. -/
def freshType (v : Vocabulary) : Nat := (v.largestType + 1) % (lastType + 1)

/-- The literal name of a token type. -/
def literalName? (v : Vocabulary) (tokenType : Nat) : Option String :=
  v.definitions.findSome? fun names =>
    if names.tokenType = tokenType then names.literal else none

/-- The symbolic name of a token type. -/
def symbolicName? (v : Vocabulary) (tokenType : Nat) : Option String :=
  v.definitions.findSome? fun names =>
    if names.tokenType = tokenType then names.symbolic else none

/-- The literal name, else the symbolic name, else the number. -/
def shownName (v : Vocabulary) (tokenType : Nat) : String :=
  ((v.literalName? tokenType).or (v.symbolicName? tokenType)).getD (toString tokenType)

/-- The token type that a literal or symbolic name was last given to. -/
def typeOf? (v : Vocabulary) (name : String) : Option Nat :=
  v.definitions.findSome? fun names =>
    if names.literal = some name ∨ names.symbolic = some name then some names.tokenType else none

end Vocabulary

end SetGrammar
