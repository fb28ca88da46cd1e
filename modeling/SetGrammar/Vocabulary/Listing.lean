import SetGrammar.Text.Blank
import SetGrammar.Text.Lines
import SetGrammar.Text.Numeral
import SetGrammar.Vocabulary

/-!
# Token listings

A listing has one definition on a line, a name, an equals sign and a token
type: `PLUS=3` or `'+'=3`. The last equals sign of a line separates, so that a
name may contain others. A line of another form is skipped.
-/
namespace SetGrammar.Vocabulary

/-- The largest token type that a listing can give. -/
def maxListedType : Nat := 4294967295

/-- The parts of a text before and after its last occurrence of a character. -/
def splitAtLast (c : Char) : List Char → Option (List Char × List Char)
  | [] => none
  | d :: rest =>
    match splitAtLast c rest with
    | some (before, after) => some (d :: before, after)
    | none => if d = c then some ([], rest) else none

/-- Whether a name stands in single quotes. -/
def isQuoted (name : List Char) : Bool :=
  2 ≤ name.length && name.head? == some '\x27' && name.getLast? == some '\x27'

/-- The definition on a line. A name in quotes is a literal name. -/
def ofLine? (line : List Char) : Option TokenNames := do
  let (name, value) ← splitAtLast '=' (Text.trim line)
  let tokenType ← Text.readNumeral maxListedType (Text.trim value)
  if isQuoted name then some ⟨tokenType, some (.ofList name), none⟩
  else if name.isEmpty then none
  else some ⟨tokenType, none, some (.ofList name)⟩

/-- The vocabulary that a listing defines. -/
def ofListing (listing : String) : Vocabulary :=
  ⟨((Text.lines listing.toList).filterMap ofLine?).reverse⟩

end SetGrammar.Vocabulary
