import SetGrammar.Symbol.Set
import SetGrammar.Text.Escape
import SetGrammar.Vocabulary

/-!
# Sets as text

A set of one symbol is shown bare and any other set in braces. Characters stand
in quotes, a run of them as `'a'..'z'`. Token types are shown one by one, by
name where a vocabulary is at hand.
-/
namespace SetGrammar

/-- The character with a code point, if it is one. -/
def character? (symbol : Nat) : Option Char :=
  if h : symbol.isValidChar then some (.ofNatAux symbol h) else none

/-- A code point in quotes. One that is no character is written in hexadecimal. -/
def renderCodePoint (symbol : Nat) : String :=
  let shown := match character? symbol with
    | some c => String.ofList (Text.escapeChar c)
    | none => "\\u\x7b" ++ String.ofList (Nat.toDigits 16 symbol) ++ "\x7d"
  "'" ++ shown ++ "'"

/-- A run of code points. -/
def Interval.renderCodePoints (i : Interval) : String :=
  if i.isSingle then renderCodePoint i.low
  else renderCodePoint i.low ++ ".." ++ renderCodePoint i.high

/-- A token type, by name if there are names. -/
def renderTokenType (names : Option Vocabulary) (tokenType : Nat) : String :=
  match names with
  | some vocabulary => vocabulary.shownName tokenType
  | none => toString tokenType

namespace SymbolSet

/-- What is listed between the braces. -/
def renderParts (a : SymbolSet) (kind : RuleKind) (names : Option Vocabulary) : List String :=
  match kind with
  | .lexer => a.toIntervals.map Interval.renderCodePoints
  | .parser => a.symbols.map (renderTokenType names)

/-- The text of a set of symbols of one kind. -/
def render (a : SymbolSet) (kind : RuleKind) (names : Option Vocabulary) : String :=
  let list := ", ".intercalate (a.renderParts kind names)
  if a.size = 1 then list else "\x7b" ++ list ++ "\x7d"

end SymbolSet

end SetGrammar
