/-!
# Text on one line

How a piece of the input is shown inside a message: line breaks and tabs become
two characters, everything else stands for itself.
-/
namespace SetGrammar.Text

/-- How one character is shown. -/
def escapeChar : Char → List Char
  | '\n' => ['\\', 'n']
  | '\r' => ['\\', 'r']
  | '\t' => ['\\', 't']
  | c => [c]

/-- How a text is shown. -/
def escape (text : String) : String := .ofList (text.toList.flatMap escapeChar)

end SetGrammar.Text
