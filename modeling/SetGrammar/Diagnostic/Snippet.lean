import SetGrammar.Diagnostic
import SetGrammar.Diagnostic.Place

/-!
# Diagnostics in the text of a grammar

A finding is shown with the line it concerns and the range underlined. Its
message stands above the line and again beside the range.
-/
namespace SetGrammar

/-- What is written before and after the parts of a snippet. -/
structure SnippetStyle where
  /-- Before the severity, the underline and its message. -/
  severity : Severity → String
  /-- Before the message in the title. -/
  title : String
  /-- Before line numbers and rulers. -/
  margin : String
  /-- Before the word for a hint. -/
  help : String
  /-- After each of these. -/
  reset : String

namespace SnippetStyle

/-- No styling. -/
def plain : SnippetStyle := ⟨fun _ => "", "", "", "", ""⟩

/-- The terminal codes for bold red, bold yellow, bold, bold blue and bold cyan. -/
def colored : SnippetStyle where
  severity
    | .error => "\x1b[1m\x1b[91m"
    | .warning => "\x1b[1m\x1b[33m"
  title := "\x1b[1m"
  margin := "\x1b[1m\x1b[94m"
  help := "\x1b[1m\x1b[96m"
  reset := "\x1b[0m"

/-- A styled piece of text. Nothing is written around an empty one, and nothing
    without a code. -/
def paint (style : SnippetStyle) (code text : String) : String :=
  if code.isEmpty || text.isEmpty then text else code ++ text ++ style.reset

end SnippetStyle

/-- A text of blanks. -/
def blanks (n : Nat) : String := .ofList (List.replicate n ' ')

/-- The header that names a place. -/
def SourcePlace.header (place : SourcePlace) (style : SnippetStyle) (path : String) : String :=
  let arrow := style.paint style.margin "--> "
  blanks (toString place.number).length ++ arrow ++ s!"{path}:{place.number}:{place.column}"

/-- The line of a place. What is left out at the left is marked. -/
def SourcePlace.shownLine (place : SourcePlace) (style : SnippetStyle) : String :=
  let shown := Text.visible place.line
  let mark := "..."
  if place.hidden = 0 then .ofList shown
  else style.paint style.margin mark ++ .ofList (shown.drop (place.hidden + mark.length))

/-- A text after a word. Its further lines are indented as far as the first. -/
def SnippetStyle.headed (style : SnippetStyle) (wordCode word code : String)
    (text : List Char) : List String :=
  match (Text.lines text).map String.ofList with
  | [] => []
  | first :: rest =>
    (style.paint wordCode word ++ style.paint code (": " ++ first))
      :: rest.map fun line => blanks (word.length + 2) ++ style.paint code line

namespace Diagnostic

/-- The lines of the title. -/
def titleLines (d : Diagnostic) (style : SnippetStyle) : List String :=
  style.headed (style.severity d.severity) d.severity.name style.title
    (Text.visible d.message.toList)

/-- The lines of the hints, in order. -/
def hintLines (d : Diagnostic) (style : SnippetStyle) : List String :=
  d.hints.flatMap fun hint => style.headed style.help "help" "" hint.toList

/-- The lines that show a finding in its text. -/
def snippetLines (d : Diagnostic) (style : SnippetStyle) (source : List Char)
    (path : Option String) : List String :=
  let place := SourcePlace.ofSpan source d.span
  let severity := style.paint (style.severity d.severity)
  let number := toString place.number
  let margin := style.paint style.margin
  let ruler := blanks (number.length + 1) ++ margin "|"
  let line := if place.line.isEmpty then "" else " " ++ place.shownLine style
  let underline := severity (.ofList (List.replicate place.width '^'))
  let hints := d.hintLines style
  d.titleLines style
    ++ (path.map fun path => place.header style path).toList
    ++ [ruler, margin number ++ " " ++ margin "|" ++ line,
      ruler ++ " " ++ blanks (place.before - place.hidden) ++ underline ++ " "
        ++ severity d.message]
    ++ (if hints.isEmpty then [] else ruler :: hints)

/-- A finding in its text. -/
def snippet (d : Diagnostic) (style : SnippetStyle) (source : List Char)
    (path : Option String) : String :=
  "\n".intercalate (d.snippetLines style source path)

end Diagnostic

/-- All findings in the text of a grammar. -/
def renderSnippets (found : List Diagnostic) (style : SnippetStyle) (source : String)
    (path : Option String) : String :=
  "\n".intercalate (found.map fun d => d.snippet style source.toList path)

end SetGrammar
