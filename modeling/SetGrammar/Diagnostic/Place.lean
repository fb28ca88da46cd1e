import SetGrammar.Grammar.Element
import SetGrammar.Text.Lines
import SetGrammar.Text.Visible

/-!
# Places in the text of a grammar

The line and the columns of a range. The text is in ASCII, so that a byte offset
counts characters, and a range lies within one line.
-/
namespace SetGrammar

/-- Where a range of a text begins. -/
structure SourcePlace where
  /-- Counted from 1. -/
  number : Nat
  line : List Char
  /-- How many columns of the line precede the range. -/
  before : Nat
  /-- How many columns are underlined, at least one. -/
  width : Nat
  /-- The column in the header, counted from 1. -/
  column : Nat
deriving DecidableEq, Repr

/-- A line without the characters that end it. -/
structure SourceLine where
  text : List Char
  /-- How many characters end the line. -/
  ending : Nat
deriving DecidableEq, Repr

namespace SourceLine

/-- The line before a line feed. A carriage return before the line feed belongs
    to the end. -/
def ended (line : List Char) : SourceLine :=
  if line.getLast? = some '\r' then ⟨line.dropLast, 2⟩ else ⟨line, 1⟩

/-- The lines between the line feeds of a text. Nothing after the last line feed
    is no line. -/
def ofPieces : List (List Char) → List SourceLine
  | [] => []
  | [last] => if last.isEmpty then [] else [⟨last, 0⟩]
  | line :: rest => ended line :: ofPieces rest

/-- The lines of a text. -/
def ofText (source : List Char) : List SourceLine := ofPieces (Text.lines source)

/-- How many characters a line has with its end. -/
def size (l : SourceLine) : Nat := l.text.length + l.ending

/-- The place of the range from `start` to `stop` in a line. Past the first
    character of the end, the column counts that character too. -/
def place (l : SourceLine) (number start stop : Nat) : SourcePlace :=
  let before := Text.width (l.text.take start)
  { number, before
    line := l.text
    width := max 1 (Text.width (l.text.take stop) - before)
    column := if start ≤ l.text.length then start + 1 else l.text.length + 2 }

end SourceLine

namespace SourcePlace

/-- The place of a range in the line with the offset `start`, else in the last
    line. The offsets count from the first of the given lines. A text without
    lines has an empty one. -/
def locate (number start stop : Nat) : List SourceLine → SourcePlace
  | [] => SourceLine.place ⟨[], 0⟩ number start stop
  | line :: rest =>
    if start < line.size || rest.isEmpty then line.place number start stop
    else locate (number + 1) (start - line.size) (stop - line.size) rest

/-- The place of a range, which is cut at the end of the text. An empty range is
    widened to one character. -/
def ofSpan (source : List Char) (span : Span) : SourcePlace :=
  let start := min span.start source.length
  let stop := min span.stop source.length
  locate 1 start (if start < stop then stop else start + 1) (SourceLine.ofText source)

/-- How many columns at the left are left out. Where more than 26 blank columns
    precede the line's text and the range, 22 remain. -/
def hidden (place : SourcePlace) : Nat :=
  let free := min (Text.indentation place.line) place.before
  if 26 < free then free - 22 else 0

end SourcePlace

end SetGrammar
