import SetGrammar.Text.Blank

/-!
# Visible text

How a text is shown where a terminal must not act on its characters. A control
character is shown by its picture, which has the same place in the Unicode block
of control pictures. A line feed stays, so that lines are kept.
-/
namespace SetGrammar.Text

/-- The ranges of code points that set the direction of a text. -/
def directionRanges : List (Nat × Nat) := [(0x202A, 0x202E), (0x2066, 0x2069)]

/-- Whether a character sets the direction of a text. -/
def isDirection (c : Char) : Bool :=
  directionRanges.any fun (low, high) => low ≤ c.toNat && c.toNat ≤ high

/-- How one character is shown. A tab takes four columns, a joiner none, and what
    sets the direction of a text is replaced. -/
def visibleChar (c : Char) : List Char :=
  if c = '\n' then [c]
  else if c = '\t' then List.replicate 4 ' '
  else if c.toNat < 0x20 then [.ofNat (0x2400 + c.toNat)]
  else if c = '\x7f' then ['\u2421']
  else if c = '\u200d' then []
  else if isDirection c then ['\ufffd']
  else [c]

/-- How a text is shown. -/
def visible (text : List Char) : List Char := text.flatMap visibleChar

/-- How many columns a text takes. -/
def width (text : List Char) : Nat := (visible text).length

/-- How many columns the blank characters before a text take. A text of blank
    characters only has none before it. -/
def indentation (text : List Char) : Nat :=
  if text.all isBlank then 0 else width (text.takeWhile isBlank)

end SetGrammar.Text
