/-!
# Lines of a text

A line ends before a line feed or at the end of the text.
-/
namespace SetGrammar.Text

/-- The lines of a text, an empty one after a final line feed included. -/
def lines : List Char → List (List Char)
  | [] => [[]]
  | c :: rest =>
    if c = '\n' then [] :: lines rest
    else
      match lines rest with
      | [] => [[c]]
      | line :: more => (c :: line) :: more

end SetGrammar.Text
