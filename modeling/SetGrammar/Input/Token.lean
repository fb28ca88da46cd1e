import SetGrammar.Input.Position
import SetGrammar.Text.Escape

/-!
# Tokens and bindings

A token is a piece of the input with a type. Labels of a rule bind characters,
tokens or texts. A token keeps what was bound while it was read.
-/
namespace SetGrammar

mutual

/-- A piece of the input. -/
structure Token where
  type : Nat
  text : String
  position : Position
  /-- The index of the first character. -/
  start : Nat
  /-- The index after the last character. -/
  stop : Nat
  bindings : List Binding

/-- What a label of a rule stands for. -/
structure Binding where
  rule : String
  label : String
  value : Capture

/-- What a label can stand for. -/
inductive Capture where
  | char (c : Char)
  | token (t : Token)
  | text (s : String)

end

/-- The type of the token at the end of the input. No domain contains it. -/
def endType : Nat := 0

/-- How the end of the input is shown. -/
def endText : String := "<EOF>"

namespace Token

/-- The token at the end of an input. -/
def endOfInput (position : Position) (offset : Nat) : Token :=
  ⟨endType, "", position, offset, offset, []⟩

/-- Whether a token stands for the end of the input. -/
def isEnd (t : Token) : Bool := t.type == endType

/-- How messages show a token. -/
def shown (t : Token) : String := if t.isEnd then endText else Text.escape t.text

end Token

namespace Capture

/-- The text that was bound. -/
def content : Capture → String
  | char c => .singleton c
  | token t => t.text
  | text s => s

/-- How messages show a value. -/
def shown : Capture → String
  | token t => t.shown
  | value => Text.escape value.content

end Capture

/-- A binding with its rule and label. -/
def Binding.render (b : Binding) : String := b.rule ++ "." ++ b.label ++ " = " ++ b.value.shown

end SetGrammar
