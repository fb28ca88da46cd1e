import SetGrammar.Input.Token

/-!
# Inputs

Lexer rules read the characters of a text, parser rules read tokens. Both are
sequences of symbols with an end.
-/
namespace SetGrammar

/-- Tokens and the end token after them. -/
structure TokenStream where
  tokens : Array Token
  last : Token

namespace TokenStream

/-- The end token after given tokens. It directly follows the last one. -/
def endAfter (tokens : List Token) : Token :=
  match tokens.getLast? with
  | some t => .endOfInput ⟨t.position.line, t.position.column + t.text.length⟩ t.stop
  | none => .endOfInput .origin 0

/-- The stream of given tokens. An end token is added unless there is one at the
    end. -/
def ofList (tokens : List Token) : TokenStream :=
  match tokens.getLast? with
  | some t => if t.isEnd then ⟨tokens.dropLast.toArray, t⟩ else ⟨tokens.toArray, endAfter tokens⟩
  | none => ⟨#[], endAfter []⟩

/-- All tokens, the end token included. -/
def toList (s : TokenStream) : List Token := s.tokens.toList ++ [s.last]

/-- The token at an index. Past the end this is the end token. -/
def token (s : TokenStream) (i : Nat) : Token := s.tokens[i]?.getD s.last

end TokenStream

/-- What a recognizer reads. -/
inductive Input where
  | characters (text : Array Char)
  | tokens (stream : TokenStream)

namespace Input

/-- The characters of a text as an input. -/
def ofText (text : String) : Input := .characters text.toList.toArray

/-- The index of the end. -/
def endIndex : Input → Nat
  | characters text => text.size
  | tokens stream => stream.tokens.size

/-- The symbol at an index, none at the end. Any end token is an end. -/
def symbol? (input : Input) (i : Nat) : Option Nat :=
  match input with
  | characters text => text[i]?.map Char.toNat
  | tokens stream =>
    let t := stream.token i
    if t.isEnd then none else some t.type

/-- What a label binds for the symbol at an index. -/
def value (input : Input) (i : Nat) : Capture :=
  match input with
  | characters text => (text[i]?.map Capture.char).getD (.text "")
  | tokens stream => .token (stream.token i)

/-- The text of the symbols from one index to before another. -/
def text (input : Input) (start stop : Nat) : String :=
  match input with
  | characters text => .ofList (text.extract start stop).toList
  | tokens stream =>
    let between := (stream.tokens.extract start stop).toList
    String.join ((between.filter (!·.isEnd)).map (·.text))

/-- How messages show the symbol at an index. -/
def shown (input : Input) (i : Nat) : String :=
  match input with
  | characters text => (text[i]?.map fun c => String.ofList (Text.escapeChar c)).getD endText
  | tokens stream => (stream.token i).shown

/-- The position of the symbol at an index. -/
def position (input : Input) (i : Nat) : Position :=
  match input with
  | characters text => Position.origin.afterAll (text.toList.take i)
  | tokens stream => (stream.token i).position

/-- The index after the symbol at an index. The end is never passed. -/
def next (input : Input) (i : Nat) : Nat := if (input.symbol? i).isSome then i + 1 else i

/-- An index that is not past the end. -/
def clampIndex (input : Input) (i : Nat) : Nat := min i input.endIndex

end Input

end SetGrammar
