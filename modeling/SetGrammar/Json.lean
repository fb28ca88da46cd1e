/-!
# JSON text

Values of the JSON format and their text on several lines: two spaces for each
level, one member on a line, and nothing between the brackets of an empty value.
-/
namespace SetGrammar

/-- A JSON value with natural numbers. Members of an object are in order. -/
inductive JsonValue where
  | null
  | bool (value : Bool)
  | number (value : Nat)
  | string (value : String)
  | array (items : List JsonValue)
  | object (members : List (String × JsonValue))

namespace JsonValue

/-- A hexadecimal digit in lower case. -/
def hexDigit (n : Nat) : Char := Nat.digitChar (n % 16)

/-- A character inside a string. Control characters below the blank, the quote
    and the backslash are escaped, with a letter where there is one. -/
def escapeChar (c : Char) : List Char :=
  match c with
  | '"' => ['\\', '"']
  | '\\' => ['\\', '\\']
  | '\n' => ['\\', 'n']
  | '\r' => ['\\', 'r']
  | '\t' => ['\\', 't']
  | _ =>
    if c.toNat = 8 then ['\\', 'b']
    else if c.toNat = 12 then ['\\', 'f']
    else if c.toNat < 32 then
      ['\\', 'u', '0', '0', hexDigit (c.toNat / 16), hexDigit c.toNat]
    else [c]

/-- A string in quotes. -/
def quote (text : String) : List Char := '"' :: text.toList.flatMap escapeChar ++ ['"']

/-- The start of a line at a level. -/
def newLine (level : Nat) : List Char := '\n' :: List.replicate (2 * level) ' '

/-- A comma unless nothing follows. -/
def comma {α : Type} : List α → List Char
  | [] => []
  | _ :: _ => [',']

mutual

/-- The text of a value that stands at a level. -/
def characters (level : Nat) : JsonValue → List Char
  | null => "null".toList
  | bool value => (if value then "true" else "false").toList
  | number value => Nat.toDigits 10 value
  | string value => quote value
  | array [] => "[]".toList
  | array items => '[' :: itemCharacters (level + 1) items ++ newLine level ++ [']']
  | object [] => "\x7b\x7d".toList
  | object members =>
    '\x7b' :: memberCharacters (level + 1) members ++ newLine level ++ ['\x7d']
termination_by structural x => x

/-- The items of an array on lines of their own. -/
def itemCharacters (level : Nat) : List JsonValue → List Char
  | [] => []
  | item :: rest =>
    newLine level ++ item.characters level ++ comma rest ++ itemCharacters level rest
termination_by structural x => x

/-- The members of an object on lines of their own. -/
def memberCharacters (level : Nat) : List (String × JsonValue) → List Char
  | [] => []
  | member :: rest =>
    newLine level ++ memberText level member ++ comma rest ++ memberCharacters level rest
termination_by structural x => x

/-- A member with its name. -/
def memberText (level : Nat) : String × JsonValue → List Char
  | (name, value) => quote name ++ [':', ' '] ++ value.characters level
termination_by structural x => x

end

/-- The text of a value. -/
def pretty (value : JsonValue) : String := .ofList (value.characters 0)

/-- An optional string, null if it is absent. -/
def ofString? : Option String → JsonValue
  | some text => string text
  | none => null

/-- An optional number, null if it is absent. -/
def ofNat? : Option Nat → JsonValue
  | some n => number n
  | none => null

end JsonValue

end SetGrammar
