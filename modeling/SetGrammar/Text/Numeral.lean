/-!
# Decimal numerals

Reading a natural number below a limit. A numeral is an optional plus sign and
at least one ASCII digit. Leading zeros are allowed.
-/
namespace SetGrammar.Text

/-- The value of an ASCII digit. -/
def digitValue? (c : Char) : Option Nat :=
  if '0' ≤ c ∧ c ≤ '9' then some (c.toNat - '0'.toNat) else none

/-- Continues a number with more digits. Every character has to be a digit. -/
def readDigits (number : Nat) : List Char → Option Nat
  | [] => some number
  | c :: rest => do
    let digit ← digitValue? c
    readDigits (10 * number + digit) rest

/-- The number that a numeral without a sign denotes. -/
def readUnsigned : List Char → Option Nat
  | [] => none
  | digits => readDigits 0 digits

/-- The number that a numeral denotes, if it is at most `limit`. -/
def readNumeral (limit : Nat) (text : List Char) : Option Nat :=
  (readUnsigned (match text with
    | '+' :: digits => digits
    | digits => digits)).filter (· ≤ limit)

end SetGrammar.Text
