/-!
# Quantifiers

How often an element repeats.
-/
namespace SetGrammar

/-- The suffix of an element: none, `?`, `*` or `+`. -/
inductive Quantifier where
  | once
  | optional
  | star
  | plus
deriving DecidableEq, Repr, Inhabited

namespace Quantifier

/-- The quantifier that a suffix character stands for. -/
def ofSuffix? : Char → Option Quantifier
  | '?' => some .optional
  | '*' => some .star
  | '+' => some .plus
  | _ => none

/-- How the quantifier is written after an element. -/
def suffix : Quantifier → String
  | once => ""
  | optional => "?"
  | star => "*"
  | plus => "+"

/-- The name of the quantifier in an export. -/
def name : Quantifier → String
  | once => "none"
  | optional => "optional"
  | star => "star"
  | plus => "plus"

/-- Whether no match at all is enough. -/
def allowsNone : Quantifier → Bool
  | optional | star => true
  | once | plus => false

/-- Whether matching goes on after a first match. -/
def repeats : Quantifier → Bool
  | star | plus => true
  | once | optional => false

/-- The least number of matches. -/
def least : Quantifier → Nat
  | optional | star => 0
  | once | plus => 1

/-- The greatest number of matches, if there is one. -/
def greatest? : Quantifier → Option Nat
  | once | optional => some 1
  | star | plus => none

end Quantifier

end SetGrammar
