import SetGrammar.Analysis.Source

/-!
# Which alternatives form one set

A list of alternatives forms one set when each is one symbol and either none or
all of them are negated. Plain nested blocks only group. The verdict looks at
the alternatives and the domain alone, and their order plays no part in it.
-/
namespace SetGrammar

/-- Why a block keeps its branches. An earlier reason takes precedence. -/
inductive BranchReason where
  | invalidNegation
  | inconsistentDomain
  /-- An alternative that matches no or several symbols. -/
  | multiSymbol
  | ruleReference
  /-- A block with a quantifier or a label. -/
  | nestedBlock
  /-- Some alternatives are negated and some are not. -/
  | mixedNegation
  /-- There is no alternative. -/
  | empty
  /-- The options ask for branches. -/
  | disabled
deriving DecidableEq, Repr

namespace BranchReason

/-- The reason in words. -/
def description : BranchReason → String
  | invalidNegation => "invalid negation"
  | inconsistentDomain => "inconsistent domain"
  | multiSymbol => "multi-symbol alternative"
  | ruleReference => "rule reference"
  | nestedBlock => "nested block"
  | mixedNegation => "mixed negation"
  | empty => "no alternatives"
  | disabled => "collapsing disabled"

/-- The name of the reason in an export. -/
def name : BranchReason → String
  | invalidNegation => "invalid_negation"
  | inconsistentDomain => "inconsistent_domain"
  | multiSymbol => "multi_symbol"
  | ruleReference => "rule_reference"
  | nestedBlock => "nested_block"
  | mixedNegation => "mixed_negation"
  | empty => "empty"
  | disabled => "disabled"

/-- The place of a reason in the order of precedence. -/
def rank (reason : BranchReason) : Nat := reason.ctorIdx

/-- The reason that takes precedence over the other. -/
def first (a b : BranchReason) : BranchReason := if a.rank ≤ b.rank then a else b

/-- The reason that takes precedence among those given. -/
def first? : Option BranchReason → Option BranchReason → Option BranchReason
  | some a, some b => some (first a b)
  | some a, none => some a
  | none, b => b

end BranchReason

/-- The reason for which a block with a rejected alternative keeps its
    branches. -/
def Rejection.reason : Rejection → BranchReason
  | .invalidNegationTarget _ => .invalidNegation
  | .undefinedRule _ | .noTokenType _ => .ruleReference
  | .outOfDomain _ | .classOutsideLexer _ | .crossDomainReference _ _ => .inconsistentDomain

/-- Alternatives that form one set. -/
structure SetChoice where
  /-- What the alternatives name, in order. -/
  sources : List SymbolSource
  /-- Every alternative is a negation. -/
  negated : Bool
deriving DecidableEq, Repr

/-- What became of a list of alternatives. -/
inductive Verdict where
  | set (choice : SetChoice)
  | branches (reason : BranchReason)
deriving DecidableEq, Repr

/-- What was seen while looking through alternatives. -/
structure Survey where
  /-- The sources outside negations, in order. -/
  positive : List SymbolSource
  /-- The sources inside negations, in order. -/
  negative : List SymbolSource
  /-- Some alternative is not negated. -/
  anyPositive : Bool
  /-- Some alternative is negated. -/
  anyNegative : Bool
  /-- The foremost reason against one set. -/
  reason : Option BranchReason
deriving DecidableEq, Repr

namespace Survey

/-- Nothing was seen. -/
def empty : Survey := ⟨[], [], false, false, none⟩

/-- One survey after the other. -/
def append (a b : Survey) : Survey where
  positive := a.positive ++ b.positive
  negative := a.negative ++ b.negative
  anyPositive := a.anyPositive || b.anyPositive
  anyNegative := a.anyNegative || b.anyNegative
  reason := BranchReason.first? a.reason b.reason

instance : Append Survey := ⟨append⟩

/-- An alternative speaks against one set. -/
def against (reason : BranchReason) : Survey := { empty with reason := some reason }

/-- A literal or a class. -/
def ofSource : Except Rejection SymbolSource → Survey
  | .ok source => { empty with positive := [source], anyPositive := true }
  | .error rejection => against rejection.reason

/-- A negation with the sources of its operand. -/
def ofNegation : Except Rejection (List SymbolSource) → Survey
  | .ok sources => { empty with negative := sources, anyNegative := true }
  | .error rejection => against rejection.reason

/-- What the survey of a whole list decides. -/
def verdict (s : Survey) : Verdict :=
  match s.reason, s.anyPositive, s.anyNegative with
  | some reason, _, _ => .branches reason
  | none, false, false => .branches .empty
  | none, true, false => .set ⟨s.positive, false⟩
  | none, false, true => .set ⟨s.negative, true⟩
  | none, true, true => .branches .mixedNegation

end Survey

namespace Element

mutual

/-- What an alternative shows. A plain block shows what its alternatives show. -/
def survey (d : Domain) : Element → Survey
  | block marks alternatives =>
    if marks.isPlain then surveyAll d alternatives else .against .nestedBlock
  | sequence _ => .against .multiSymbol
  | reference _ => .against .ruleReference
  | negated operand => .ofNegation (operand.negatedSources d)
  | element => .ofSource (element.source d)

/-- What several alternatives show in order. -/
def surveyAll (d : Domain) : List Element → Survey
  | [] => .empty
  | element :: rest => survey d element ++ surveyAll d rest

end

end Element

/-- Whether alternatives form one set over a domain. -/
def Verdict.ofAlternatives (alternatives : List Element) (d : Domain) : Verdict :=
  (Element.surveyAll d alternatives).verdict

end SetGrammar
