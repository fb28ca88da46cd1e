import SetGrammar.Grammar.Element

/-!
# References in elements

The references of an element are exposed where one symbol can stand for the
whole alternative: at the element itself, in the operand of a negation and in
plain blocks. Those in sequences and in marked blocks are not.
-/
namespace SetGrammar.Element

mutual

/-- The exposed references of an element in order. -/
def exposedReferences : Element → List String
  | reference name => [name]
  | negated operand => operand.exposedReferences
  | block marks alternatives => if marks.isPlain then exposedReferencesOfAll alternatives else []
  | literal _ | charClass _ | sequence _ => []

/-- The exposed references of several elements in order. -/
def exposedReferencesOfAll : List Element → List String
  | [] => []
  | element :: rest => element.exposedReferences ++ exposedReferencesOfAll rest

end

mutual

/-- Replaces the exposed references that have a replacement. -/
def replaceExposed (replacement : String → Option Element) : Element → Element
  | reference name => (replacement name).getD (reference name)
  | negated operand => negated (operand.replaceExposed replacement)
  | block marks alternatives =>
    if marks.isPlain then block marks (replaceExposedInAll replacement alternatives)
    else block marks alternatives
  | element => element

/-- Replaces the exposed references of several elements. -/
def replaceExposedInAll (replacement : String → Option Element) : List Element → List Element
  | [] => []
  | element :: rest =>
    element.replaceExposed replacement :: replaceExposedInAll replacement rest

end

mutual

/-- Replaces all references that have a replacement. -/
def replaceReferences (replacement : String → Option Element) : Element → Element
  | reference name => (replacement name).getD (reference name)
  | negated operand => negated (operand.replaceReferences replacement)
  | block marks alternatives => block marks (replaceReferencesInAll replacement alternatives)
  | sequence items => sequence (replaceReferencesInAll replacement items)
  | element => element

/-- Replaces all references of several elements. -/
def replaceReferencesInAll (replacement : String → Option Element) :
    List Element → List Element
  | [] => []
  | element :: rest =>
    element.replaceReferences replacement :: replaceReferencesInAll replacement rest

end

end SetGrammar.Element
