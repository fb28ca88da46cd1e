import SetGrammar.Compiled

/-!
# Compiled grammars as text

One rule on a line. Sets are shown as sets and blocks with branches in grammar
notation, followed by the reason for the branches.
-/
namespace SetGrammar

/-- A label in front of what it binds. -/
def labelled (label : Option String) (text : String) : String :=
  match label with
  | some label => label ++ "=" ++ text
  | none => text

namespace Transition

/-- A transition with its label, negation and quantifier. -/
def render (t : Transition) (kind : RuleKind) (vocabulary : Vocabulary) : String :=
  let set := t.named.render kind (some vocabulary) ++ t.quantifier.suffix
  labelled t.label (if t.negated then "~" ++ set else set)

end Transition

/-- The parts of an alternative on a line. -/
def joinSequence (parts : List String) : String :=
  if parts.isEmpty then "ε" else " ".intercalate parts

/-- Alternatives on a line. -/
def joinAlternatives (alternatives : List String) : String := " | ".intercalate alternatives

mutual

/-- A block. Branches stand in parentheses. -/
def CompiledBlock.render (kind : RuleKind) (vocabulary : Vocabulary) : CompiledBlock → String
  | .set transition => transition.render kind vocabulary
  | .branches alternatives quantifier label _ =>
    let branches := joinAlternatives (renderAlternatives kind vocabulary alternatives)
    labelled label ("(" ++ branches ++ ")" ++ quantifier.suffix)
termination_by structural x => x

/-- A part of an alternative. -/
def CompiledElement.render (kind : RuleKind) (vocabulary : Vocabulary) : CompiledElement → String
  | .set transition => transition.render kind vocabulary
  | .call rule => rule
  | .block block => block.render kind vocabulary
termination_by structural x => x

/-- The parts of an alternative. -/
def renderSequence (kind : RuleKind) (vocabulary : Vocabulary) : List CompiledElement → List String
  | [] => []
  | element :: rest => element.render kind vocabulary :: renderSequence kind vocabulary rest
termination_by structural x => x

/-- Alternatives one by one. -/
def renderAlternatives (kind : RuleKind) (vocabulary : Vocabulary) :
    List (List CompiledElement) → List String
  | [] => []
  | sequence :: rest =>
    joinSequence (renderSequence kind vocabulary sequence)
      :: renderAlternatives kind vocabulary rest
termination_by structural x => x

end

/-- The body of a rule. Branches without label and quantifier need no
    parentheses here. -/
def CompiledBlock.renderBody (kind : RuleKind) (vocabulary : Vocabulary) :
    CompiledBlock → String
  | .branches alternatives .once none _ =>
    joinAlternatives (renderAlternatives kind vocabulary alternatives)
  | body => body.render kind vocabulary

/-- A rule on a line. -/
def CompiledRule.render (vocabulary : Vocabulary) (r : CompiledRule) : String :=
  let fragment := if r.isFragment then "fragment " else ""
  let command := match r.command with
    | some .skip => " -> skip"
    | none => ""
  let reason := match r.body.reason? with
    | some reason => "  // fallback: " ++ reason.description
    | none => ""
  fragment ++ r.name ++ " : " ++ r.body.renderBody r.kind vocabulary ++ command ++ reason ++ "\n"

/-- All rules in order. -/
def CompiledGrammar.render (g : CompiledGrammar) : String :=
  String.join (g.rules.map (CompiledRule.render g.vocabulary))

end SetGrammar
