import SetGrammar.Compilation.Context
import SetGrammar.Compilation.Reported
import SetGrammar.Compiled

/-!
# Compiling blocks

A block whose alternatives form one set becomes one transition. Any other block
keeps its branches in order, without the alternatives that are rejected. Every
rejection is reported, and a block with one never becomes a set.
-/
namespace SetGrammar.CompileContext

/-- Whether a block becomes a set. Negated sets have no form with branches and
    stay sets whatever the options say. -/
def verdict (c : CompileContext) (alternatives : List Element) : Verdict :=
  match rejectionReason? (alternatives.filterMap c.rejection?) with
  | some reason => .branches reason
  | none =>
    match Verdict.ofAlternatives alternatives c.domain with
    | .set choice =>
      if c.options.formSets || choice.negated then .set choice else .branches .disabled
    | .branches reason => .branches reason

/-- A block with the given branches. -/
def keepBranches (c : CompileContext) (marks : BlockMarks) (reason : BranchReason)
    (branches : Reported (List CompiledSequence)) : Reported CompiledBlock := do
  .report (c.misplacedLabel marks reason)
  let label := if reason = .disabled then marks.label else none
  return .branches (← branches) marks.quantifier label reason

/-- A block, as a set if it can be and else with the given branches. -/
def block (c : CompileContext) (marks : BlockMarks) (alternatives : List Element)
    (branches : Reported (List CompiledSequence)) : Reported CompiledBlock := do
  .report ((alternatives.filterMap c.rejection?).map (c.rejectionDiagnostic marks.span))
  match c.verdict alternatives with
  | .branches reason => c.keepBranches marks reason branches
  | .set choice =>
    match choice.transition marks.quantifier marks.label c.domain with
    | .ok transition => do
      .report (c.emptyComplement marks.span transition.toSetTest)
      return .set transition
    | .error rejection => do
      .report [c.rejectionDiagnostic marks.span rejection]
      c.keepBranches marks rejection.reason branches

/-- A literal, a class or a negation. -/
def symbol (c : CompileContext) (span : Span) (element : Element) :
    Reported (Option CompiledElement) :=
  match element.test c.domain with
  | .ok test => do
    .report (c.emptyComplement span test)
    return some (.set (.ofTest test))
  | .error rejection => do
    .report [c.rejectionDiagnostic span rejection]
    return none

mutual

/-- A part of an alternative in a block at `span`. A sequence among the items of
    another becomes a block with one branch. -/
def element (c : CompileContext) (span : Span) : Element → Reported (Option CompiledElement)
  | .reference name => return some (.call name)
  | .block marks alternatives => do
    return some (.block (← c.block marks alternatives (branches c marks.span alternatives)))
  | .sequence items => do
    return some (.block (.branches [← c.items span items] .once none .multiSymbol))
  | other => c.symbol span other
termination_by structural x => x

/-- The items of a sequence in order. -/
def items (c : CompileContext) (span : Span) : List Element → Reported CompiledSequence
  | [] => return []
  | item :: rest => do
    let first ← c.element span item
    return first.toList ++ (← c.items span rest)
termination_by structural x => x

/-- The accepted ones among alternatives, in order. -/
def branches (c : CompileContext) (span : Span) : List Element → Reported (List CompiledSequence)
  | [] => return []
  | alternative :: rest =>
    if c.accepts alternative then do
      let first ← match alternative with
        | .sequence items => c.items span items
        | other => Option.toList <$> c.element span other
      return first :: (← c.branches span rest)
    else c.branches span rest
termination_by structural x => x

end

end SetGrammar.CompileContext
