import SetGrammar.Compilation.Block
import SetGrammar.Grammar.Inlining

/-!
# Compiling grammars

Every rule is compiled on its own, after the references that a set or a token
type can stand for are replaced. Compilation always has a result. The strict
form refuses a grammar about which an error was reported.
-/
namespace SetGrammar

/-- A rule with replaced references, compiled. -/
def CompileContext.compileRule (c : CompileContext) (table : InlineTable) :
    Reported CompiledRule := do
  let r := c.rule
  let body := r.body.resolve r.kind c.grammar table
  let branches := c.branches body.marks.span body.alternatives
  return {
    name := r.name
    kind := r.kind
    isFragment := r.isFragment
    command := r.command
    tokenType := r.tokenType
    body := ← c.block body.marks body.alternatives branches }

/-- Compiles rules in order. -/
def compileRules (g : Grammar) (options : CompileOptions) (table : InlineTable) :
    List Rule → Reported (List CompiledRule)
  | [] => return []
  | r :: rest => do
    let first ← CompileContext.compileRule ⟨g, options, r⟩ table
    return first :: (← compileRules g options table rest)

namespace Grammar

/-- The rules that a compilation inlines, with the cycles met in looking for
    them. -/
def inlineTable (g : Grammar) (options : CompileOptions) : Reported InlineTable :=
  if options.inlineRules then
    let (table, cycles) := InlineTable.build g
    ⟨table, cycles⟩
  else return .empty

/-- Compiles what can be compiled and reports the rest. -/
def compile (g : Grammar) (options : CompileOptions) : Reported CompiledGrammar := do
  let table ← g.inlineTable options
  return {
    name := g.name
    lexerDomain := g.domain .lexer
    parserDomain := g.domain .parser
    vocabulary := g.vocabulary
    rules := ← compileRules g options table g.rules }

/-- Compiles a grammar, or returns the findings if one is an error. -/
def compileStrict (g : Grammar) (options : CompileOptions) :
    Except (List Diagnostic) CompiledGrammar :=
  let compiled := g.compile options
  if compiled.diagnostics.any Diagnostic.isError then .error compiled.diagnostics
  else .ok compiled.value

end Grammar

/-- The wording of a refused compilation. -/
def compileFailure (found : List Diagnostic) : String :=
  s!"grammar compilation failed with {errorCount found} errors"

end SetGrammar
