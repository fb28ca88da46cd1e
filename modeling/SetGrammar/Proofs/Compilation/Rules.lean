import SetGrammar.Proofs.Compilation.KeptBranches
import SetGrammar.Proofs.Grammar.Inlining

/-!
# Compiled rules

The rules of a compiled grammar are those of the grammar in the same order, each
compiled on its own. Under plain options a call of a rule with an entry in the
inline table tests the characters of the entry.
-/
namespace SetGrammar

namespace Grammar

variable {g : Grammar} {options : CompileOptions}

/-- A rule as a compilation of the grammar has it. -/
def compiledRule (g : Grammar) (options : CompileOptions) (r : Rule) : CompiledRule :=
  (CompileContext.compileRule ⟨g, options, r⟩ (g.inlineTable options).value).value

/-- The alternatives of a rule after references are replaced. -/
def resolved (g : Grammar) (options : CompileOptions) (r : Rule) : List Element :=
  Element.replaceReferencesInAll (g.replacement? (g.inlineTable options).value r.kind)
    r.body.alternatives

/-- The body of a rule as it is compiled. -/
def compiledBody (g : Grammar) (options : CompileOptions) (r : Rule) : Reported CompiledBlock :=
  let c : CompileContext := ⟨g, options, r⟩
  c.block r.body.marks (g.resolved options r) (c.branches r.body.marks.span (g.resolved options r))

theorem compiledRule_name {r : Rule} : (g.compiledRule options r).name = r.name := rfl

theorem compiledRule_tokenType {r : Rule} :
    (g.compiledRule options r).tokenType = r.tokenType := rfl

theorem compiledRule_command {r : Rule} : (g.compiledRule options r).command = r.command := rfl

theorem compiledRule_isTokenRule {r : Rule} :
    (g.compiledRule options r).isTokenRule = (r.kind == .lexer && !r.isFragment) := rfl

theorem compiledRule_body (g : Grammar) (options : CompileOptions) (r : Rule) :
    (g.compiledRule options r).body = (g.compiledBody options r).value := rfl

theorem compiledRule_eq {r : Rule} : g.compiledRule options r =
    ⟨r.name, r.kind, r.isFragment, r.command, r.tokenType, (g.compiledBody options r).value⟩ := rfl

theorem compileRules_value {table : InlineTable} {rules : List Rule} :
    (compileRules g options table rules).value =
      rules.map fun r => (CompileContext.compileRule ⟨g, options, r⟩ table).value := by
  induction rules with
  | nil => rfl
  | cons r rest ih => simp [compileRules, ih]

theorem compileRules_clean {table : InlineTable} {rules : List Rule}
    (clean : (compileRules g options table rules).Clean) :
    ∀ r ∈ rules, (CompileContext.compileRule ⟨g, options, r⟩ table).Clean := by
  induction rules with
  | nil => exact nofun
  | cons r rest ih =>
    obtain ⟨first, others⟩ := Reported.clean_bind.1 clean
    intro other member
    rcases List.mem_cons.1 member with rfl | member
    · exact first
    · exact ih (Reported.clean_bind.1 others).1 other member

theorem compile_rules :
    (g.compile options).value.rules = g.rules.map (g.compiledRule options) := compileRules_value

theorem compile_rule? {name : String} :
    (g.compile options).value.rule? name = (g.rule? name).map (g.compiledRule options) := by
  have names : ((·.name == name) : CompiledRule → Bool) ∘ g.compiledRule options =
      (·.name == name) := by
    funext r
    rw [Function.comp_apply, compiledRule_name]
  rw [CompiledGrammar.rule?, compile_rules, List.find?_map, names, rule?]

theorem compiledBody_clean (clean : (g.compile options).Clean) {r : Rule} (member : r ∈ g.rules) :
    (g.compiledBody options r).Clean := by
  obtain ⟨-, clean⟩ := Reported.clean_bind.1 clean
  obtain ⟨clean, -⟩ := Reported.clean_bind.1 clean
  exact (Reported.clean_bind.1 (compileRules_clean clean r member)).1

theorem compileStrict_eq_ok {compiled : CompiledGrammar}
    (made : g.compileStrict options = .ok compiled) :
    (g.compile options).Clean ∧ compiled = (g.compile options).value := by
  simp only [compileStrict] at made
  split at made
  · cases made
  · rename_i calm
    refine ⟨fun d member => ?_, (Except.ok.inj made).symm⟩
    rw [Bool.eq_false_iff]
    exact fun error => calm (List.any_eq_true.2 ⟨d, member, error⟩)

theorem compileStrict_of_clean (clean : (g.compile options).Clean) :
    g.compileStrict options = .ok (g.compile options).value := by
  have calm : (g.compile options).diagnostics.any Diagnostic.isError = false :=
    List.any_eq_false.2 fun d member => by simp [clean d member]
  simp [compileStrict, calm]

theorem compileStrict_of_nil (silent : (g.compile options).diagnostics = []) :
    g.compileStrict options = .ok (g.compile options).value :=
  compileStrict_of_clean (by simp [Reported.Clean, silent])

theorem resolved_plain_of_lexer {r : Rule} (lexer : r.kind = .lexer) :
    g.resolved .plain r = r.body.alternatives := by
  rw [resolved, lexer]
  exact Element.replaceReferencesInAll_none r.body.alternatives

end Grammar

theorem SetTest.admits_iff_admissible {t : SetTest} {s : Nat} :
    t.admits (some s) ↔ t.domain.contains s ∧ t.admissible.contains s := by
  rw [SetTest.admits_some, admissible]
  cases t.negated with
  | false => simp
  | true => simp [SymbolSet.contains_complement]

namespace Grammar

variable {g : Grammar}

/-- Under plain options a call of a rule with an entry tests the entry's
    characters, by the derivation of the entry. -/
theorem Inlined.tests (clean : (g.compile .plain).Clean) {name : String} {set : SymbolSet}
    (inlined : g.Inlined name set) :
    (g.compile .plain).value.Tests (.call name) fun s =>
      Domain.lexer.contains s ∧ set.contains s := by
  induction inlined with
  | @intro name r set sets found inlinable _ formed ih =>
    simp only [Rule.isInlinable, Rule.isLexer, Bool.and_eq_true, beq_iff_eq] at inlinable
    obtain ⟨⟨lexer, -⟩, grouping⟩ := inlinable
    obtain ⟨once, unlabelled⟩ := BlockMarks.isPlain_iff.1 grouping
    have domain : g.domain r.kind = .lexer := by rw [lexer]; rfl
    unfold formedSet? at formed
    split at formed
    · rename_i choice verdict
      rw [Verdict.ofAlternatives, Element.surveyAll_replaceExposed] at verdict
      obtain ⟨named, made, -⟩ := (Element.surveyAll_sound _).test_ok verdict
      rw [made] at formed
      cases formed
      have compiled := compiledBody_clean clean (rule?_eq_some found).1
      have value := compiledRule_body g .plain r
      simp only [compiledBody, resolved_plain_of_lexer lexer] at compiled value
      have calls : (g.compile .plain).value.CallsTest (g.domain r.kind) sets := by
        rw [domain]
        exact ih
      rw [← domain] at verdict made
      obtain ⟨quantifier, label, tests⟩ := CompileContext.block_tests (c := ⟨g, .plain, r⟩) rfl calls
        compiled value.symm verdict made
      have body : (g.compile .plain).value.Tests (.ofBlock (g.compiledRule .plain r).body) fun s =>
          SetTest.admits ⟨named, choice.negated, g.domain r.kind⟩ (some s) = true := by
        rw [Part.ofBlock_eq, quantifier, once, label, unlabelled]
        exact (tests true).once
      have called : (g.compile .plain).value.rule? name = some (g.compiledRule .plain r) := by
        rw [compile_rule?, found]
        rfl
      rw [domain] at body
      exact (CompiledGrammar.Tests.call called body).congr fun s => SetTest.admits_iff_admissible
    · cases formed

end Grammar

end SetGrammar
