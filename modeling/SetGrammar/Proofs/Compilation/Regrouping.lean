import Mathlib
import SetGrammar.Proofs.Compilation.Losses
import SetGrammar.Proofs.Grammar.Regrouping
import SetGrammar.Proofs.Recognition.Splicing

/-!
# Grouping of sequences

A sequence inside a sequence is compiled to a block that only groups, and the items
of the flat form are compiled in its place. So grammars that differ in the grouping
of sequences compile to the same rules once such blocks are dissolved, and their
lexer rules have the same runs.
-/
namespace SetGrammar

open Element (flatItems flatAll)

theorem splicedSequence_append (first rest : CompiledSequence) :
    splicedSequence (first ++ rest) = splicedSequence first ++ splicedSequence rest := by
  induction first with
  | nil => rfl
  | cons e more ih =>
    rw [List.cons_append, splicedSequence, splicedSequence, ih, List.append_assoc]

namespace CompileContext

variable {c : CompileContext} {span : Span}

/-- The surroundings in the flat form of the grammar. -/
def flat (c : CompileContext) : CompileContext := ⟨c.grammar.flat, c.options, c.rule.flat⟩

theorem domain_flat : c.flat.domain = c.domain := rfl

/-! ## Checks -/

theorem checkReference_flat (name : String) :
    c.flat.checkReference name = c.checkReference name := by
  simp only [checkReference, flat, Grammar.rule?_flat]
  cases c.grammar.rule? name <;> rfl

theorem checkReferencesOfAll_append (before after : List Element) :
    c.checkReferencesOfAll (before ++ after) = (do
      c.checkReferencesOfAll before
      c.checkReferencesOfAll after) := by
  induction before with
  | nil => rfl
  | cons e rest ih =>
    rw [List.cons_append, checkReferencesOfAll, checkReferencesOfAll, ih, bind_assoc]

theorem checkReferencesOfAll_items (e : Element) :
    c.checkReferencesOfAll e.items = c.checkReferences e := by
  cases e with
  | sequence items => rfl
  | literal | charClass | reference | negated | block => exact bind_pure _

mutual

theorem checkReferences_flat : (e : Element) → c.flat.checkReferences e.flat = c.checkReferences e
  | .literal _ | .charClass _ | .negated _ | .block _ _ => rfl
  | .reference name => checkReference_flat name
  | .sequence items => checkReferencesOfAll_flatItems items

theorem checkReferencesOfAll_flatItems : (items : List Element) →
    c.flat.checkReferencesOfAll (flatItems items) = c.checkReferencesOfAll items
  | [] => rfl
  | e :: rest => by
    rw [flatItems, checkReferencesOfAll_append, checkReferencesOfAll_items, checkReferencesOfAll,
      checkReferences_flat e, checkReferencesOfAll_flatItems rest]

end

theorem check_flat (e : Element) : c.flat.check e.flat = c.check e := by
  rw [check, check, domain_flat, Element.check_flat, checkReferences_flat]

theorem accepts_flat (e : Element) : c.flat.accepts e.flat = c.accepts e := by
  rw [accepts, accepts, check_flat]

theorem rejections_flatAll (alternatives : List Element) :
    (flatAll alternatives).filterMap c.flat.rejection? = alternatives.filterMap c.rejection? := by
  induction alternatives with
  | nil => rfl
  | cons e rest ih =>
    have same : c.flat.rejection? e.flat = c.rejection? e := by
      rw [rejection?, rejection?, check_flat]
    rw [flatAll, List.filterMap_cons, List.filterMap_cons, same, ih]

theorem verdict_flatAll (alternatives : List Element) :
    c.flat.verdict (flatAll alternatives) = c.verdict alternatives := by
  rw [verdict, verdict, rejections_flatAll, domain_flat, Element.ofAlternatives_flatAll]
  rfl

/-! ## Blocks -/

/-- A block of the flat form is the same, but for its branches. -/
theorem block_flat (marks : BlockMarks) (alternatives : List Element)
    {branches branches' : Reported (List CompiledSequence)}
    (same : splicedBranches branches'.value = splicedBranches branches.value) :
    (c.flat.block marks (flatAll alternatives) branches').value.spliced =
      (c.block marks alternatives branches).value.spliced := by
  have verdicts := verdict_flatAll (c := c) alternatives
  obtain ⟨choice, t, formed, tested, value, -⟩ | ⟨reason, kept, value, -⟩ :=
    c.block_outcome marks alternatives branches <;>
  obtain ⟨choice', t', formed', tested', value', -⟩ | ⟨reason', kept', value', -⟩ :=
    c.flat.block_outcome marks (flatAll alternatives) branches'
  · cases formed.symm.trans (verdicts.symm.trans formed')
    cases tested.symm.trans tested'
    rw [value, value']
  · cases formed.symm.trans (verdicts.symm.trans kept')
  · cases kept.symm.trans (verdicts.symm.trans formed')
  · cases kept.symm.trans (verdicts.symm.trans kept')
    rw [value, value', CompiledBlock.spliced, CompiledBlock.spliced, same]

theorem symbol_flat (e : Element) (symbol : e.isSymbol = true) :
    (c.flat.symbol span e.flat).value = (c.symbol span e).value := by
  have tests : e.flat.test c.flat.domain = e.test c.domain := by
    cases e with
    | literal | charClass => rfl
    | negated operand =>
      rw [domain_flat, Element.flat, Element.test, Element.test, Element.negatedSources_flat]
    | sequence | reference | block => cases symbol
  rw [CompileContext.symbol, CompileContext.symbol, tests]
  cases e.test c.domain <;> rfl

theorem items_append (before after : List Element) :
    (c.items span (before ++ after)).value =
      (c.items span before).value ++ (c.items span after).value := by
  induction before with
  | nil => rfl
  | cons e rest ih =>
    simp only [List.cons_append, items, Reported.value_bind, Reported.value_pure, ih,
      List.append_assoc]

/-- A sequence among items is a block that only groups. -/
theorem splicedSequence_element (e : Element) :
    splicedSequence (c.element span e).value.toList =
      splicedSequence (c.items span e.items).value := by
  cases e with
  | sequence items => exact List.append_nil _
  | literal | charClass | reference | negated | block =>
    exact congrArg splicedSequence (List.append_nil _).symm

theorem alternative_value (e : Element) :
    (c.alternative span e).value = (c.items span e.items).value := by
  cases e with
  | sequence items => rfl
  | literal | charClass | reference | negated | block => exact (List.append_nil _).symm

mutual

theorem element_flat (span : Span) : (e : Element) →
    splicedSequence (c.flat.element span e.flat).value.toList =
      splicedSequence (c.element span e).value.toList
  | .sequence items => by
    rw [splicedSequence_element, splicedSequence_element]
    exact items_flat span items
  | .reference _ => rfl
  | .literal s => congrArg (splicedSequence ·.toList) (symbol_flat (.literal s) rfl)
  | .charClass set => congrArg (splicedSequence ·.toList) (symbol_flat (.charClass set) rfl)
  | .negated operand => congrArg (splicedSequence ·.toList) (symbol_flat (.negated operand) rfl)
  | .block marks alternatives =>
    congrArg (fun b : CompiledBlock => (CompiledElement.block b).parts ++ [])
      (block_flat marks alternatives (branches_flat marks.span alternatives))

theorem items_flat (span : Span) : (items : List Element) →
    splicedSequence (c.flat.items span (flatItems items)).value =
      splicedSequence (c.items span items).value
  | [] => rfl
  | e :: rest => by
    have first := element_flat span e
    rw [splicedSequence_element] at first
    rw [flatItems, items_append, splicedSequence_append, first, items_flat span rest,
      ← splicedSequence_append]
    rfl

theorem branches_flat (span : Span) : (alternatives : List Element) →
    splicedBranches (c.flat.branches span (flatAll alternatives)).value =
      splicedBranches (c.branches span alternatives).value
  | [] => rfl
  | e :: rest => by
    by_cases accepted : c.accepts e
    · have first := element_flat span e
      rw [splicedSequence_element, splicedSequence_element] at first
      rw [flatAll, branches_cons accepted, branches_cons ((accepts_flat e).trans accepted)]
      simp only [Reported.value_bind, Reported.value_pure, splicedBranches, alternative_value,
        first, branches_flat span rest]
    · have rejected : ¬ c.flat.accepts e.flat := by rwa [accepts_flat]
      rw [flatAll, branches, branches, if_neg accepted, if_neg rejected, branches_flat span rest]

end

end CompileContext

namespace Grammar

variable {g : Grammar} {options : CompileOptions}

/-- The flat form of a rule is compiled to the same rule once the blocks that only
    group are dissolved. -/
theorem compiledRule_flat (r : Rule) :
    (g.flat.compiledRule options r.flat).spliced = (g.compiledRule options r).spliced := by
  have body : (g.flat.compiledBody options r.flat).value.spliced =
      (g.compiledBody options r).value.spliced := by
    rw [compiledBody, compiledBody, resolved_flat]
    exact CompileContext.block_flat (c := ⟨g, options, r⟩) r.body.marks _
      (CompileContext.branches_flat (c := ⟨g, options, r⟩) _ _)
  rw [compiledRule_eq, compiledRule_eq, CompiledRule.spliced, CompiledRule.spliced, body]
  rfl

theorem compile_flat :
    (g.flat.compile options).value.spliced = (g.compile options).value.spliced := by
  have rules : (g.flat.compile options).value.rules.map CompiledRule.spliced =
      (g.compile options).value.rules.map CompiledRule.spliced := by
    rw [compile_rules, compile_rules, List.map_map, List.map_map, flat, List.map_map]
    exact List.map_congr_left fun r _ => compiledRule_flat r
  have parts (g : Grammar) : (g.compile options).value.spliced =
      ⟨g.name, g.domain .lexer, g.domain .parser, g.vocabulary,
        (g.compile options).value.rules.map CompiledRule.spliced⟩ := rfl
  rw [parts, parts, rules]
  rfl

/-- How the items of sequences are grouped into sequences directly inside them has no
    effect on matching. In grammars that differ in nothing else, a lexer rule has the
    same run from every state, on every input and within every limits: the same result,
    the same index, bindings and events. -/
theorem rule_of_regrouped (g other : Grammar) (options : CompileOptions)
    (regrouped : other.flat = g.flat) {name : String} {r : Rule} (found : g.rule? name = some r)
    (lexer : r.kind = .lexer) :
    ∃ called counterpart, (g.compile options).value.rule? name = some called ∧
      (other.compile options).value.rule? name = some counterpart ∧
      called.kind = .lexer ∧ counterpart.kind = .lexer ∧
      ∀ input limits depth scope,
        Recognizer.rule ⟨(other.compile options).value, .lexer, input, limits⟩ depth scope
            counterpart =
          Recognizer.rule ⟨(g.compile options).value, .lexer, input, limits⟩ depth scope
            called := by
  have alike : (other.rule? name).map Rule.flat = some r.flat := by
    rw [← rule?_flat, regrouped, rule?_flat, found]
    rfl
  obtain ⟨r', found', flat⟩ := Option.map_eq_some_iff.1 alike
  have kinds : r'.flat.kind = r.flat.kind := congrArg Rule.kind flat
  refine ⟨g.compiledRule options r, other.compiledRule options r', ?_, ?_, lexer,
    kinds.trans lexer, fun input limits depth scope => ?_⟩
  · rw [compile_rule?, found]
    rfl
  · rw [compile_rule?, found']
    rfl
  · have grammars : (other.compile options).value.spliced = (g.compile options).value.spliced := by
      rw [← compile_flat, regrouped, compile_flat]
    have rules : (other.compiledRule options r').spliced = (g.compiledRule options r).spliced := by
      rw [← compiledRule_flat, regrouped, flat, compiledRule_flat]
    have run := Recognizer.rule_spliced (r := ⟨(g.compile options).value, .lexer, input, limits⟩)
      rfl depth scope (g.compiledRule options r)
    have run' := Recognizer.rule_spliced
      (r := ⟨(other.compile options).value, .lexer, input, limits⟩) rfl depth scope
      (other.compiledRule options r')
    rw [← run, ← run', rules]
    simp only [Recognizer.spliced, grammars]

/-- A rule with two sequences and the fragment `D : 'd' 'd' | 'd'`. -/
def withSequences (first second : List Element) : Grammar :=
  ((empty "Sequences").addToken "A" ⟨{}, [.sequence first, .sequence second]⟩).2.addFragment "D"
    ⟨{}, [.sequence [.char 'd', .char 'd'], .char 'd']⟩

/-- The run goes back from the first alternative and binds a label in the second,
    whether the items are grouped or not. -/
theorem rule_of_regrouped_nested :
    let set := Element.block { label := some "v" } [.char 'b', .char 'c']
    let g := withSequences [.char 'a', .char 'b', .char 'e'] [.char 'a', set, .reference "D"]
    let other := withSequences
      [.sequence [.char 'a', .sequence [.char 'b']], .sequence [], .char 'e']
      [.char 'a', .sequence [.sequence [], set, .sequence [.reference "D"]]]
    other.flat = g.flat ∧ ∃ called counterpart s,
      (g.compile {}).value.rule? "A" = some called ∧
      (other.compile {}).value.rule? "A" = some counterpart ∧
      Recognizer.start ⟨(other.compile {}).value, .lexer, .ofText "abdd", {}⟩ counterpart
        (.initial {}) = .ok true s ∧
      Recognizer.start ⟨(g.compile {}).value, .lexer, .ofText "abdd", {}⟩ called (.initial {}) =
        .ok true s ∧
      s.index = 4 ∧ s.bindings = [⟨"A", "v", .char 'b'⟩] := by
  intro set g other
  have regrouped : other.flat = g.flat := rfl
  obtain ⟨called, counterpart, found, found', -, -, same⟩ :=
    rule_of_regrouped g other {} regrouped (show g.rule? "A" = some _ from rfl) rfl
  have ran : ∃ called s, (g.compile {}).value.rule? "A" = some called ∧
      Recognizer.start ⟨(g.compile {}).value, .lexer, .ofText "abdd", {}⟩ called (.initial {}) =
        .ok true s ∧
      s.index = 4 ∧ s.bindings = [⟨"A", "v", .char 'b'⟩] :=
    ⟨_, _, rfl, by cbv, by cbv, by cbv⟩
  obtain ⟨target, s, found'', run, index, bindings⟩ := ran
  cases Option.some.inj (found.symm.trans found'')
  refine ⟨regrouped, called, counterpart, s, found, found', ?_, run, index, bindings⟩
  rw [Recognizer.start, same]
  exact run

end Grammar

end SetGrammar
