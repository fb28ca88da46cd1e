import SetGrammar.Proofs.Compilation.Refinement
import SetGrammar.Proofs.Recognition.Agreement

/-!
# Options make no difference

A grammar that is accepted with sets and inlining as well as without them gives
the same tokens and the same errors about a text, and the same clean parses.
-/
namespace SetGrammar.Grammar

variable {g : Grammar} {limits limits' : Limits}

theorem compile_tokenRules {options : CompileOptions} :
    (g.compile options).value.tokenRules =
      (g.rules.filter fun r => r.kind == .lexer && !r.isFragment).map (g.compiledRule options) := by
  have same : CompiledRule.isTokenRule ∘ g.compiledRule options =
      fun r => r.kind == .lexer && !r.isFragment := by
    funext r
    rw [Function.comp_apply, compiledRule_isTokenRule]
  rw [CompiledGrammar.tokenRules, compile_rules, List.filter_map, same]

theorem lexer_rules_agree (clean : (g.compile {}).Clean) (clean' : (g.compile .plain).Clean)
    (input : Input) {r : Rule} (member : r ∈ g.rules) :
    Recognizer.RulesAgree ⟨(g.compile {}).value, .lexer, input, limits⟩
      ⟨(g.compile .plain).value, .lexer, input, limits'⟩ (g.compiledRule {} r)
      (g.compiledRule .plain r) := by
  refine ⟨?_, ?_, ?_, ?_⟩
  · rw [compiledRule_name, compiledRule_name]
  · rw [compiledRule_tokenType, compiledRule_tokenType]
  · rw [compiledRule_command, compiledRule_command]
  intro s t matched s' matched' t' same run run'
  obtain ⟨o, yields, shown⟩ := lexer_rule_shown run
  obtain ⟨o', yields', shown'⟩ := lexer_rule_shown run'
  rw [compiledRule_name] at yields yields'
  rw [← same.index] at yields'
  have refined := yields_of_refines (compile_refines clean clean') yields
    (compiledRule_refines clean clean' member)
  cases yields'.unique refined
  exact shown.same shown' same

theorem tokenize_agree (clean : (g.compile {}).Clean) (clean' : (g.compile .plain).Clean)
    {text : String} {tokens tokens' : List Token}
    (made : ((g.compile {}).value.tokenize limits text).result = .ok tokens)
    (made' : ((g.compile .plain).value.tokenize limits' text).result = .ok tokens') :
    tokens = tokens' ∧ ((g.compile {}).value.tokenize limits text).errors =
      ((g.compile .plain).value.tokenize limits' text).errors := by
  obtain ⟨s, run, errors⟩ := tokenize_ok made
  obtain ⟨t, run', errors'⟩ := tokenize_ok made'
  have agree : Run.Agree Eq
      (Recognizer.tokens ⟨(g.compile {}).value, .lexer, .ofText text, limits⟩)
      (Recognizer.tokens ⟨(g.compile .plain).value, .lexer, .ofText text, limits'⟩) :=
    Recognizer.tokens_agree rfl compile_tokenRules compile_tokenRules fun r member =>
      lexer_rules_agree clean clean' _ (List.mem_filter.1 member).1
  have start : (RunState.initial limits).Same (.initial limits') := ⟨rfl, rfl, rfl, rfl⟩
  obtain ⟨same, ended⟩ := agree start run run'
  exact ⟨same, by rw [errors, errors', ended.errors]⟩

theorem parse_agree (clean : (g.compile {}).Clean) (clean' : (g.compile .plain).Clean)
    {rule : String} {tokens : List Token} {o o' : Parse}
    (ran : ((g.compile {}).value.parse limits rule tokens).result = .ok o)
    (ran' : ((g.compile .plain).value.parse limits' rule tokens).result = .ok o') :
    o.isClean = o'.isClean ∧
      (o.isClean → o.consumed = o'.consumed ∧ o.text = o'.text ∧ o.bindings = o'.bindings) := by
  obtain ⟨called, meaning, found, yields, outcome⟩ := parse_shown ran
  obtain ⟨kept, meaning', found', yields', outcome'⟩ := parse_shown ran'
  obtain ⟨kept', found'', name, refines⟩ := compile_refines clean clean' _ _ found
  cases found'.symm.trans found''
  have refined := yields_of_refines (compile_refines clean clean') yields refines
  rw [name] at yields'
  cases yields'.unique refined
  cases meaning with
  | failed =>
    refine ⟨outcome.trans outcome'.symm, fun clean => ?_⟩
    rw [outcome] at clean
    cases clean
  | matched stop bindings =>
    obtain ⟨clean, consumed, text, bound⟩ := outcome
    obtain ⟨clean', consumed', text', bound'⟩ := outcome'
    refine ⟨clean.trans clean'.symm, fun _ => ⟨?_, ?_, ?_⟩⟩
    · rw [consumed, consumed']
    · rw [text, text']
    · rw [bound, bound']

/-- The options make no difference to what is recognized. -/
theorem options_agree {fast plain : CompiledGrammar} (made : g.compileStrict {} = .ok fast)
    (made' : g.compileStrict .plain = .ok plain) :
    (∀ limits limits' text tokens tokens', (fast.tokenize limits text).result = .ok tokens →
      (plain.tokenize limits' text).result = .ok tokens' →
      tokens = tokens' ∧
        (fast.tokenize limits text).errors = (plain.tokenize limits' text).errors) ∧
    ∀ limits limits' rule tokens o o', (fast.parse limits rule tokens).result = .ok o →
      (plain.parse limits' rule tokens).result = .ok o' →
      o.isClean = o'.isClean ∧
        (o.isClean → o.consumed = o'.consumed ∧ o.text = o'.text ∧ o.bindings = o'.bindings) := by
  obtain ⟨clean, rfl⟩ := compileStrict_eq_ok made
  obtain ⟨clean', rfl⟩ := compileStrict_eq_ok made'
  constructor
  · intro limits limits' text tokens tokens' run run'
    exact tokenize_agree clean clean' run run'
  · intro limits limits' rule tokens o o' run run'
    exact parse_agree clean clean' run run'

/-- Numbers of two digits with separators. Plain options keep the digits as a
    call and the separators as branches. -/
def numbers : Grammar :=
  let g := (Grammar.empty "Numbers").addFragment "Digit" ⟨{}, [.char '0', .char '1']⟩
  let (_, g) := g.addToken "Number" ⟨{ quantifier := .plus }, [.reference "Digit"]⟩
  let (_, g) := g.addToken "Separator" ⟨{ label := some "x" }, [.char ',', .char ';']⟩
  g.addParserRule "list" ⟨{ quantifier := .star }, [.reference "Number", .reference "Separator"]⟩

theorem options_agree_numbers :
    ∃ fast plain, numbers.compileStrict {} = .ok fast ∧ numbers.compileStrict .plain = .ok plain ∧
      ∃ tokens, (fast.tokenize {} "10;2").result = .ok tokens ∧
        (plain.tokenize {} "10;2").result = .ok tokens ∧
        (fast.tokenize {} "10;2").errors = (plain.tokenize {} "10;2").errors ∧
        ∃ o o', (fast.parse {} "list" tokens).result = .ok o ∧
          (plain.parse {} "list" tokens).result = .ok o' ∧ o.isClean ∧ o'.isClean ∧
          o.consumed = o'.consumed := by
  have made : numbers.compileStrict {} = .ok (numbers.compile {}).value :=
    compileStrict_of_nil (by cbv)
  have made' : numbers.compileStrict .plain = .ok (numbers.compile .plain).value :=
    compileStrict_of_nil (by cbv)
  have run : ∃ tokens o, ((numbers.compile {}).value.tokenize {} "10;2").result = .ok tokens ∧
      ((numbers.compile {}).value.parse {} "list" tokens).result = .ok o ∧ o.isClean :=
    ⟨_, _, by cbv, by cbv, by cbv⟩
  have run' : ∃ tokens o, ((numbers.compile .plain).value.tokenize {} "10;2").result = .ok tokens ∧
      ((numbers.compile .plain).value.parse {} "list" tokens).result = .ok o :=
    ⟨_, _, by cbv, by cbv⟩
  obtain ⟨tokens, o, run, parsed, clean⟩ := run
  obtain ⟨tokens', o', run', parsed'⟩ := run'
  obtain ⟨texts, parses⟩ := options_agree made made'
  obtain ⟨rfl, errors⟩ := texts {} {} "10;2" tokens tokens' run run'
  obtain ⟨same, shown⟩ := parses {} {} "list" tokens o o' parsed parsed'
  obtain ⟨consumed, -, -⟩ := shown clean
  exact ⟨_, _, made, made', tokens, run, run', errors, o, o', parsed, parsed', clean,
    same.symm.trans clean, consumed⟩

end SetGrammar.Grammar
