import Mathlib
import SetGrammar.Proofs.Compilation.Links
import SetGrammar.Proofs.Recognition.Simulation

/-!
# Misuse of a grammar

Runs of a linked grammar end early only by limits, unless a parse is started with
a rule that does not exist or reads characters. Compiled grammars are linked, also
those with rejected alternatives.
-/
namespace SetGrammar

/-- States and logs are the same, and the first run ends early only by limits. -/
def View.limited : View := ⟨true, fun e => e.isLimit = true, fun _ limit => limit, fun _ => True⟩

theorem View.limited_self (s : RunState) : View.limited.Sim s s :=
  ⟨rfl, rfl, Nat.le_refl _, fun _ => rfl, fun _ => rfl, fun _ => rfl, trivial⟩

theorem tokenize_error {g : CompiledGrammar} {limits : Limits} {text : String} {e : RunError}
    (ended : (g.tokenize limits text).result = .error e) :
    ∃ s, Recognizer.tokens ⟨g, .lexer, .ofText text, limits⟩ (.initial limits) = .error e s := by
  cases run : Recognizer.tokens ⟨g, .lexer, .ofText text, limits⟩ (.initial limits) with
  | ok tokens s => simp [CompiledGrammar.tokenize, EStateM.run, run] at ended
  | error e' s =>
    simp only [CompiledGrammar.tokenize, EStateM.run, run, Except.error.injEq] at ended
    exact ⟨s, by rw [ended]⟩

theorem parse_error {g : CompiledGrammar} {limits : Limits} {rule : String} {tokens : List Token}
    {e : RunError} (ended : (g.parse limits rule tokens).result = .error e) :
    ∃ s, Recognizer.outcome ⟨g, .parser, .tokens (.ofList tokens), limits⟩ rule (.initial limits) =
      .error e s := by
  cases run : Recognizer.outcome ⟨g, .parser, .tokens (.ofList tokens), limits⟩ rule
      (.initial limits) with
  | ok o s => simp [CompiledGrammar.parse, EStateM.run, run] at ended
  | error e' s =>
    simp only [CompiledGrammar.parse, EStateM.run, run, Except.error.injEq] at ended
    exact ⟨s, by rw [ended]⟩

namespace Recognizer

variable {r : Recognizer} {s : RunState}

theorem outcome_of_unknown {name : String} (unknown : r.grammar.rule? name = none) :
    r.outcome name s = .error (.unknownRule name) s := by
  unfold outcome findRule
  rw [unknown]
  rfl

theorem start_of_wrongKind {called : CompiledRule} (wrong : called.kind ≠ r.kind) :
    r.start called s = .error (.wrongKind called.name called.kind) s := by
  unfold start
  cases r.limits.depth with
  | zero | succ =>
    simp only [rule, checkKind, if_pos wrong]
    rfl

theorem outcome_of_wrongKind {name : String} {called : CompiledRule}
    (found : r.grammar.rule? name = some called) (wrong : called.kind ≠ r.kind) :
    r.outcome name s = .error (.wrongKind called.name called.kind) s := by
  unfold outcome findRule
  rw [found]
  show EStateM.bind (r.start called) _ s = _
  rw [EStateM.bind, start_of_wrongKind wrong]

end Recognizer

namespace CompiledGrammar.Linked

variable {g : CompiledGrammar} {limits : Limits}

/-- A linked grammar tokenizes every text unless a limit is hit. -/
theorem tokenize_isLimit (linked : g.Linked) {text : String} {e : RunError}
    (ended : (g.tokenize limits text).result = .error e) : e.isLimit = true := by
  obtain ⟨s, run⟩ := tokenize_error ended
  have known : ∀ called ∈ g.tokenRules,
      Recognizer.Known ⟨g, .lexer, .ofText text, limits⟩ View.limited called := by
    intro called member
    obtain ⟨member, tried⟩ := List.mem_filter.1 member
    simp only [CompiledRule.isTokenRule, Bool.and_eq_true, beq_iff_eq] at tried
    exact .inr ⟨linked, member, tried.1⟩
  exact (Recognizer.follows_tokens rfl (fun _ => trivial) (Nat.le_refl _) known).error
    (View.limited_self _) run

/-- A linked grammar parses all tokens with a parser rule unless a limit is hit. -/
theorem parse_isLimit (linked : g.Linked) {rule : String} {called : CompiledRule}
    {tokens : List Token} {e : RunError} (found : g.rule? rule = some called)
    (parser : called.kind = .parser) (ended : (g.parse limits rule tokens).result = .error e) :
    e.isLimit = true := by
  obtain ⟨s, run⟩ := parse_error ended
  have known : ∀ called', g.rule? rule = some called' →
      Recognizer.Known ⟨g, .parser, .tokens (.ofList tokens), limits⟩ View.limited called' := by
    intro called' found'
    cases found.symm.trans found'
    exact .inr ⟨linked, CompiledGrammar.mem_of_rule? found, parser⟩
  exact (Recognizer.follows_outcome rfl (Nat.le_refl _) known (.inr ⟨called, found, parser⟩)).error
    (View.limited_self _) run

/-- A parse ends early by a limit or because of the rule that it is started with. -/
theorem parse_error_cases (linked : g.Linked) {rule : String} {tokens : List Token} {e : RunError}
    (ended : (g.parse limits rule tokens).result = .error e) :
    e.isLimit = true ∨ (e = .unknownRule rule ∧ g.rule? rule = none) ∨
      ∃ called, e = .wrongKind called.name .lexer ∧ g.rule? rule = some called ∧
        called.kind = .lexer := by
  obtain ⟨s, run⟩ := parse_error ended
  cases found : g.rule? rule with
  | none =>
    rw [Recognizer.outcome_of_unknown found] at run
    cases run
    exact .inr (.inl ⟨rfl, rfl⟩)
  | some called =>
    cases kind : called.kind with
    | parser => exact .inl (linked.parse_isLimit found kind ended)
    | lexer =>
      rw [Recognizer.outcome_of_wrongKind found (by simp [kind]), kind] at run
      cases run
      exact .inr (.inr ⟨called, rfl, rfl, kind⟩)

end CompiledGrammar.Linked

namespace Grammar

/-- In what a compilation gives, also if alternatives were rejected, every call
    has a rule of the caller's kind and every set test the domain of that kind.
    So no run is a misuse by anything but the rule that a parse is started with. -/
theorem compile_never_misused (g : Grammar) (options : CompileOptions) :
    (∀ r ∈ (g.compile options).value.rules,
      (∀ name, .call name ∈ r.body.leaves →
        ∃ called, (g.compile options).value.rule? name = some called ∧ called.kind = r.kind) ∧
      ∀ t, .set t ∈ r.body.leaves → t.domain = g.domain r.kind) ∧
    (∀ limits text e, ((g.compile options).value.tokenize limits text).result = .error e →
      e.isLimit = true) ∧
    ∀ limits rule tokens e,
      ((g.compile options).value.parse limits rule tokens).result = .error e →
      (∀ name, e = .unknownRule name →
        name = rule ∧ (g.compile options).value.rule? rule = none) ∧
      ∀ name kind, e = .wrongKind name kind →
        ∃ called, (g.compile options).value.rule? rule = some called ∧ called.kind = .lexer := by
  have linked := compile_linked g options
  refine ⟨fun r member => ?_, fun limits text e ended => linked.tokenize_isLimit ended, ?_⟩
  · have fit := linked r member
    rw [compile_domain] at fit
    exact ⟨fit.calls, fit.sets⟩
  · intro limits rule tokens e ended
    constructor
    · rintro name rfl
      rcases linked.parse_error_cases ended with limit | ⟨same, unknown⟩ | ⟨called, same, -⟩
      · cases limit
      · cases same
        exact ⟨rfl, unknown⟩
      · cases same
    · rintro name kind rfl
      rcases linked.parse_error_cases ended with limit | ⟨same, -⟩ | ⟨called, -, found, lexer⟩
      · cases limit
      · cases same
      · exact ⟨called, found, lexer⟩

/-- The rules `part : A A` and `whole : A (part | Missing) | Missing`, where nothing is
    called `Missing`. -/
def holed : Grammar :=
  let (_, g) := (Grammar.empty "Holed").addToken "A" ⟨{}, [.char 'a']⟩
  (g.addParserRule "part" ⟨{}, [.sequence [.reference "A", .reference "A"]]⟩).addParserRule
    "whole" ⟨{}, [.sequence [.reference "A", .block {} [.reference "part", .reference "Missing"]],
      .reference "Missing"]⟩

/-- Two alternatives are left out, and the call that is left has its rule. -/
theorem compile_never_misused_holed :
    let compiled := (holed.compile {}).value
    (∃ r ∈ compiled.rules, .call "part" ∈ r.body.leaves ∧
      ∃ called, compiled.rule? "part" = some called ∧ called.kind = r.kind) ∧
    (∃ r ∈ compiled.rules, ∃ t, .set t ∈ r.body.leaves ∧ t.domain = holed.domain r.kind) ∧
    (∃ e, (compiled.tokenize ⟨0, 0⟩ "a").result = .error e ∧ e.isLimit = true) ∧
    ((compiled.parse {} "Missing" []).result = .error (.unknownRule "Missing") ∧
      compiled.rule? "Missing" = none) ∧
    (compiled.parse {} "A" []).result = .error (.wrongKind "A" .lexer) ∧
      ∃ called, compiled.rule? "A" = some called ∧ called.kind = .lexer := by
  intro compiled
  obtain ⟨linked, tokenized, parsed⟩ := compile_never_misused holed {}
  have whole : ∃ r t, compiled.rule? "whole" = some r ∧
      r.body.leaves = [.set t, .call "part"] := ⟨_, _, by cbv, by cbv⟩
  obtain ⟨r, t, found, leaves⟩ := whole
  have member := CompiledGrammar.mem_of_rule? found
  have calls : .call "part" ∈ r.body.leaves := by simp [leaves]
  have sets : .set t ∈ r.body.leaves := by simp [leaves]
  have unknown : (compiled.parse {} "Missing" []).result = .error (.unknownRule "Missing") := by cbv
  have wrong : (compiled.parse {} "A" []).result = .error (.wrongKind "A" .lexer) := by cbv
  have tired : (compiled.tokenize ⟨0, 0⟩ "a").result = .error (.tooDeep 0) := by cbv
  obtain ⟨called, tests⟩ := linked r member
  obtain ⟨-, absent⟩ := (parsed _ _ _ _ unknown).1 _ rfl
  exact ⟨⟨r, member, calls, called _ calls⟩, ⟨r, member, t, sets, tests t sets⟩,
    ⟨_, tired, tokenized _ _ _ tired⟩, ⟨unknown, absent⟩, wrong, (parsed _ _ _ _ wrong).2 _ _ rfl⟩

end Grammar

end SetGrammar
