import SetGrammar.Proofs.Compilation.OneSet
import SetGrammar.Proofs.Compilation.SetTests
import SetGrammar.Proofs.Grammar.InlineEntries
import SetGrammar.Proofs.Recognition.Adequacy
import SetGrammar.Proofs.Recognition.Budget
import SetGrammar.Proofs.Recognition.Misuse

/-!
# Matching rules that are inlined

The set of a rule in the inline table is found without compiling the rule, by
replacing what it exposes. The rule itself is compiled with all its references
replaced, as a set or as branches. Both describe the same characters: called on
its own, the rule matches one character of the set, and so does the class that
takes the place of a reference to it.
-/
namespace SetGrammar

/-- A part of a rule ends on its own after a number of steps at most, whatever
    surrounds it and whatever it is tried on. -/
def Recognizer.Bounded (steps : Nat)
    (part : Recognizer → (Scope → String → Run Bool) → Scope → Run Bool) : Prop :=
  ∀ r call scope, Run.EndsWithin (fun _ => False) steps (part r call scope)

namespace CompileContext

open Recognizer

variable {c : CompileContext} {span : Span}

/-- A block without a quantifier has a bound if its branches have one. -/
theorem block_bounded {marks : BlockMarks} (alternatives : List Element)
    {branches : Reported (List CompiledSequence)} (once : marks.quantifier = .once) {steps : Nat}
    (bounded : ∀ a ∈ branches.value, Bounded steps fun r call scope => r.sequence call scope a) :
    ∃ steps, Bounded steps fun r call scope =>
      r.block call scope (c.block marks alternatives branches).value := by
  have kept (label : Option String) (reason : BranchReason) :
      Bounded (branches.value.length * (steps + 1)) fun r call scope =>
        r.block call scope (.branches branches.value marks.quantifier label reason) := by
    intro r call scope
    rw [once]
    exact endsWithin_branches fun a member scope => bounded a member r call scope
  obtain ⟨choice, t, -, -, value, -⟩ | ⟨reason, -, value, -⟩ :=
    c.block_outcome marks alternatives branches
  · rw [value]
    exact ⟨1, fun r call scope => endsWithin_set once⟩
  · rw [value]
    exact ⟨_, kept _ reason⟩

theorem symbol_bounded {e : Element} {p : CompiledElement}
    (compiled : (c.symbol span e).value = some p) :
    Bounded 1 fun r call scope => r.element call scope p := by
  unfold symbol at compiled
  cases tested : e.test c.domain with
  | error rejection =>
    simp only [tested] at compiled
    cases compiled
  | ok t =>
    simp only [tested] at compiled
    cases compiled
    exact fun r call scope => endsWithin_set rfl

mutual

/-- What an alternative that may be part of a set compiles to has a bound. -/
theorem element_bounded (span : Span) : (e : Element) → (e.survey c.domain).reason = none →
    ∃ steps, ∀ p, (c.element span e).value = some p →
      Bounded steps fun r call scope => r.element call scope p
  | .literal _, _ | .charClass _, _ | .negated _, _ => ⟨1, fun p => symbol_bounded⟩
  | .reference _, accepted | .sequence _, accepted => by cases accepted
  | .block marks alternatives, accepted => by
    unfold Element.survey at accepted
    by_cases grouping : marks.isPlain
    · rw [if_pos grouping] at accepted
      have once := (BlockMarks.isPlain_iff.1 grouping).1
      obtain ⟨steps, bounded⟩ := branches_bounded marks.span alternatives accepted
      obtain ⟨steps, bounded⟩ := block_bounded alternatives once bounded
      refine ⟨steps, fun p compiled => ?_⟩
      cases compiled
      exact bounded
    · rw [if_neg grouping] at accepted
      cases accepted

/-- What alternatives that may be part of a set compile to has a common bound. -/
theorem branches_bounded (span : Span) : (alternatives : List Element) →
    (Element.surveyAll c.domain alternatives).reason = none →
    ∃ steps, ∀ a ∈ (c.branches span alternatives).value,
      Bounded steps fun r call scope => r.sequence call scope a
  | [], _ => ⟨0, nofun⟩
  | e :: rest, accepted => by
    obtain ⟨first, others⟩ := Survey.reason_append.1 accepted
    obtain ⟨n, one⟩ := element_bounded span e first
    obtain ⟨k, all⟩ := branches_bounded span rest others
    refine ⟨max n k, fun a member r call scope => ?_⟩
    rw [branches_cons (accepts_of_survey first), alternative_of_survey first] at member
    rcases List.mem_cons.1 member with rfl | member
    · cases compiled : (c.element span e).value with
      | none =>
        rw [Reported.value_map, compiled]
        exact Run.endsWithin_pure.mono (Nat.zero_le _)
      | some p =>
        rw [Reported.value_map, compiled]
        refine (endsWithin_sequence (n := n) fun e member scope => ?_).mono ?_
        · rw [List.mem_singleton.1 member]
          exact one p compiled r call scope
        · simp
    · exact (all a member r call scope).mono (Nat.le_max_right n k)

end

end CompileContext

namespace Recognizer

variable {r : Recognizer} {scope : Scope} {set : SymbolSet}

/-- Unless a limit is hit, a computation uses up one symbol if the next one is in
    a set, and fails without a trace if not. In both cases it binds nothing. -/
def MatchesOne (r : Recognizer) (set : SymbolSet) (m : Run Bool) : Prop :=
  ∀ s, match m s with
    | .ok matched s' =>
      (matched = true ↔ ∃ x, r.input.symbol? s.index = some x ∧ set.contains x = true) ∧
        s'.index = (if matched then s.index + 1 else s.index) ∧
        s'.bindings = s.bindings ∧ s'.errors = s.errors
    | .error e _ => e.isLimit = true

/-- In a lexer rule a part that tests the symbols of a set matches one of them. -/
theorem matchesOne_of_tests {m : Run Bool} {part : Part} (lexer : r.kind = .lexer)
    (realizes : r.Realizes scope m part)
    (tests : r.grammar.Tests part fun x => set.contains x = true)
    (limited : ∀ ⦃s e s'⦄, m s = .error e s' → e.isLimit = true) : r.MatchesOne set m := by
  intro s
  cases run : m s with
  | error e s' => exact limited run
  | ok matched s' =>
    obtain ⟨admitted, refused⟩ := tests r.input scope.rule s.index
    obtain ⟨o, yields, shown | ⟨-, parser, -⟩⟩ := realizes run
    · by_cases has : ∃ x, r.input.symbol? s.index = some x ∧ set.contains x = true
      · cases yields.unique (admitted has)
        obtain ⟨rfl, index, bindings⟩ := Trial.shown_of_matched shown
        exact ⟨by simpa using has, index, bindings, shown.1⟩
      · cases yields.unique (refused has)
        obtain ⟨rfl, index, bindings⟩ := Trial.shown_of_failed shown
        exact ⟨by simpa using has, index, bindings, shown.1⟩
    · rw [lexer] at parser
      cases parser

theorem matchesOne_rule {depth : Nat} {called : CompiledRule} (lexer : r.kind = .lexer)
    (known : r.Known .limited called)
    (tests : r.grammar.Tests (.ofBlock called.body) fun x => set.contains x = true) :
    r.MatchesOne set (r.rule depth scope called) := by
  have follows : View.limited.Follows Eq (r.rule depth scope called)
      ((r.allow r.limits).rule depth scope called) :=
    follows_rule (.inl rfl) (Nat.le_refl depth) known
  exact matchesOne_of_tests lexer realizes_rule tests fun s e s' run =>
    follows.error (View.limited_self s) run

theorem matchesOne_set {t : Transition} (lexer : r.kind = .lexer)
    (tests : r.grammar.Tests (.ofSet t) fun x => set.contains x = true) :
    r.MatchesOne set (r.set scope t) := by
  have realizes : r.Realizes scope (r.set scope t) (.ofSet t) := realizes_set
  have follows : View.limited.Follows Eq (r.set scope t) ((r.allow r.limits).set scope t) :=
    follows_set
  exact matchesOne_of_tests lexer realizes tests fun s e s' run =>
    follows.error (View.limited_self s) run

end Recognizer

namespace Grammar

open Recognizer

variable {g : Grammar} {options : CompileOptions} {name : String} {set : SymbolSet}

theorem inlineTable_value (inlines : options.inlineRules = true) :
    (g.inlineTable options).value = (InlineTable.build g).1 := by
  simp [inlineTable, inlines]

theorem replacement?_of_entry (inlines : options.inlineRules = true)
    (entry : (InlineTable.build g).1.find? name = some set) :
    g.replacement? (g.inlineTable options).value .lexer name = some (.charClass set) := by
  rw [inlineTable_value inlines]
  show Element.classOf ((InlineTable.build g).1.find? name) = _
  rw [entry]
  rfl

/-- Also with all references replaced, not only the exposed ones, the body of a
    rule with a set forms this set. -/
theorem HasSet.resolved (has : g.HasSet name set) (inlines : options.inlineRules = true) :
    ∃ r choice t, g.rule? name = some r ∧ r.kind = .lexer ∧ r.body.marks.isPlain = true ∧
      Verdict.ofAlternatives (g.resolved options r) .lexer = .set choice ∧
      choice.test .lexer = .ok t ∧ t.admissible = set := by
  obtain ⟨r, sets, rule, inlinable, exposed, formed⟩ := has.inv
  obtain ⟨choice, t, verdict, made, admissible⟩ := formedSet?_eq_some_iff.1 formed
  obtain ⟨lexer, -, plain⟩ := Rule.isInlinable_iff.1 inlinable
  have lexer : r.kind = .lexer := by simpa [Rule.isLexer] using lexer
  refine ⟨r, choice, t, rule, lexer, plain, ?_, made, admissible⟩
  rw [Grammar.resolved, lexer, Verdict.ofAlternatives, ← Element.surveyAll_replaceExposed,
    ← verdict]
  congr 2
  refine Element.replaceExposedInAll_congr _ fun target member => ?_
  exact replacement?_of_entry inlines (InlineTable.find?_eq_some_iff.2 (exposed target member))

theorem HasSet.within (has : g.HasSet name set) : set.Within .lexer := by
  cases has with
  | intro _ _ _ _ _ _ _ made =>
    have within := SetTest.admissible_within (SetChoice.test_within made)
    rwa [SetChoice.test_domain made] at within

/-- The compiled rule tests the characters of its set, and it has a bound. -/
theorem HasSet.compiled (has : g.HasSet name set) (inlines : options.inlineRules = true) :
    ∃ called, (g.compile options).value.rule? name = some called ∧ called.kind = .lexer ∧
      (g.compile options).value.Tests (.ofBlock called.body) (fun x => set.contains x = true) ∧
      ∃ steps, Bounded steps fun r call scope => r.block call scope called.body := by
  obtain ⟨r, choice, t, rule, lexer, plain, formed, made, rfl⟩ := has.resolved inlines
  obtain ⟨once, unlabelled⟩ := BlockMarks.isPlain_iff.1 plain
  have domain : (⟨g, options, r⟩ : CompileContext).domain = .lexer :=
    CompileContext.domain_of_lexer lexer
  rw [← domain] at formed made
  refine ⟨g.compiledRule options r, by rw [compile_rule?, rule]; rfl, lexer, ?_, ?_⟩
  · have wellFormed := SetTest.wellFormed (SetChoice.test_within made)
    obtain ⟨quantifier, label, tests⟩ := CompileContext.block_tests_of_set
      (c := ⟨g, options, r⟩) unlabelled (compiledRule_body g options r).symm formed made
    rw [Part.ofBlock_eq, quantifier, once, label, unlabelled]
    exact (tests true).once.congr wellFormed.admits_iff
  · obtain ⟨steps, bounded⟩ := CompileContext.branches_bounded r.body.marks.span _
      (Survey.verdict_eq_set_iff.1 formed).1
    exact CompileContext.block_bounded _ once bounded

/-- Whether sets are formed or not, a class of the characters of a rule matches
    one of them. -/
theorem HasSet.charClass (has : g.HasSet name set) {c : CompileContext}
    (lexer : c.domain = .lexer) (span : Span) :
    ∃ t, (c.element span (.charClass set)).value = some (.set t) ∧
      ∀ compiled : CompiledGrammar,
        compiled.Tests (.ofSet t) fun x => set.contains x = true := by
  have checked : Domain.lexer.checkMembers set = .ok () :=
    Domain.checkMembers_eq_ok_iff.2 has.within
  have found : (Element.charClass set).source c.domain = .ok (.charClass set) := by
    rw [lexer]
    exact except_bind_eq_ok.2 ⟨(), Rejection.ofCheck_eq_ok_iff.2 checked, rfl⟩
  obtain ⟨test, made⟩ := CompileContext.test_of_source found
  refine ⟨.ofTest test, (CompileContext.symbol_of_test made).2, fun compiled => ?_⟩
  have tests : compiled.Tests (.ofSet (.ofTest test)) fun x => test.admits (some x) = true :=
    .once .test
  refine tests.congr fun x => ?_
  rw [CompileContext.source_admits found made, lexer]
  simpa [Domain.Named, SymbolSource.Names] using has.within x

/-- Every rule with an entry in the table matches one of its characters when it
    is called on its own, wherever that is, and so does the class that takes the
    place of a reference to it. -/
theorem compile_inlines (g : Grammar) (options : CompileOptions)
    (inlines : options.inlineRules = true) {name : String} {set : SymbolSet}
    (entry : (InlineTable.build g).1.find? name = some set) :
    let compiled := (g.compile options).value
    ∃ called, compiled.rule? name = some called ∧ called.kind = .lexer ∧
      (∀ input limits depth scope,
        let r : Recognizer := ⟨compiled, .lexer, input, limits⟩
        r.MatchesOne set (r.rule depth scope called)) ∧
      (∃ steps, ∀ input limits depth scope s, steps ≤ s.fuel → ∃ matched s',
        Recognizer.rule ⟨compiled, .lexer, input, limits⟩ (depth + 1) scope called s =
          .ok matched s') ∧
      g.replacement? (g.inlineTable options).value .lexer name = some (.charClass set) ∧
      ∀ caller span, caller.kind = .lexer → ∃ e,
        ((⟨g, options, caller⟩ : CompileContext).element span (.charClass set)).value = some e ∧
          ∀ input limits call scope,
            let r : Recognizer := ⟨compiled, .lexer, input, limits⟩
            r.MatchesOne set (r.element call scope e) := by
  intro compiled
  have has := InlineTable.find?_eq_some_iff.1 entry
  obtain ⟨called, found, kind, tests, steps, bounded⟩ := has.compiled inlines
  refine ⟨called, found, kind, fun input limits depth scope => ?_,
    ⟨steps + 1, fun input limits depth scope s enough => ?_⟩, ?_, fun caller span lexer => ?_⟩
  · intro r
    have known : r.Known .limited called :=
      .inr ⟨compile_linked g options, CompiledGrammar.mem_of_rule? found, kind⟩
    exact matchesOne_rule rfl known tests
  · exact (endsWithin_rule (.inl kind) fun scope => bounded _ _ scope).ok enough
  · exact replacement?_of_entry inlines entry
  · have domain : (⟨g, options, caller⟩ : CompileContext).domain = .lexer :=
      CompileContext.domain_of_lexer lexer
    obtain ⟨t, value, tests⟩ := has.charClass domain span
    exact ⟨_, value, fun input limits call scope => matchesOne_set rfl (tests compiled)⟩

/-- Kept as branches, the rule `A` matches `a` between two characters that are
    not in its set. -/
theorem compile_inlines_chainAndCycle :
    let compiled := (InlineTable.chainAndCycle.compile ⟨false, true⟩).value
    let r : Recognizer := ⟨compiled, .lexer, .ofText "cax", {}⟩
    let s : RunState := { RunState.initial {} with index := 1 }
    ∃ set called s' s'', (InlineTable.build InlineTable.chainAndCycle).1.find? "A" = some set ∧
      compiled.rule? "A" = some called ∧ called.body.reason? = some .disabled ∧
      r.rule 1 ⟨"", false, []⟩ called s = .ok true s' ∧ set.contains 'a'.toNat = true ∧
      s'.index = 2 ∧ s'.bindings = [] ∧
      r.rule 1 ⟨"", false, []⟩ called s' = .ok false s'' ∧ set.contains 'x'.toNat = false ∧
      s''.index = 2 := by
  intro compiled r s
  have entry : ∃ set, (InlineTable.build InlineTable.chainAndCycle).1.find? "A" = some set :=
    ⟨_, by cbv⟩
  have ran : ∃ called s' s'', compiled.rule? "A" = some called ∧
      called.body.reason? = some .disabled ∧ r.rule 1 ⟨"", false, []⟩ called s = .ok true s' ∧
      r.rule 1 ⟨"", false, []⟩ called s' = .ok false s'' :=
    ⟨_, _, _, by cbv, by cbv, by cbv, by cbv⟩
  obtain ⟨set, entry⟩ := entry
  obtain ⟨called, s', s'', found, disabled, first, second⟩ := ran
  obtain ⟨called', found', -, one, -⟩ :=
    compile_inlines InlineTable.chainAndCycle ⟨false, true⟩ rfl entry
  cases found.symm.trans found'
  have matched := one (.ofText "cax") {} 1 ⟨"", false, []⟩ s
  rw [first] at matched
  obtain ⟨inside, index, bindings, -⟩ := matched
  have failed := one (.ofText "cax") {} 1 ⟨"", false, []⟩ s'
  rw [second] at failed
  obtain ⟨outside, index', -⟩ := failed
  obtain ⟨x, symbol, contained⟩ := inside.1 rfl
  cases symbol
  refine ⟨set, called, s', s'', entry, found, disabled, first, contained, index, bindings,
    second, ?_, index'.trans index⟩
  rw [Bool.eq_false_iff]
  intro contained
  cases outside.2 ⟨'x'.toNat, by rw [index]; rfl, contained⟩

end Grammar

end SetGrammar
