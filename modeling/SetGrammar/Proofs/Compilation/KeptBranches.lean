import SetGrammar.Proofs.Compilation.OneSymbol

/-!
# Branches in place of a set

A block that is kept as branches because the options forbid sets tests the same
symbols as the set of its alternatives, also if the set needs some references to
be replaced by classes first.
-/
namespace SetGrammar

/-- Calls of replaced references test what the classes name that replace them. -/
def CompiledGrammar.CallsTest (g : CompiledGrammar) (d : Domain)
    (sets : String → Option SymbolSet) : Prop :=
  ∀ name set, sets name = some set →
    g.Tests (.call name) fun s => d.contains s ∧ set.contains s

/-- What an alternative shows once classes replace its references. -/
def Element.classSurvey (d : Domain) (sets : String → Option SymbolSet) (e : Element) : Survey :=
  (e.replaceReferences (classes sets)).survey d

/-- What alternatives show once classes replace their references. -/
def Element.classSurveyAll (d : Domain) (sets : String → Option SymbolSet)
    (elements : List Element) : Survey :=
  surveyAll d (replaceReferencesInAll (classes sets) elements)

theorem BlockMarks.isPlain_iff {marks : BlockMarks} :
    marks.isPlain ↔ marks.quantifier = .once ∧ marks.label = none := by
  simp [isPlain]

theorem Survey.Sound.test_admits {d : Domain} {survey : Survey} {choice : SetChoice} {t : SetTest}
    (sound : Sound d survey) (formed : survey.verdict = .set choice)
    (made : choice.test d = .ok t) (positive : choice.negated = false) {s : Nat} :
    t.admits (some s) ↔ d.Named choice.sources s := by
  obtain ⟨set, made', names⟩ := sound.test_ok formed
  cases Except.ok.inj (made.symm.trans made')
  rw [SetTest.admits_some, positive]
  simp [names, Domain.Named]

namespace CompileContext

variable {c : CompileContext} {g : CompiledGrammar} {sets : String → Option SymbolSet}

/-- The test of a literal or a class admits what it names. -/
theorem source_admits {e : Element} {d : Domain} {source : SymbolSource} {t : SetTest}
    (found : e.source d = .ok source) (tested : e.test d = .ok t) {s : Nat} :
    t.admits (some s) ↔ d.Named [source] s := by
  have made : SetChoice.test ⟨[source], false⟩ d = .ok t := by
    cases e with
    | literal | charClass =>
      obtain ⟨_, found', made⟩ := except_bind_eq_ok.1 tested
      cases Except.ok.inj (found.symm.trans found')
      exact made
    | sequence | reference | negated | block => cases found
  have sound := Survey.sound_ofSource (d := d) (e := e)
  rw [found] at sound
  exact sound.test_admits rfl made rfl

theorem source_tests {e : Element} {span : Span} {source : SymbolSource}
    (found : e.source c.domain = .ok source) (clean : (c.symbol span e).Clean) :
    ∃ p, (c.symbol span e).value = some p ∧ g.Tests (.ofElement p) (c.domain.Named [source]) := by
  obtain ⟨t, tested, value⟩ := symbol_clean clean
  have tests : g.Tests (.ofElement (.set (.ofTest t))) fun s => t.admits (some s) = true :=
    .once .test
  exact ⟨_, value, tests.congr fun s => source_admits found tested⟩

theorem source_of_accepted {e : Element} {d : Domain}
    (accepted : (Survey.ofSource (e.source d)).reason = none) :
    ∃ source, e.source d = .ok source := by
  cases found : e.source d with
  | ok source => exact ⟨source, rfl⟩
  | error => simp [found, Survey.ofSource, Survey.against] at accepted

theorem charClass_of_source {set : SymbolSet} {d : Domain} {source : SymbolSource}
    (found : (Element.charClass set).source d = .ok source) : source = .charClass set := by
  unfold Element.source at found
  by_cases kind : d.kind = .lexer
  · simp only [kind, ne_eq, not_true_eq_false, if_false] at found
    obtain ⟨-, -, same⟩ := except_bind_eq_ok.1 found
    exact (except_pure_eq_ok.1 same).symm
  · simp only [ne_eq, kind, not_false_eq_true, if_true] at found
    cases found

/-- An alternative of one symbol is not a sequence. -/
theorem alternative_single {e : Element} {span : Span}
    (accepted : (e.classSurvey c.domain sets).reason = none) :
    c.alternative span e = Option.toList <$> c.element span e := by
  cases e with
  | sequence => cases accepted
  | literal | charClass | reference | negated | block => rfl

theorem anyNegative_of_negated {survey : Survey} {choice : SetChoice}
    (formed : survey.verdict = .set choice) (negated : choice.negated = true) :
    survey.anyNegative = true := by
  obtain ⟨-, ⟨-, -, rfl⟩ | ⟨-, negative, -⟩⟩ := Survey.verdict_eq_set_iff.1 formed
  · cases negated
  · exact negative

mutual

/-- Under plain options an alternative of one symbol that is not negated tests
    what it names once its references are replaced. -/
theorem element_tests (plain : c.options.formSets = false) (calls : g.CallsTest c.domain sets)
    {span : Span} : (e : Element) → (c.element span e).Clean →
      (e.classSurvey c.domain sets).reason = none →
      (e.classSurvey c.domain sets).anyNegative = false →
      ∃ p, (c.element span e).value = some p ∧
        g.Tests (.ofElement p) (c.domain.Named (e.classSurvey c.domain sets).positive)
  | .literal n, clean, accepted, _ => by
    obtain ⟨source, found⟩ := source_of_accepted (e := .literal n) accepted
    simp only [Element.classSurvey, Element.replaceReferences, Element.survey, found]
    exact source_tests found clean
  | .charClass set, clean, accepted, _ => by
    obtain ⟨source, found⟩ := source_of_accepted (e := .charClass set) accepted
    simp only [Element.classSurvey, Element.replaceReferences, Element.survey, found]
    exact source_tests found clean
  | .sequence _, _, accepted, _ => by cases accepted
  | .negated operand, _, accepted, positive => by
    simp only [Element.classSurvey, Element.replaceReferences, Element.survey] at accepted positive
    cases found : (operand.replaceReferences (Element.classes sets)).negatedSources c.domain with
    | ok => simp [found, Survey.ofNegation] at positive
    | error => simp [found, Survey.ofNegation, Survey.against] at accepted
  | .reference name, _, accepted, _ => by
    cases found : sets name with
    | none =>
      simp [Element.classSurvey, Element.replaceReferences, Element.classes, Element.classOf, found,
        Element.survey, Survey.against] at accepted
    | some set =>
      simp only [Element.classSurvey, Element.replaceReferences, Element.classes, Element.classOf,
        found, Option.map_some, Option.getD_some, Element.survey] at accepted ⊢
      obtain ⟨source, made⟩ := source_of_accepted (e := .charClass set) accepted
      cases charClass_of_source made
      refine ⟨_, rfl, (calls name set found).congr fun s => ?_⟩
      simp [made, Survey.ofSource, Domain.Named, SymbolSource.Names]
  | .block marks alternatives, clean, accepted, positive => by
    obtain ⟨inner, value⟩ := element_block_clean clean
    rw [Element.classSurvey, Element.replaceReferences, Element.survey] at accepted positive ⊢
    by_cases grouping : marks.isPlain
    · simp only [grouping, if_true] at accepted positive ⊢
      obtain ⟨once, unlabelled⟩ := BlockMarks.isPlain_iff.1 grouping
      obtain ⟨allowed, ⟨choice, t, formed, option, -, -⟩ | ⟨reason, kept, -, branches⟩⟩ :=
        block_clean inner
      · -- A set under plain options is negated, and it has no references.
        have negated : choice.negated = true := by simpa [plain] using option
        rw [Element.replaceReferencesInAll_of_set formed, anyNegative_of_negated formed negated]
          at positive
        cases positive
      · refine ⟨_, value, ?_⟩
        have all := branches_test plain calls alternatives allowed kept accepted positive
        rw [branches, once, unlabelled]
        exact (all.body true).once
    · simp only [grouping] at accepted
      cases accepted

theorem branches_test (plain : c.options.formSets = false) (calls : g.CallsTest c.domain sets)
    {span : Span} : (alternatives : List Element) → (∀ e ∈ alternatives, c.accepts e = true) →
      (c.branches span alternatives).Clean →
      (Element.classSurveyAll c.domain sets alternatives).reason = none →
      (Element.classSurveyAll c.domain sets alternatives).anyNegative = false →
      g.AllTest c.domain (c.branches span alternatives).value
        (Element.classSurveyAll c.domain sets alternatives).positive
  | [], _, _, _, _ => .nil
  | e :: rest, allowed, clean, accepted, positive => by
    obtain ⟨first, others, value⟩ := branches_cons_clean (allowed e (by simp)) clean
    obtain ⟨accepted, acceptedRest⟩ := Survey.reason_append.1 accepted
    obtain ⟨positive, positiveRest⟩ := Bool.or_eq_false_iff.1 positive
    have all := branches_test plain calls rest (fun e member => allowed e (by simp [member]))
      others acceptedRest positiveRest
    rw [value]
    refine .cons ?_ all
    rw [alternative_single accepted] at first ⊢
    obtain ⟨p, value, tests⟩ :=
      element_tests plain calls e (Reported.clean_map.1 first) accepted positive
    rw [Reported.value_map, value]
    exact tests.sequence

end

mutual

/-- A negation that is compiled has no references, so that an alternative that
    shows negations only is the same with and without classes. -/
theorem replaceReferences_of_negative {span : Span} : (e : Element) →
    (c.element span e).Clean → (e.classSurvey c.domain sets).reason = none →
    (e.classSurvey c.domain sets).anyPositive = false →
    e.replaceReferences (Element.classes sets) = e
  | .literal _, _, _, _ | .charClass _, _, _, _ => rfl
  | .sequence _, _, accepted, _ => by cases accepted
  | .negated operand, clean, _, _ => by
    obtain ⟨t, tested, -⟩ := symbol_clean (e := .negated operand) clean
    obtain ⟨sources, found, -⟩ := except_bind_eq_ok.1 tested
    rw [Element.replaceReferences, Element.replaceReferences_of_negatedSources operand found]
  | .reference name, _, accepted, negative => by
    cases found : sets name with
    | none => simp [Element.replaceReferences, Element.classes, Element.classOf, found]
    | some set =>
      simp only [Element.classSurvey, Element.replaceReferences, Element.classes, Element.classOf,
        found, Option.map_some, Option.getD_some, Element.survey] at accepted negative
      obtain ⟨source, made⟩ := source_of_accepted (e := .charClass set) accepted
      simp [made, Survey.ofSource] at negative
  | .block marks alternatives, clean, accepted, negative => by
    obtain ⟨inner, -⟩ := element_block_clean clean
    rw [Element.classSurvey, Element.replaceReferences, Element.survey] at accepted negative
    rw [Element.replaceReferences]
    by_cases grouping : marks.isPlain
    · simp only [grouping, if_true] at accepted negative
      obtain ⟨allowed, ⟨choice, t, formed, -⟩ | ⟨reason, kept, -⟩⟩ := block_clean inner
      · rw [Element.replaceReferencesInAll_of_set formed]
      · rw [replaceReferencesInAll_of_negative alternatives allowed kept accepted negative]
    · simp only [grouping] at accepted
      cases accepted

theorem replaceReferencesInAll_of_negative {span : Span} : (alternatives : List Element) →
    (∀ e ∈ alternatives, c.accepts e = true) → (c.branches span alternatives).Clean →
    (Element.classSurveyAll c.domain sets alternatives).reason = none →
    (Element.classSurveyAll c.domain sets alternatives).anyPositive = false →
    Element.replaceReferencesInAll (Element.classes sets) alternatives = alternatives
  | [], _, _, _, _ => rfl
  | e :: rest, allowed, clean, accepted, negative => by
    obtain ⟨first, others, -⟩ := branches_cons_clean (allowed e (by simp)) clean
    obtain ⟨accepted, acceptedRest⟩ := Survey.reason_append.1 accepted
    obtain ⟨negative, negativeRest⟩ := Bool.or_eq_false_iff.1 negative
    rw [alternative_single accepted, Reported.clean_map] at first
    rw [Element.replaceReferencesInAll, replaceReferences_of_negative e first accepted negative,
      replaceReferencesInAll_of_negative rest (fun e member => allowed e (by simp [member])) others
        acceptedRest negativeRest]

end

/-- A block under plain options tests what the set of its alternatives does once
    classes replace the references. -/
theorem block_tests (plain : c.options.formSets = false) (calls : g.CallsTest c.domain sets)
    {marks : BlockMarks} {alternatives : List Element} {span : Span} {choice : SetChoice}
    {t : SetTest} {block : CompiledBlock}
    (clean : (c.block marks alternatives (c.branches span alternatives)).Clean)
    (value : (c.block marks alternatives (c.branches span alternatives)).value = block)
    (formed : (Element.classSurveyAll c.domain sets alternatives).verdict = .set choice)
    (made : choice.test c.domain = .ok t) :
    block.quantifier = marks.quantifier ∧ block.label = marks.label ∧
      ∀ isRequired, g.Tests (.body block.body isRequired) fun s => t.admits (some s) = true := by
  obtain ⟨allowed, ⟨choice', t', formed', -, made', set⟩ | ⟨reason, kept, unset, branches⟩⟩ :=
    block_clean clean
  · -- Without references both are the same set.
    rw [Element.classSurveyAll, Element.replaceReferencesInAll_of_set formed'] at formed
    cases formed.symm.trans formed'
    cases Except.ok.inj (made.symm.trans made')
    rw [set] at value
    subst value
    exact ⟨rfl, rfl, fun isRequired => .test⟩
  · rw [branches] at value
    subst value
    refine ⟨rfl, rfl, fun isRequired => ?_⟩
    obtain ⟨accepted, ⟨positive, negative, rfl⟩ | ⟨positive, negative, rfl⟩⟩ :=
      Survey.verdict_eq_set_iff.1 formed
    · have sound := Element.surveyAll_sound (d := c.domain)
        (Element.replaceReferencesInAll (Element.classes sets) alternatives)
      have all := branches_test plain calls alternatives allowed kept accepted negative
      exact (all.body isRequired).congr fun s => (sound.test_admits formed made rfl).symm
    · -- A negated set has no form with branches.
      rw [Element.classSurveyAll,
        replaceReferencesInAll_of_negative alternatives allowed kept accepted positive] at formed
      cases (unset _ formed).2

end CompileContext

end SetGrammar
