import SetGrammar.Proofs.Compilation.KeptBranches

/-!
# Compiling alternatives of one set

Nothing is rejected among alternatives that form one set, however deep they are
nested. So they compile without errors under all options, and what they compile
to tests the symbols of the set.
-/
namespace SetGrammar

theorem Element.check_of_source {e : Element} {d : Domain} {source : SymbolSource}
    (found : e.source d = .ok source) : e.check d = .ok () := by
  cases e with
  | literal | charClass => exact except_bind_eq_ok.2 ⟨source, found, rfl⟩
  | sequence | reference | negated | block => cases found

theorem Element.classSurvey_none {d : Domain} (e : Element) :
    e.classSurvey d (fun _ => none) = e.survey d :=
  congrArg (survey d) (replaceReferences_none e)

theorem Element.classSurveyAll_none {d : Domain} (elements : List Element) :
    classSurveyAll d (fun _ => none) elements = surveyAll d elements :=
  congrArg (surveyAll d) (replaceReferencesInAll_none elements)

namespace CompileContext

open Reported

variable {c : CompileContext} {span : Span}

theorem domain_of_lexer (lexer : c.rule.kind = .lexer) : c.domain = .lexer := by
  rw [domain, lexer]
  rfl

theorem negatedSources_of_accepted {operand : Element} {d : Domain}
    (accepted : ((Element.negated operand).survey d).reason = none) :
    ∃ sources, operand.negatedSources d = .ok sources := by
  cases found : operand.negatedSources d with
  | ok sources => exact ⟨sources, rfl⟩
  | error => simp [Element.survey, found, Survey.ofNegation, Survey.against] at accepted

/-- An alternative that may be part of a set passes all checks. -/
theorem accepts_of_survey {e : Element} (accepted : (e.survey c.domain).reason = none) :
    c.accepts e = true := by
  cases e with
  | literal n =>
    obtain ⟨source, found⟩ := source_of_accepted (e := .literal n) accepted
    exact accepts_iff.2 ⟨Element.check_of_source found, rfl⟩
  | charClass set =>
    obtain ⟨source, found⟩ := source_of_accepted (e := .charClass set) accepted
    exact accepts_iff.2 ⟨Element.check_of_source found, rfl⟩
  | negated operand =>
    obtain ⟨sources, found⟩ := negatedSources_of_accepted accepted
    exact accepts_iff.2 ⟨except_bind_eq_ok.2 ⟨sources, found, rfl⟩, rfl⟩
  | block => rfl
  | sequence | reference => cases accepted

theorem emptyComplement_isError {t : SetTest} :
    ∀ d ∈ c.emptyComplement span t, d.isError = false := by
  unfold emptyComplement
  split
  · simp [diagnostic, Diagnostic.isError, Diagnostic.severity, DiagnosticKind.severity]
  · simp

/-- A literal, a class or a negation that has a test compiles to it. -/
theorem symbol_of_test {e : Element} {t : SetTest} (made : e.test c.domain = .ok t) :
    (c.symbol span e).Clean ∧ (c.symbol span e).value = some (.set (.ofTest t)) := by
  simp only [symbol, made]
  exact ⟨clean_bind.2 ⟨clean_report.2 emptyComplement_isError, clean_pure⟩, rfl⟩

/-- A literal or a class that may be part of a set has a test. -/
theorem test_of_source {e : Element} {d : Domain} {source : SymbolSource}
    (found : e.source d = .ok source) : ∃ t, e.test d = .ok t := by
  have sound := Survey.sound_ofSource (d := d) (e := e)
  rw [found] at sound
  obtain ⟨set, made, -⟩ := sound.test_ok rfl
  cases e with
  | literal | charClass => exact ⟨_, except_bind_eq_ok.2 ⟨source, found, made⟩⟩
  | sequence | reference | negated | block => cases found

theorem test_of_negatedSources {operand : Element} {d : Domain} {sources : List SymbolSource}
    (found : operand.negatedSources d = .ok sources) :
    ∃ t, (Element.negated operand).test d = .ok t := by
  have sound := Survey.sound_ofNegation (d := d) (e := operand)
  rw [found] at sound
  obtain ⟨set, made, -⟩ := sound.test_ok rfl
  exact ⟨_, except_bind_eq_ok.2 ⟨sources, found, made⟩⟩

/-- A block without a label compiles without errors if its alternatives do. -/
theorem block_clean_of_accepted {marks : BlockMarks} {alternatives : List Element}
    {branches : Reported (List CompiledSequence)} (unlabelled : marks.label = none)
    (accepted : ∀ e ∈ alternatives, c.accepts e = true) (clean : branches.Clean) :
    (c.block marks alternatives branches).Clean := by
  obtain ⟨choice, t, -, -, -, found⟩ | ⟨reason, -, -, found⟩ :=
    c.block_outcome marks alternatives branches
  · rw [Clean, found]
    exact emptyComplement_isError
  · rw [Clean, found, rejections_of_accepted accepted, misplacedLabel, unlabelled]
    exact clean

theorem alternative_of_survey {e : Element} (accepted : (e.survey c.domain).reason = none) :
    c.alternative span e = Option.toList <$> c.element span e := by
  rw [← Element.classSurvey_none] at accepted
  exact alternative_single accepted

mutual

/-- An alternative that may be part of a set compiles without errors. -/
theorem element_clean_of_survey {span : Span} : (e : Element) →
    (e.survey c.domain).reason = none → (c.element span e).Clean
  | .literal n, accepted => by
    obtain ⟨source, found⟩ := source_of_accepted (e := .literal n) accepted
    obtain ⟨t, made⟩ := test_of_source found
    exact (symbol_of_test made).1
  | .charClass set, accepted => by
    obtain ⟨source, found⟩ := source_of_accepted (e := .charClass set) accepted
    obtain ⟨t, made⟩ := test_of_source found
    exact (symbol_of_test made).1
  | .negated operand, accepted => by
    obtain ⟨sources, found⟩ := negatedSources_of_accepted accepted
    obtain ⟨t, made⟩ := test_of_negatedSources found
    exact (symbol_of_test made).1
  | .reference _, accepted | .sequence _, accepted => by cases accepted
  | .block marks alternatives, accepted => by
    unfold Element.survey at accepted
    by_cases grouping : marks.isPlain
    · rw [if_pos grouping] at accepted
      obtain ⟨passed, clean⟩ := branches_clean_of_survey alternatives accepted
      have unlabelled := (BlockMarks.isPlain_iff.1 grouping).2
      exact clean_bind.2 ⟨block_clean_of_accepted unlabelled passed clean, clean_pure⟩
    · rw [if_neg grouping] at accepted
      cases accepted

/-- Alternatives that may be part of a set are all kept and compile without
    errors. -/
theorem branches_clean_of_survey {span : Span} : (alternatives : List Element) →
    (Element.surveyAll c.domain alternatives).reason = none →
    (∀ e ∈ alternatives, c.accepts e = true) ∧ (c.branches span alternatives).Clean
  | [], _ => ⟨nofun, clean_pure⟩
  | e :: rest, accepted => by
    obtain ⟨first, others⟩ := Survey.reason_append.1 accepted
    obtain ⟨passed, clean⟩ := branches_clean_of_survey rest others
    refine ⟨List.forall_mem_cons.2 ⟨accepts_of_survey first, passed⟩, ?_⟩
    rw [branches_cons (accepts_of_survey first), alternative_of_survey first]
    exact clean_bind.2
      ⟨clean_map.2 (element_clean_of_survey e first), clean_bind.2 ⟨clean, clean_pure⟩⟩

end

/-- A block whose alternatives form one set tests the symbols of the set, whether
    it becomes a set or keeps its branches. -/
theorem block_tests_of_set {g : CompiledGrammar} {marks : BlockMarks}
    {alternatives : List Element} {choice : SetChoice} {t : SetTest} {block : CompiledBlock}
    (unlabelled : marks.label = none)
    (value : (c.block marks alternatives (c.branches span alternatives)).value = block)
    (formed : Verdict.ofAlternatives alternatives c.domain = .set choice)
    (made : choice.test c.domain = .ok t) :
    block.quantifier = marks.quantifier ∧ block.label = marks.label ∧
      ∀ isRequired, g.Tests (.body block.body isRequired) fun s => t.admits (some s) = true := by
  obtain ⟨passed, branches⟩ := branches_clean_of_survey alternatives
    (Survey.verdict_eq_set_iff.1 formed).1
  have clean := block_clean_of_accepted unlabelled passed branches
  cases forms : c.options.formSets with
  | false =>
    have calls : g.CallsTest c.domain fun _ => none := by simp [CompiledGrammar.CallsTest]
    rw [Verdict.ofAlternatives, ← Element.classSurveyAll_none] at formed
    exact block_tests forms calls clean value formed made
  | true =>
    obtain ⟨-, ⟨choice', t', formed', -, made', set⟩ | ⟨-, -, unset, -⟩⟩ := block_clean clean
    · cases formed.symm.trans formed'
      cases Except.ok.inj (made.symm.trans made')
      rw [set] at value
      subst value
      exact ⟨rfl, rfl, fun isRequired => .test⟩
    · cases forms.symm.trans (unset choice formed).1

end CompileContext

end SetGrammar
