import SetGrammar.Proofs.Compilation.OneSet
import SetGrammar.Proofs.Compilation.RuleOrder

/-!
# Findings without formed sets

Whether alternatives may form sets makes no difference to what is reported. The
checks do not ask for it, and so a block has the same verdict either way, unless
its alternatives form a set that is not negated. Such a block is silent as a set.
As branches it is silent too: nothing below it is rejected, nothing below it is
negated, and the blocks that are nested in it only group, so that no label is lost.
-/
namespace SetGrammar

theorem SetChoice.negated_of_test {choice : SetChoice} {d : Domain} {t : SetTest}
    (made : choice.test d = .ok t) : t.negated = choice.negated := by
  obtain ⟨set, -, same⟩ := except_bind_eq_ok.1 made
  rw [← except_pure_eq_ok.1 same]

/-- A literal or a class has a test that is not negated. -/
theorem Element.negated_of_source {e : Element} {d : Domain} {source : SymbolSource} {t : SetTest}
    (found : e.source d = .ok source) (made : e.test d = .ok t) : t.negated = false := by
  cases e with
  | literal | charClass =>
    obtain ⟨_, -, tested⟩ := except_bind_eq_ok.1 made
    exact SetChoice.negated_of_test tested
  | sequence | reference | negated | block => cases found

theorem Reported.diagnostics_map {α β : Type} {x : Reported α} {f : α → β} :
    (f <$> x).diagnostics = x.diagnostics := List.append_nil _

namespace CompileContext

/-- The same rule under options that let alternatives form sets. -/
def forming (c : CompileContext) : CompileContext :=
  { c with options := { c.options with formSets := true } }

variable {c : CompileContext} {span : Span} {alternatives : List Element}

theorem rejection?_forming : c.forming.rejection? = c.rejection? :=
  rejection?_alike (.refl c.grammar)

theorem accepts_forming : c.forming.accepts = c.accepts := accepts_alike (.refl c.grammar)

theorem emptyComplement_forming : c.forming.emptyComplement = c.emptyComplement :=
  emptyComplement_alike (.refl c.grammar)

theorem symbol_forming (e : Element) : c.forming.symbol span e = c.symbol span e :=
  symbol_alike (.refl c.grammar) span e

/-- The options only matter to alternatives that form a set which is not negated. -/
theorem verdict_forming (c : CompileContext) (alternatives : List Element) :
    c.forming.verdict alternatives = c.verdict alternatives ∨
      c.verdict alternatives = .branches .disabled ∧
        ∃ choice, c.forming.verdict alternatives = .set choice ∧ choice.negated = false := by
  have forms : c.forming.options.formSets = true := rfl
  have domains : c.forming.domain = c.domain := rfl
  simp only [verdict, rejection?_forming, domains, forms, Bool.true_or, if_true]
  cases rejectionReason? (alternatives.filterMap c.rejection?) with
  | some reason => exact .inl rfl
  | none =>
    cases Verdict.ofAlternatives alternatives c.domain with
    | branches reason => exact .inl rfl
    | set choice =>
      by_cases allowed : (c.options.formSets || choice.negated) = true
      · exact .inl (if_pos allowed).symm
      · obtain ⟨-, positive⟩ := Bool.or_eq_false_iff.1 (Bool.eq_false_iff.2 allowed)
        exact .inr ⟨if_neg allowed, choice, rfl, positive⟩

theorem block_of_set (marks : BlockMarks) (branches : Reported (List CompiledSequence))
    {choice : SetChoice} (verdict : c.verdict alternatives = .set choice) :
    ∃ t, choice.test c.domain = .ok t ∧
      (c.block marks alternatives branches).diagnostics = c.emptyComplement marks.span t := by
  obtain ⟨_, t, verdict', tested, -, found⟩ | ⟨_, verdict', -, -⟩ :=
    c.block_outcome marks alternatives branches
  · cases verdict.symm.trans verdict'
    exact ⟨t, tested, found⟩
  · cases verdict.symm.trans verdict'

theorem block_of_branches (marks : BlockMarks) (branches : Reported (List CompiledSequence))
    {reason : BranchReason} (verdict : c.verdict alternatives = .branches reason) :
    (c.block marks alternatives branches).diagnostics =
      (alternatives.filterMap c.rejection?).map (c.rejectionDiagnostic marks.span) ++
        (c.misplacedLabel marks reason ++ branches.diagnostics) := by
  obtain ⟨_, _, verdict', -, -, -⟩ | ⟨_, verdict', -, found⟩ :=
    c.block_outcome marks alternatives branches
  · cases verdict.symm.trans verdict'
  · cases verdict.symm.trans verdict'
    exact found

/-! ## Branches in place of a set -/

theorem emptyComplement_of_positive {t : SetTest} (positive : t.negated = false) :
    c.emptyComplement span t = [] := by
  simp [emptyComplement, positive]

theorem symbol_silent {e : Element} {source : SymbolSource}
    (found : e.source c.domain = .ok source) : (c.symbol span e).diagnostics = [] := by
  obtain ⟨t, made⟩ := test_of_source found
  simp [symbol, made, emptyComplement_of_positive (Element.negated_of_source found made)]

/-- A block without a label is silent if nothing is rejected or negated in it and its
    branches are silent. -/
theorem block_silent {marks : BlockMarks} {branches : Reported (List CompiledSequence)}
    (unlabelled : marks.label = none) (accepted : ∀ e ∈ alternatives, c.accepts e = true)
    (positive : (Element.surveyAll c.domain alternatives).anyNegative = false)
    (silent : branches.diagnostics = []) :
    (c.block marks alternatives branches).diagnostics = [] := by
  obtain ⟨choice, t, verdict, tested, -, found⟩ | ⟨reason, -, -, found⟩ :=
    c.block_outcome marks alternatives branches
  · obtain ⟨-, formed, -⟩ := of_verdict_eq_set verdict
    rw [found]
    refine emptyComplement_of_positive ?_
    rw [SetChoice.negated_of_test tested, Bool.eq_false_iff]
    intro negated
    cases positive.symm.trans (anyNegative_of_negated formed negated)
  · rw [found, rejections_of_accepted accepted, misplacedLabel, unlabelled, silent]
    rfl

mutual

/-- An alternative that may be part of a set that is not negated is silent. -/
theorem element_silent (span : Span) : (e : Element) → (e.survey c.domain).reason = none →
    (e.survey c.domain).anyNegative = false → (c.element span e).diagnostics = []
  | .literal n, accepted, _ => by
    obtain ⟨source, found⟩ := source_of_accepted (e := .literal n) accepted
    exact symbol_silent found
  | .charClass set, accepted, _ => by
    obtain ⟨source, found⟩ := source_of_accepted (e := .charClass set) accepted
    exact symbol_silent found
  | .negated operand, accepted, positive => by
    obtain ⟨sources, found⟩ := negatedSources_of_accepted accepted
    simp [Element.survey, found, Survey.ofNegation] at positive
  | .reference _, accepted, _ | .sequence _, accepted, _ => by cases accepted
  | .block marks alternatives, accepted, positive => by
    unfold Element.survey at accepted positive
    by_cases grouping : marks.isPlain
    · rw [if_pos grouping] at accepted positive
      have unlabelled := (BlockMarks.isPlain_iff.1 grouping).2
      have passed (e) (member : e ∈ alternatives) : c.accepts e = true :=
        accepts_of_survey (Element.surveyAll_reason.1 accepted e member)
      have silent := block_silent unlabelled passed positive
        (branches_silent marks.span alternatives accepted positive)
      simp [element, silent]
    · rw [if_neg grouping] at accepted
      cases accepted

/-- Alternatives that may be part of a set that is not negated are silent. -/
theorem branches_silent (span : Span) : (alternatives : List Element) →
    (Element.surveyAll c.domain alternatives).reason = none →
    (Element.surveyAll c.domain alternatives).anyNegative = false →
    (c.branches span alternatives).diagnostics = []
  | [], _, _ => rfl
  | e :: rest, accepted, positive => by
    obtain ⟨accepted, acceptedRest⟩ := Survey.reason_append.1 accepted
    obtain ⟨positive, positiveRest⟩ := Bool.or_eq_false_iff.1 positive
    have first := element_silent span e accepted positive
    have others := branches_silent span rest acceptedRest positiveRest
    rw [branches_cons (accepts_of_survey accepted), alternative_of_survey accepted]
    simp [Reported.diagnostics_map, first, others]

end

/-! ## Blocks -/

theorem survey_of_positive {d : Domain} {choice : SetChoice}
    (formed : Verdict.ofAlternatives alternatives d = .set choice)
    (positive : choice.negated = false) :
    (Element.surveyAll d alternatives).reason = none ∧
      (Element.surveyAll d alternatives).anyNegative = false := by
  obtain ⟨accepted, ⟨-, unnegated, -⟩ | ⟨-, -, rfl⟩⟩ := Survey.verdict_eq_set_iff.1 formed
  · exact ⟨accepted, unnegated⟩
  · cases positive

/-- A block reports the same as a set and as branches, if its branches do. -/
theorem block_forming (marks : BlockMarks) {branches branches' : Reported (List CompiledSequence)}
    (same : branches'.diagnostics = branches.diagnostics)
    (silent : (Element.surveyAll c.domain alternatives).reason = none →
      (Element.surveyAll c.domain alternatives).anyNegative = false → branches.diagnostics = []) :
    (c.forming.block marks alternatives branches').diagnostics =
      (c.block marks alternatives branches).diagnostics := by
  rcases c.verdict_forming alternatives with verdicts | ⟨disabled, choice, forms, positive⟩
  · cases verdict : c.verdict alternatives with
    | set choice =>
      obtain ⟨t, tested, found⟩ := block_of_set marks branches verdict
      obtain ⟨t', tested', found'⟩ := block_of_set marks branches' (verdicts.trans verdict)
      cases Except.ok.inj (tested.symm.trans tested')
      rw [found, found', emptyComplement_forming]
    | branches reason =>
      rw [block_of_branches marks branches verdict,
        block_of_branches marks branches' (verdicts.trans verdict), rejection?_forming, same]
      rfl
  · -- a set that is not negated on one side, its branches on the other: both are silent
    obtain ⟨accepted, formed, -⟩ := of_verdict_eq_set forms
    rw [accepts_forming] at accepted
    obtain ⟨unrejected, unnegated⟩ := survey_of_positive formed positive
    obtain ⟨t, tested, found⟩ := block_of_set marks branches' forms
    rw [found, emptyComplement_of_positive ((SetChoice.negated_of_test tested).trans positive),
      block_of_branches marks branches disabled, rejections_of_accepted accepted,
      silent unrejected unnegated]
    cases named : marks.label <;> simp [misplacedLabel, named]

mutual

/-- What is reported about an element does not depend on whether sets are formed. -/
theorem element_forming (span : Span) : (e : Element) →
    (c.forming.element span e).diagnostics = (c.element span e).diagnostics
  | .reference _ => rfl
  | .literal _ | .charClass _ | .negated _ => congrArg Reported.diagnostics (symbol_forming _)
  | .sequence elements => by
    simp [element, items_forming span elements]
  | .block marks alternatives => by
    have same := branches_forming marks.span alternatives
    have blocks := block_forming marks same (branches_silent marks.span alternatives)
    simp [element, blocks]

theorem items_forming (span : Span) : (elements : List Element) →
    (c.forming.items span elements).diagnostics = (c.items span elements).diagnostics
  | [] => rfl
  | e :: rest => by
    simp [items, element_forming span e, items_forming span rest]

theorem branches_forming (span : Span) : (alternatives : List Element) →
    (c.forming.branches span alternatives).diagnostics =
      (c.branches span alternatives).diagnostics
  | [] => rfl
  | e :: rest => by
    have others := branches_forming span rest
    have one : (c.forming.alternative span e).diagnostics = (c.alternative span e).diagnostics := by
      cases e with
      | sequence elements => exact items_forming span elements
      | literal | charClass | negated | reference | block =>
        simp only [alternative, Reported.diagnostics_map, element_forming span _]
    by_cases accepted : c.accepts e
    · have formed : c.forming.accepts e := by rwa [accepts_forming]
      rw [branches_cons accepted, branches_cons formed]
      simp [one, others]
    · have formed : ¬ c.forming.accepts e := by rwa [accepts_forming]
      rw [branches, branches, if_neg accepted, if_neg formed, others]

end

end CompileContext

namespace Grammar

variable {g : Grammar}

theorem compiledBody_forming (inlineRules : Bool) (r : Rule) :
    (g.compiledBody ⟨true, inlineRules⟩ r).diagnostics =
      (g.compiledBody ⟨false, inlineRules⟩ r).diagnostics := by
  let c : CompileContext := ⟨g, ⟨false, inlineRules⟩, r⟩
  have same := CompileContext.branches_forming (c := c) r.body.marks.span (g.resolved c.options r)
  exact CompileContext.block_forming r.body.marks same (CompileContext.branches_silent _ _)

/-- A compilation reports the same findings in the same order whether alternatives
    may form sets or not, and so it refuses the same grammars for the same reasons. -/
theorem compile_findings_of_formSets (g : Grammar) (inlineRules : Bool) :
    let forming : CompileOptions := ⟨true, inlineRules⟩
    let branching : CompileOptions := ⟨false, inlineRules⟩
    (g.compile forming).diagnostics = (g.compile branching).diagnostics ∧
      ((∃ compiled, g.compileStrict forming = .ok compiled) ↔
        ∃ compiled, g.compileStrict branching = .ok compiled) ∧
      ∀ found, g.compileStrict forming = .error found ↔
        g.compileStrict branching = .error found := by
  intro forming branching
  have same : (g.compile forming).diagnostics = (g.compile branching).diagnostics := by
    rw [compile_diagnostics, compile_diagnostics]
    congr 2
    funext r
    exact compiledBody_forming inlineRules r
  refine ⟨same, ?_, fun found => ?_⟩
  · rw [compileStrict_isOk_iff, compileStrict_isOk_iff, same]
  · simp only [compileStrict, same]
    split <;> simp

end Grammar

end SetGrammar
