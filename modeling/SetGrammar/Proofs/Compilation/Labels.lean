import SetGrammar.Proofs.Compilation.Rules

/-!
# Labels

The labels in the body of a rule and in what it compiles to, in order. What one
symbol stands for has no labels inside, so a set only has that of its block, and
resolving references neither adds nor removes one.
-/
namespace SetGrammar

mutual

/-- The labels in an element in order. -/
def Element.labels : Element → List String
  | .literal _ | .charClass _ | .reference _ => []
  | .sequence items => Element.labelsOfAll items
  | .negated operand => operand.labels
  | .block marks alternatives => marks.label.toList ++ Element.labelsOfAll alternatives

/-- The labels in several elements in order. -/
def Element.labelsOfAll : List Element → List String
  | [] => []
  | e :: rest => e.labels ++ Element.labelsOfAll rest

end

/-- The label of a block and those in it. -/
def Block.labels (b : Block) : List String :=
  b.marks.label.toList ++ Element.labelsOfAll b.alternatives

mutual

/-- The label of a compiled block and those in it. -/
def CompiledBlock.labels : CompiledBlock → List String
  | .set t => t.label.toList
  | .branches alternatives _ label _ => label.toList ++ labelsOfBranches alternatives

/-- The labels in a compiled element. -/
def CompiledElement.labels : CompiledElement → List String
  | .set t => t.label.toList
  | .call _ => []
  | .block b => b.labels

/-- The labels in a compiled sequence. -/
def labelsOfSequence : List CompiledElement → List String
  | [] => []
  | e :: rest => e.labels ++ labelsOfSequence rest

/-- The labels in compiled alternatives. -/
def labelsOfBranches : List (List CompiledElement) → List String
  | [] => []
  | alternative :: rest => labelsOfSequence alternative ++ labelsOfBranches rest

end

namespace Element

variable {d : Domain}

theorem labels_of_source {e : Element} {source : SymbolSource} (found : e.source d = .ok source) :
    e.labels = [] := by
  cases e with
  | literal | charClass => rfl
  | sequence | reference | negated | block => cases found

theorem labelsOfAll_items (e : Element) : labelsOfAll e.items = e.labels := by
  cases e with
  | sequence => rfl
  | literal | charClass | reference | negated | block => exact List.append_nil _

mutual

theorem labels_of_negatedSources : (e : Element) → {sources : List SymbolSource} →
    e.negatedSources d = .ok sources → e.labels = []
  | .literal _, _, _ | .charClass _, _, _ => rfl
  | .reference _, _, found | .sequence _, _, found | .negated _, _, found => by
    obtain ⟨_, single, -⟩ := except_bind_eq_ok.1 found
    cases single
  | .block marks alternatives, _, found => by
    unfold negatedSources at found
    split at found
    · rename_i grouping
      rw [labels, (BlockMarks.isPlain_iff.1 grouping).2,
        labelsOfAll_of_negatedSources alternatives found]
      rfl
    · cases found

theorem labelsOfAll_of_negatedSources : (elements : List Element) →
    {sources : List SymbolSource} → negatedSourcesOfAll d elements = .ok sources →
    labelsOfAll elements = []
  | [], _, _ => rfl
  | e :: rest, _, found => by
    obtain ⟨_, one, found⟩ := except_bind_eq_ok.1 found
    obtain ⟨_, all, -⟩ := except_bind_eq_ok.1 found
    rw [labelsOfAll, labels_of_negatedSources e one, labelsOfAll_of_negatedSources rest all]
    rfl

end

mutual

theorem labels_of_survey : (e : Element) → (e.survey d).reason = none → e.labels = []
  | .literal _, _ | .charClass _, _ => rfl
  | .reference _, accepted | .sequence _, accepted => by cases accepted
  | .negated operand, accepted => by
    cases found : operand.negatedSources d with
    | ok => exact labels_of_negatedSources operand found
    | error => simp [survey, found, Survey.ofNegation, Survey.against] at accepted
  | .block marks alternatives, accepted => by
    unfold survey at accepted
    split at accepted
    · rename_i grouping
      rw [labels, (BlockMarks.isPlain_iff.1 grouping).2,
        labelsOfAll_of_survey alternatives accepted]
      rfl
    · cases accepted

theorem labelsOfAll_of_survey : (elements : List Element) →
    (surveyAll d elements).reason = none → labelsOfAll elements = []
  | [], _ => rfl
  | e :: rest, accepted => by
    obtain ⟨first, others⟩ := Survey.reason_append.1 accepted
    rw [labelsOfAll, labels_of_survey e first, labelsOfAll_of_survey rest others]
    rfl

end

/-- Alternatives that form one set have no labels. -/
theorem labelsOfAll_of_set {elements : List Element} {choice : SetChoice}
    (formed : Verdict.ofAlternatives elements d = .set choice) : labelsOfAll elements = [] :=
  labelsOfAll_of_survey elements (Survey.verdict_eq_set_iff.1 formed).1

theorem labels_of_test {e : Element} {t : SetTest} (made : e.test d = .ok t) : e.labels = [] := by
  cases e with
  | negated operand =>
    obtain ⟨_, found, -⟩ := except_bind_eq_ok.1 made
    exact labels_of_negatedSources operand found
  | literal | charClass | sequence | reference | block =>
    obtain ⟨_, found, -⟩ := except_bind_eq_ok.1 made
    exact labels_of_source found

mutual

/-- Resolving an element neither adds nor removes a label. -/
theorem ResolvesTo.labels {e e' : Element} : ResolvesTo e e' → e'.labels = e.labels
  | .literal | .charClass | .kept | .toLiteral | .toClass => rfl
  | .negated operand => operand.labels
  | .sequence items => items.labels
  | .block alternatives => congrArg (_ ++ ·) alternatives.labels

theorem AllResolveTo.labels {elements elements' : List Element} :
    AllResolveTo elements elements' → labelsOfAll elements' = labelsOfAll elements
  | .nil => rfl
  | .cons first rest => by rw [labelsOfAll, labelsOfAll, first.labels, rest.labels]

end

end Element

end SetGrammar
