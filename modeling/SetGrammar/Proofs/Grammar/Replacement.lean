import SetGrammar.Grammar.Inlining
import SetGrammar.Proofs.Analysis.Survey

/-!
# Replaced references

A survey sees the exposed references only, and alternatives that form one set
have none, so that replacing references leaves them as they are. One symbol stands
for a reference, so that elements have the same alternatives and items before and
after references are replaced.
-/
namespace SetGrammar

namespace Element

/-- The classes that replace references. -/
def classes (sets : String → Option SymbolSet) (name : String) : Option Element :=
  classOf (sets name)

variable {replacement : String → Option Element} {d : Domain}

mutual

theorem negatedSources_replaceExposed : (e : Element) →
    (e.replaceExposed replacement).negatedSources d =
      (e.replaceReferences replacement).negatedSources d
  | .literal _ | .charClass _ | .reference _ | .sequence _ | .negated _ => rfl
  | .block marks alternatives => by
    simp only [replaceExposed, replaceReferences]
    by_cases plain : marks.isPlain
    · simp only [plain, if_true, negatedSources]
      exact negatedSourcesOfAll_replaceExposed alternatives
    · simp only [plain, Bool.false_eq_true, if_false, negatedSources]
      rfl

theorem negatedSourcesOfAll_replaceExposed : (elements : List Element) →
    negatedSourcesOfAll d (replaceExposedInAll replacement elements) =
      negatedSourcesOfAll d (replaceReferencesInAll replacement elements)
  | [] => rfl
  | e :: rest => by
    simp only [replaceExposedInAll, replaceReferencesInAll, negatedSourcesOfAll]
    rw [negatedSources_replaceExposed e, negatedSourcesOfAll_replaceExposed rest]

end

mutual

theorem survey_replaceExposed : (e : Element) →
    (e.replaceExposed replacement).survey d = (e.replaceReferences replacement).survey d
  | .literal _ | .charClass _ | .reference _ | .sequence _ => rfl
  | .negated operand => by
    simp only [replaceExposed, replaceReferences, survey]
    rw [negatedSources_replaceExposed operand]
  | .block marks alternatives => by
    simp only [replaceExposed, replaceReferences]
    by_cases plain : marks.isPlain
    · simp only [plain, if_true, survey]
      exact surveyAll_replaceExposed alternatives
    · simp only [plain, Bool.false_eq_true, if_false, survey]

theorem surveyAll_replaceExposed : (elements : List Element) →
    surveyAll d (replaceExposedInAll replacement elements) =
      surveyAll d (replaceReferencesInAll replacement elements)
  | [] => rfl
  | e :: rest => by
    simp only [replaceExposedInAll, replaceReferencesInAll, surveyAll_cons]
    rw [survey_replaceExposed e, surveyAll_replaceExposed rest]

end

mutual

theorem replaceReferences_of_negatedSources : (e : Element) → {sources : List SymbolSource} →
    e.negatedSources d = .ok sources → e.replaceReferences replacement = e
  | .literal _, _, _ | .charClass _, _, _ => rfl
  | .reference _, _, found | .sequence _, _, found | .negated _, _, found => by
    obtain ⟨_, single, -⟩ := except_bind_eq_ok.1 found
    cases single
  | .block marks alternatives, _, found => by
    unfold negatedSources at found
    split at found
    · rw [replaceReferences, replaceReferencesInAll_of_negatedSources alternatives found]
    · cases found

theorem replaceReferencesInAll_of_negatedSources : (elements : List Element) →
    {sources : List SymbolSource} → negatedSourcesOfAll d elements = .ok sources →
    replaceReferencesInAll replacement elements = elements
  | [], _, _ => rfl
  | e :: rest, _, found => by
    obtain ⟨_, one, found⟩ := except_bind_eq_ok.1 found
    obtain ⟨_, all, -⟩ := except_bind_eq_ok.1 found
    rw [replaceReferencesInAll, replaceReferences_of_negatedSources e one,
      replaceReferencesInAll_of_negatedSources rest all]

end

mutual

theorem replaceReferences_of_survey : (e : Element) → (e.survey d).reason = none →
    e.replaceReferences replacement = e
  | .literal _, _ | .charClass _, _ => rfl
  | .reference _, accepted | .sequence _, accepted => by cases accepted
  | .negated operand, accepted => by
    cases found : operand.negatedSources d with
    | ok => rw [replaceReferences, replaceReferences_of_negatedSources operand found]
    | error => simp [survey, found, Survey.ofNegation, Survey.against] at accepted
  | .block marks alternatives, accepted => by
    unfold survey at accepted
    split at accepted
    · rw [replaceReferences, replaceReferencesInAll_of_survey alternatives accepted]
    · cases accepted

theorem replaceReferencesInAll_of_survey : (elements : List Element) →
    (surveyAll d elements).reason = none → replaceReferencesInAll replacement elements = elements
  | [], _ => rfl
  | e :: rest, accepted => by
    obtain ⟨first, others⟩ := Survey.reason_append.1 accepted
    rw [replaceReferencesInAll, replaceReferences_of_survey e first,
      replaceReferencesInAll_of_survey rest others]

end

/-- Alternatives that form one set as they are have no references. -/
theorem replaceReferencesInAll_of_set {elements : List Element} {choice : SetChoice}
    (formed : Verdict.ofAlternatives elements d = .set choice) :
    replaceReferencesInAll replacement elements = elements :=
  replaceReferencesInAll_of_survey elements (Survey.verdict_eq_set_iff.1 formed).1

mutual

theorem replaceReferences_none : (e : Element) → e.replaceReferences (fun _ => none) = e
  | .literal _ | .charClass _ | .reference _ => rfl
  | .negated operand => by rw [replaceReferences, replaceReferences_none operand]
  | .sequence items => by rw [replaceReferences, replaceReferencesInAll_none items]
  | .block marks alternatives => by
    rw [replaceReferences, replaceReferencesInAll_none alternatives]

theorem replaceReferencesInAll_none : (elements : List Element) →
    replaceReferencesInAll (fun _ => none) elements = elements
  | [] => rfl
  | e :: rest => by
    rw [replaceReferencesInAll, replaceReferences_none e, replaceReferencesInAll_none rest]

end

/-! ## What stands for references -/

/-- Only a literal or a class stands for a reference. -/
def IsLeafReplacement (replacement : String → Option Element) : Prop :=
  ∀ name e, replacement name = some e → (∃ s, e = .literal s) ∨ ∃ set, e = .charClass set

theorem isLeafReplacement_classOf (sets : String → Option SymbolSet) :
    IsLeafReplacement fun name => classOf (sets name) := by
  intro name e found
  obtain ⟨set, -, rfl⟩ := Option.map_eq_some_iff.1 found
  exact .inr ⟨set, rfl⟩

mutual

/-- References in an element became literals or classes and nothing else changed. At
    every level the alternatives or items are the same in number and in order. -/
inductive ResolvesTo : Element → Element → Prop where
  | literal {symbol : Nat} : ResolvesTo (.literal symbol) (.literal symbol)
  | charClass {set : SymbolSet} : ResolvesTo (.charClass set) (.charClass set)
  | kept {name : String} : ResolvesTo (.reference name) (.reference name)
  | toLiteral {name : String} {symbol : Nat} : ResolvesTo (.reference name) (.literal symbol)
  | toClass {name : String} {set : SymbolSet} : ResolvesTo (.reference name) (.charClass set)
  | negated {operand operand' : Element} :
      ResolvesTo operand operand' → ResolvesTo (.negated operand) (.negated operand')
  | sequence {items items' : List Element} :
      AllResolveTo items items' → ResolvesTo (.sequence items) (.sequence items')
  | block {marks : BlockMarks} {alternatives alternatives' : List Element} :
      AllResolveTo alternatives alternatives' →
      ResolvesTo (.block marks alternatives) (.block marks alternatives')

/-- Each of several elements became one, in order. -/
inductive AllResolveTo : List Element → List Element → Prop where
  | nil : AllResolveTo [] []
  | cons {e e' : Element} {rest rest' : List Element} :
      ResolvesTo e e' → AllResolveTo rest rest' → AllResolveTo (e :: rest) (e' :: rest')

end

mutual

theorem resolvesTo_replaceReferences (leaves : IsLeafReplacement replacement) :
    (e : Element) → ResolvesTo e (e.replaceReferences replacement)
  | .literal _ => .literal
  | .charClass _ => .charClass
  | .reference name => by
    rw [replaceReferences]
    cases found : replacement name with
    | none => exact .kept
    | some e =>
      obtain ⟨symbol, rfl⟩ | ⟨set, rfl⟩ := leaves name e found
      · exact .toLiteral
      · exact .toClass
  | .negated operand => .negated (resolvesTo_replaceReferences leaves operand)
  | .sequence items => .sequence (allResolveTo_replaceReferencesInAll leaves items)
  | .block _ alternatives => .block (allResolveTo_replaceReferencesInAll leaves alternatives)

theorem allResolveTo_replaceReferencesInAll (leaves : IsLeafReplacement replacement) :
    (elements : List Element) →
    AllResolveTo elements (replaceReferencesInAll replacement elements)
  | [] => .nil
  | e :: rest =>
    .cons (resolvesTo_replaceReferences leaves e) (allResolveTo_replaceReferencesInAll leaves rest)

end

theorem replaceReferencesInAll_eq_map (elements : List Element) :
    replaceReferencesInAll replacement elements =
      elements.map (·.replaceReferences replacement) := by
  induction elements with
  | nil => rfl
  | cons e rest ih => rw [replaceReferencesInAll, ih, List.map_cons]

end Element

theorem Grammar.isLeafReplacement_replacement? (g : Grammar) (table : InlineTable)
    (kind : RuleKind) : Element.IsLeafReplacement (g.replacement? table kind) := by
  cases kind with
  | lexer => exact Element.isLeafReplacement_classOf table.find?
  | parser =>
    intro name e found
    obtain ⟨r, -, made⟩ := Option.bind_eq_some_iff.1 found
    split at made
    · obtain ⟨tokenType, -, rfl⟩ := Option.map_eq_some_iff.1 made
      exact .inl ⟨tokenType, rfl⟩
    · cases made

end SetGrammar
