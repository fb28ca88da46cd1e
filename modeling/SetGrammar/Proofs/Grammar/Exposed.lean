import SetGrammar.Proofs.Grammar.Replacement

/-!
# Replaced exposed references

Replacing exposed references looks at the replacements of these references only,
and alternatives form one set afterwards only if each of them had one.
-/
namespace SetGrammar.Element

variable {d : Domain} {replacement other : String → Option Element}

mutual

theorem replaceExposed_congr : (e : Element) →
    (∀ target ∈ e.exposedReferences, replacement target = other target) →
    e.replaceExposed replacement = e.replaceExposed other
  | .literal _, _ | .charClass _, _ | .sequence _, _ => rfl
  | .reference name, agree => by
    rw [replaceExposed, replaceExposed, agree name (List.mem_singleton.2 rfl)]
  | .negated operand, agree => by
    rw [replaceExposed, replaceExposed, replaceExposed_congr operand agree]
  | .block marks alternatives, agree => by
    by_cases plain : marks.isPlain
    · simp only [exposedReferences, plain, if_true] at agree
      simp only [replaceExposed, plain, if_true, replaceExposedInAll_congr alternatives agree]
    · simp only [replaceExposed, plain, Bool.false_eq_true, if_false]

theorem replaceExposedInAll_congr : (elements : List Element) →
    (∀ target ∈ exposedReferencesOfAll elements, replacement target = other target) →
    replaceExposedInAll replacement elements = replaceExposedInAll other elements
  | [], _ => rfl
  | e :: rest, agree => by
    rw [replaceExposedInAll, replaceExposedInAll,
      replaceExposed_congr e fun target member => agree target (List.mem_append_left _ member),
      replaceExposedInAll_congr rest fun target member =>
        agree target (List.mem_append_right _ member)]

end

mutual

theorem replacement_of_negatedSources : (e : Element) → {sources : List SymbolSource} →
    (e.replaceExposed replacement).negatedSources d = .ok sources →
    ∀ target ∈ e.exposedReferences, (replacement target).isSome
  | .literal _, _, _ | .charClass _, _, _ | .sequence _, _, _ => nofun
  | .reference name, _, found => by
    intro target member
    rw [List.mem_singleton.1 member]
    cases known : replacement name with
    | some => rfl
    | none =>
      rw [replaceExposed, known] at found
      cases found
  | .negated _, _, found => by cases found
  | .block marks alternatives, _, found => by
    intro target member
    by_cases plain : marks.isPlain
    · simp only [exposedReferences, plain, if_true] at member
      simp only [replaceExposed, plain, if_true, negatedSources] at found
      exact replacement_of_negatedSourcesOfAll alternatives found target member
    · simp only [exposedReferences, plain, Bool.false_eq_true, if_false] at member
      cases member

theorem replacement_of_negatedSourcesOfAll : (elements : List Element) →
    {sources : List SymbolSource} →
    negatedSourcesOfAll d (replaceExposedInAll replacement elements) = .ok sources →
    ∀ target ∈ exposedReferencesOfAll elements, (replacement target).isSome
  | [], _, _ => nofun
  | e :: rest, _, found => by
    obtain ⟨_, one, found⟩ := except_bind_eq_ok.1 found
    obtain ⟨_, all, -⟩ := except_bind_eq_ok.1 found
    intro target member
    rcases List.mem_append.1 member with member | member
    · exact replacement_of_negatedSources e one target member
    · exact replacement_of_negatedSourcesOfAll rest all target member

end

mutual

theorem replacement_of_survey : (e : Element) →
    ((e.replaceExposed replacement).survey d).reason = none →
    ∀ target ∈ e.exposedReferences, (replacement target).isSome
  | .literal _, _ | .charClass _, _ | .sequence _, _ => nofun
  | .reference name, accepted => by
    intro target member
    rw [List.mem_singleton.1 member]
    cases known : replacement name with
    | some => rfl
    | none =>
      rw [replaceExposed, known] at accepted
      cases accepted
  | .negated operand, accepted => by
    cases found : (operand.replaceExposed replacement).negatedSources d with
    | ok => exact replacement_of_negatedSources operand found
    | error => simp [replaceExposed, survey, found, Survey.ofNegation, Survey.against] at accepted
  | .block marks alternatives, accepted => by
    intro target member
    by_cases plain : marks.isPlain
    · simp only [exposedReferences, plain, if_true] at member
      simp only [replaceExposed, plain, if_true, survey] at accepted
      exact replacement_of_surveyAll alternatives accepted target member
    · simp only [exposedReferences, plain, Bool.false_eq_true, if_false] at member
      cases member

theorem replacement_of_surveyAll : (elements : List Element) →
    (surveyAll d (replaceExposedInAll replacement elements)).reason = none →
    ∀ target ∈ exposedReferencesOfAll elements, (replacement target).isSome
  | [], _ => nofun
  | e :: rest, accepted => by
    obtain ⟨first, others⟩ := Survey.reason_append.1 accepted
    intro target member
    rcases List.mem_append.1 member with member | member
    · exact replacement_of_survey e first target member
    · exact replacement_of_surveyAll rest others target member

end

/-- Alternatives that form one set leave no exposed reference. -/
theorem replacement_of_formed {alternatives : List Element} {choice : SetChoice}
    (formed : Verdict.ofAlternatives (replaceExposedInAll replacement alternatives) d =
      .set choice) :
    ∀ target ∈ exposedReferencesOfAll alternatives, (replacement target).isSome :=
  replacement_of_surveyAll alternatives (Survey.verdict_eq_set_iff.1 formed).1

end SetGrammar.Element
