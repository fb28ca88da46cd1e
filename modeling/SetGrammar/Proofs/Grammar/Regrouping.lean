import SetGrammar.Proofs.Compilation.Rules
import SetGrammar.Proofs.Grammar.Replacement

/-!
# Sequences inside sequences

A sequence that stands directly inside another only groups items. Dissolving such
sequences takes every grammar to a flat one, and grammars with the same flat form
differ in nothing but the grouping. Whatever is looked up, checked or inlined is
the same in the flat form.
-/
namespace SetGrammar

namespace Element

mutual

/-- An element in which no sequence stands directly inside another. -/
def flat : Element → Element
  | sequence items => sequence (flatItems items)
  | negated operand => negated operand.flat
  | block marks alternatives => block marks (flatAll alternatives)
  | element => element

/-- The items of a sequence, with those of the sequences among them. -/
def flatItems : List Element → List Element
  | [] => []
  | e :: rest => e.flat.items ++ flatItems rest

/-- Several elements in which no sequence stands directly inside another. -/
def flatAll : List Element → List Element
  | [] => []
  | e :: rest => e.flat :: flatAll rest

end

theorem flatItems_append (before after : List Element) :
    flatItems (before ++ after) = flatItems before ++ flatItems after := by
  induction before with
  | nil => rfl
  | cons e rest ih => rw [List.cons_append, flatItems, flatItems, ih, List.append_assoc]

/-- Items may be grouped by a sequence among them, which may be empty or hold one item. -/
theorem flat_sequence_grouped (before inner after : List Element) :
    (sequence (before ++ sequence inner :: after)).flat =
      (sequence (before ++ inner ++ after)).flat := by
  simp only [flat, flatItems_append, flatItems, items, List.append_assoc]

variable {d : Domain}

/-! ## What is found in an element -/

mutual

theorem negatedSources_flat : (e : Element) → e.flat.negatedSources d = e.negatedSources d
  | .literal _ | .charClass _ | .reference _ | .sequence _ | .negated _ => rfl
  | .block marks alternatives => by
    rw [flat, negatedSources, negatedSources, negatedSourcesOfAll_flat alternatives]
    rfl

theorem negatedSourcesOfAll_flat : (elements : List Element) →
    negatedSourcesOfAll d (flatAll elements) = negatedSourcesOfAll d elements
  | [] => rfl
  | e :: rest => by
    rw [flatAll, negatedSourcesOfAll, negatedSourcesOfAll, negatedSources_flat e,
      negatedSourcesOfAll_flat rest]

end

mutual

theorem survey_flat : (e : Element) → e.flat.survey d = e.survey d
  | .literal _ | .charClass _ | .reference _ | .sequence _ => rfl
  | .negated operand => congrArg Survey.ofNegation (negatedSources_flat operand)
  | .block marks alternatives => by rw [flat, survey, survey, surveyAll_flat alternatives]

theorem surveyAll_flat : (elements : List Element) →
    surveyAll d (flatAll elements) = surveyAll d elements
  | [] => rfl
  | e :: rest => by rw [flatAll, surveyAll, surveyAll, survey_flat e, surveyAll_flat rest]

end

theorem ofAlternatives_flatAll (alternatives : List Element) (d : Domain) :
    Verdict.ofAlternatives (flatAll alternatives) d = Verdict.ofAlternatives alternatives d :=
  congrArg Survey.verdict (surveyAll_flat alternatives)

theorem checkAll_append (before after : List Element) :
    checkAll d (before ++ after) = (do checkAll d before; checkAll d after) := by
  induction before with
  | nil => rfl
  | cons e rest ih => rw [List.cons_append, checkAll, checkAll, ih, bind_assoc]

theorem checkAll_items (e : Element) : checkAll d e.items = e.check d := by
  cases e with
  | sequence items => rfl
  | literal | charClass | reference | negated | block => exact bind_pure _

mutual

theorem check_flat : (e : Element) → e.flat.check d = e.check d
  | .literal _ | .charClass _ | .reference _ | .block _ _ => rfl
  | .sequence items => checkAll_flatItems items
  | .negated operand => congrArg discard (negatedSources_flat operand)

theorem checkAll_flatItems : (items : List Element) →
    checkAll d (flatItems items) = checkAll d items
  | [] => rfl
  | e :: rest => by
    rw [flatItems, checkAll_append, checkAll_items, checkAll, check_flat e, checkAll_flatItems rest]

end

mutual

theorem exposedReferences_flat : (e : Element) → e.flat.exposedReferences = e.exposedReferences
  | .literal _ | .charClass _ | .reference _ | .sequence _ => rfl
  | .negated operand => exposedReferences_flat operand
  | .block marks alternatives => by
    rw [flat, exposedReferences, exposedReferences, exposedReferencesOfAll_flat alternatives]

theorem exposedReferencesOfAll_flat : (elements : List Element) →
    exposedReferencesOfAll (flatAll elements) = exposedReferencesOfAll elements
  | [] => rfl
  | e :: rest => by
    rw [flatAll, exposedReferencesOfAll, exposedReferencesOfAll, exposedReferences_flat e,
      exposedReferencesOfAll_flat rest]

end

/-! ## Replaced references -/

variable {replacement : String → Option Element}

theorem replaceReferencesInAll_append (before after : List Element) :
    replaceReferencesInAll replacement (before ++ after) =
      replaceReferencesInAll replacement before ++ replaceReferencesInAll replacement after := by
  simp only [replaceReferencesInAll_eq_map, List.map_append]

theorem flat_replacement (leaves : IsLeafReplacement replacement) (name : String) :
    ((replacement name).getD (.reference name)).flat =
        (replacement name).getD (.reference name) ∧
      ((replacement name).getD (.reference name)).items =
        [(replacement name).getD (.reference name)] := by
  cases found : replacement name with
  | none => exact ⟨rfl, rfl⟩
  | some e =>
    obtain ⟨s, rfl⟩ | ⟨set, rfl⟩ := leaves name e found
    · exact ⟨rfl, rfl⟩
    · exact ⟨rfl, rfl⟩

/-- Replacing references in the items of an element. -/
theorem items_replaceReferences (leaves : IsLeafReplacement replacement) (e : Element) :
    (e.replaceReferences replacement).items = replaceReferencesInAll replacement e.items := by
  cases e with
  | reference name => exact (flat_replacement leaves name).2
  | literal | charClass | sequence | negated | block => rfl

mutual

theorem flat_replaceReferences (leaves : IsLeafReplacement replacement) : (e : Element) →
    (e.replaceReferences replacement).flat = e.flat.replaceReferences replacement
  | .literal _ | .charClass _ => rfl
  | .reference name => (flat_replacement leaves name).1
  | .negated operand => congrArg negated (flat_replaceReferences leaves operand)
  | .block marks alternatives =>
    congrArg (block marks) (flatAll_replaceReferences leaves alternatives)
  | .sequence items => congrArg sequence (flatItems_replaceReferences leaves items)

theorem flatItems_replaceReferences (leaves : IsLeafReplacement replacement) :
    (items : List Element) →
    flatItems (replaceReferencesInAll replacement items) =
      replaceReferencesInAll replacement (flatItems items)
  | [] => rfl
  | e :: rest => by
    rw [replaceReferencesInAll, flatItems, flatItems, replaceReferencesInAll_append,
      flat_replaceReferences leaves e, items_replaceReferences leaves,
      flatItems_replaceReferences leaves rest]

theorem flatAll_replaceReferences (leaves : IsLeafReplacement replacement) :
    (elements : List Element) →
    flatAll (replaceReferencesInAll replacement elements) =
      replaceReferencesInAll replacement (flatAll elements)
  | [] => rfl
  | e :: rest => by
    rw [replaceReferencesInAll, flatAll, flatAll, replaceReferencesInAll,
      flat_replaceReferences leaves e, flatAll_replaceReferences leaves rest]

end

end Element

/-- A rule with a flat body. -/
def Rule.flat (r : Rule) : Rule :=
  { r with body := { r.body with alternatives := Element.flatAll r.body.alternatives } }

namespace Grammar

/-- A grammar with flat rules. -/
def flat (g : Grammar) : Grammar :=
  { g with
    rules := g.rules.map Rule.flat
    distinct := by
      rw [List.map_map]
      exact g.distinct }

variable {g : Grammar} {options : CompileOptions}

theorem rule?_flat (name : String) : g.flat.rule? name = (g.rule? name).map Rule.flat :=
  List.find?_map

end Grammar

/-! ## The inline table -/

theorem formedSet?_flat (sets : String → Option SymbolSet) (alternatives : List Element) :
    formedSet? (Element.replaceExposedInAll (fun name => Element.classOf (sets name))
        (Element.flatAll alternatives)) =
      formedSet? (Element.replaceExposedInAll (fun name => Element.classOf (sets name))
        alternatives) := by
  have leaves := Element.isLeafReplacement_classOf sets
  have same : Verdict.ofAlternatives (Element.replaceExposedInAll
        (fun name => Element.classOf (sets name)) (Element.flatAll alternatives)) .lexer =
      Verdict.ofAlternatives (Element.replaceExposedInAll
        (fun name => Element.classOf (sets name)) alternatives) .lexer := by
    rw [Verdict.ofAlternatives, Verdict.ofAlternatives, Element.surveyAll_replaceExposed,
      Element.surveyAll_replaceExposed, ← Element.flatAll_replaceReferences leaves,
      Element.surveyAll_flat]
  rw [formedSet?, formedSet?, same]

namespace InlineSearch

variable {g : Grammar}

/-- The search goes the same ways in the flat form. -/
theorem resolve_flat (depth : Nat) (path : List String) (name : String) :
    resolve g.flat depth path name = resolve g depth path name := by
  induction depth generalizing path name with
  | zero => rfl
  | succ depth ih =>
    funext s
    simp only [resolve, get_bind_apply, Grammar.rule?_flat, ih]
    cases s.settled.lookup name with
    | some set => rfl
    | none =>
      cases g.rule? name with
      | none => rfl
      | some r =>
        simp only [Option.map_some, Rule.flat, Element.exposedReferencesOfAll_flat,
          formedSet?_flat]
        rfl

theorem run_flat : run g.flat = run g := by
  have names : (g.flat.rules.filter Rule.isLexer).map Rule.name =
      (g.rules.filter Rule.isLexer).map Rule.name := by
    rw [Grammar.flat, List.filter_map, List.map_map]
    rfl
  have depth : g.flat.rules.length = g.rules.length := List.length_map _
  simp only [run, names, depth, resolve_flat]

end InlineSearch

namespace Grammar

variable {g : Grammar} {options : CompileOptions}

theorem inlineTable_flat : g.flat.inlineTable options = g.inlineTable options := by
  simp only [inlineTable, InlineTable.build, InlineSearch.run_flat]

theorem replacement?_flat (table : InlineTable) (kind : RuleKind) :
    g.flat.replacement? table kind = g.replacement? table kind := by
  funext name
  cases kind with
  | lexer => rfl
  | parser =>
    simp only [replacement?, rule?_flat]
    cases g.rule? name <;> rfl

/-- The flat form of a rule is compiled from the flat form of its alternatives. -/
theorem resolved_flat (r : Rule) :
    g.flat.resolved options r.flat = Element.flatAll (g.resolved options r) := by
  rw [resolved, resolved, inlineTable_flat, replacement?_flat,
    Element.flatAll_replaceReferences (g.isLeafReplacement_replacement? _ _)]
  rfl

end Grammar

end SetGrammar
