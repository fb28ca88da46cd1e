import SetGrammar.Proofs.Compilation.Rules

/-!
# Optimized rules follow plain ones

A part of an optimized rule is the part of the plain rule at the same place,
except where a set stands for branches or for a call that test the same symbols.
What the optimized part yields the plain one yields too.
-/
namespace SetGrammar

/-- An optimized part against the plain one in whose place it stands. -/
inductive CompiledGrammar.Refines (g : CompiledGrammar) : Part → Part → Prop where
  | call {name : String} : g.Refines (.call name) (.call name)
  /-- One symbol in place of anything that tests the symbol. -/
  | symbol {t : SetTest} {part : Part} : g.Tests part (fun s => t.admits (some s) = true) →
      g.Refines (.loop (.test t) .once none 0) part
  | loop {body plain : Body} {q : Quantifier} {label : Option String} {count : Nat} :
      (∀ isRequired, g.Refines (.body body isRequired) (.body plain isRequired)) →
      g.Refines (.loop body q label count) (.loop plain q label count)
  /-- A set in place of any body that tests its symbols. -/
  | set {t : SetTest} {plain : Body} {isRequired : Bool} :
      g.Tests (.body plain isRequired) (fun s => t.admits (some s) = true) →
      g.Refines (.body (.test t) isRequired) (.body plain isRequired)
  | alternatives {alternatives plain : List CompiledSequence} {isRequired : Bool} :
      g.Refines (.choice alternatives) (.choice plain) →
      g.Refines (.body (.alternatives alternatives) isRequired)
        (.body (.alternatives plain) isRequired)
  | none : g.Refines (.choice []) (.choice [])
  | choice {first plain : CompiledSequence} {rest plainRest : List CompiledSequence} :
      g.Refines (.sequence first) (.sequence plain) → g.Refines (.choice rest) (.choice plainRest) →
      g.Refines (.choice (first :: rest)) (.choice (plain :: plainRest))
  | done : g.Refines (.sequence []) (.sequence [])
  | sequence {e plain : CompiledElement} {rest plainRest : CompiledSequence} :
      g.Refines (.ofElement e) (.ofElement plain) →
      g.Refines (.sequence rest) (.sequence plainRest) →
      g.Refines (.sequence (e :: rest)) (.sequence (plain :: plainRest))

/-- Parts that test the same symbols yield the same. -/
theorem CompiledGrammar.Tests.agree {g h : CompiledGrammar} {part other : Part} {P : Nat → Prop}
    (tests : g.Tests part P) (tests' : h.Tests other P) {input : Input} {rule : String} {i : Nat}
    {o : Trial} (yields : Yields g input rule part i o) : Yields h input rule other i o := by
  obtain ⟨admitted, refused⟩ := tests input rule i
  obtain ⟨admitted', refused'⟩ := tests' input rule i
  by_cases has : ∃ s, input.symbol? i = some s ∧ P s
  · rw [yields.unique (admitted has)]
    exact admitted' has
  · rw [yields.unique (refused has)]
    exact refused' has

/-- Grammars whose rules correspond by name, the optimized ones to plain ones. -/
def CompiledGrammar.RulesRefine (g plain : CompiledGrammar) : Prop :=
  ∀ name called, g.rule? name = some called →
    ∃ kept, plain.rule? name = some kept ∧ kept.name = called.name ∧
      plain.Refines (.ofBlock called.body) (.ofBlock kept.body)

theorem length_of_refines {plain : CompiledGrammar} : {alternatives kept : List CompiledSequence} →
    plain.Refines (.choice alternatives) (.choice kept) → alternatives.length = kept.length
  | [], _, refines => by
    cases refines
    rfl
  | _ :: _, _, refines => by
    cases refines with
    | choice _ rest => exact congrArg Nat.succ (length_of_refines rest)

/-- What an optimized part yields, the plain part in its place yields. -/
theorem yields_of_refines {g plain : CompiledGrammar} (rules : g.RulesRefine plain) {input : Input}
    {rule : String} {part other : Part} {i : Nat} {o : Trial}
    (yields : Yields g input rule part i o) (refines : plain.Refines part other) :
    Yields plain input rule other i o := by
  have one (t : SetTest) :
      g.Tests (.loop (.test t) .once none 0) fun s => t.admits (some s) = true := .once .test
  have body (t : SetTest) :
      g.Tests (.body (.test t) true) fun s => t.admits (some s) = true := .test
  -- A set in place of something else leaves nothing to the hypotheses: the symbol
  -- at hand decides both parts.
  induction yields generalizing other with
  | call found _ ih =>
    cases refines with
    | call =>
      obtain ⟨kept, found', name, body⟩ := rules _ _ found
      have yields := ih body
      rw [← name] at yields
      exact .call found' yields
  | full reached =>
    cases refines with
    | symbol tests => exact (one _).agree tests (.full reached)
    | loop => exact .full reached
  | ends opened failed ih =>
    cases refines with
    | symbol tests => exact (one _).agree tests (.ends opened failed)
    | loop bodies => exact .ends opened (ih (bodies _))
  | stalls opened matched ih =>
    cases refines with
    | symbol tests => exact (one _).agree tests (.stalls opened matched)
    | loop bodies => exact .stalls opened (ih (bodies _))
  | advances opened matched moved rest ih ihRest =>
    cases refines with
    | symbol tests => exact (one _).agree tests (.advances opened matched moved rest)
    | loop bodies => exact .advances opened (ih (bodies _)) moved (ihRest (.loop bodies))
  | test =>
    cases refines with
    | set tests => exact (body _).agree tests .test
  | only _ ih =>
    cases refines with
    | alternatives choice =>
      cases choice with
      | choice first rest =>
        cases rest
        exact .only (ih first)
  | decision rivals _ ih =>
    cases refines with
    | alternatives choice =>
      rw [length_of_refines choice] at rivals
      exact .decision rivals (ih choice)
  | none =>
    cases refines
    exact .none
  | first _ ih =>
    cases refines with
    | choice first => exact .first (ih first)
  | later _ _ ih ihRest =>
    cases refines with
    | choice first rest => exact .later (ih first) (ihRest rest)
  | done =>
    cases refines
    exact .done
  | stops _ ih =>
    cases refines with
    | sequence e => exact .stops (ih e)
  | goes _ _ ih ihRest =>
    cases refines with
    | sequence e rest => exact .goes (ih e) (ihRest rest)

namespace CompileContext

/-- The same surroundings under other options. -/
def under (c : CompileContext) (options : CompileOptions) : CompileContext := { c with options }

variable {c : CompileContext} {options : CompileOptions} {g : CompiledGrammar}
  {sets : String → Option SymbolSet} {span : Span}

/-- One symbol is compiled in the same way under all options. -/
theorem symbol_refines (options : CompileOptions) (g : CompiledGrammar) {e : Element}
    (clean : (c.symbol span e).Clean) :
    ∃ p, ((c.under options).symbol span e).value = some p ∧ (c.symbol span e).value = some p ∧
      g.Refines (.ofElement p) (.ofElement p) := by
  obtain ⟨t, tested, value⟩ := symbol_clean clean
  refine ⟨_, ?_, value, .loop fun isRequired => .set .test⟩
  have tested : e.test (c.under options).domain = .ok t := tested
  simp [symbol, tested]

/-- A class stands for a call that tests its symbols. -/
theorem class_refines {name : String} {set : SymbolSet}
    (tests : g.Tests (.call name) fun s => c.domain.contains s ∧ set.contains s)
    (clean : ((c.under options).symbol span (.charClass set)).Clean) :
    ∃ f, ((c.under options).symbol span (.charClass set)).value = some f ∧
      g.Refines (.ofElement f) (.call name) := by
  obtain ⟨t, tested, value⟩ := symbol_clean clean
  obtain ⟨source, found, -⟩ := except_bind_eq_ok.1 tested
  refine ⟨_, value, .symbol (tests.congr fun s => ?_)⟩
  have admits := source_admits (s := s) found tested
  cases charClass_of_source found
  have named : c.domain.Named [.charClass set] s ↔ c.domain.contains s ∧ set.contains s := by
    simp [Domain.Named, SymbolSource.Names]
  exact named.symm.trans admits.symm

/-- Once classes replace its references, an element is compiled to what follows
    its plain form. -/
def ElementRefines (c : CompileContext) (options : CompileOptions) (g : CompiledGrammar)
    (sets : String → Option SymbolSet) (span : Span) (e : Element) : Prop :=
  (c.element span e).Clean →
  ((c.under options).element span (e.replaceReferences (Element.classes sets))).Clean →
    ∃ f p, ((c.under options).element span (e.replaceReferences (Element.classes sets))).value =
        some f ∧
      (c.element span e).value = some p ∧ g.Refines (.ofElement f) (.ofElement p)

/-- Once classes replace their references, accepted alternatives are compiled to
    branches that follow the plain ones. -/
def BranchesRefine (c : CompileContext) (options : CompileOptions) (g : CompiledGrammar)
    (sets : String → Option SymbolSet) (span : Span) (alternatives : List Element) : Prop :=
  (∀ e ∈ alternatives, c.accepts e = true) →
  (∀ e ∈ Element.replaceReferencesInAll (Element.classes sets) alternatives,
    (c.under options).accepts e = true) →
  (c.branches span alternatives).Clean →
  ((c.under options).branches span
    (Element.replaceReferencesInAll (Element.classes sets) alternatives)).Clean →
    g.Refines (.choice ((c.under options).branches span
        (Element.replaceReferencesInAll (Element.classes sets) alternatives)).value)
      (.choice (c.branches span alternatives).value)

/-- A set stands for what the plain options keep, and branches stand for
    branches. -/
theorem block_refines (plain : c.options.formSets = false) (forms : options.formSets = true)
    (calls : g.CallsTest c.domain sets) {marks : BlockMarks} {alternatives : List Element}
    {block kept : CompiledBlock}
    (clean : (c.block marks alternatives (c.branches marks.span alternatives)).Clean)
    (value : (c.block marks alternatives (c.branches marks.span alternatives)).value = kept)
    (clean' : let replaced := Element.replaceReferencesInAll (Element.classes sets) alternatives
      ((c.under options).block marks replaced
        ((c.under options).branches marks.span replaced)).Clean)
    (value' : let replaced := Element.replaceReferencesInAll (Element.classes sets) alternatives
      ((c.under options).block marks replaced
        ((c.under options).branches marks.span replaced)).value = block)
    (branches : c.BranchesRefine options g sets marks.span alternatives) :
    g.Refines (.ofBlock block) (.ofBlock kept) := by
  rw [Part.ofBlock_eq, Part.ofBlock_eq]
  obtain ⟨allowed', ⟨choice, t, formed, -, made, set⟩ | ⟨reason', kept', unset, set⟩⟩ :=
    block_clean clean'
  · obtain ⟨quantifier, label, tests⟩ := block_tests plain calls clean value formed made
    rw [quantifier, label, ← value', set]
    exact .loop fun isRequired => .set (tests isRequired)
  · obtain ⟨allowed, ⟨choice, t, formed, -⟩ | ⟨reason, kept, -, unset'⟩⟩ := block_clean clean
    · -- Alternatives that form one set as they are do so under all options.
      rw [Element.replaceReferencesInAll_of_set formed] at unset
      have forbidden := (unset choice formed).1
      rw [under, forms] at forbidden
      cases forbidden
    · rw [← value, ← value', set, unset']
      exact .loop fun isRequired => .alternatives (branches allowed allowed' kept kept')

/-- One element is a sequence of its own. -/
theorem single_refines {e e' : Element}
    (refines : ∃ f p, ((c.under options).element span e').value = some f ∧
      (c.element span e).value = some p ∧ g.Refines (.ofElement f) (.ofElement p)) :
    g.Refines (.sequence (Option.toList <$> (c.under options).element span e').value)
      (.sequence (Option.toList <$> c.element span e).value) := by
  obtain ⟨f, p, value, value', refines⟩ := refines
  rw [Reported.value_map, Reported.value_map, value, value']
  exact .sequence refines .done

/-- An alternative follows the plain one if the element does. A sequence of
    items is the only branch of its element. -/
theorem alternative_refines {e : Element} (refines : c.ElementRefines options g sets span e)
    (clean : (c.alternative span e).Clean)
    (clean' : ((c.under options).alternative span
      (e.replaceReferences (Element.classes sets))).Clean) :
    g.Refines (.sequence ((c.under options).alternative span
        (e.replaceReferences (Element.classes sets))).value)
      (.sequence (c.alternative span e).value) := by
  unfold ElementRefines at refines
  cases e with
  | sequence items =>
    obtain ⟨f, p, value, value', refines⟩ := refines (Reported.clean_bind.2 ⟨clean, by simp⟩)
      (Reported.clean_bind.2 ⟨clean', by simp⟩)
    cases value
    cases value'
    cases refines with
    | loop bodies =>
      cases bodies true with
      | alternatives choice =>
        cases choice with
        | choice sequence => exact sequence
  | reference name =>
    rw [Element.replaceReferences, Element.classes, Element.classOf] at refines clean' ⊢
    cases found : sets name with
    | none | some =>
      rw [found] at refines clean'
      exact single_refines (refines (Reported.clean_map.1 clean) (Reported.clean_map.1 clean'))
  | literal | charClass | negated | block =>
    exact single_refines (refines (Reported.clean_map.1 clean) (Reported.clean_map.1 clean'))

mutual

theorem element_refines (plain : c.options.formSets = false) (forms : options.formSets = true)
    (calls : g.CallsTest c.domain sets) {span : Span} :
    (e : Element) → c.ElementRefines options g sets span e
  | .literal n => by
    intro clean _
    obtain ⟨p, value, value', refines⟩ := symbol_refines options g clean
    exact ⟨p, p, value, value', refines⟩
  | .charClass set => by
    intro clean _
    obtain ⟨p, value, value', refines⟩ := symbol_refines options g clean
    exact ⟨p, p, value, value', refines⟩
  | .negated operand => by
    intro clean _
    obtain ⟨p, value, value', refines⟩ :=
      symbol_refines options g (e := .negated operand) clean
    obtain ⟨t, tested, -⟩ := symbol_clean (e := .negated operand) clean
    obtain ⟨sources, found, -⟩ := except_bind_eq_ok.1 tested
    rw [Element.replaceReferences, Element.replaceReferences_of_negatedSources operand found]
    exact ⟨p, p, value, value', refines⟩
  | .reference name => by
    intro _ clean'
    cases found : sets name with
    | none =>
      simp only [Element.replaceReferences, Element.classes, Element.classOf, found]
      exact ⟨_, _, rfl, rfl, .call⟩
    | some set =>
      simp only [Element.replaceReferences, Element.classes, Element.classOf, found] at clean' ⊢
      obtain ⟨f, value, refines⟩ := class_refines (calls name set found) clean'
      exact ⟨f, _, value, rfl, refines⟩
  | .sequence items => by
    intro clean clean'
    obtain ⟨inner, value⟩ := element_sequence_clean clean
    obtain ⟨inner', value'⟩ := element_sequence_clean clean'
    have refines := items_refine plain forms calls items inner inner'
    refine ⟨_, _, value', value, ?_⟩
    exact .loop fun isRequired => .alternatives (.choice refines .none)
  | .block marks alternatives => by
    intro clean clean'
    obtain ⟨inner, value⟩ := element_block_clean clean
    obtain ⟨inner', value'⟩ := element_block_clean clean'
    have branches : c.BranchesRefine options g sets marks.span alternatives :=
      branches_refine plain forms calls alternatives
    exact ⟨_, _, value', value, block_refines plain forms calls inner rfl inner' rfl branches⟩

theorem items_refine (plain : c.options.formSets = false) (forms : options.formSets = true)
    (calls : g.CallsTest c.domain sets) {span : Span} : (items : List Element) →
      (c.items span items).Clean →
      ((c.under options).items span
        (Element.replaceReferencesInAll (Element.classes sets) items)).Clean →
      g.Refines (.sequence ((c.under options).items span
        (Element.replaceReferencesInAll (Element.classes sets) items)).value)
        (.sequence (c.items span items).value)
  | [], _, _ => .done
  | item :: rest, clean, clean' => by
    obtain ⟨first, others, value⟩ := items_cons_clean clean
    obtain ⟨first', others', value'⟩ := items_cons_clean clean'
    obtain ⟨f, p, one, one', refines⟩ := element_refines plain forms calls item first first'
    rw [value, Element.replaceReferencesInAll, value', one, one']
    exact .sequence refines (items_refine plain forms calls rest others others')

theorem branches_refine (plain : c.options.formSets = false) (forms : options.formSets = true)
    (calls : g.CallsTest c.domain sets) {span : Span} :
    (alternatives : List Element) → c.BranchesRefine options g sets span alternatives
  | [] => fun _ _ _ _ => .none
  | e :: rest => by
    intro allowed allowed' clean clean'
    rw [Element.replaceReferencesInAll, List.forall_mem_cons] at allowed'
    rw [List.forall_mem_cons] at allowed
    obtain ⟨first, others, value⟩ := branches_cons_clean allowed.1 clean
    obtain ⟨first', others', value'⟩ := branches_cons_clean allowed'.1 clean'
    rw [value, Element.replaceReferencesInAll, value']
    refine .choice ?_ (branches_refine plain forms calls rest allowed.2 allowed'.2 others others')
    exact alternative_refines (element_refines plain forms calls e) first first'

end

end CompileContext

namespace Grammar

variable {g : Grammar}

theorem classes_none : Element.classes (fun _ => none) = fun _ => none := rfl

/-- What rules are compiled from under plain options, and the sets that stand
    for references otherwise. A parser rule has the same literals either way. -/
theorem resolved_classes (clean : (g.compile .plain).Clean) (r : Rule) :
    ∃ sets, (g.compile .plain).value.CallsTest (g.domain r.kind) sets ∧
      g.resolved {} r =
        Element.replaceReferencesInAll (Element.classes sets) (g.resolved .plain r) := by
  cases kind : r.kind with
  | lexer =>
    refine ⟨(InlineTable.build g).1.find?, ?_, ?_⟩
    · intro name set found
      exact (InlineTable.inlined_of_find? found).tests clean
    · rw [resolved_plain_of_lexer kind, resolved, kind]
      rfl
  | parser =>
    refine ⟨fun _ => none, ?_, ?_⟩
    · intro name set found
      cases found
    · rw [classes_none, Element.replaceReferencesInAll_none, resolved, resolved, kind]
      rfl

theorem compiledRule_refines (clean : (g.compile {}).Clean) (clean' : (g.compile .plain).Clean)
    {r : Rule} (member : r ∈ g.rules) :
    (g.compile .plain).value.Refines (.ofBlock (g.compiledRule {} r).body)
      (.ofBlock (g.compiledRule .plain r).body) := by
  have compiled := compiledBody_clean clean member
  have compiled' := compiledBody_clean clean' member
  obtain ⟨sets, calls, same⟩ := resolved_classes clean' r
  rw [compiledRule_body, compiledRule_body]
  simp only [compiledBody, same] at compiled compiled' ⊢
  have forms : CompileOptions.formSets {} = true := rfl
  exact CompileContext.block_refines (c := ⟨g, .plain, r⟩) rfl forms calls compiled' rfl compiled rfl
    (CompileContext.branches_refine rfl forms calls (g.resolved .plain r))

/-- The rules of an optimized grammar follow those of the plain one. -/
theorem compile_refines (clean : (g.compile {}).Clean) (clean' : (g.compile .plain).Clean) :
    (g.compile {}).value.RulesRefine (g.compile .plain).value := by
  intro name called found
  rw [compile_rule?] at found
  obtain ⟨r, source, rfl⟩ := Option.map_eq_some_iff.1 found
  refine ⟨g.compiledRule .plain r, ?_, ?_, ?_⟩
  · rw [compile_rule?, source, Option.map_some]
  · rw [compiledRule_name, compiledRule_name]
  · exact compiledRule_refines clean clean' (rule?_eq_some source).1

end Grammar

end SetGrammar
