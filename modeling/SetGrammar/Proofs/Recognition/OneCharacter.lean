import SetGrammar.Proofs.Compilation.Losses
import SetGrammar.Proofs.Recognition.Adequacy

/-!
# Elements of one symbol

An element of one symbol may stand for a set, for branches, or for nothing where
its alternatives are rejected. Whatever it is compiled to takes exactly one symbol
when it matches. What forms a set is made of such elements only.
-/
namespace SetGrammar

/-- A part takes exactly one symbol whenever it matches. -/
def CompiledGrammar.TakesOne (g : CompiledGrammar) (part : Part) : Prop :=
  ∀ ⦃input : Input⦄ ⦃rule : String⦄ ⦃i stop : Nat⦄ ⦃bindings : List Binding⦄ ⦃reach : Nat⦄,
    Yields g input rule part i (.matched stop bindings reach) →
      stop = i + 1 ∧ (input.symbol? i).isSome

namespace CompiledGrammar.TakesOne

variable {g : CompiledGrammar}

theorem test {t : SetTest} {isRequired : Bool} : g.TakesOne (.body (.test t) isRequired) := by
  intro input rule i stop bindings reach yields
  generalize outcome : Trial.matched stop bindings reach = o at yields
  cases yields with
  | test =>
    cases symbol : input.symbol? i with
    | none =>
      rw [symbol] at outcome
      cases outcome
    | some s =>
      rw [Trial.ofTest] at outcome
      split at outcome
      · cases outcome
        exact ⟨rfl, rfl⟩
      · cases outcome

/-- A choice takes what one of its alternatives takes. -/
theorem choice {alternatives : List CompiledSequence}
    (all : ∀ a ∈ alternatives, g.TakesOne (.sequence a)) : g.TakesOne (.choice alternatives) := by
  induction alternatives with
  | nil =>
    intro input rule i stop bindings reach yields
    cases yields
  | cons first rest ih =>
    obtain ⟨one, others⟩ := List.forall_mem_cons.1 all
    intro input rule i stop bindings reach yields
    generalize outcome : Trial.matched stop bindings reach = o at yields
    cases yields with
    | first matched =>
      cases outcome
      exact one matched
    | @later _ _ _ _ _ o failed next =>
      cases o with
      | failed => cases outcome
      | matched =>
        cases outcome
        exact ih others next

theorem alternatives {alternatives : List CompiledSequence} {isRequired : Bool}
    (all : ∀ a ∈ alternatives, g.TakesOne (.sequence a)) :
    g.TakesOne (.body (.alternatives alternatives) isRequired) := by
  intro input rule i stop bindings reach yields
  generalize outcome : Trial.matched stop bindings reach = o at yields
  cases yields with
  | only matched =>
    cases outcome
    exact all _ List.mem_cons_self matched
  | @decision _ _ _ _ o _ chosen =>
    cases o with
    | failed => cases outcome
    | matched =>
      cases outcome
      exact choice all chosen

/-- One iteration is all that a block without a quantifier takes. -/
theorem once {body : Body} {label : Option String} (one : g.TakesOne (.body body true)) :
    g.TakesOne (.loop body .once label 0) := by
  intro input rule i stop bindings reach yields
  generalize outcome : Trial.matched stop bindings reach = o at yields
  cases yields with
  | full reached => cases reached
  | ends => cases outcome
  | stalls _ matched =>
    have moved := (one matched).1
    omega
  | advances _ matched _ rest =>
    cases rest with
    | full =>
      cases outcome
      exact one matched
    | ends opened | stalls opened | advances opened => cases opened

theorem sequence {e : CompiledElement} (one : g.TakesOne (.ofElement e)) :
    g.TakesOne (.sequence [e]) := by
  intro input rule i stop bindings reach yields
  generalize outcome : Trial.matched stop bindings reach = o at yields
  cases yields with
  | stops => cases outcome
  | goes matched rest =>
    cases rest
    cases outcome
    exact one matched

end CompiledGrammar.TakesOne

/-! ## Elements that are replaced or form a set -/

namespace Element

variable {replacement : String → Option Element} {d : Domain}

theorem areOneSymbol_iff {elements : List Element} :
    areOneSymbol elements = true ↔ ∀ e ∈ elements, e.isOneSymbol = true := by
  induction elements with
  | nil => exact iff_of_true rfl (List.forall_mem_nil _)
  | cons e rest ih => rw [areOneSymbol, Bool.and_eq_true, List.forall_mem_cons, ih]

mutual

/-- References of such an element stand in negations only. -/
theorem isOneSymbol_replaceReferences : (e : Element) → e.isOneSymbol = true →
    (e.replaceReferences replacement).isOneSymbol = true
  | .literal _, _ | .charClass _, _ | .negated _, _ => rfl
  | .sequence _, one | .reference _, one => by cases one
  | .block marks alternatives, one => by
    obtain ⟨plain, all⟩ := Bool.and_eq_true_iff.1 one
    exact Bool.and_eq_true_iff.2 ⟨plain, areOneSymbol_replaceReferences alternatives all⟩

theorem areOneSymbol_replaceReferences : (elements : List Element) →
    areOneSymbol elements = true →
    areOneSymbol (replaceReferencesInAll replacement elements) = true
  | [], _ => rfl
  | e :: rest, all => by
    obtain ⟨one, others⟩ := Bool.and_eq_true_iff.1 all
    exact Bool.and_eq_true_iff.2
      ⟨isOneSymbol_replaceReferences e one, areOneSymbol_replaceReferences rest others⟩

end

mutual

/-- Nothing that speaks against one set is in an element of another number of
    symbols. -/
theorem isOneSymbol_of_survey : (e : Element) → (e.survey d).reason = none →
    e.isOneSymbol = true
  | .literal _, _ | .charClass _, _ | .negated _, _ => rfl
  | .sequence _, silent | .reference _, silent => by cases silent
  | .block marks alternatives, silent => by
    unfold survey at silent
    split at silent
    · rename_i plain
      exact Bool.and_eq_true_iff.2 ⟨plain, areOneSymbol_of_survey alternatives silent⟩
    · cases silent

theorem areOneSymbol_of_survey : (elements : List Element) →
    (surveyAll d elements).reason = none → areOneSymbol elements = true
  | [], _ => rfl
  | e :: rest, silent => by
    obtain ⟨first, others⟩ := Survey.reason_append.1 silent
    exact Bool.and_eq_true_iff.2
      ⟨isOneSymbol_of_survey e first, areOneSymbol_of_survey rest others⟩

end

end Element

/-! ## What they are compiled to -/

namespace CompileContext

variable {c : CompileContext} {g : CompiledGrammar}

/-- A block takes one symbol if each of its branches does, as a set too. -/
theorem block_takesOne {marks : BlockMarks} (plain : marks.isPlain = true)
    (alternatives : List Element) {branches : Reported (List CompiledSequence)}
    (all : ∀ a ∈ branches.value, g.TakesOne (.sequence a)) :
    g.TakesOne (.ofBlock (c.block marks alternatives branches).value) := by
  have once := (BlockMarks.isPlain_iff.1 plain).1
  obtain ⟨choice, t, -, -, value, -⟩ | ⟨reason, -, value, -⟩ :=
    c.block_outcome marks alternatives branches
  · rw [value, once]
    exact .once .test
  · rw [value, once]
    exact .once (.alternatives all)

theorem symbol_takesOne {e : Element} {span : Span} (symbol : e.isSymbol = true)
    (accepted : c.accepts e = true) :
    ∃ p, (c.symbol span e).value = some p ∧ g.TakesOne (.ofElement p) := by
  obtain ⟨t, made⟩ := test_of_accepted accepted symbol
  exact ⟨_, (symbol_of_test made).2, .once .test⟩

mutual

/-- An accepted element of one symbol is never left out of its alternative, which
    would match without it. -/
theorem element_takesOne (span : Span) : (e : Element) → e.isOneSymbol = true →
    c.accepts e = true → ∃ p, (c.element span e).value = some p ∧ g.TakesOne (.ofElement p)
  | .literal _, _, accepted | .charClass _, _, accepted | .negated _, _, accepted =>
    symbol_takesOne rfl accepted
  | .sequence _, one, _ | .reference _, one, _ => by cases one
  | .block marks alternatives, one, _ => by
    obtain ⟨plain, all⟩ := Bool.and_eq_true_iff.1 one
    have taken := branches_takeOne marks.span alternatives all
    exact ⟨_, rfl, block_takesOne plain alternatives taken⟩

theorem branches_takeOne (span : Span) : (alternatives : List Element) →
    Element.areOneSymbol alternatives = true →
    ∀ a ∈ (c.branches span alternatives).value, g.TakesOne (.sequence a)
  | [], _ => nofun
  | e :: rest, all => by
    obtain ⟨one, others⟩ := Bool.and_eq_true_iff.1 all
    have later := branches_takeOne span rest others
    by_cases accepted : c.accepts e = true
    · obtain ⟨p, value, takes⟩ := element_takesOne span e one accepted
      have alone : (c.alternative span e).value = [p] := by
        cases e with
        | sequence => cases one
        | literal | charClass | reference | negated | block =>
          exact congrArg Option.toList value
      rw [branches_cons accepted]
      refine List.forall_mem_cons.2 ⟨?_, later⟩
      rw [alone]
      exact takes.sequence
    · rw [branches, if_neg accepted]
      exact later

end

end CompileContext

namespace Grammar

variable {g : Grammar} {options : CompileOptions}

theorem compiledRule_takesOne {compiled : CompiledGrammar} {r : Rule} {e : Element}
    (plain : r.body.marks.isPlain = true) (only : r.body.alternatives = [e])
    (one : e.isOneSymbol = true) :
    compiled.TakesOne (.ofBlock (g.compiledRule options r).body) := by
  have all : Element.areOneSymbol (g.resolved options r) = true := by
    rw [resolved, only]
    exact Element.areOneSymbol_replaceReferences [e] (Bool.and_eq_true_iff.2 ⟨one, rfl⟩)
  exact CompileContext.block_takesOne plain _ (CompileContext.branches_takeOne _ _ all)

/-- A lexer rule whose body is one element of one symbol takes exactly one character
    when it matches, whatever was reported about it. What forms one set is made of
    such elements. -/
theorem isOneSymbol_takes_one :
    (∀ (g : Grammar) (options : CompileOptions) (name : String) (r : Rule) (e : Element),
      g.rule? name = some r → r.kind = .lexer → r.body.marks.isPlain = true →
      r.body.alternatives = [e] → e.isOneSymbol = true →
      ∃ called, (g.compile options).value.rule? name = some called ∧
        ∀ kind input limits depth scope s s',
          Recognizer.rule ⟨(g.compile options).value, kind, input, limits⟩ depth scope called s =
            .ok true s' →
          s'.index = s.index + 1 ∧ (input.symbol? s.index).isSome) ∧
    ∀ (alternatives : List Element) (d : Domain) (choice : SetChoice),
      Verdict.ofAlternatives alternatives d = .set choice →
      ∀ e ∈ alternatives, e.isOneSymbol = true := by
  constructor
  · intro g options name r e found lexer plain only one
    refine ⟨g.compiledRule options r, by rw [compile_rule?, found]; rfl, ?_⟩
    intro kind input limits depth scope s s' run
    have kind : kind = .lexer := by
      cases depth with
      | zero => exact (Recognizer.rule_zero_ok run).elim
      | succ depth => exact (Recognizer.rule_succ_ok run).1.symm.trans lexer
    subst kind
    obtain ⟨o, yields, shown⟩ := lexer_rule_shown run
    cases o with
    | failed => cases (Trial.shown_of_failed shown).1
    | matched stop bindings reach =>
      rw [(Trial.shown_of_matched shown).2.1]
      exact compiledRule_takesOne plain only one yields
  · intro alternatives d choice formed
    have silent := (Survey.verdict_eq_set_iff.1 formed).1
    exact Element.areOneSymbol_iff.1 (Element.areOneSymbol_of_survey alternatives silent)

/-- The rule `A : (('a' | ~'b') | ~pq | ())`, with an alternative that cannot be
    compiled and one that is empty. -/
def nestedCharacter : Grammar :=
  ((Grammar.empty "NestedCharacter").addToken "A" ⟨{}, [.block {} [
    .block {} [.char 'a', .negated (.char 'b')], .negated (.text ['p', 'q']), .block {} []]]⟩).2

/-- The rule takes one character though an alternative is rejected, and the two
    nested alternatives form no set. -/
theorem isOneSymbol_takes_one_nested :
    (∃ r e called s', nestedCharacter.rule? "A" = some r ∧ r.kind = .lexer ∧
      r.body.marks.isPlain = true ∧ r.body.alternatives = [e] ∧ e.isOneSymbol = true ∧
      (nestedCharacter.compile {}).diagnostics.length = 1 ∧
      (nestedCharacter.compile {}).value.rule? "A" = some called ∧
      Recognizer.rule ⟨(nestedCharacter.compile {}).value, .lexer, .ofText "xy", {}⟩ 1
        ⟨"", false, []⟩ called (.initial {}) = .ok true s' ∧ s'.index = 1) ∧
    ∃ choice, Verdict.ofAlternatives [.char 'a', .block {} [.char 'b']] .lexer = .set choice ∧
      Element.isOneSymbol (.block {} [.char 'b']) = true := by
  obtain ⟨rules, sets⟩ := isOneSymbol_takes_one
  constructor
  · have found : ∃ r e, nestedCharacter.rule? "A" = some r ∧ r.kind = .lexer ∧
        r.body.marks.isPlain = true ∧ r.body.alternatives = [e] ∧ e.isOneSymbol = true :=
      ⟨_, _, rfl, rfl, rfl, rfl, rfl⟩
    obtain ⟨r, e, source, lexer, plain, only, one⟩ := found
    obtain ⟨called, target, takes⟩ := rules _ {} _ r e source lexer plain only one
    have ran : ∃ called s', (nestedCharacter.compile {}).value.rule? "A" = some called ∧
        Recognizer.rule ⟨(nestedCharacter.compile {}).value, .lexer, .ofText "xy", {}⟩ 1
          ⟨"", false, []⟩ called (.initial {}) = .ok true s' := ⟨_, _, rfl, rfl⟩
    obtain ⟨called', s', target', run⟩ := ran
    cases Option.some.inj (target.symm.trans target')
    exact ⟨r, e, called, s', source, lexer, plain, only, one, by decide +kernel, target, run,
      (takes _ _ _ _ _ _ _ run).1⟩
  · have formed : ∃ choice,
        Verdict.ofAlternatives [.char 'a', .block {} [.char 'b']] .lexer = .set choice :=
      ⟨_, by cbv⟩
    obtain ⟨choice, formed⟩ := formed
    exact ⟨choice, formed, sets _ _ choice formed _ (List.mem_cons_of_mem _ List.mem_cons_self)⟩

end Grammar

end SetGrammar
