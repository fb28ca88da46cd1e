import SetGrammar.Proofs.Compilation.SetTests
import SetGrammar.Proofs.Recognition.Reports

/-!
# Expected symbols

What messages show as expected is just what a test admits. This holds of every
test that a compilation makes and of every transition made from a set, so that
each error of a parse shows the symbols that would have been taken.
-/
namespace SetGrammar

theorem Transition.ofSet_wellFormed (set : SymbolSet) (negated : Bool) (quantifier : Quantifier)
    (label : Option String) (d : Domain) :
    (Transition.ofSet set negated quantifier label d).WellFormed :=
  SetTest.wellFormed SymbolSet.restrict_within

/-- Alternatives that form one set have a well-formed test, and a transition under
    every quantifier and label. -/
theorem Verdict.test_wellFormed {alternatives : List Element} {d : Domain} {choice : SetChoice}
    (formed : Verdict.ofAlternatives alternatives d = .set choice) :
    ∃ test, choice.test d = .ok test ∧ test.WellFormed ∧
      ∀ quantifier label, choice.transition quantifier label d = .ok ⟨test, quantifier, label⟩ := by
  obtain ⟨set, made, -⟩ := (Element.surveyAll_sound alternatives).test_ok formed
  refine ⟨_, made, SetTest.wellFormed (SetChoice.test_within made), fun quantifier label => ?_⟩
  exact except_bind_eq_ok.2 ⟨_, made, rfl⟩

namespace Grammar

/-- All set tests of a compiled grammar, all transitions made from a set and the
    tests of all alternatives that form one set admit just the symbols that they
    show. So an error of a parse shows what the test that raised it admits. -/
theorem compile_shows_admitted (g : Grammar) (options : CompileOptions) :
    (∀ r ∈ (g.compile options).value.rules, ∀ t, .set t ∈ r.body.leaves → t.WellFormed) ∧
      (∀ set negated quantifier label d,
        (Transition.ofSet set negated quantifier label d).WellFormed) ∧
      (∀ alternatives d choice, Verdict.ofAlternatives alternatives d = .set choice →
        ∃ test, choice.test d = .ok test ∧ test.WellFormed ∧ ∀ quantifier label,
          choice.transition quantifier label d = .ok ⟨test, quantifier, label⟩) ∧
      ∀ limits rule tokens o,
        ((g.compile options).value.parse limits rule tokens).result = .ok o →
        ∀ e ∈ o.errors, ∀ expected, e.complaint.expected? = some expected →
          ∃ r ∈ (g.compile options).value.rules, ∃ t, .set t ∈ r.body.leaves ∧
            expected = t.admissible.render .parser (some g.vocabulary) ∧
            (∀ s, t.admits (some s) ↔ t.admissible.contains s) ∧
            t.admits ((Input.tokens (.ofList tokens)).symbol? e.index) = false := by
  have wellFormed {r : CompiledRule} (member : r ∈ (g.compile options).value.rules)
      {t : Transition} (leaf : .set t ∈ r.body.leaves) : t.WellFormed :=
    SetTest.wellFormed (compile_sets_within member leaf)
  refine ⟨fun r member t leaf => wellFormed member leaf, Transition.ofSet_wellFormed,
    fun _ _ _ formed => Verdict.test_wellFormed formed, ?_⟩
  intro limits rule tokens o ran e member expected told
  obtain ⟨r, inside, kind, t, leaf, shown, refused⟩ := parse_explains ran member told
  have domain : t.domain = g.domain .parser := by
    rw [(compile_linked g options r inside).sets t leaf, compile_domain, kind]
  have parser : t.domain.kind = .parser := by rw [domain]; rfl
  refine ⟨r, inside, t, leaf, ?_, (wellFormed inside leaf).admits_iff, refused⟩
  rw [shown, Transition.expected, parser]
  rfl

/-- The rule `start : ~A B?` over the tokens `A`, `B` and `C`. -/
def allButA : Grammar :=
  let (_, g) := (Grammar.empty "AllButA").addToken "A" ⟨{}, [.char 'a']⟩
  let (_, g) := g.addToken "B" ⟨{}, [.char 'b']⟩
  let (_, g) := g.addToken "C" ⟨{}, [.char 'c']⟩
  g.addParserRule "start" ⟨{}, [.sequence [.negated (.reference "A"),
    .block { quantifier := .optional } [.reference "B"]]]⟩

/-- Where `A` is found, the other tokens are expected. -/
theorem compile_shows_admitted_allButA :
    let compiled := (allButA.compile {}).value
    let tokens : List Token := [⟨1, "a", ⟨1, 0⟩, 0, 1, []⟩]
    ∃ o e, (compiled.parse {} "start" tokens).result = .ok o ∧ e ∈ o.errors ∧
      e.complaint.expected? = some "{B, C}" ∧
      (∃ r ∈ compiled.rules, ∃ t, .set t ∈ r.body.leaves ∧ t.WellFormed ∧
        t.admissible.render .parser (some allButA.vocabulary) = "{B, C}" ∧
        t.admits (some 1) = false) ∧
      ∃ test, SetChoice.test ⟨[.literal 1], true⟩ (.parser 3) = .ok test ∧ test.WellFormed := by
  intro compiled tokens
  obtain ⟨wellFormed, -, formed, explained⟩ := compile_shows_admitted allButA {}
  have ran : ∃ o e, (compiled.parse {} "start" tokens).result = .ok o ∧ o.errors = [e] ∧
      e.complaint.expected? = some "{B, C}" ∧ e.index = 0 := ⟨_, _, by cbv, by cbv, by cbv, by cbv⟩
  obtain ⟨o, e, ran, errors, told, index⟩ := ran
  have member : e ∈ o.errors := by simp [errors]
  obtain ⟨r, inside, t, leaf, shown, -, refused⟩ := explained {} _ _ o ran e member _ told
  rw [index] at refused
  obtain ⟨test, made, good, -⟩ :=
    formed [.negated (.literal 1)] (.parser 3) ⟨[.literal 1], true⟩ (by decide)
  exact ⟨o, e, ran, member, told,
    ⟨r, inside, t, leaf, wellFormed r inside t leaf, shown.symm, refused⟩, test, made, good⟩

end Grammar

end SetGrammar
