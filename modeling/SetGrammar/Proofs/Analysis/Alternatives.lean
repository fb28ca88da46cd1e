import SetGrammar.Proofs.Analysis.Survey

/-!
# One set for several alternatives

The set of alternatives that are not negated admits what some alternative admits
on its own. Negated alternatives form the complement of all that they name, so
that a symbol is admitted only if every one of them admits it.
-/
namespace SetGrammar

/-- Whether an alternative that is a block of its own admits a symbol. -/
def Element.admitsAlone (d : Domain) (e : Element) (s : Nat) : Bool :=
  match Verdict.ofAlternatives [e] d with
  | .set choice => (choice.transition .once none d).toOption.any (·.admits (some s))
  | .branches _ => false

section

variable {d : Domain} {alternatives : List Element} {choice : SetChoice}

/-- The transition of one set admits what the sources say. -/
theorem transition_admits (formed : Verdict.ofAlternatives alternatives d = .set choice)
    (quantifier : Quantifier) (label : Option String) :
    ∃ t, choice.transition quantifier label d = .ok t ∧
      ∀ s, t.admits (some s) ↔ d.contains s ∧
        if choice.negated then ¬ ∃ source ∈ choice.sources, source.Names s
        else ∃ source ∈ choice.sources, source.Names s := by
  obtain ⟨set, made, names⟩ := (Element.surveyAll_sound alternatives).test_ok formed
  refine ⟨_, except_bind_eq_ok.2 ⟨_, made, rfl⟩, fun s => ?_⟩
  rw [SetTest.admits_some]
  simp only [names]

theorem admitsAlone_iff {e : Element} (formed : Verdict.ofAlternatives [e] d = .set choice)
    {s : Nat} :
    e.admitsAlone d s ↔ d.contains s ∧
      if choice.negated then ¬ ∃ source ∈ choice.sources, source.Names s
      else ∃ source ∈ choice.sources, source.Names s := by
  obtain ⟨t, made, admits⟩ := transition_admits formed .once none
  rw [← admits, Element.admitsAlone]
  simp [formed, made, Except.toOption]

/-- An alternative in a list that forms one set forms a set of the same kind by
    itself, unless it is empty. -/
theorem verdict_alone (formed : Verdict.ofAlternatives alternatives d = .set choice) {e : Element}
    (member : e ∈ alternatives) :
    Verdict.ofAlternatives [e] d = .branches .empty ∧
        (e.survey d).positive = [] ∧ (e.survey d).negative = [] ∨
      Verdict.ofAlternatives [e] d =
        .set ⟨if choice.negated then (e.survey d).negative else (e.survey d).positive,
          choice.negated⟩ := by
  obtain ⟨reason, kind⟩ := Survey.verdict_eq_set_iff.1 formed
  have accepted : (e.survey d).reason = none := Element.surveyAll_reason.1 reason e member
  have sound := Element.survey_sound (d := d) e
  unfold Verdict.ofAlternatives
  rw [Element.surveyAll_singleton]
  rcases kind with ⟨-, whole, rfl⟩ | ⟨whole, -, rfl⟩
  · have negative : (e.survey d).anyNegative = false := by
      rw [Bool.eq_false_iff] at whole ⊢
      exact fun some => whole (Element.surveyAll_anyNegative.2 ⟨e, member, some⟩)
    cases positive : (e.survey d).anyPositive with
    | false =>
      refine .inl ⟨?_, sound.anyPositive positive, sound.anyNegative negative⟩
      simp [Survey.verdict, accepted, positive, negative]
    | true =>
      right
      exact Survey.verdict_eq_set_iff.2 ⟨accepted, .inl ⟨positive, negative, rfl⟩⟩
  · have positive : (e.survey d).anyPositive = false := by
      rw [Bool.eq_false_iff] at whole ⊢
      exact fun some => whole (Element.surveyAll_anyPositive.2 ⟨e, member, some⟩)
    cases negative : (e.survey d).anyNegative with
    | false =>
      refine .inl ⟨?_, sound.anyPositive positive, sound.anyNegative negative⟩
      simp [Survey.verdict, accepted, positive, negative]
    | true =>
      right
      exact Survey.verdict_eq_set_iff.2 ⟨accepted, .inr ⟨positive, negative, rfl⟩⟩

/-- What the sources of a list name is what those of its alternatives name. -/
theorem names_iff (formed : Verdict.ofAlternatives alternatives d = .set choice) {s : Nat} :
    (∃ source ∈ choice.sources, source.Names s) ↔ ∃ e ∈ alternatives,
      ∃ source ∈ if choice.negated then (e.survey d).negative else (e.survey d).positive,
        source.Names s := by
  obtain ⟨-, ⟨-, -, rfl⟩ | ⟨-, -, rfl⟩⟩ := Survey.verdict_eq_set_iff.1 formed
  · constructor
    · rintro ⟨source, member, names⟩
      obtain ⟨e, inside, member⟩ := Element.mem_surveyAll_positive.1 member
      exact ⟨e, inside, source, member, names⟩
    · rintro ⟨e, inside, source, member, names⟩
      exact ⟨source, Element.mem_surveyAll_positive.2 ⟨e, inside, member⟩, names⟩
  · constructor
    · rintro ⟨source, member, names⟩
      obtain ⟨e, inside, member⟩ := Element.mem_surveyAll_negative.1 member
      exact ⟨e, inside, source, member, names⟩
    · rintro ⟨e, inside, source, member, names⟩
      exact ⟨source, Element.mem_surveyAll_negative.2 ⟨e, inside, member⟩, names⟩

/-- An alternative on its own admits what it names, or in a negated list what it
    does not name. -/
theorem admitsAlone_of_member (formed : Verdict.ofAlternatives alternatives d = .set choice)
    {e : Element} (member : e ∈ alternatives) {s : Nat} (inside : d.contains s) :
    if choice.negated then
      (Verdict.ofAlternatives [e] d ≠ .branches .empty → e.admitsAlone d s) ↔
        ¬ ∃ source ∈ (e.survey d).negative, source.Names s
    else e.admitsAlone d s ↔ ∃ source ∈ (e.survey d).positive, source.Names s := by
  rcases verdict_alone formed member with ⟨empty, positive, negative⟩ | alone
  · simp [empty, positive, negative, Element.admitsAlone]
  · have admits := admitsAlone_iff (s := s) alone
    cases negated : choice.negated <;> simp_all

/-- Alternatives that form one set have a transition, as each of them has on its
    own unless it is empty. A symbol is admitted if some alternative admits it,
    or in a negated list if all of them do. -/
theorem set_admits_iff (formed : Verdict.ofAlternatives alternatives d = .set choice) :
    (∀ e ∈ alternatives, Verdict.ofAlternatives [e] d = .branches .empty ∨
      ∃ one t, Verdict.ofAlternatives [e] d = .set one ∧ one.transition .once none d = .ok t) ∧
    ∃ t, choice.transition .once none d = .ok t ∧ ∀ s, d.contains s →
      (t.admits (some s) ↔
        if choice.negated then
          ∀ e ∈ alternatives, Verdict.ofAlternatives [e] d ≠ .branches .empty → e.admitsAlone d s
        else ∃ e ∈ alternatives, e.admitsAlone d s) := by
  refine ⟨fun e member => ?_, ?_⟩
  · rcases verdict_alone formed member with ⟨empty, -⟩ | alone
    · exact .inl empty
    · obtain ⟨t, made, -⟩ := transition_admits alone .once none
      exact .inr ⟨_, t, alone, made⟩
  obtain ⟨t, made, admits⟩ := transition_admits formed .once none
  refine ⟨t, made, fun s inside => ?_⟩
  rw [admits, names_iff formed]
  have alone {e : Element} (member : e ∈ alternatives) :=
    admitsAlone_of_member formed member inside
  cases negated : choice.negated with
  | true =>
    simp only [negated, if_true] at alone ⊢
    constructor
    · rintro ⟨-, unnamed⟩ e member
      exact (alone member).2 fun named => unnamed ⟨e, member, named⟩
    · intro all
      refine ⟨inside, ?_⟩
      rintro ⟨e, member, named⟩
      exact (alone member).1 (all e member) named
  | false =>
    simp only [negated, Bool.false_eq_true, if_false] at alone ⊢
    constructor
    · rintro ⟨-, e, member, named⟩
      exact ⟨e, member, (alone member).2 named⟩
    · rintro ⟨e, member, admits⟩
      exact ⟨inside, e, member, (alone member).1 admits⟩

theorem set_admits_iff_negated :
    ∃ choice t, Verdict.ofAlternatives [.negated (.literal 97), .block {} [], .negated (.literal 98)]
        .lexer = .set choice ∧
      choice.transition .once none .lexer = .ok t ∧ t.admits (some 99) = true := by
  have formed : Verdict.ofAlternatives
      [.negated (.literal 97), .block {} [], .negated (.literal 98)] .lexer =
        .set ⟨[.literal 97, .literal 98], true⟩ := by decide
  obtain ⟨-, t, made, admits⟩ := set_admits_iff formed
  refine ⟨_, t, formed, made, (admits 99 (by decide)).2 ?_⟩
  decide

/-- Of two negated alternatives each admits what only the other one names. -/
theorem not_set_admits_iff_some :
    ¬ ∀ (alternatives : List Element) (d : Domain) (choice : SetChoice) (t : Transition),
      Verdict.ofAlternatives alternatives d = .set choice →
      choice.transition .once none d = .ok t →
      ∀ s, d.contains s → (t.admits (some s) ↔ ∃ e ∈ alternatives, e.admitsAlone d s) := by
  intro all
  have both := all [.negated (.literal 97), .negated (.literal 98)] .lexer
    ⟨[.literal 97, .literal 98], true⟩ _ (by decide) rfl 97 (by decide)
  have some : ∃ e ∈ [Element.negated (.literal 97), .negated (.literal 98)],
      e.admitsAlone .lexer 97 := ⟨.negated (.literal 98), by simp, by decide⟩
  have admitted := both.2 some
  revert admitted
  decide

end

end SetGrammar
