import SetGrammar.Compilation
import SetGrammar.Proofs.Analysis.Survey

/-!
# What becomes of a block

A block of which nothing is rejected may become a set. Any other has a sequence
for each alternative that is accepted. Whatever else is proved of compiled blocks
and of what is reported about them starts from these two cases.
-/
namespace SetGrammar

/-- Alternatives that form one set have a transition. -/
theorem SetChoice.transition_of_formed {alternatives : List Element} {d : Domain}
    {choice : SetChoice} (formed : Verdict.ofAlternatives alternatives d = .set choice)
    (quantifier : Quantifier) (label : Option String) :
    ∃ t, choice.test d = .ok t ∧
      choice.transition quantifier label d = .ok ⟨t, quantifier, label⟩ := by
  obtain ⟨set, made, -⟩ := (Element.surveyAll_sound alternatives).test_ok formed
  exact ⟨_, made, except_bind_eq_ok.2 ⟨_, made, rfl⟩⟩

namespace CompileContext

variable {c : CompileContext} {span : Span}

theorem accepts_iff {e : Element} :
    c.accepts e = true ↔ e.check c.domain = .ok () ∧ c.checkReferences e = .ok () := by
  have passes : c.accepts e = true ↔ c.check e = .ok () := by
    unfold accepts
    cases c.check e <;> simp [Except.isOk, Except.toBool]
  rw [passes, check, except_bind_eq_ok]
  exact ⟨fun ⟨⟨⟩, symbols, references⟩ => ⟨symbols, references⟩,
    fun ⟨symbols, references⟩ => ⟨(), symbols, references⟩⟩

theorem rejection?_eq_none_iff {e : Element} : c.rejection? e = none ↔ c.accepts e = true := by
  unfold rejection? accepts
  cases c.check e <;> simp [Except.isOk, Except.toBool]

theorem rejections_of_accepted {alternatives : List Element}
    (accepted : ∀ e ∈ alternatives, c.accepts e = true) :
    alternatives.filterMap c.rejection? = [] := by
  rw [List.filterMap_eq_nil_iff]
  exact fun e member => rejection?_eq_none_iff.2 (accepted e member)

/-- Without rejections the alternatives alone decide, and the options. -/
theorem verdict_of_accepted {alternatives : List Element}
    (accepted : ∀ e ∈ alternatives, c.accepts e = true) :
    c.verdict alternatives =
      match Verdict.ofAlternatives alternatives c.domain with
      | .set choice =>
        if c.options.formSets || choice.negated then .set choice else .branches .disabled
      | .branches reason => .branches reason := by
  rw [verdict, rejections_of_accepted accepted]
  rfl

theorem rejectionReason?_eq_none {rejections : List Rejection} :
    rejectionReason? rejections = none ↔ rejections = [] := by
  cases rejections with
  | nil => simp [rejectionReason?]
  | cons first rest => simp [rejectionReason?, BranchReason.first?_eq_none]

theorem of_verdict_eq_set {alternatives : List Element} {choice : SetChoice}
    (verdict : c.verdict alternatives = .set choice) :
    (∀ e ∈ alternatives, c.accepts e = true) ∧
      Verdict.ofAlternatives alternatives c.domain = .set choice ∧
      (c.options.formSets = true ∨ choice.negated = true) := by
  unfold CompileContext.verdict at verdict
  split at verdict
  · cases verdict
  · rename_i unrejected
    have accepted : ∀ e ∈ alternatives, c.accepts e = true := fun e member =>
      rejection?_eq_none_iff.1
        (List.filterMap_eq_nil_iff.1 (rejectionReason?_eq_none.1 unrejected) e member)
    refine ⟨accepted, ?_⟩
    split at verdict
    · rename_i formed
      split at verdict
      · rename_i allowed
        cases verdict
        exact ⟨formed, by simpa using allowed⟩
      · cases verdict
    · cases verdict

/-- A block becomes a set, or it reports what is rejected and a label that is lost,
    and has its branches. -/
theorem block_outcome (c : CompileContext) (marks : BlockMarks) (alternatives : List Element)
    (branches : Reported (List CompiledSequence)) :
    let made := c.block marks alternatives branches
    (∃ choice t, c.verdict alternatives = .set choice ∧ choice.test c.domain = .ok t ∧
        made.value = .set ⟨t, marks.quantifier, marks.label⟩ ∧
        made.diagnostics = c.emptyComplement marks.span t) ∨
      ∃ reason, c.verdict alternatives = .branches reason ∧
        made.value = .branches branches.value marks.quantifier
          (if reason = .disabled then marks.label else none) reason ∧
        made.diagnostics =
          (alternatives.filterMap c.rejection?).map (c.rejectionDiagnostic marks.span) ++
            (c.misplacedLabel marks reason ++ branches.diagnostics) := by
  unfold block
  cases verdict : c.verdict alternatives with
  | branches reason =>
    refine .inr ⟨reason, rfl, rfl, ?_⟩
    simp [keepBranches]
  | set choice =>
    obtain ⟨accepted, formed, -⟩ := of_verdict_eq_set verdict
    obtain ⟨t, tested, made⟩ :=
      SetChoice.transition_of_formed formed marks.quantifier marks.label
    refine .inl ⟨choice, t, rfl, tested, ?_⟩
    simp [made, rejections_of_accepted accepted]

/-- The elements of an accepted alternative. -/
def alternative (c : CompileContext) (span : Span) : Element → Reported CompiledSequence
  | .sequence items => c.items span items
  | other => Option.toList <$> c.element span other

theorem branches_cons {e : Element} {rest : List Element} (accepted : c.accepts e = true) :
    c.branches span (e :: rest) = do
      let first ← c.alternative span e
      return first :: (← c.branches span rest) := by
  rw [branches, if_pos accepted]
  cases e <;> rfl

theorem checkReferencesOfAll_cons {e : Element} {rest : List Element}
    (checked : c.checkReferencesOfAll (e :: rest) = .ok ()) :
    c.checkReferences e = .ok () ∧ c.checkReferencesOfAll rest = .ok () := by
  obtain ⟨⟨⟩, first, others⟩ := except_bind_eq_ok.1 checked
  exact ⟨first, others⟩

/-- What is accepted as a whole is accepted item by item. -/
theorem accepts_items {items : List Element} (accepted : c.accepts (.sequence items) = true) :
    ∀ e ∈ items, c.accepts e = true := by
  obtain ⟨symbols, references⟩ := accepts_iff.1 accepted
  unfold Element.check at symbols
  unfold checkReferences at references
  clear accepted
  induction items with
  | nil => exact nofun
  | cons e rest ih =>
    obtain ⟨⟨⟩, symbol, symbols⟩ := except_bind_eq_ok.1 symbols
    obtain ⟨reference, references⟩ := checkReferencesOfAll_cons references
    exact List.forall_mem_cons.2 ⟨accepts_iff.2 ⟨symbol, reference⟩, ih symbols references⟩

end CompileContext

end SetGrammar
