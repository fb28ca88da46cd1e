import SetGrammar.Proofs.Compilation.Blocks
import SetGrammar.Proofs.OrderedChoice

/-!
# Compiling without errors

What a compilation gives when no finding is an error: no alternative is left
out, every set has its test, and every label is kept.
-/
namespace SetGrammar

/-- No finding is an error. -/
def Reported.Clean {α : Type} (x : Reported α) : Prop := ∀ d ∈ x.diagnostics, d.isError = false

namespace Reported

variable {α β : Type}

theorem eq_of {x y : Reported α} (value : x.value = y.value)
    (diagnostics : x.diagnostics = y.diagnostics) : x = y := by
  cases x
  cases y
  cases value
  cases diagnostics
  rfl

@[simp] theorem clean_pure {a : α} : (pure a : Reported α).Clean := by simp [Clean]

@[simp] theorem clean_bind {x : Reported α} {f : α → Reported β} :
    (x >>= f).Clean ↔ x.Clean ∧ (f x.value).Clean := by
  simp only [Clean, diagnostics_bind, List.mem_append, or_imp, forall_and]

@[simp] theorem clean_report {found : List Diagnostic} :
    (report found).Clean ↔ ∀ d ∈ found, d.isError = false := by
  rw [Clean, diagnostics_report]

@[simp] theorem clean_map {x : Reported α} {f : α → β} : (f <$> x).Clean ↔ x.Clean := by
  show (x >>= fun a => pure (f a)).Clean ↔ _
  simp

@[simp] theorem value_map {x : Reported α} {f : α → β} : (f <$> x).value = f x.value := rfl

end Reported

namespace CompileContext

open Reported

variable {c : CompileContext} {span : Span}

theorem rejectionDiagnostic_isError (rejection : Rejection) :
    (c.rejectionDiagnostic span rejection).isError = true := by
  cases rejection <;> rfl

theorem accepted_of_clean {alternatives : List Element}
    (clean : (report ((alternatives.filterMap c.rejection?).map
      (c.rejectionDiagnostic span))).Clean) :
    ∀ e ∈ alternatives, c.accepts e = true := by
  intro e member
  rw [clean_report] at clean
  cases rejected : c.rejection? e with
  | none => exact rejection?_eq_none_iff.1 rejected
  | some rejection =>
    have reported := clean (c.rejectionDiagnostic span rejection)
      (List.mem_map_of_mem (List.mem_filterMap.2 ⟨e, member, rejected⟩))
    rw [rejectionDiagnostic_isError] at reported
    cases reported

theorem label_of_placed {marks : BlockMarks} {reason : BranchReason}
    (placed : ∀ d ∈ c.misplacedLabel marks reason, d.isError = false) :
    (if reason = .disabled then marks.label else none) = marks.label := by
  by_cases disabled : reason = .disabled
  · exact if_pos disabled
  · cases named : marks.label with
    | none => exact ite_self _
    | some label =>
      simp [misplacedLabel, named, disabled, diagnostic, Diagnostic.isError, Diagnostic.severity,
        DiagnosticKind.severity] at placed

/-- A block without errors keeps all alternatives, as a set or as branches. It
    keeps the branches of a set only if the options forbid sets and it is not
    negated. -/
theorem block_clean {marks : BlockMarks} {alternatives : List Element}
    {branches : Reported (List CompiledSequence)}
    (clean : (c.block marks alternatives branches).Clean) :
    (∀ e ∈ alternatives, c.accepts e = true) ∧
      ((∃ choice t, Verdict.ofAlternatives alternatives c.domain = .set choice ∧
          (c.options.formSets = true ∨ choice.negated = true) ∧ choice.test c.domain = .ok t ∧
          (c.block marks alternatives branches).value = .set ⟨t, marks.quantifier, marks.label⟩) ∨
        ∃ reason, branches.Clean ∧
          (∀ choice, Verdict.ofAlternatives alternatives c.domain = .set choice →
            c.options.formSets = false ∧ choice.negated = false) ∧
          (c.block marks alternatives branches).value =
            .branches branches.value marks.quantifier marks.label reason) := by
  obtain ⟨choice, t, verdict, tested, value, -⟩ | ⟨reason, verdict, value, found⟩ :=
    c.block_outcome marks alternatives branches
  · obtain ⟨accepted, formed, allowed⟩ := of_verdict_eq_set verdict
    exact ⟨accepted, .inl ⟨choice, t, formed, allowed, tested, value⟩⟩
  · rw [Clean, found, List.forall_mem_append, List.forall_mem_append] at clean
    obtain ⟨rejections, placed, kept⟩ := clean
    have accepted := accepted_of_clean (clean_report.2 rejections)
    refine ⟨accepted, .inr ⟨reason, kept, fun choice formed => ?_, ?_⟩⟩
    · rw [verdict_of_accepted accepted, formed] at verdict
      dsimp only at verdict
      by_cases allowed : (c.options.formSets || choice.negated) = true
      · rw [if_pos allowed] at verdict
        cases verdict
      · simpa using allowed
    · rw [value, label_of_placed placed]

theorem symbol_clean {e : Element} (clean : (c.symbol span e).Clean) :
    ∃ t, e.test c.domain = .ok t ∧ (c.symbol span e).value = some (.set (.ofTest t)) := by
  unfold symbol at clean ⊢
  cases tested : e.test c.domain with
  | ok t => exact ⟨t, rfl, rfl⟩
  | error rejection =>
    simp only [tested, clean_bind, clean_report, List.forall_mem_singleton] at clean
    rw [rejectionDiagnostic_isError] at clean
    cases clean.1

theorem element_block_clean {marks : BlockMarks} {alternatives : List Element}
    (clean : (c.element span (.block marks alternatives)).Clean) :
    let block := c.block marks alternatives (c.branches marks.span alternatives)
    block.Clean ∧ (c.element span (.block marks alternatives)).value = some (.block block.value) :=
  ⟨(clean_bind.1 clean).1, rfl⟩

theorem element_sequence_clean {items : List Element}
    (clean : (c.element span (.sequence items)).Clean) :
    (c.items span items).Clean ∧ (c.element span (.sequence items)).value =
      some (.block (.branches [(c.items span items).value] .once none .multiSymbol)) :=
  ⟨(clean_bind.1 clean).1, rfl⟩

theorem items_cons_clean {item : Element} {rest : List Element}
    (clean : (c.items span (item :: rest)).Clean) :
    (c.element span item).Clean ∧ (c.items span rest).Clean ∧
      (c.items span (item :: rest)).value =
        (c.element span item).value.toList ++ (c.items span rest).value := by
  obtain ⟨first, others⟩ := clean_bind.1 clean
  exact ⟨first, (clean_bind.1 others).1, rfl⟩

theorem branches_cons_clean {e : Element} {rest : List Element} (accepted : c.accepts e = true)
    (clean : (c.branches span (e :: rest)).Clean) :
    (c.alternative span e).Clean ∧ (c.branches span rest).Clean ∧
      (c.branches span (e :: rest)).value =
        (c.alternative span e).value :: (c.branches span rest).value := by
  rw [branches_cons accepted] at clean ⊢
  obtain ⟨first, others⟩ := clean_bind.1 clean
  exact ⟨first, (clean_bind.1 others).1, rfl⟩

end CompileContext

end SetGrammar
