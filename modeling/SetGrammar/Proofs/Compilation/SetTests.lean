import SetGrammar.Proofs.Compilation.Links
import SetGrammar.Proofs.Symbol.Complement

/-!
# Set tests

However a set test is made, the set that it names lies in its domain. Hence it
admits just the symbols of the set that messages show, and both sets are in their
unique form.
-/
namespace SetGrammar

namespace SymbolSet

theorem hasGaps_of_separated {row : List Interval} (sorted : Separated row) :
    hasGaps row = true := by
  induction row with
  | nil => rfl
  | cons i rest ih =>
    obtain ⟨before, later⟩ := List.pairwise_cons.1 sorted
    cases rest with
    | nil => rfl
    | cons j rest =>
      have first : i.Before j := before j (by simp)
      simp [hasGaps, first, ih later]

theorem isCanonical_eq_true (a : SymbolSet) : a.isCanonical = true :=
  hasGaps_of_separated a.separated

end SymbolSet

namespace SetTest

/-- What a test names and what it admits are sets of its domain in their unique
    form, and the test admits just the latter. -/
structure WellFormed (t : SetTest) : Prop where
  named_isCanonical : t.named.isCanonical = true
  named_isIn : t.named.isIn t.domain = true
  admissible_isCanonical : t.admissible.isCanonical = true
  admissible_isIn : t.admissible.isIn t.domain = true
  admits_iff : ∀ s, t.admits (some s) ↔ t.admissible.contains s
  not_admits_none : t.admits none = false

variable {t : SetTest}

theorem admissible_within (within : t.named.Within t.domain) :
    t.admissible.Within t.domain := by
  unfold admissible
  split
  · exact SymbolSet.complement_within
  · exact within

theorem wellFormed (within : t.named.Within t.domain) : t.WellFormed where
  named_isCanonical := t.named.isCanonical_eq_true
  named_isIn := SymbolSet.isIn_iff.2 within
  admissible_isCanonical := t.admissible.isCanonical_eq_true
  admissible_isIn := SymbolSet.isIn_iff.2 (admissible_within within)
  admits_iff s := by
    rw [admits_iff_admissible, and_iff_right_of_imp (admissible_within within s)]
  not_admits_none := rfl

end SetTest

namespace SymbolSource

variable {d : Domain}

/-- The intervals of a source lie in the domain that it was checked against. -/
theorem intervals_within {source : SymbolSource} {row : List Interval}
    (made : source.intervals d = .ok row) {s : Nat} (has : Interval.Covered row s) :
    d.contains s := by
  rw [covered_intervals made] at has
  cases source with
  | literal symbol =>
    obtain ⟨⟨⟩, checked, -⟩ := except_bind_eq_ok.1 made
    rw [Rejection.ofCheck_eq_ok_iff, Domain.check_eq_ok_iff] at checked
    cases has
    exact checked
  | charClass set =>
    obtain ⟨⟨⟩, checked, -⟩ := except_bind_eq_ok.1 made
    rw [Rejection.ofCheck_eq_ok_iff, Domain.checkMembers_eq_ok_iff] at checked
    exact checked s has

theorem mapM_intervals_within {sources : List SymbolSource} {rows : List (List Interval)}
    (made : sources.mapM (·.intervals d) = .ok rows) {s : Nat}
    (has : Interval.Covered rows.flatten s) : d.contains s := by
  induction sources generalizing rows with
  | nil =>
    cases made
    exact (Interval.covered_nil has).elim
  | cons source rest ih =>
    rw [List.mapM_cons] at made
    obtain ⟨row, first, made⟩ := except_bind_eq_ok.1 made
    obtain ⟨others, later, same⟩ := except_bind_eq_ok.1 made
    cases same
    rcases Interval.covered_append.1 has with has | has
    · exact intervals_within first has
    · exact ih later has

theorem union_within {sources : List SymbolSource} {set : SymbolSet}
    (made : union sources d = .ok set) : set.Within d := by
  obtain ⟨rows, gathered, same⟩ := except_bind_eq_ok.1 made
  cases same
  intro s has
  rw [SymbolSet.contains_ofIntervals] at has
  exact mapM_intervals_within gathered has

end SymbolSource

theorem SetChoice.test_within {choice : SetChoice} {d : Domain} {t : SetTest}
    (made : choice.test d = .ok t) : t.named.Within t.domain := by
  obtain ⟨set, gathered, same⟩ := except_bind_eq_ok.1 made
  cases same
  exact SymbolSource.union_within gathered

/-- Every set test of a compiled rule names a set of its domain, whatever was
    reported. -/
theorem Grammar.compile_sets_within {g : Grammar} {options : CompileOptions} {r : CompiledRule}
    (member : r ∈ (g.compile options).value.rules) {t : Transition} (leaf : .set t ∈ r.body.leaves) :
    t.named.Within t.domain := by
  obtain ⟨source, -, -, made⟩ := compile_makes member
  obtain ⟨choice, tested⟩ := made (.set t) leaf
  exact SetChoice.test_within tested

end SetGrammar
