import SetGrammar.Proofs.Symbol.UniqueForm
import SetGrammar.Proofs.Symbol.WordSweep

/-!
# Complement and restriction

A domain divides into the part that a set restricts to and the complement of the
set. Three ways to ask whether a set lies in a domain agree: by its smallest and
largest symbol, by the bounds of its intervals and by its restriction.
-/
namespace SetGrammar

/-- Every symbol of the set is in the domain. -/
def SymbolSet.Within (a : SymbolSet) (d : Domain) : Prop := ∀ s, a.contains s → d.contains s

namespace Interval

/-- A domain has an interval just if it has both bounds. -/
theorem within_iff {i : Interval} {d : Domain} :
    (∀ s, i.contains s → d.contains s) ↔ d.contains i.low ∧ d.contains i.high := by
  have ordered := i.low_le_high
  simp only [contains_iff, Domain.contains_iff]
  constructor
  · intro within
    exact ⟨within i.low ⟨Nat.le_refl _, ordered⟩, within i.high ⟨ordered, Nat.le_refl _⟩⟩
  · rintro ⟨low, high⟩ s inside
    omega

theorem covered_within_iff {row : List Interval} {d : Domain} :
    (∀ s, Covered row s → d.contains s) ↔ ∀ i ∈ row, d.contains i.low ∧ d.contains i.high := by
  constructor
  · intro within i member
    exact within_iff.1 fun s has => within s ⟨i, member, has⟩
  · rintro within s ⟨i, member, has⟩
    exact within_iff.2 (within i member) s has

theorem le_high_of_covered {row : List Interval} {last : Interval} {s : Nat}
    (sorted : Separated (row ++ [last])) (has : Covered (row ++ [last]) s) : s ≤ last.high := by
  have ordered := last.low_le_high
  rcases covered_append.1 has with ⟨i, member, has⟩ | has
  · have before : i.Before last :=
      (List.pairwise_append.1 sorted).2.2 i member last (List.mem_singleton_self _)
    simp only [Before, contains_iff] at before has
    omega
  · rw [covered_cons, contains_iff] at has
    rcases has with has | none
    · exact has.2
    · exact (covered_nil none).elim

end Interval

namespace SymbolSet

open SetGrammar.Interval

variable {a b : SymbolSet} {d : Domain}

theorem within_iff : a.Within d ↔ ∀ i ∈ a.toIntervals, d.contains i.low ∧ d.contains i.high := by
  rw [← covered_within_iff]
  simp only [Within, contains_iff_covered]

theorem contains_min? {low : Nat} (first : a.min? = some low) :
    a.contains low ∧ ∀ s, a.contains s → low ≤ s := by
  rw [min?, ← Array.getElem?_toList, Option.map_eq_some_iff] at first
  obtain ⟨i, head, rfl⟩ := first
  have sorted := a.separated
  simp only [contains_iff_covered, toIntervals]
  cases row : a.intervals.toList with
  | nil => simp [row] at head
  | cons j rest =>
    rw [row] at head sorted
    cases head
    have own : i.contains i.low := contains_iff.2 ⟨Nat.le_refl _, i.low_le_high⟩
    exact ⟨covered_cons.2 (.inl own), fun s has => low_le_of_covered sorted has⟩

theorem contains_max? {high : Nat} (last : a.max? = some high) :
    a.contains high ∧ ∀ s, a.contains s → s ≤ high := by
  rw [max?, ← Array.getLast?_toList, Option.map_eq_some_iff] at last
  obtain ⟨i, final, rfl⟩ := last
  have sorted := a.separated
  obtain ⟨row, split⟩ := List.getLast?_eq_some_iff.1 final
  rw [split] at sorted
  simp only [contains_iff_covered, toIntervals, split]
  have own : Covered [i] i.high :=
    covered_cons.2 (.inl (contains_iff.2 ⟨i.low_le_high, Nat.le_refl _⟩))
  exact ⟨covered_append.2 (.inr own), fun s has => le_high_of_covered sorted has⟩

theorem toIntervals_eq_nil (none : a.min? = none ∨ a.max? = none) : a.toIntervals = [] := by
  rcases none with none | none
  · rw [min?, Option.map_eq_none_iff, ← Array.getElem?_toList] at none
    simpa [toIntervals] using none
  · rw [max?, Option.map_eq_none_iff, ← Array.getLast?_toList] at none
    simpa [toIntervals] using none

/-- The smallest and the largest symbol decide whether a set is in a domain. -/
theorem isIn_iff : a.isIn d ↔ a.Within d := by
  have empty (none : a.min? = none ∨ a.max? = none) : a.Within d := by
    rw [within_iff, toIntervals_eq_nil none]
    exact nofun
  unfold isIn
  cases first : a.min? with
  | none => exact iff_of_true rfl (empty (.inl first))
  | some low =>
    cases last : a.max? with
    | none => exact iff_of_true rfl (empty (.inr last))
    | some high =>
      obtain ⟨hasLow, least⟩ := contains_min? first
      obtain ⟨hasHigh, greatest⟩ := contains_max? last
      simp only [Bool.and_eq_true]
      constructor
      · rintro ⟨inLow, inHigh⟩ s has
        have above := least s has
        have below := greatest s has
        rw [Domain.contains_iff] at *
        omega
      · intro within
        exact ⟨within low hasLow, within high hasHigh⟩

theorem restrict_eq_self_iff : a.restrict d = a ↔ a.Within d := by
  constructor
  · intro same s has
    rw [← same, contains_restrict] at has
    exact has.2
  · intro within
    refine eq_of_contains_iff fun s => ?_
    rw [contains_restrict, and_iff_left_of_imp (within s)]

theorem complement_complement : (a.complement d).complement d = a.restrict d := by
  refine eq_of_contains_iff fun s => ?_
  rw [contains_complement, contains_complement, contains_restrict]
  tauto

theorem restrict_union_complement : (a.restrict d).union (a.complement d) = d.symbols := by
  refine eq_of_contains_iff fun s => ?_
  rw [contains_union, contains_restrict, contains_complement, contains_symbols]
  tauto

theorem complement_within : (a.complement d).Within d := by
  intro s has
  exact (contains_complement.1 has).1

theorem restrict_within : (a.restrict d).Within d := by
  intro s has
  exact (contains_restrict.1 has).2

end SymbolSet

namespace Domain

variable {a : SymbolSet} {d : Domain}

theorem forM_check_eq_ok_iff {row : List Interval} :
    (row.forM fun i => do d.check i.low; d.check i.high) = .ok () ↔
      ∀ i ∈ row, d.contains i.low ∧ d.contains i.high := by
  induction row with
  | nil => exact iff_of_true rfl nofun
  | cons i rest ih =>
    rw [List.forM_eq_forM] at ih ⊢
    rw [List.forM_cons, List.forall_mem_cons, ← ih, ← check_eq_ok_iff, ← check_eq_ok_iff]
    cases d.check i.low <;> cases d.check i.high <;> simp [bind, Except.bind]

/-- The bounds of the intervals decide whether a set is in a domain. -/
theorem checkMembers_eq_ok_iff : d.checkMembers a = .ok () ↔ a.Within d := by
  rw [SymbolSet.within_iff]
  exact forM_check_eq_ok_iff

end Domain

namespace SymbolSet

/-- A complement has the symbols of the domain that the set has not, and the two
    parts make up the domain. All ways to ask whether a set lies in the domain
    agree. In words no step of the sweep wraps or loses bits. -/
theorem complement_divides_domain (a : SymbolSet) (d : Domain) :
    (∀ s, (a.complement d).contains s ↔ d.contains s ∧ ¬ a.contains s) ∧
      (a.complement d).complement d = a.restrict d ∧
      (∀ s, (a.restrict d).contains s ↔ a.contains s ∧ d.contains s) ∧
      (∀ s, ¬ ((a.restrict d).contains s ∧ (a.complement d).contains s)) ∧
      (a.restrict d).union (a.complement d) = d.symbols ∧
      (∀ s, d.symbols.contains s ↔ d.contains s) ∧
      (a.isIn d ↔ ∀ s, a.contains s → d.contains s) ∧
      (d.checkMembers a = .ok () ↔ ∀ s, a.contains s → d.contains s) ∧
      (a.restrict d = a ↔ ∀ s, a.contains s → d.contains s) ∧
      (d.min < UInt32.size → d.max < UInt32.size → (∀ i ∈ a.toIntervals, i.high < UInt32.size) →
        Word.complement? (.ofNat d.min) (.ofNat d.max) (a.toIntervals.map Word.boundsOf) =
            some ((a.complement d).toIntervals.map Word.boundsOf) ∧
          ∀ i ∈ (a.complement d).toIntervals, i.high < UInt32.size) := by
  refine ⟨fun s => contains_complement, complement_complement, fun s => contains_restrict, ?_,
    restrict_union_complement, fun s => contains_symbols, isIn_iff, Domain.checkMembers_eq_ok_iff,
    restrict_eq_self_iff, ?_⟩
  · rintro s ⟨inside, outside⟩
    exact (contains_complement.1 outside).2 (contains_restrict.1 inside).1
  · intro min max narrow
    refine ⟨complement_words min max narrow, fun i member => ?_⟩
    have bounds := (within_iff.1 complement_within i member).2
    exact Nat.lt_of_le_of_lt (Domain.contains_iff.1 bounds).2 max

/-- A set with an interval across each end of the domain of all token types. -/
theorem complement_divides_domain_last :
    let d := Domain.parser 4294967295
    let a := SymbolSet.ofIntervals
      [⟨0, 3, by decide⟩, .single 7, ⟨4294967290, 4294967295, by decide⟩]
    d.min < UInt32.size ∧ d.max < UInt32.size ∧ (∀ i ∈ a.toIntervals, i.high < UInt32.size) ∧
      Word.complement? (.ofNat d.min) (.ofNat d.max) (a.toIntervals.map Word.boundsOf) =
        some [(4, 6), (8, 4294967289)] ∧
      ¬ a.isIn d ∧ (a.complement d).complement d ≠ a := by
  intro d a
  have min : d.min < UInt32.size := by decide
  have max : d.max < UInt32.size := by decide
  have narrow : ∀ i ∈ a.toIntervals, i.high < UInt32.size := by decide
  obtain ⟨-, twice, -, -, -, -, inside, -, same, words⟩ := complement_divides_domain a d
  obtain ⟨swept, -⟩ := words min max narrow
  have row : (a.complement d).toIntervals.map Word.boundsOf = [(4, 6), (8, 4294967289)] := by decide
  have outside : ¬ ∀ s, a.contains s → d.contains s := by
    intro within
    have zero := within 0 (by decide)
    revert zero
    decide
  refine ⟨min, max, narrow, swept.trans (congrArg some row), mt inside.1 outside, ?_⟩
  rw [twice]
  exact mt same.1 outside

end SymbolSet

end SetGrammar
