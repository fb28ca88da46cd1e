import SetGrammar.Symbol.Bounded

/-!
# Members of a set

A symbol belongs to a set when one of its intervals has it. Making a set from
intervals keeps exactly their symbols, the binary search decides membership, and
a complement has the other symbols of the domain.
-/
namespace SetGrammar

namespace Interval

/-- Some interval of a row has the symbol. -/
def Covered (row : List Interval) (s : Nat) : Prop := ∃ i ∈ row, i.contains s

theorem covered_nil {s : Nat} : ¬ Covered [] s := by simp [Covered]

theorem covered_cons {i : Interval} {row : List Interval} {s : Nat} :
    Covered (i :: row) s ↔ i.contains s ∨ Covered row s := by
  simp [Covered]

theorem covered_append {a b : List Interval} {s : Nat} :
    Covered (a ++ b) s ↔ Covered a s ∨ Covered b s := by
  simp [Covered, or_and_right, exists_or]

theorem contains_single {a s : Nat} : (single a).contains s ↔ s = a := by
  simp only [contains_iff, single]
  omega

/-- Two intervals without a gap between them are joined without a symbol in
    excess. -/
theorem contains_join {i j : Interval} {s : Nat} (left : ¬ i.Before j) (right : ¬ j.Before i) :
    (i.join j).contains s ↔ i.contains s ∨ j.contains s := by
  have := i.low_le_high
  have := j.low_le_high
  simp only [contains_iff, join, Before] at *
  omega

theorem covered_insert {new : Interval} {row : List Interval} {s : Nat} :
    Covered (insert new row) s ↔ new.contains s ∨ Covered row s := by
  induction row generalizing new with
  | nil => simp [insert, Covered]
  | cons first row ih =>
    unfold insert
    split
    · simp only [covered_cons]
    · rename_i left
      split
      · simp only [covered_cons, ih]
        exact or_left_comm
      · rename_i right
        rw [ih, contains_join left right, covered_cons, or_assoc]

theorem covered_gather {intervals : List Interval} {s : Nat} :
    Covered (gather intervals) s ↔ Covered intervals s := by
  induction intervals with
  | nil => rfl
  | cons first rest ih =>
    show Covered (insert first (gather rest)) s ↔ _
    rw [covered_insert, covered_cons, ih]

theorem covered_between {low high s : Nat} :
    Covered (between low high) s ↔ low ≤ s ∧ s ≤ high := by
  unfold between
  split
  · simp [Covered, contains_iff]
  · simp only [covered_nil, false_iff]
    omega

/-- An interval of a separated row ends before the next ones begin, so that the
    symbols up to its end are in none of them. -/
theorem not_covered_of_le_high {first : Interval} {row : List Interval} {s : Nat}
    (sorted : Separated (first :: row)) (early : s ≤ first.high) : ¬ Covered row s := by
  rintro ⟨i, member, has⟩
  have before := (List.pairwise_cons.1 sorted).1 i member
  simp only [Before, contains_iff] at *
  omega

theorem covered_gaps {next last : Nat} {row : List Interval} {s : Nat} (sorted : Separated row) :
    Covered (gaps next last row) s ↔ (next ≤ s ∧ s ≤ last) ∧ ¬ Covered row s := by
  induction row generalizing next with
  | nil => simp [gaps, covered_between, covered_nil]
  | cons first row ih =>
    have := first.low_le_high
    have later := (List.pairwise_cons.1 sorted).2
    have early := not_covered_of_le_high (s := s) sorted
    unfold gaps
    split
    · rename_i beyond
      have outside : s ≤ last → ¬ Covered (first :: row) s := by
        intro inside
        rw [covered_cons, contains_iff]
        rintro (has | has)
        · omega
        · exact early (by omega) has
      rw [covered_between]
      exact ⟨fun inside => ⟨inside, outside inside.2⟩, fun inside => inside.1⟩
    · split
      · simp only [covered_cons, ih later, contains_iff]
        by_cases has : Covered row s
        · have late : first.high < s := Nat.lt_of_not_le fun h => early h has
          simp only [has, not_true_eq_false, and_false, or_false, or_true, iff_false]
          omega
        · simp only [has, not_false_eq_true, and_true, or_false]
          omega
      · simp only [covered_cons, ih later, contains_iff]
        by_cases has : Covered row s
        · simp [has]
        · simp only [has, not_false_eq_true, and_true, or_false]
          omega

theorem covered_clip {low high : Nat} {row : List Interval} {s : Nat} :
    Covered (clip low high row) s ↔ Covered row s ∧ low ≤ s ∧ s ≤ high := by
  have inside {i j : Interval} (part : i.clip? low high = some j) :
      j.contains s ↔ i.contains s ∧ low ≤ s ∧ s ≤ high := by
    unfold clip? at part
    split at part
    · cases part
      simp only [contains_iff]
      omega
    · cases part
  constructor
  · rintro ⟨j, member, has⟩
    obtain ⟨i, member, part⟩ := List.mem_filterMap.1 member
    obtain ⟨has, bounds⟩ := (inside part).1 has
    exact ⟨⟨i, member, has⟩, bounds⟩
  · rintro ⟨⟨i, member, has⟩, bounds⟩
    have room : max i.low low ≤ min i.high high := by
      rw [contains_iff] at has
      omega
    have part : i.clip? low high = some ⟨_, _, room⟩ := by simp [clip?, room]
    exact ⟨_, List.mem_filterMap.2 ⟨i, member, part⟩, (inside part).2 ⟨has, bounds⟩⟩

end Interval

namespace SymbolSet

open SetGrammar.Interval

/-- The index of the interval around a symbol is looked for among `low` to below
    `high`, and the steps suffice for the range. -/
theorem search_iff {intervals : Array Interval} {s steps low high : Nat}
    (sorted : Separated intervals.toList) (bound : high ≤ intervals.size)
    (enough : high - low ≤ steps) :
    search intervals s steps low high ↔
      ∃ k i, low ≤ k ∧ k < high ∧ intervals[k]? = some i ∧ i.contains s := by
  induction steps generalizing low high with
  | zero =>
    simp only [search, Bool.false_eq_true, false_iff]
    rintro ⟨k, i, first, last, -, -⟩
    omega
  | succ steps ih =>
    unfold search
    split
    · rename_i nonempty
      obtain ⟨m, middle⟩ : ∃ m, (low + high) / 2 = m := ⟨_, rfl⟩
      have inside : m < intervals.size := by omega
      simp only [middle, Array.getElem?_eq_getElem inside]
      -- The row ascends, so the interval in the middle rules out one side.
      have ascending {a b : Nat} (early : a < intervals.size) (late : b < intervals.size)
          (first : a < b) : intervals[a].Before intervals[b] :=
        List.pairwise_iff_getElem.1 sorted a b (by simpa using early) (by simpa using late) first
      have at_index {k : Nat} {i : Interval} (found : intervals[k]? = some i) :
          ∃ h : k < intervals.size, intervals[k] = i := Array.getElem?_eq_some_iff.1 found
      have bounds := intervals[m].low_le_high
      by_cases above : intervals[m].high < s
      · simp only [above, if_true]
        rw [ih bound (by omega)]
        constructor
        · rintro ⟨k, i, first, rest⟩
          exact ⟨k, i, by omega, rest⟩
        · rintro ⟨k, i, first, last, found, has⟩
          refine ⟨k, i, ?_, last, found, has⟩
          obtain ⟨present, rfl⟩ := at_index found
          rw [contains_iff] at has
          rcases Nat.lt_trichotomy k m with less | rfl | more
          · have := ascending present inside less
            simp only [Before] at this
            omega
          · omega
          · exact more
      · simp only [above, if_false]
        by_cases below : s < intervals[m].low
        · simp only [below, if_true]
          rw [ih (by omega) (by omega)]
          constructor
          · rintro ⟨k, i, first, last, rest⟩
            exact ⟨k, i, first, by omega, rest⟩
          · rintro ⟨k, i, first, last, found, has⟩
            refine ⟨k, i, first, ?_, found, has⟩
            obtain ⟨present, rfl⟩ := at_index found
            rw [contains_iff] at has
            rcases Nat.lt_trichotomy k m with less | rfl | more
            · exact less
            · omega
            · have := ascending inside present more
              simp only [Before] at this
              omega
        · simp only [below, if_false, true_iff]
          exact ⟨m, intervals[m], by omega, by omega, by simp [inside],
            contains_iff.2 (by omega)⟩
    · rename_i empty
      simp only [Bool.false_eq_true, false_iff]
      rintro ⟨k, i, first, last, -, -⟩
      omega

theorem contains_iff_covered {a : SymbolSet} {s : Nat} :
    a.contains s ↔ Covered a.toIntervals s := by
  unfold contains
  rw [search_iff a.separated (Nat.le_refl _) (by omega)]
  constructor
  · rintro ⟨k, i, -, -, found, has⟩
    obtain ⟨present, rfl⟩ := Array.getElem?_eq_some_iff.1 found
    exact ⟨_, Array.getElem_mem_toList present, has⟩
  · rintro ⟨i, member, has⟩
    obtain ⟨k, present, rfl⟩ := List.mem_iff_getElem.1 member
    rw [toIntervals, Array.length_toList] at present
    exact ⟨k, _, Nat.zero_le _, present, by simp [toIntervals, present], has⟩

theorem contains_ofSeparated {row : List Interval} {separated : Separated row} {s : Nat} :
    (ofSeparated row separated).contains s ↔ Covered row s := by
  simp [contains_iff_covered, ofSeparated, toIntervals]

theorem contains_ofIntervals {intervals : List Interval} {s : Nat} :
    (ofIntervals intervals).contains s ↔ Covered intervals s := by
  rw [ofIntervals, contains_ofSeparated, covered_gather]

theorem contains_ofInterval {i : Interval} {s : Nat} :
    (ofInterval i).contains s ↔ i.contains s := by
  refine contains_ofSeparated.trans ?_
  simp [covered_cons, covered_nil]

theorem contains_union {a b : SymbolSet} {s : Nat} :
    (a.union b).contains s ↔ a.contains s ∨ b.contains s := by
  rw [union, contains_ofIntervals, covered_append, contains_iff_covered, contains_iff_covered]
  rfl

theorem contains_ofSymbols {symbols : List Nat} {s : Nat} :
    (ofSymbols symbols).contains s ↔ s ∈ symbols := by
  rw [ofSymbols, contains_ofIntervals, Covered]
  constructor
  · rintro ⟨i, member, has⟩
    obtain ⟨n, listed, rfl⟩ := List.mem_map.1 member
    exact contains_single.1 has ▸ listed
  · intro listed
    exact ⟨.single s, List.mem_map_of_mem listed, contains_single.2 rfl⟩

theorem contains_restrict {a : SymbolSet} {d : Domain} {s : Nat} :
    (a.restrict d).contains s ↔ a.contains s ∧ d.contains s := by
  rw [restrict, contains_ofSeparated, covered_clip, Domain.contains_iff, contains_iff_covered]

theorem contains_symbols {d : Domain} {s : Nat} : d.symbols.contains s ↔ d.contains s := by
  rw [Domain.symbols, contains_ofSeparated, covered_between, Domain.contains_iff]

theorem contains_complement {a : SymbolSet} {d : Domain} {s : Nat} :
    (a.complement d).contains s ↔ d.contains s ∧ ¬ a.contains s := by
  have sorted : Separated a.toIntervals := a.separated
  rw [complement, contains_ofSeparated, covered_gaps sorted, Domain.contains_iff,
    contains_iff_covered]

end SymbolSet

end SetGrammar
