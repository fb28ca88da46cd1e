import SetGrammar.Proofs.Symbol.UniqueForm

/-!
# Sorting and merging

The row of a set can also be made by sorting the intervals it is made from and merging
them in one pass. The pass extends one interval at a time for as long as the next one
overlaps or borders it. This gives the same row as adding the intervals one by one.
-/
namespace SetGrammar

namespace Interval

/-- The order of lower bounds, and of upper bounds among intervals with the same. -/
def atMost (i j : Interval) : Bool := i.low < j.low || (i.low == j.low && i.high ≤ j.high)

/-- An interval up to the end of another if that is later. -/
def extend (i j : Interval) : Interval where
  low := i.low
  high := max i.high j.high
  low_le_high := Nat.le_trans i.low_le_high (Nat.le_max_left _ _)

/-- Goes through a sorted row with the interval that is being extended. -/
def mergeFrom (current : Interval) : List Interval → List Interval
  | [] => [current]
  | next :: rest =>
    if next.low ≤ current.high + 1 then mergeFrom (current.extend next) rest
    else current :: mergeFrom next rest

/-- Merges the intervals of a sorted row that have no gap between them. -/
def mergeSorted : List Interval → List Interval
  | [] => []
  | first :: rest => mergeFrom first rest

/-- Sorts intervals and merges them. -/
def canonical (intervals : List Interval) : List Interval :=
  if intervals.length < 2 then intervals else mergeSorted (intervals.mergeSort atMost)

/-- Intervals in the order of their lower bounds. -/
def Ascending (intervals : List Interval) : Prop := intervals.Pairwise fun i j => i.low ≤ j.low

variable {current next : Interval} {row intervals : List Interval} {s : Nat}

theorem atMost_iff {i j : Interval} :
    i.atMost j = true ↔ i.low < j.low ∨ i.low = j.low ∧ i.high ≤ j.high := by
  simp [atMost]

theorem ascending_mergeSort (intervals : List Interval) :
    Ascending (intervals.mergeSort atMost) := by
  have trans (i j k : Interval) (first : i.atMost j = true) (second : j.atMost k = true) :
      i.atMost k = true := by
    rw [atMost_iff] at *
    omega
  have total (i j : Interval) : (i.atMost j || j.atMost i) = true := by
    rw [Bool.or_eq_true, atMost_iff, atMost_iff]
    omega
  refine (List.pairwise_mergeSort trans total intervals).imp fun ordered => ?_
  rw [atMost_iff] at ordered
  omega

theorem Ascending.extend (sorted : Ascending (current :: next :: row)) :
    Ascending (current.extend next :: row) := by
  obtain ⟨first, later⟩ := List.pairwise_cons.1 sorted
  exact List.pairwise_cons.2
    ⟨fun j member => first j (List.mem_cons_of_mem _ member), (List.pairwise_cons.1 later).2⟩

theorem contains_extend (ordered : current.low ≤ next.low) (near : next.low ≤ current.high + 1) :
    (current.extend next).contains s ↔ current.contains s ∨ next.contains s := by
  have := current.low_le_high
  simp only [contains_iff, extend]
  omega

/-- The pass begins no interval before the lower bounds of the row. -/
theorem le_low_of_mem_mergeFrom {i : Interval} {least : Nat} (start : least ≤ current.low)
    (rest : ∀ j ∈ row, least ≤ j.low) (member : i ∈ mergeFrom current row) : least ≤ i.low := by
  induction row generalizing current with
  | nil =>
    cases List.mem_singleton.1 member
    exact start
  | cons next row ih =>
    obtain ⟨first, others⟩ := List.forall_mem_cons.1 rest
    unfold mergeFrom at member
    split at member
    · have begins : least ≤ (current.extend next).low := start
      exact ih begins others member
    · rcases List.mem_cons.1 member with rfl | later
      · exact start
      · exact ih first others later

theorem separated_mergeFrom (sorted : Ascending (current :: row)) :
    Separated (mergeFrom current row) := by
  induction row generalizing current with
  | nil => exact List.pairwise_singleton _ _
  | cons next row ih =>
    unfold mergeFrom
    split
    · exact ih sorted.extend
    · rename_i gap
      have later := (List.pairwise_cons.1 sorted).2
      refine List.pairwise_cons.2 ⟨fun j member => ?_, ih later⟩
      exact Nat.lt_of_lt_of_le (Nat.lt_of_not_le gap)
        (le_low_of_mem_mergeFrom (Nat.le_refl _) (List.pairwise_cons.1 later).1 member)

/-- The pass keeps exactly the symbols of the row. -/
theorem covered_mergeFrom (sorted : Ascending (current :: row)) :
    Covered (mergeFrom current row) s ↔ Covered (current :: row) s := by
  induction row generalizing current with
  | nil => rfl
  | cons next row ih =>
    obtain ⟨first, later⟩ := List.pairwise_cons.1 sorted
    unfold mergeFrom
    split
    · rename_i near
      rw [ih sorted.extend, covered_cons, covered_cons, covered_cons,
        contains_extend (first next List.mem_cons_self) near, or_assoc]
    · rw [covered_cons, covered_cons, ih later]

theorem separated_canonical (intervals : List Interval) : Separated (canonical intervals) := by
  unfold canonical
  split
  · rename_i short
    cases intervals with
    | nil => exact .nil
    | cons i rest =>
      have alone : rest = [] := by
        rw [List.length_cons] at short
        exact List.eq_nil_of_length_eq_zero (by omega)
      subst alone
      exact List.pairwise_singleton _ _
  · have sorted := ascending_mergeSort intervals
    cases row : intervals.mergeSort atMost with
    | nil => exact .nil
    | cons first rest =>
      rw [row] at sorted
      exact separated_mergeFrom sorted

theorem covered_canonical : Covered (canonical intervals) s ↔ Covered intervals s := by
  unfold canonical
  split
  · rfl
  · have sorted := ascending_mergeSort intervals
    have same : Covered (intervals.mergeSort atMost) s ↔ Covered intervals s := by
      simp only [Covered, List.mem_mergeSort]
    cases row : intervals.mergeSort atMost with
    | nil => rwa [row] at same
    | cons first rest =>
      rw [row] at sorted same
      exact (covered_mergeFrom sorted).trans same

/-- Adding intervals one by one comes to the same as sorting and merging them. -/
theorem gather_eq_canonical (intervals : List Interval) :
    gather intervals = canonical intervals :=
  eq_of_covered_iff (separated_gather intervals) (separated_canonical intervals) fun _ =>
    covered_gather.trans covered_canonical.symm

end Interval

/-- The row of a set comes from sorting and merging the intervals that it is made from. -/
theorem SymbolSet.toIntervals_ofIntervals (intervals : List Interval) :
    (ofIntervals intervals).toIntervals = Interval.canonical intervals :=
  Interval.gather_eq_canonical intervals

end SetGrammar
