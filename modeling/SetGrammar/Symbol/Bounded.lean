import SetGrammar.Symbol.Set

/-!
# Sets within a domain

Complement, restriction and checks of a set relative to a domain. Symbols
outside the domain play no part in a complement, so complementing twice gives
the part of the set inside the domain.
-/
namespace SetGrammar

namespace Interval

/-- The interval between two bounds, if they are not reversed, as a row. -/
def between (low high : Nat) : List Interval := if h : low ≤ high then [⟨low, high, h⟩] else []

theorem le_pred_low {next : Nat} {i : Interval} (room : next < i.low) : next ≤ i.low - 1 :=
  Nat.le_sub_one_of_lt room

/-- The stretches from `next` to `last` that a row of intervals leaves free. -/
def gaps (next last : Nat) : List Interval → List Interval
  | [] => between next last
  | first :: rest =>
    if last < first.low then between next last
    else if room : next < first.low then
      ⟨next, first.low - 1, le_pred_low room⟩ :: gaps (first.high + 1) last rest
    else gaps (max next (first.high + 1)) last rest

theorem low_of_mem_between {low high : Nat} : ∀ i ∈ between low high, i.low = low := by
  unfold between
  split <;> simp

theorem separated_between (low high : Nat) : Separated (between low high) := by
  unfold between
  split <;> simp [Separated]

theorem le_low_of_mem_gaps {next last : Nat} {row : List Interval} :
    ∀ i ∈ gaps next last row, next ≤ i.low := by
  induction row generalizing next with
  | nil => exact fun i member => Nat.le_of_eq (low_of_mem_between i member).symm
  | cons first row ih =>
    have := first.low_le_high
    unfold gaps
    split
    · exact fun i member => Nat.le_of_eq (low_of_mem_between i member).symm
    · split
      · intro i member
        rcases List.mem_cons.1 member with rfl | member
        · exact Nat.le_refl _
        · have := ih i member
          omega
      · intro i member
        have := ih i member
        omega

theorem separated_gaps (next last : Nat) (row : List Interval) :
    Separated (gaps next last row) := by
  induction row generalizing next with
  | nil => exact separated_between _ _
  | cons first row ih =>
    have := first.low_le_high
    unfold gaps
    split
    · exact separated_between _ _
    · split
      · refine List.pairwise_cons.2 ⟨fun i member => ?_, ih _⟩
        have := le_low_of_mem_gaps i member
        simp only [Before]
        omega
      · exact ih _

theorem before_clip? {i j i' j' : Interval} {low high : Nat} (before : i.Before j)
    (left : i.clip? low high = some i') (right : j.clip? low high = some j') : i'.Before j' := by
  simp only [clip?] at left right
  split at left
  · split at right
    · simp only [Option.some.injEq] at left right
      subst left right
      simp only [Before] at *
      omega
    · contradiction
  · contradiction

/-- The parts of a row of intervals between two bounds. -/
def clip (low high : Nat) (row : List Interval) : List Interval :=
  row.filterMap fun i => i.clip? low high

theorem separated_clip {low high : Nat} {row : List Interval} (sorted : Separated row) :
    Separated (clip low high row) :=
  List.pairwise_filterMap.2 (sorted.imp fun before _ left _ right => before_clip? before left right)

end Interval

namespace SymbolSet

/-- The symbols of the domain that are not in the set. -/
def complement (a : SymbolSet) (d : Domain) : SymbolSet :=
  ofSeparated (Interval.gaps d.min d.max a.toIntervals) (Interval.separated_gaps _ _ _)

/-- The symbols of the set that are in the domain. -/
def restrict (a : SymbolSet) (d : Domain) : SymbolSet :=
  ofSeparated (Interval.clip d.min d.max a.toIntervals) (Interval.separated_clip a.separated)

/-- Whether the whole set is in the domain. The smallest and the largest symbol
    decide it. -/
def isIn (a : SymbolSet) (d : Domain) : Bool :=
  match a.min?, a.max? with
  | some low, some high => d.contains low && d.contains high
  | _, _ => true

end SymbolSet

namespace Domain

/-- Every symbol of the domain. -/
def symbols (d : Domain) : SymbolSet :=
  .ofSeparated (Interval.between d.min d.max) (Interval.separated_between _ _)

/-- Accepts exactly the sets inside the domain, and otherwise names the first
    bound of an interval that lies outside. -/
def checkMembers (d : Domain) (a : SymbolSet) : Except SymbolError Unit :=
  a.toIntervals.forM fun i => do
    d.check i.low
    d.check i.high

end Domain

end SetGrammar
