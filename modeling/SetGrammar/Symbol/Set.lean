import SetGrammar.Symbol.Interval

/-!
# Sets of symbols

A set is a row of separate intervals in ascending order. This form is unique:
two sets are equal exactly when they have the same symbols, and membership is a
binary search.
-/
namespace SetGrammar

/-- Ascending intervals with a gap of at least one symbol between neighbours. -/
def Separated (intervals : List Interval) : Prop := intervals.Pairwise Interval.Before

instance (intervals : List Interval) : Decidable (Separated intervals) :=
  inferInstanceAs (Decidable (intervals.Pairwise _))

namespace Interval

/-- Adds an interval to a separated row. It absorbs each interval that it
    overlaps or borders. -/
def insert (new : Interval) : List Interval → List Interval
  | [] => [new]
  | first :: rest =>
    if new.Before first then new :: first :: rest
    else if first.Before new then first :: insert new rest
    else insert (new.join first) rest

theorem before_insert {i new : Interval} {row : List Interval} (start : i.Before new)
    (rest : ∀ j ∈ row, i.Before j) : ∀ j ∈ insert new row, i.Before j := by
  induction row generalizing new with
  | nil => simpa [insert] using start
  | cons first row ih =>
    have head : i.Before first := rest first (by simp)
    have tail : ∀ j ∈ row, i.Before j := fun j member => rest j (by simp [member])
    unfold insert
    split
    · intro j member
      rcases List.mem_cons.1 member with rfl | member
      · exact start
      · exact rest j member
    · split
      · intro j member
        rcases List.mem_cons.1 member with rfl | member
        · exact head
        · exact ih start tail j member
      · refine ih ?_ tail
        simp only [Before, join] at *
        omega

theorem separated_insert (new : Interval) {row : List Interval} (sorted : Separated row) :
    Separated (insert new row) := by
  induction row generalizing new with
  | nil => simp [insert, Separated]
  | cons first row ih =>
    obtain ⟨head, tail⟩ := List.pairwise_cons.1 sorted
    unfold insert
    split
    · rename_i before
      refine List.pairwise_cons.2 ⟨fun j member => ?_, sorted⟩
      rcases List.mem_cons.1 member with rfl | member
      · exact before
      · exact before_trans before (head j member)
    · split
      · rename_i before
        exact List.pairwise_cons.2 ⟨before_insert before head, ih new tail⟩
      · exact ih _ tail

/-- The separated row with the symbols of any intervals. -/
def gather (intervals : List Interval) : List Interval := intervals.foldr insert []

theorem separated_gather (intervals : List Interval) : Separated (gather intervals) := by
  induction intervals with
  | nil => exact List.Pairwise.nil
  | cons first rest ih => exact separated_insert first ih

end Interval

/-- A finite set of symbols in its unique form. -/
structure SymbolSet where
  intervals : Array Interval
  separated : Separated intervals.toList
deriving DecidableEq

namespace SymbolSet

instance : Repr SymbolSet where
  reprPrec set n := reprPrec set.intervals n

/-! ## Making a set -/

/-- The set with the intervals of a separated row. -/
def ofSeparated (row : List Interval) (separated : Separated row) : SymbolSet :=
  ⟨row.toArray, by simpa using separated⟩

/-- No symbol. -/
def empty : SymbolSet := ofSeparated [] List.Pairwise.nil

instance : EmptyCollection SymbolSet := ⟨empty⟩
instance : Inhabited SymbolSet := ⟨empty⟩

/-- The symbols of one interval. -/
def ofInterval (i : Interval) : SymbolSet := ofSeparated [i] (List.pairwise_singleton _ _)

/-- One symbol. -/
def single (s : Nat) : SymbolSet := ofInterval (.single s)

/-- The symbols between two bounds, refused when they are reversed. -/
def range (low high : Nat) : Except SymbolError SymbolSet :=
  (Interval.ofBounds low high).map ofInterval

/-- The symbols of any intervals, which may overlap and stand in any order. -/
def ofIntervals (intervals : List Interval) : SymbolSet :=
  ofSeparated (Interval.gather intervals) (Interval.separated_gather intervals)

/-- The listed symbols. -/
def ofSymbols (symbols : List Nat) : SymbolSet := ofIntervals (symbols.map .single)

/-- The code points of the listed characters. -/
def ofChars (characters : List Char) : SymbolSet := ofSymbols (characters.map Char.toNat)

/-- The symbols of either set. -/
def union (a b : SymbolSet) : SymbolSet :=
  ofIntervals (a.intervals.toList ++ b.intervals.toList)

instance : Union SymbolSet := ⟨union⟩

/-! ## Asking about a set -/

/-- The intervals in ascending order. -/
def toIntervals (a : SymbolSet) : List Interval := a.intervals.toList

/-- Whether the set has no symbol. -/
def isEmpty (a : SymbolSet) : Bool := a.intervals.isEmpty

/-- How many symbols the set has. -/
def size (a : SymbolSet) : Nat := a.toIntervals.foldr (fun i count => i.length + count) 0

/-- The smallest symbol. -/
def min? (a : SymbolSet) : Option Nat := a.intervals[0]?.map Interval.low

/-- The largest symbol. -/
def max? (a : SymbolSet) : Option Nat := a.intervals.back?.map Interval.high

/-- Looks for the interval around a symbol among those with an index from
    `low` to below `high`. Each step halves the range, so as many steps as there
    are intervals always suffice. -/
def search (intervals : Array Interval) (s : Nat) : Nat → Nat → Nat → Bool
  | 0, _, _ => false
  | steps + 1, low, high =>
    if low < high then
      let middle := (low + high) / 2
      match intervals[middle]? with
      | none => false
      | some i =>
        if i.high < s then search intervals s steps (middle + 1) high
        else if s < i.low then search intervals s steps low middle
        else true
    else false

/-- Whether a symbol is in the set. -/
def contains (a : SymbolSet) (s : Nat) : Bool :=
  search a.intervals s a.intervals.size 0 a.intervals.size

/-- All symbols in ascending order. -/
def symbols (a : SymbolSet) : List Nat := a.toIntervals.flatMap Interval.symbols

/-- The first `n` symbols of a row of intervals. -/
def takeFrom : Nat → List Interval → List Nat
  | _, [] => []
  | n, i :: rest =>
    if n ≤ i.length then List.range' i.low n
    else i.symbols ++ takeFrom (n - i.length) rest

/-- The `n` smallest symbols in ascending order, found without listing the
    others. -/
def takeSymbols (a : SymbolSet) (n : Nat) : List Nat := takeFrom n a.toIntervals

/-- Whether neighbouring intervals of a row leave a gap. -/
def hasGaps : List Interval → Bool
  | i :: j :: rest => i.Before j && hasGaps (j :: rest)
  | _ => true

/-- Whether the stored row is in the unique form. Every set is. -/
def isCanonical (a : SymbolSet) : Bool := hasGaps a.toIntervals

end SymbolSet

end SetGrammar
