import SetGrammar.Symbol.Domain

/-!
# Intervals of symbols

An interval is a non-empty run of consecutive symbols. Two intervals are
separate when at least one symbol lies between them.
-/
namespace SetGrammar

/-- The symbols from `low` to `high`, both included. -/
structure Interval where
  low : Nat
  high : Nat
  low_le_high : low ≤ high := by omega
deriving DecidableEq, Repr

namespace Interval

/-- The interval between two bounds, refused when they are reversed. -/
def ofBounds (low high : Nat) : Except SymbolError Interval :=
  if h : low ≤ high then .ok ⟨low, high, h⟩ else .error (.reversedBounds low high)

/-- The interval of one symbol. -/
def single (s : Nat) : Interval := ⟨s, s, Nat.le_refl s⟩

/-- How many symbols an interval has. -/
def length (i : Interval) : Nat := i.high - i.low + 1

/-- Whether an interval has just one symbol. -/
def isSingle (i : Interval) : Bool := i.low == i.high

/-- Whether a symbol lies between the bounds. -/
def contains (i : Interval) (s : Nat) : Bool := i.low ≤ s && s ≤ i.high

/-- The symbols of an interval in ascending order. -/
def symbols (i : Interval) : List Nat := List.range' i.low i.length

/-- The smallest interval around two. -/
def join (i j : Interval) : Interval where
  low := min i.low j.low
  high := max i.high j.high
  low_le_high := by have := i.low_le_high; omega

/-- The part of an interval between two bounds, if there is one. -/
def clip? (i : Interval) (low high : Nat) : Option Interval :=
  if h : max i.low low ≤ min i.high high then some ⟨_, _, h⟩ else none

/-- The first interval ends at least one symbol before the second begins. -/
def Before (i j : Interval) : Prop := i.high + 1 < j.low

instance (i j : Interval) : Decidable (Before i j) := inferInstanceAs (Decidable (_ < _))

theorem contains_iff {i : Interval} {s : Nat} : i.contains s ↔ i.low ≤ s ∧ s ≤ i.high := by
  simp [contains]

theorem mem_symbols {i : Interval} {s : Nat} : s ∈ i.symbols ↔ i.contains s := by
  have := i.low_le_high
  simp only [symbols, length, List.mem_range'_1, contains_iff]
  omega

theorem before_trans {i j k : Interval} (first : i.Before j) (second : j.Before k) :
    i.Before k := by
  have := j.low_le_high
  simp only [Before] at *
  omega

end Interval

end SetGrammar
