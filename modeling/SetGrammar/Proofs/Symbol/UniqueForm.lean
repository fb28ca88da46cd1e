import Mathlib.Data.Set.Card
import SetGrammar.Proofs.Symbol.Membership

/-!
# The unique form of a set

The symbols of a separated row determine it, so that sets with the same symbols
are equal. A term says how a set is made. Whatever constructors and operations it
uses, the set has the symbols that the term names, in the unique form.
-/
namespace SetGrammar

namespace Interval

theorem low_le_of_covered {first : Interval} {row : List Interval} {s : Nat}
    (sorted : Separated (first :: row)) (has : Covered (first :: row) s) : first.low ≤ s := by
  rcases covered_cons.1 has with has | has
  · exact (contains_iff.1 has).1
  · have late : first.high < s :=
      Nat.lt_of_not_le fun early => not_covered_of_le_high sorted early has
    exact Nat.le_of_lt (Nat.lt_of_le_of_lt first.low_le_high late)

/-- The symbol after an interval of a separated row is left out. -/
theorem not_covered_high_succ {first : Interval} {row : List Interval}
    (sorted : Separated (first :: row)) : ¬ Covered (first :: row) (first.high + 1) := by
  intro has
  rcases covered_cons.1 has with has | ⟨i, member, has⟩
  · have := (contains_iff.1 has).2
    omega
  · have before := (List.pairwise_cons.1 sorted).1 i member
    simp only [Before, contains_iff] at *
    omega

/-- Where the first intervals of two rows begin alike, the first one ends no
    earlier than the second. -/
theorem high_le_high {i j : Interval} {row row' : List Interval} (sorted : Separated (i :: row))
    (low : i.low = j.low) (within : ∀ s, Covered (j :: row') s → Covered (i :: row) s) :
    j.high ≤ i.high := by
  by_contra short
  have inside : j.contains (i.high + 1) := by
    have := i.low_le_high
    rw [contains_iff]
    omega
  exact not_covered_high_succ sorted (within _ (covered_cons.2 (.inl inside)))

/-- Separated rows with the same symbols are equal. -/
theorem eq_of_covered_iff {row row' : List Interval} (sorted : Separated row)
    (sorted' : Separated row') (same : ∀ s, Covered row s ↔ Covered row' s) : row = row' := by
  have covers_low (i : Interval) (rest : List Interval) : Covered (i :: rest) i.low :=
    covered_cons.2 (.inl (contains_iff.2 ⟨Nat.le_refl _, i.low_le_high⟩))
  induction row generalizing row' with
  | nil =>
    cases row' with
    | nil => rfl
    | cons j rest' => exact absurd ((same j.low).2 (covers_low j rest')) covered_nil
  | cons i rest ih =>
    cases row' with
    | nil => exact absurd ((same i.low).1 (covers_low i rest)) covered_nil
    | cons j rest' =>
      have low : i.low = j.low :=
        Nat.le_antisymm (low_le_of_covered sorted ((same _).2 (covers_low j rest')))
          (low_le_of_covered sorted' ((same _).1 (covers_low i rest)))
      have high : i.high = j.high :=
        Nat.le_antisymm (high_le_high sorted' low.symm fun s => (same s).1)
          (high_le_high sorted low fun s => (same s).2)
      have heads : i = j := by
        cases i
        cases j
        simp_all
      subst heads
      have later := (List.pairwise_cons.1 sorted).2
      have later' := (List.pairwise_cons.1 sorted').2
      -- A symbol of either tail comes after the common head.
      have tails (s : Nat) : Covered rest s ↔ Covered rest' s := by
        have same := same s
        rw [covered_cons, covered_cons] at same
        by_cases early : s ≤ i.high
        · have out := not_covered_of_le_high sorted early
          have out' := not_covered_of_le_high sorted' early
          simp only [out, out']
        · have past : i.contains s = false := by
            rw [Bool.eq_false_iff]
            exact fun has => early (contains_iff.1 has).2
          simpa [past] using same
      rw [ih later later' tails]

theorem length_symbols (i : Interval) : i.symbols.length = i.length := List.length_range'

theorem pairwise_symbols (i : Interval) : i.symbols.Pairwise (· < ·) := List.pairwise_lt_range'

end Interval

namespace SymbolSet

open SetGrammar.Interval

/-- Sets with the same symbols are equal. -/
theorem eq_of_contains_iff {a b : SymbolSet} (same : ∀ s, a.contains s ↔ b.contains s) : a = b := by
  have rows : a.toIntervals = b.toIntervals := by
    refine eq_of_covered_iff a.separated b.separated fun s => ?_
    rw [← contains_iff_covered, ← contains_iff_covered, same]
  cases a
  cases b
  simpa [toIntervals] using rows

theorem toIntervals_eq_iff {a b : SymbolSet} :
    a.toIntervals = b.toIntervals ↔ ∀ s, a.contains s ↔ b.contains s := by
  constructor
  · intro rows s
    rw [contains_iff_covered, contains_iff_covered, rows]
  · intro same
    rw [eq_of_contains_iff same]

theorem ofIntervals_toIntervals (a : SymbolSet) : ofIntervals a.toIntervals = a :=
  eq_of_contains_iff fun s => by rw [contains_ofIntervals, contains_iff_covered]

theorem mem_symbols {a : SymbolSet} {s : Nat} : s ∈ a.symbols ↔ a.contains s := by
  simp only [symbols, List.mem_flatMap, Interval.mem_symbols, contains_iff_covered, Covered]

/-- The symbols are listed in ascending order, each of them once. -/
theorem pairwise_symbols (a : SymbolSet) : a.symbols.Pairwise (· < ·) := by
  refine List.pairwise_flatMap.2 ⟨fun i _ => i.pairwise_symbols, ?_⟩
  refine List.Pairwise.imp ?_ a.separated
  intro i j before s member t member'
  rw [Interval.mem_symbols, contains_iff] at member member'
  simp only [Before] at before
  omega

theorem length_symbols (a : SymbolSet) : a.symbols.length = a.size := by
  rw [symbols, size]
  induction a.toIntervals with
  | nil => rfl
  | cons i rest ih =>
    rw [List.flatMap_cons, List.length_append, i.length_symbols, ih, List.foldr_cons]

theorem ncard_eq_size (a : SymbolSet) : {s | a.contains s}.ncard = a.size := by
  have listed : {s | a.contains s} = (a.symbols.toFinset : Set Nat) := by
    ext s
    simp [mem_symbols]
  have once : a.symbols.Nodup := a.pairwise_symbols.imp Nat.ne_of_lt
  rw [listed, Set.ncard_coe_finset, List.toFinset_card_of_nodup once, length_symbols]

end SymbolSet

/-- How a set is made. -/
inductive SetTerm where
  | empty
  | single (s : Nat)
  | range (low high : Nat)
  | ofIntervals (intervals : List Interval)
  | ofSymbols (symbols : List Nat)
  | ofChars (characters : List Char)
  | union (a b : SetTerm)
  | complement (a : SetTerm) (d : Domain)
  | restrict (a : SetTerm) (d : Domain)
  | domain (d : Domain)

namespace SetTerm

/-- The set that is made, unless the bounds of a range are reversed. -/
def make : SetTerm → Except SymbolError SymbolSet
  | empty => return .empty
  | single s => return .single s
  | range low high => SymbolSet.range low high
  | ofIntervals intervals => return .ofIntervals intervals
  | ofSymbols symbols => return .ofSymbols symbols
  | ofChars characters => return .ofChars characters
  | union a b => return (← a.make).union (← b.make)
  | complement a d => return (← a.make).complement d
  | restrict a d => return (← a.make).restrict d
  | domain d => return d.symbols

/-- The symbols that are meant. -/
def Names : SetTerm → Nat → Prop
  | empty, _ => False
  | single n, s => s = n
  | range low high, s => low ≤ s ∧ s ≤ high
  | ofIntervals intervals, s => ∃ i ∈ intervals, i.low ≤ s ∧ s ≤ i.high
  | ofSymbols symbols, s => s ∈ symbols
  | ofChars characters, s => ∃ c ∈ characters, c.toNat = s
  | union a b, s => a.Names s ∨ b.Names s
  | complement a d, s => (d.min ≤ s ∧ s ≤ d.max) ∧ ¬ a.Names s
  | restrict a d, s => a.Names s ∧ d.min ≤ s ∧ s ≤ d.max
  | domain d, s => d.min ≤ s ∧ s ≤ d.max

/-- No part of a term goes beyond a symbol. -/
def Within (last : Nat) : SetTerm → Prop
  | empty => True
  | single s => s ≤ last
  | range _ high => high ≤ last
  | ofIntervals intervals => ∀ i ∈ intervals, i.high ≤ last
  | ofSymbols symbols => ∀ s ∈ symbols, s ≤ last
  | ofChars characters => ∀ c ∈ characters, c.toNat ≤ last
  | union a b => a.Within last ∧ b.Within last
  | complement _ d | domain d => d.max ≤ last
  | restrict a _ => a.Within last

theorem names_le_of_within {e : SetTerm} {last s : Nat} (within : e.Within last)
    (names : e.Names s) : s ≤ last := by
  induction e with
  | empty => exact names.elim
  | single => exact Nat.le_trans (Nat.le_of_eq names) within
  | range => exact Nat.le_trans names.2 within
  | ofIntervals =>
    obtain ⟨i, member, bounds⟩ := names
    exact Nat.le_trans bounds.2 (within i member)
  | ofSymbols => exact within s names
  | ofChars =>
    obtain ⟨c, member, rfl⟩ := names
    exact within c member
  | union a b left right =>
    rcases names with names | names
    · exact left within.1 names
    · exact right within.2 names
  | complement => exact Nat.le_trans names.1.2 within
  | restrict a d inner => exact inner within names.1
  | domain => exact Nat.le_trans names.2 within

/-- The set that is made has the symbols that are meant. -/
theorem contains_iff_names {e : SetTerm} {a : SymbolSet} (made : e.make = .ok a) {s : Nat} :
    a.contains s ↔ e.Names s := by
  induction e generalizing a with
  | empty =>
    cases made
    exact SymbolSet.contains_ofSeparated.trans (iff_of_false Interval.covered_nil id)
  | single n =>
    cases made
    exact SymbolSet.contains_ofInterval.trans Interval.contains_single
  | range low high =>
    simp only [make, SymbolSet.range, Interval.ofBounds] at made
    split at made
    · cases made
      exact SymbolSet.contains_ofInterval.trans Interval.contains_iff
    · cases made
  | ofIntervals intervals =>
    cases made
    rw [SymbolSet.contains_ofIntervals]
    simp only [Interval.Covered, Interval.contains_iff, Names]
  | ofSymbols symbols =>
    cases made
    exact SymbolSet.contains_ofSymbols
  | ofChars characters =>
    cases made
    exact SymbolSet.contains_ofSymbols.trans List.mem_map
  | union e e' left right =>
    cases first : e.make with
    | error => simp only [make, first] at made; cases made
    | ok x =>
      cases second : e'.make with
      | error => simp only [make, first, second] at made; cases made
      | ok y =>
        simp only [make, first, second] at made
        cases made
        rw [SymbolSet.contains_union, left first, right second, Names]
  | complement e d inner =>
    cases first : e.make with
    | error => simp only [make, first] at made; cases made
    | ok x =>
      simp only [make, first] at made
      cases made
      rw [SymbolSet.contains_complement, inner first, Domain.contains_iff, Names]
  | restrict e d inner =>
    cases first : e.make with
    | error => simp only [make, first] at made; cases made
    | ok x =>
      simp only [make, first] at made
      cases made
      rw [SymbolSet.contains_restrict, inner first, Domain.contains_iff, Names]
  | domain d =>
    cases made
    rw [SymbolSet.contains_symbols, Domain.contains_iff, Names]

/-- However a set is made, its row is the only one with the symbols that are
    meant. Look-ups, the number of symbols and their list go by these symbols,
    and no bound is larger than what the set was made from. -/
theorem made_in_unique_form {e : SetTerm} {a : SymbolSet} (made : e.make = .ok a) :
    (∀ i ∈ a.toIntervals, i.low ≤ i.high) ∧
      a.toIntervals.Pairwise (fun i j => i.high + 1 < j.low) ∧
      (∀ last, e.Within last → ∀ i ∈ a.toIntervals, i.high ≤ last) ∧
      (∀ s, a.contains s ↔ ∃ i ∈ a.toIntervals, i.low ≤ s ∧ s ≤ i.high) ∧
      (∀ s, a.contains s ↔ e.Names s) ∧
      (∀ e' b, make e' = .ok b →
        (a.toIntervals = b.toIntervals ↔ ∀ s, a.contains s ↔ b.contains s)) ∧
      SymbolSet.ofIntervals a.toIntervals = a ∧ {s | a.contains s}.ncard = a.size ∧
      a.symbols.Pairwise (· < ·) ∧ ∀ s, s ∈ a.symbols ↔ a.contains s := by
  have covered (s : Nat) : a.contains s ↔ ∃ i ∈ a.toIntervals, i.low ≤ s ∧ s ≤ i.high := by
    simp only [SymbolSet.contains_iff_covered, Interval.Covered, Interval.contains_iff]
  refine ⟨fun i _ => i.low_le_high, a.separated, ?_, covered, fun s => contains_iff_names made,
    fun e' b _ => SymbolSet.toIntervals_eq_iff, a.ofIntervals_toIntervals, a.ncard_eq_size,
    a.pairwise_symbols, fun s => SymbolSet.mem_symbols⟩
  intro last within i member
  have has : a.contains i.high := (covered i.high).2 ⟨i, member, i.low_le_high, Nat.le_refl _⟩
  exact names_le_of_within within ((contains_iff_names made).1 has)

/-- The last symbol of 32 bits beside a complement that ends before it. -/
theorem made_in_unique_form_last :
    let e : SetTerm := .union (.complement (.ofIntervals [.single 4294967295, ⟨3, 5, by decide⟩,
      .single 6, ⟨4294967290, 4294967294, by decide⟩]) (.parser 4294967295)) (.single 4294967295)
    ∃ a, e.make = .ok a ∧
      a.toIntervals.map (fun i => (i.low, i.high)) =
        [(1, 2), (7, 4294967289), (4294967295, 4294967295)] ∧
      a.contains 4294967295 ∧ ¬ a.contains 4294967294 ∧ 4294967295 ∈ a.symbols ∧
      {s | a.contains s}.ncard = 4294967286 ∧ SymbolSet.ofIntervals a.toIntervals = a := by
  intro e
  have run : ∃ a, e.make = .ok a ∧ a.size = 4294967286 ∧
      a.toIntervals.map (fun i => (i.low, i.high)) =
        [(1, 2), (7, 4294967289), (4294967295, 4294967295)] := ⟨_, rfl, by decide, by decide⟩
  obtain ⟨a, made, size, row⟩ := run
  obtain ⟨-, -, -, -, names, -, rebuilt, count, -, listed⟩ := made_in_unique_form made
  have last : a.contains 4294967295 := (names _).2 (.inr rfl)
  have left_out : ¬ a.contains 4294967294 := by
    intro has
    rcases (names _).1 has with ⟨-, outside⟩ | same
    · exact outside ⟨⟨4294967290, 4294967294, by decide⟩, by simp, by decide, by decide⟩
    · cases same
  exact ⟨a, made, row, last, left_out, (listed _).2 last, count.trans size, rebuilt⟩

end SetTerm

end SetGrammar
