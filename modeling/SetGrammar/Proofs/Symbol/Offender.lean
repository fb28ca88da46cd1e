import Mathlib.Order.Bounds.Basic
import Mathlib.Order.WellFounded
import SetGrammar.Proofs.Symbol.Complement

/-!
# The symbol that a check names

A set with a symbol outside a domain is refused, and the check names a bound of the
interval in which the smallest such symbol lies. Where this symbol does not begin
the interval, the interval crosses the end of the domain, and the check names the
last symbol of the interval instead.
-/
namespace SetGrammar.Domain

/-- The symbols of a set that a domain does not have. -/
def outside (d : Domain) (a : SymbolSet) : Set Nat :=
  {s | a.contains s = true ∧ ¬ d.contains s = true}

variable {a : SymbolSet} {d : Domain}

theorem exists_least (some : ∃ s, a.contains s = true ∧ ¬ d.contains s = true) :
    ∃ s, IsLeast (d.outside a) s := by
  let wf : WellFounded ((· < ·) : Nat → Nat → Prop) := Nat.lt_wfRel.wf
  refine ⟨wf.min (d.outside a) some, wf.min_mem _ some, fun s member => ?_⟩
  exact Nat.not_lt.1 (wf.not_lt_min _ member)

/-- What lies in the domain is passed over. -/
theorem forM_check_append {before after : List Interval}
    (inside : ∀ i ∈ before, d.contains i.low ∧ d.contains i.high) :
    ((before ++ after).forM fun i => do d.check i.low; d.check i.high) =
      (after.forM fun i => do d.check i.low; d.check i.high) := by
  have passed := forM_check_eq_ok_iff.2 inside
  rw [List.forM_eq_forM] at passed ⊢
  rw [List.forM_append, passed]
  rfl

theorem forM_check_cons {i : Interval} {after : List Interval}
    (crosses : ¬ (d.contains i.low ∧ d.contains i.high)) :
    ((i :: after).forM fun j => do d.check j.low; d.check j.high) =
      .error (.outOfDomain (if d.contains i.low then i.high else i.low) d) := by
  rw [List.forM_eq_forM, List.forM_cons]
  by_cases low : d.contains i.low = true
  · have high : ¬ d.contains i.high = true := fun high => crosses ⟨low, high⟩
    simp only [check, low, high, if_true]
    rfl
  · simp only [check, low]
    rfl

section Least

variable {before after : List Interval} {i : Interval} {s : Nat}
  (least : IsLeast (d.outside a) s)

include least

theorem contains_of_lt {t : Nat} (member : a.contains t) (early : t < s) : d.contains t := by
  by_contra out
  exact Nat.not_le.2 early (least.2 ⟨member, out⟩)

/-- Intervals before the one of the smallest symbol outside lie in the domain. -/
theorem contains_before (row : a.toIntervals = before ++ i :: after) (has : i.contains s) :
    ∀ j ∈ before, d.contains j.low ∧ d.contains j.high := by
  intro j member
  have sorted : Separated (before ++ i :: after) := row ▸ a.separated
  have earlier : j.Before i := (List.pairwise_append.1 sorted).2.2 j member i List.mem_cons_self
  refine Interval.within_iff.1 fun t own => contains_of_lt least ?_ ?_
  · exact SymbolSet.contains_iff_covered.2 ⟨j, row ▸ List.mem_append_left _ member, own⟩
  · simp only [Interval.Before, Interval.contains_iff] at earlier own has
    omega

/-- The interval of the smallest symbol outside begins in the domain unless the
    symbol begins the interval. -/
theorem contains_low_iff (member : i ∈ a.toIntervals) (has : i.contains s) :
    d.contains i.low ↔ s ≠ i.low := by
  constructor
  · rintro inside rfl
    exact least.1.2 inside
  · intro later
    refine contains_of_lt least ?_ ?_
    · exact SymbolSet.contains_iff_covered.2
        ⟨i, member, Interval.contains_iff.2 ⟨Nat.le_refl _, i.low_le_high⟩⟩
    · exact Nat.lt_of_le_of_ne (Interval.contains_iff.1 has).1 later.symm

/-- The check of a set stops at the interval of the smallest symbol outside. -/
theorem checkMembers_stops (member : i ∈ a.toIntervals) (has : i.contains s) :
    d.checkMembers a = .error (.outOfDomain (if s = i.low then s else i.high) d) := by
  obtain ⟨before, after, row⟩ := List.append_of_mem member
  have crosses : ¬ (d.contains i.low ∧ d.contains i.high) :=
    fun within => least.1.2 (Interval.within_iff.2 within s has)
  rw [checkMembers, row, forM_check_append (contains_before least row has),
    forM_check_cons crosses]
  by_cases begins : s = i.low
  · rw [if_neg (mt (contains_low_iff least member has).1 (not_not_intro begins)),
      if_pos begins, begins]
  · rw [if_pos ((contains_low_iff least member has).2 begins), if_neg begins]

/-- An interval that begins in the domain and has a symbol outside ends outside. -/
theorem high_mem_outside (member : i ∈ a.toIntervals) (has : i.contains s) (later : s ≠ i.low) :
    i.high ∈ d.outside a := by
  have inside := (contains_low_iff least member has).2 later
  refine ⟨SymbolSet.contains_iff_covered.2
    ⟨i, member, Interval.contains_iff.2 ⟨i.low_le_high, Nat.le_refl _⟩⟩, fun high => ?_⟩
  exact least.1.2 (Interval.within_iff.2 ⟨inside, high⟩ s has)

end Least

/-- A set with a symbol outside the domain is refused, and a symbol of the set outside
    the domain is named. It lies in one interval with the smallest such symbol, and it
    is this one just if this one is a bound of the interval. -/
theorem checkMembers_names (d : Domain) (a : SymbolSet)
    (some : ∃ s, a.contains s = true ∧ ¬ d.contains s = true) :
    ∃ named least, d.checkMembers a = .error (.outOfDomain named d) ∧ named ∈ d.outside a ∧
      IsLeast (d.outside a) least ∧ ∃ i ∈ a.toIntervals, i.contains least = true ∧
        named = (if least = i.low then least else i.high) ∧
        (named = least ↔ least = i.low ∨ least = i.high) := by
  obtain ⟨s, least⟩ := exists_least some
  obtain ⟨i, member, has⟩ := SymbolSet.contains_iff_covered.1 least.1.1
  refine ⟨_, s, checkMembers_stops least member has, ?_, least, i, member, has, rfl, ?_⟩
  · split
    · exact least.1
    · rename_i later
      exact high_mem_outside least member has later
  · split
    · rename_i begins
      exact iff_of_true rfl (.inl begins)
    · rename_i later
      rw [or_iff_right later, eq_comm]

/-- Of a set with an interval across the end of the domain the last symbol of the
    interval is named, which is not the smallest one outside. -/
theorem checkMembers_names_crossing :
    let d := Domain.parser 5
    let a := SymbolSet.ofIntervals [.single 1, ⟨3, 10, by decide⟩, .single 20]
    (∃ s, a.contains s = true ∧ ¬ d.contains s = true) ∧
      d.checkMembers a = .error (.outOfDomain 10 d) ∧
      ∃ least < 10, IsLeast (d.outside a) least := by
  intro d a
  have some : ∃ s, a.contains s = true ∧ ¬ d.contains s = true := ⟨6, by decide, by decide⟩
  obtain ⟨named, least, stops, -, first, -⟩ := checkMembers_names d a some
  have ten : d.checkMembers a = .error (.outOfDomain 10 d) := by decide
  have six : 6 ∈ d.outside a := ⟨by decide, by decide⟩
  exact ⟨some, ten, least, Nat.lt_of_le_of_lt (first.2 six) (by decide), first⟩

/-- In the domain from 1 to 5 the interval from 3 to 10 has 6 as its first symbol
    outside, and 10 is named. -/
theorem not_checkMembers_names_least :
    ¬ ∀ (d : Domain) (a : SymbolSet) (s : Nat), IsLeast (d.outside a) s →
      d.checkMembers a = .error (.outOfDomain s d) := by
  intro all
  let d := Domain.parser 5
  let a := SymbolSet.ofInterval ⟨3, 10, by decide⟩
  have least : IsLeast (d.outside a) 6 := by
    refine ⟨⟨by decide, by decide⟩, fun s ⟨has, out⟩ => ?_⟩
    have low : 3 ≤ s := (Interval.contains_iff.1 (SymbolSet.contains_ofInterval.1 has)).1
    by_contra early
    exact out (contains_iff.2 ⟨by show 1 ≤ s; omega, by show s ≤ 5; omega⟩)
  have named := all d a 6 least
  have other : d.checkMembers a = .error (.outOfDomain 10 d) := by decide
  rw [other] at named
  cases named

end SetGrammar.Domain
