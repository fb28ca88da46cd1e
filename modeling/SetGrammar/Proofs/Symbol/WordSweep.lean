import SetGrammar.Symbol.Bounded

/-!
# Complements in machine words

A complement can be swept in words: bounds have 32 bits and are reckoned with in
64 bits. Each step that could wrap or lose bits is checked. For symbols of 32 bits
every check passes, also at the last symbol, and the sweep gives the complement.
-/
namespace SetGrammar

namespace Word

/-- The bounds of an interval in words. -/
abbrev Bounds := UInt32 × UInt32

/-- The bounds of an interval as words. -/
def boundsOf (i : Interval) : Bounds := (.ofNat i.low, .ofNat i.high)

/-- One less, unless this wraps. -/
def pred? (w : UInt64) : Option UInt64 := if w = 0 then none else some (w - 1)

/-- One more, unless this wraps. -/
def succ? (w : UInt64) : Option UInt64 := if w + 1 = 0 then none else some (w + 1)

/-- The lower half, unless the upper one has a bit. -/
def narrow? (w : UInt64) : Option UInt32 :=
  if w.toUInt32.toUInt64 = w then some w.toUInt32 else none

/-- The interval between two bounds that are not reversed. -/
def interval? (low high : UInt64) : Option Bounds :=
  if low ≤ high then do return (← narrow? low, ← narrow? high) else none

/-- What is free from `next` to before an interval that begins at `low`. -/
def gap? (next low : UInt64) : Option (List Bounds) :=
  if next < low then do return [← interval? next (← pred? low)] else some []

/-- What is free from `next` to `last` if there is no further interval. -/
def remainder? (next last : UInt64) : Option (List Bounds) :=
  if next ≤ last then do return [← interval? next last] else some []

/-- The stretches from `next` to `last` that a row leaves free. Intervals that end
    before `first` are passed over. -/
def sweep? (first last next : UInt64) : List Bounds → Option (List Bounds)
  | [] => remainder? next last
  | (low, high) :: rest =>
    if high.toUInt64 < first then sweep? first last next rest
    else if last < low.toUInt64 then remainder? next last
    else do
      let gap ← gap? next low.toUInt64
      let following ← succ? high.toUInt64
      return gap ++ (← sweep? first last (max next following) rest)

/-- The symbols from `first` to `last` that a row leaves free. -/
def complement? (first last : UInt32) (row : List Bounds) : Option (List Bounds) :=
  if last < first then some []
  else sweep? first.toUInt64 last.toUInt64 first.toUInt64 row

theorem pred?_eq {w : UInt64} (positive : 0 < w.toNat) :
    ∃ p, pred? w = some p ∧ p.toNat = w.toNat - 1 := by
  have one : (1 : UInt64) ≤ w := by
    rw [UInt64.le_iff_toNat_le]
    exact positive
  have nonzero : w ≠ 0 := by
    rintro rfl
    simp at positive
  exact ⟨w - 1, if_neg nonzero, UInt64.toNat_sub_of_le _ _ one⟩

theorem succ?_eq {w : UInt64} (small : w.toNat < UInt32.size) :
    ∃ n, succ? w = some n ∧ n.toNat = w.toNat + 1 := by
  have exact : (w + 1).toNat = w.toNat + 1 := by
    rw [UInt32.size] at small
    simp only [UInt64.toNat_add, UInt64.toNat_one]
    omega
  have nonzero : w + 1 ≠ 0 := by
    intro zero
    rw [zero] at exact
    simp at exact
  exact ⟨w + 1, if_neg nonzero, exact⟩

theorem narrow?_eq {w : UInt64} (small : w.toNat < UInt32.size) :
    narrow? w = some (.ofNat w.toNat) := by
  have kept : w.toUInt32.toUInt64 = w := by
    rw [← UInt64.toNat_inj]
    simp only [UInt32.toNat_toUInt64, UInt64.toNat_toUInt32]
    exact Nat.mod_eq_of_lt small
  rw [narrow?, if_pos kept]
  rfl

theorem toNat_widen {n : Nat} (small : n < UInt32.size) : (UInt32.ofNat n).toUInt64.toNat = n := by
  rw [UInt32.toNat_toUInt64, UInt32.toNat_ofNat_of_lt' small]

theorem interval?_eq {low high : UInt64} (ordered : low.toNat ≤ high.toNat)
    (small : high.toNat < UInt32.size) :
    interval? low high = some (boundsOf ⟨low.toNat, high.toNat, ordered⟩) := by
  have le : low ≤ high := UInt64.le_iff_toNat_le.2 ordered
  rw [interval?, if_pos le, narrow?_eq (Nat.lt_of_le_of_lt ordered small), narrow?_eq small]
  rfl

theorem remainder?_eq {next last : UInt64} (small : last.toNat < UInt32.size) :
    remainder? next last = some ((Interval.between next.toNat last.toNat).map boundsOf) := by
  unfold remainder? Interval.between
  by_cases room : next.toNat ≤ last.toNat
  · rw [if_pos (UInt64.le_iff_toNat_le.2 room), dif_pos room, interval?_eq room small]
    rfl
  · rw [if_neg (mt UInt64.le_iff_toNat_le.1 room), dif_neg room]
    rfl

theorem gap?_eq {next low : UInt64} (small : low.toNat < UInt32.size)
    (room : next.toNat < low.toNat) :
    gap? next low =
      some [boundsOf ⟨next.toNat, low.toNat - 1, Nat.le_sub_one_of_lt room⟩] := by
  obtain ⟨before, found, value⟩ := pred?_eq (Nat.zero_lt_of_lt room)
  have ordered : next.toNat ≤ before.toNat := by omega
  have narrow : before.toNat < UInt32.size := by omega
  rw [gap?, if_pos (UInt64.lt_iff_toNat_lt.2 room), found]
  simp only [Option.bind_eq_bind, Option.bind_some, interval?_eq ordered narrow, value]
  rfl

theorem toNat_max (a b : UInt64) : (max a b).toNat = max a.toNat b.toNat := by
  rw [show max a b = if a ≤ b then b else a from rfl]
  split
  · rename_i le
    rw [UInt64.le_iff_toNat_le] at le
    omega
  · rename_i gt
    rw [UInt64.le_iff_toNat_le] at gt
    omega

end Word

open Word

theorem Interval.gaps_of_lt {next last : Nat} {row : List Interval} (none : last < next) :
    gaps next last row = [] := by
  have empty : between next last = [] := dif_neg (Nat.not_le.2 none)
  induction row generalizing next with
  | nil => exact empty
  | cons first rest ih =>
    unfold gaps
    split
    · exact empty
    · rename_i inside
      rw [dif_neg (by omega)]
      have none : last < max next (first.high + 1) := by omega
      exact ih none (dif_neg (Nat.not_le.2 none))

/-- A sweep in words passes all its checks and gives the free stretches. -/
theorem Word.sweep?_eq {first last next : UInt64} {row : List Interval}
    (narrow : ∀ i ∈ row, i.high < UInt32.size) (small : last.toNat < UInt32.size)
    (ordered : first.toNat ≤ last.toNat) (started : first.toNat ≤ next.toNat) :
    sweep? first last next (row.map boundsOf) =
      some ((Interval.gaps next.toNat last.toNat row).map boundsOf) := by
  induction row generalizing next with
  | nil => exact remainder?_eq small
  | cons i rest ih =>
    obtain ⟨tight, others⟩ := List.forall_mem_cons.1 narrow
    have bounds := i.low_le_high
    have low : (UInt32.ofNat i.low).toUInt64.toNat = i.low :=
      toNat_widen (Nat.lt_of_le_of_lt bounds tight)
    have high : (UInt32.ofNat i.high).toUInt64.toNat = i.high := toNat_widen tight
    simp only [List.map_cons, boundsOf, sweep?, UInt64.lt_iff_toNat_lt, low, high]
    rw [Interval.gaps]
    by_cases before : i.high < first.toNat
    · -- Such an interval leaves the bound where it is.
      have stays : max next.toNat (i.high + 1) = next.toNat := by omega
      rw [if_pos before, if_neg (by omega), dif_neg (by omega), stays]
      exact ih others started
    · rw [if_neg before]
      by_cases beyond : last.toNat < i.low
      · rw [if_pos beyond, if_pos beyond]
        exact remainder?_eq small
      · rw [if_neg beyond, if_neg beyond]
        obtain ⟨following, found, value⟩ := succ?_eq (w := (UInt32.ofNat i.high).toUInt64)
          (by rwa [high])
        have moved : (max next following).toNat = max next.toNat (i.high + 1) := by
          rw [toNat_max, value, high]
        have further : first.toNat ≤ (max next following).toNat := by
          rw [moved]
          omega
        have swept := ih others further
        rw [moved] at swept
        by_cases room : next.toNat < i.low
        · have free : gap? next (UInt32.ofNat i.low).toUInt64 =
              some [boundsOf ⟨next.toNat, i.low - 1, Interval.le_pred_low room⟩] := by
            simp only [gap?_eq (low ▸ Nat.lt_of_le_of_lt bounds tight) (low ▸ room), low]
          have after : max next.toNat (i.high + 1) = i.high + 1 := by omega
          rw [after] at swept
          simp only [dif_pos room, free, found, Option.bind_eq_bind, Option.bind_some, swept]
          rfl
        · have none : gap? next (UInt32.ofNat i.low).toUInt64 = some [] := by
            rw [gap?, if_neg]
            rwa [UInt64.lt_iff_toNat_lt, low]
          simp only [dif_neg room, none, found, Option.bind_eq_bind, Option.bind_some, swept]
          rfl

/-- The complement of a set of words over a domain of words is swept without
    wrapping, and it has words for bounds. -/
theorem SymbolSet.complement_words {a : SymbolSet} {d : Domain} (min : d.min < UInt32.size)
    (max : d.max < UInt32.size) (narrow : ∀ i ∈ a.toIntervals, i.high < UInt32.size) :
    Word.complement? (.ofNat d.min) (.ofNat d.max) (a.toIntervals.map boundsOf) =
      some ((a.complement d).toIntervals.map boundsOf) := by
  have row : (a.complement d).toIntervals = Interval.gaps d.min d.max a.toIntervals := rfl
  rw [row, Word.complement?]
  split
  · rename_i empty
    rw [UInt32.lt_iff_toNat_lt, UInt32.toNat_ofNat_of_lt' max,
      UInt32.toNat_ofNat_of_lt' min] at empty
    rw [Interval.gaps_of_lt empty]
    rfl
  · rename_i ordered
    rw [UInt32.lt_iff_toNat_lt, UInt32.toNat_ofNat_of_lt' max, UInt32.toNat_ofNat_of_lt' min]
      at ordered
    have small : (UInt32.ofNat d.max).toUInt64.toNat < UInt32.size := by rwa [toNat_widen max]
    have nonempty : (UInt32.ofNat d.min).toUInt64.toNat ≤ (UInt32.ofNat d.max).toUInt64.toNat := by
      rw [toNat_widen min, toNat_widen max]
      exact Nat.not_lt.1 ordered
    have swept := Word.sweep?_eq narrow small nonempty (Nat.le_refl _)
    rwa [toNat_widen min, toNat_widen max] at swept

end SetGrammar
