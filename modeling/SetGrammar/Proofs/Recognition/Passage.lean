import SetGrammar.Proofs.Recognition.Extent
import SetGrammar.Proofs.Recognition.Meaning

/-!
# Passages of a loop

A loop around a set test passes over an input round by round until it is over. It
takes as many symbols as the test admits one after the other, but no more than the
quantifier allows, and it is over after finitely many rounds.
-/
namespace SetGrammar

/-- A loop on its way over an input. -/
structure Passage where
  index : Nat
  loop : Repetition
  /-- What was bound, the earliest first. -/
  bound : List Capture

/-- What an input is made of. -/
inductive Source where
  | characters (text : String)
  | tokens (list : List Token)

/-- The input that is made. -/
def Source.input : Source → Input
  | characters text => .ofText text
  | tokens list => .tokens (.ofList list)

theorem Source.endsBy (source : Source) : source.input.EndsBy source.input.endIndex := by
  cases source with
  | characters text => exact Input.endsBy_characters _
  | tokens list => exact Input.endsBy_ofList list

/-- The symbol that a value stands for. -/
def Capture.symbol? : Capture → Option Nat
  | char c => some c.toNat
  | token t => some t.type
  | text _ => none

theorem Input.symbol?_value {input : Input} {i symbol : Nat} (has : input.symbol? i = some symbol) :
    (input.value i).symbol? = some symbol := by
  cases input with
  | characters text =>
    obtain ⟨c, found, rfl⟩ := Option.map_eq_some_iff.1 has
    simp [value, found, Capture.symbol?]
  | tokens stream =>
    simp only [symbol?] at has
    split at has
    · cases has
    · exact has

/-- A number of matches, cut down to what the quantifier allows. -/
def Quantifier.cap (q : Quantifier) (count : Nat) : Nat := q.greatest?.elim count (min count)

theorem Quantifier.cap_zero (q : Quantifier) : q.cap 0 = 0 := by cases q <;> rfl

theorem Quantifier.cap_eq (q : Quantifier) (count : Nat) :
    q.cap count = if q.repeats then count else min count 1 := by
  cases q <;> rfl

theorem Quantifier.cap_le (q : Quantifier) (count : Nat) : q.cap count ≤ count := by
  rw [cap_eq]
  split
  · exact Nat.le_refl _
  · exact Nat.min_le_left _ _

namespace Transition

/-- How many symbols from an index on are admitted, up to the first that is not. -/
def admitted (t : Transition) (input : Input) (i : Nat) : Nat :=
  ((List.range' i (input.endIndex - i)).takeWhile fun j => t.admits (input.symbol? j)).length

/-- What the label binds for several symbols. -/
def captures (t : Transition) (input : Input) (i count : Nat) : List Capture :=
  if t.label.isSome then (List.range' i count).map input.value else []

variable {t : Transition} {input : Input} {i : Nat}

theorem admitted_of_admits (ends : input.EndsBy input.endIndex)
    (admits : t.admits (input.symbol? i) = true) :
    t.admitted input i = t.admitted input (i + 1) + 1 := by
  have inside := ends.lt_of_admits admits
  have split : input.endIndex - i = (input.endIndex - (i + 1)) + 1 := by omega
  rw [admitted, split, List.range'_succ, List.takeWhile_cons, if_pos admits, List.length_cons]
  rfl

theorem admitted_of_refuses (refuses : t.admits (input.symbol? i) = false) :
    t.admitted input i = 0 := by
  unfold admitted
  cases input.endIndex - i with
  | zero => rfl
  | succ left =>
    rw [List.range'_succ, List.takeWhile_cons, if_neg (by simp [refuses]), List.length_nil]

/-- The symbols that are counted are admitted. -/
theorem admits_of_mem (ends : input.EndsBy input.endIndex) {count j : Nat}
    (few : count ≤ t.admitted input i) (member : j ∈ List.range' i count) :
    t.admits (input.symbol? j) = true := by
  induction count generalizing i with
  | zero => cases member
  | succ count ih =>
    cases admits : t.admits (input.symbol? i) with
    | false =>
      rw [admitted_of_refuses admits] at few
      cases few
    | true =>
      rw [admitted_of_admits ends admits] at few
      rcases List.mem_cons.1 (List.range'_succ ▸ member) with rfl | later
      · exact admits
      · exact ih (Nat.le_of_succ_le_succ few) later

theorem captures_succ (count : Nat) :
    t.captures input i (count + 1) =
      (t.label.map fun _ => input.value i).toList ++ t.captures input (i + 1) count := by
  unfold captures
  cases t.label <;> simp [List.range'_succ]

end Transition

namespace Passage

/-- A loop before its first test. -/
def start (t : Transition) (i : Nat) : Passage := ⟨i, .ofQuantifier t.quantifier, []⟩

/-- Tests the symbol at hand, goes past it if it is used up and tells the loop. -/
def round (t : Transition) (input : Input) (p : Passage) : Passage :=
  let outcome := t.test input p.index
  { index := if outcome.consumes then input.next p.index else p.index
    loop := p.loop.step outcome.succeeds
    bound := p.bound ++ outcome.bound?.toList }

/-- Rounds follow one another until the loop is over. -/
inductive Drives (t : Transition) (input : Input) : Passage → Passage → Prop where
  | last {p : Passage} : (p.round t input).loop.state.isTerminal = true →
      Drives t input p (p.round t input)
  | next {p ended : Passage} : (p.round t input).loop.state.isTerminal = false →
      Drives t input (p.round t input) ended → Drives t input p ended

/-- Where a loop is over that takes some more symbols. -/
def after (t : Transition) (input : Input) (p : Passage) (count : Nat) : Passage where
  index := p.index + count
  loop :=
    { quantifier := t.quantifier
      state := if t.quantifier.least ≤ p.loop.matched + count then .done else .failed
      matched := p.loop.matched + count }
  bound := p.bound ++ t.captures input p.index count

variable {t : Transition} {input : Input} {p ended ended' : Passage}

theorem Drives.unique (drives : Drives t input p ended) (drives' : Drives t input p ended') :
    ended = ended' := by
  induction drives with
  | last terminal =>
    cases drives' with
    | last => rfl
    | next open' => cases terminal.symm.trans open'
  | next opened _ ih =>
    cases drives' with
    | last terminal' => cases opened.symm.trans terminal'
    | next _ later => exact ih later

theorem round_of_admits (admits : t.admits (input.symbol? p.index) = true) :
    p.round t input =
      ⟨p.index + 1, p.loop.step true,
        p.bound ++ (t.label.map fun _ => input.value p.index).toList⟩ := by
  have some : (input.symbol? p.index).isSome := by
    cases symbol : input.symbol? p.index with
    | none => rw [symbol] at admits; cases admits
    | some => rfl
  simp [round, Transition.test, admits, TestResult.consumes, TestResult.succeeds,
    TestResult.bound?, Input.next, some]

theorem round_of_refuses (refuses : t.admits (input.symbol? p.index) = false) :
    p.round t input = ⟨p.index, p.loop.step false, p.bound⟩ := by
  simp [round, Transition.test, refuses, TestResult.consumes, TestResult.succeeds,
    TestResult.bound?]

theorem drives_of_refuses (testing : p.loop.Testing t.quantifier)
    (refuses : t.admits (input.symbol? p.index) = false) :
    Drives t input p (p.after t input 0) := by
  have round := round_of_refuses refuses
  rw [testing.step_failure] at round
  have ended : p.round t input = p.after t input 0 := by
    rw [round, after, testing.quantifier]
    by_cases required : p.loop.matched < t.quantifier.least <;> simp [required, Transition.captures]
  rw [← ended]
  refine .last ?_
  rw [round]
  by_cases required : p.loop.matched < t.quantifier.least <;>
    simp [required, RepetitionState.isTerminal]

/-- A match of a loop that does not repeat is its last one. -/
theorem drives_of_admits (testing : p.loop.Testing t.quantifier)
    (admits : t.admits (input.symbol? p.index) = true) (single : t.quantifier.repeats = false) :
    Drives t input p (p.after t input 1) := by
  have enough : t.quantifier.least ≤ p.loop.matched + 1 := by
    have := t.quantifier.least_le_one
    omega
  have round := round_of_admits (p := p) admits
  rw [testing.step_success, single] at round
  have ended : p.round t input = p.after t input 1 := by
    rw [round, after, Transition.captures_succ]
    simp [enough, Transition.captures]
  rw [← ended]
  refine .last ?_
  rw [round]
  rfl

/-- A match of a loop that repeats is followed by what the loop takes later. -/
theorem drives_succ (testing : p.loop.Testing t.quantifier)
    (admits : t.admits (input.symbol? p.index) = true) (repeats : t.quantifier.repeats = true)
    {count : Nat}
    (later : Drives t input (p.round t input) ((p.round t input).after t input count)) :
    Drives t input p (p.after t input (count + 1)) := by
  have round := round_of_admits (p := p) admits
  rw [testing.step_success, repeats] at round
  have same : (p.round t input).after t input count = p.after t input (count + 1) := by
    rw [round]
    simp only [after, Transition.captures_succ, List.append_assoc, Nat.add_assoc, Nat.add_comm 1]
  rw [← same]
  refine .next ?_ later
  rw [round]
  rfl

/-- A loop that tests on takes all symbols that are admitted if it may repeat, and
    else at most one. -/
theorem drives_after (ends : input.EndsBy input.endIndex) (testing : p.loop.Testing t.quantifier) :
    Drives t input p (p.after t input (t.quantifier.cap (t.admitted input p.index))) := by
  -- by what is still admitted ahead, whatever was counted and bound so far
  induction count : t.admitted input p.index generalizing p with
  | zero =>
    cases admits : t.admits (input.symbol? p.index) with
    | false =>
      have drives := drives_of_refuses testing admits
      rwa [t.quantifier.cap_zero]
    | true =>
      rw [Transition.admitted_of_admits ends admits] at count
      cases count
  | succ more ih =>
    cases admits : t.admits (input.symbol? p.index) with
    | false => cases (Transition.admitted_of_refuses admits).symm.trans count
    | true =>
      have fewer : t.admitted input (p.index + 1) = more :=
        Nat.succ.inj ((Transition.admitted_of_admits ends admits).symm.trans count)
      cases repeats : t.quantifier.repeats with
      | false =>
        rw [t.quantifier.cap_eq, repeats]
        simpa using drives_of_admits testing admits repeats
      | true =>
        have round := round_of_admits (p := p) admits
        have later := ih (p := p.round t input) (by rw [round]; exact testing.next repeats)
          (by rw [round]; exact fewer)
        simp only [t.quantifier.cap_eq, repeats, if_true] at later ⊢
        exact drives_succ testing admits repeats later

/-- A loop is over after finitely many rounds, always in the same way. It has taken
    the symbols that are admitted one after the other, but no more than the
    quantifier allows, and it has failed just if these are too few. Then it has
    taken none. -/
theorem drives_iff (source : Source) (t : Transition) (i : Nat) :
    let input := source.input
    let taken := t.quantifier.cap (t.admitted input i)
    (∀ ended, Drives t input (.start t i) ended ↔ ended =
      { index := i + taken
        loop :=
          { quantifier := t.quantifier
            state := if t.quantifier.least ≤ taken then .done else .failed
            matched := taken }
        bound := if t.label.isSome then (List.range' i taken).map input.value else [] }) ∧
      (taken < t.quantifier.least → taken = 0) ∧
      ((List.range' i taken).map input.value).map Capture.symbol? =
        (List.range' i taken).map input.symbol? := by
  intro input taken
  have drives := drives_after (p := .start t i) source.endsBy (.ofQuantifier t.quantifier)
  have matched : (Passage.start t i).loop.matched = 0 := rfl
  simp only [after, matched, Nat.zero_add] at drives
  refine ⟨fun ended => ⟨fun drives' => drives'.unique drives, ?_⟩, fun short => ?_, ?_⟩
  · rintro rfl
    exact drives
  · -- one match is all that a quantifier can ask for
    have := t.quantifier.least_le_one
    omega
  · rw [List.map_map]
    refine List.map_congr_left fun j member => ?_
    have admits := Transition.admits_of_mem source.endsBy (t.quantifier.cap_le _) member
    cases has : input.symbol? j with
    | none =>
      rw [has] at admits
      cases admits
    | some symbol => exact Input.symbol?_value has

end Passage

end SetGrammar
