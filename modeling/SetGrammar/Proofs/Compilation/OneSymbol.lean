import SetGrammar.Proofs.Compilation.Clean
import SetGrammar.Proofs.Grammar.Replacement

/-!
# Branches of one symbol

Alternatives that would form one set, kept as branches instead, test one symbol
just as the set does. References among them count as the classes that replace
them, provided that what they call tests the same symbols.
-/
namespace SetGrammar

/-- A part matches just the symbols with a property, takes one of them and looks
    no further. -/
def CompiledGrammar.Tests (g : CompiledGrammar) (part : Part) (P : Nat → Prop) : Prop :=
  ∀ (input : Input) (rule : String) (i : Nat),
    ((∃ s, input.symbol? i = some s ∧ P s) → Yields g input rule part i (.matched (i + 1) [] i)) ∧
      ((¬ ∃ s, input.symbol? i = some s ∧ P s) → Yields g input rule part i (.failed i))

/-- A symbol of the domain that one of the sources names. -/
def Domain.Named (d : Domain) (sources : List SymbolSource) (s : Nat) : Prop :=
  d.contains s ∧ ∃ source ∈ sources, source.Names s

namespace CompiledGrammar.Tests

variable {g : CompiledGrammar} {P Q : Nat → Prop}

theorem congr {part : Part} (tests : g.Tests part P) (same : ∀ s, P s ↔ Q s) : g.Tests part Q := by
  have equal : P = Q := funext fun s => propext (same s)
  rwa [equal] at tests

theorem test {t : SetTest} {isRequired : Bool} :
    g.Tests (.body (.test t) isRequired) fun s => t.admits (some s) = true := by
  intro input rule i
  constructor
  · rintro ⟨s, symbol, admits⟩
    exact .admitted (by rw [symbol, admits])
  · intro none
    refine .refused ?_
    cases symbol : input.symbol? i with
    | none => rfl
    | some s =>
      rw [Bool.eq_false_iff]
      exact fun admits => none ⟨s, symbol, admits⟩

/-- A block without a quantifier and a label tests what its one iteration does. -/
theorem once {body : Body} (tests : g.Tests (.body body true) P) :
    g.Tests (.loop body .once none 0) P := by
  intro input rule i
  obtain ⟨admitted, refused⟩ := tests input rule i
  constructor
  · intro has
    have yields : Yields g input rule (.loop body .once none 0) i _ :=
      .advances rfl (admitted has) (Nat.succ_ne_self i) (.full rfl)
    simpa [Input.labelled] using yields
  · intro none
    have yields : Yields g input rule (.loop body .once .none 0) i _ := .ends rfl (refused none)
    exact yields

theorem sequence {e : CompiledElement} (tests : g.Tests (.ofElement e) P) :
    g.Tests (.sequence [e]) P := by
  intro input rule i
  obtain ⟨admitted, refused⟩ := tests input rule i
  constructor
  · intro has
    have yields := Yields.goes (admitted has) .done
    simpa using yields
  · intro none
    exact .stops (refused none)

theorem call {name : String} {called : CompiledRule} (found : g.rule? name = some called)
    (tests : g.Tests (.ofBlock called.body) P) : g.Tests (.call name) P := by
  intro input rule i
  obtain ⟨admitted, refused⟩ := tests input called.name i
  exact ⟨fun has => .call found (admitted has), fun none => .call found (refused none)⟩

end CompiledGrammar.Tests

/-- Alternatives that each test one symbol, with the sources that they name
    between them. -/
inductive CompiledGrammar.AllTest (g : CompiledGrammar) (d : Domain) :
    List CompiledSequence → List SymbolSource → Prop where
  | nil : g.AllTest d [] []
  | cons {first : CompiledSequence} {rest : List CompiledSequence} {own others : List SymbolSource} :
      g.Tests (.sequence first) (d.Named own) → g.AllTest d rest others →
      g.AllTest d (first :: rest) (own ++ others)

namespace CompiledGrammar.AllTest

variable {g : CompiledGrammar} {d : Domain} {alternatives : List CompiledSequence}
  {sources : List SymbolSource}

theorem named_append {own others : List SymbolSource} {s : Nat} :
    d.Named (own ++ others) s ↔ d.Named own s ∨ d.Named others s := by
  simp only [Domain.Named, List.mem_append, or_and_right, exists_or, and_or_left]

/-- Such a choice looks no further than the symbol at hand. -/
theorem choice (all : g.AllTest d alternatives sources) (input : Input) (rule : String) (i : Nat) :
    ((∃ s, input.symbol? i = some s ∧ d.Named sources s) →
        Yields g input rule (.choice alternatives) i (.matched (i + 1) [] i)) ∧
      ((¬ ∃ s, input.symbol? i = some s ∧ d.Named sources s) →
        ∃ reach ≤ i, Yields g input rule (.choice alternatives) i (.failed reach)) := by
  induction all with
  | nil =>
    constructor
    · rintro ⟨s, -, -, source, member, -⟩
      cases member
    · exact fun _ => ⟨0, Nat.zero_le i, .none⟩
  | cons tests _ ih =>
    rename_i own others _
    obtain ⟨admitted, refused⟩ := tests input rule i
    by_cases first : ∃ s, input.symbol? i = some s ∧ d.Named own s
    · refine ⟨fun _ => .first (admitted first), fun none => (none ?_).elim⟩
      obtain ⟨s, symbol, named⟩ := first
      exact ⟨s, symbol, named_append.2 (.inl named)⟩
    · have failed := refused first
      constructor
      · rintro ⟨s, symbol, named⟩
        rcases named_append.1 named with named | named
        · exact (first ⟨s, symbol, named⟩).elim
        · have yields := Yields.later failed (ih.1 ⟨s, symbol, named⟩)
          simpa using yields
      · intro none
        have outside : ¬ ∃ s, input.symbol? i = some s ∧ d.Named others s := by
          rintro ⟨s, symbol, named⟩
          exact none ⟨s, symbol, named_append.2 (.inr named)⟩
        obtain ⟨reach, near, yields⟩ := ih.2 outside
        exact ⟨_, by omega, .later failed yields⟩

/-- Alternatives that each test one symbol do so together. -/
theorem body (all : g.AllTest d alternatives sources) (isRequired : Bool) :
    g.Tests (.body (.alternatives alternatives) isRequired) (d.Named sources) := by
  by_cases rivals : isRequired = false ∨ alternatives.length ≠ 1
  · intro input rule i
    obtain ⟨admitted, refused⟩ := all.choice input rule i
    constructor
    · intro has
      have yields := Yields.decision rivals (admitted has)
      simpa using yields
    · intro none
      obtain ⟨reach, near, yields⟩ := refused none
      have yields := Yields.decision rivals yields
      rwa [Trial.after_failed, Nat.max_eq_left near] at yields
  · simp only [not_or, Bool.not_eq_false, Decidable.not_not] at rivals
    obtain ⟨rfl, alone⟩ := rivals
    cases all with
    | nil => cases alone
    | cons tests rest =>
      cases rest with
      | cons => simp at alone
      | nil =>
        intro input rule i
        rw [List.append_nil]
        obtain ⟨admitted, refused⟩ := tests input rule i
        exact ⟨fun has => .only (admitted has), fun none => .only (refused none)⟩

end CompiledGrammar.AllTest

end SetGrammar
