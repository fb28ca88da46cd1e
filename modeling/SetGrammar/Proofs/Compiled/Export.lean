import SetGrammar.Compiled.Export
import SetGrammar.Proofs.Json

/-!
# What an export keeps

The export of a compiled grammar keeps all of it but the token names. Names of kinds,
quantifiers and reasons differ, a field that is absent is written as null, and a block
inside an alternative has its kind beside its type. So a body can be told from its
fields at any depth of blocks, and a grammar from its text.
-/
namespace SetGrammar

/-! ## Names and optional fields -/

theorem RuleKind.name_inj {a b : RuleKind} : a.name = b.name ↔ a = b := by
  cases a <;> cases b <;> simp [name]

theorem Quantifier.name_inj {a b : Quantifier} : a.name = b.name ↔ a = b := by
  cases a <;> cases b <;> simp [name]

theorem BranchReason.name_inj {a b : BranchReason} : a.name = b.name ↔ a = b := by
  cases a <;> cases b <;> simp [name]

theorem JsonValue.ofString?_inj {a b : Option String} : ofString? a = ofString? b ↔ a = b := by
  cases a <;> cases b <;> simp [ofString?]

theorem JsonValue.ofNat?_inj {a b : Option Nat} : ofNat? a = ofNat? b ↔ a = b := by
  cases a <;> cases b <;> simp [ofNat?]

/-- There is only one command. -/
theorem commandName_inj {a b : Option LexerCommand} :
    a.map LexerCommand.name = b.map LexerCommand.name ↔ a = b := by
  cases a with
  | none => cases b <;> simp
  | some a =>
    cases b with
    | none => simp
    | some b =>
      cases a
      cases b
      simp

/-! ## Sets and transitions -/

theorem SymbolSet.json_inj {a b : SymbolSet} : a.json = b.json ↔ a = b := by
  constructor
  · intro same
    have rows := JsonValue.array.inj same
    have fields : Function.Injective fun i : Interval =>
        JsonValue.object [("low", .number i.low), ("high", .number i.high)] := by
      intro i j same
      simp only [JsonValue.object.injEq, List.cons.injEq, Prod.mk.injEq, JsonValue.number.injEq,
        true_and, and_true] at same
      exact Interval.eq_of_bounds same.1 same.2
    exact toIntervals_inj.1 (List.map_injective_iff.2 fields rows)
  · rintro rfl
    rfl

theorem Domain.json_inj {d e : Domain} : d.json = e.json ↔ d = e := by
  cases d
  cases e
  simp [json, RuleKind.name_inj]

theorem Transition.jsonFields_inj {t u : Transition} : t.jsonFields = u.jsonFields ↔ t = u := by
  obtain ⟨⟨named, negated, domain⟩, quantifier, label⟩ := t
  obtain ⟨⟨named', negated', domain'⟩, quantifier', label'⟩ := u
  simp only [jsonFields, List.cons.injEq, Prod.mk.injEq, true_and, and_true, JsonValue.bool.injEq,
    JsonValue.string.injEq, SymbolSet.json_inj, Domain.json_inj, Quantifier.name_inj,
    JsonValue.ofString?_inj, Transition.mk.injEq, SetTest.mk.injEq]
  constructor
  · rintro ⟨rfl, rfl, rfl, rfl, rfl⟩
    exact ⟨⟨rfl, rfl, rfl⟩, rfl, rfl⟩
  · rintro ⟨⟨rfl, rfl, rfl⟩, rfl, rfl⟩
    exact ⟨rfl, rfl, rfl, rfl, rfl⟩

/-! ## Bodies -/

/-- The first field of a block tells whether it is one set. -/
theorem set_jsonFields_ne_branches {t : Transition} {alternatives : List (List CompiledElement)}
    {quantifier : Quantifier} {label : Option String} {reason : BranchReason} :
    (CompiledBlock.set t).jsonFields ≠
      (CompiledBlock.branches alternatives quantifier label reason).jsonFields := by
  simp [CompiledBlock.jsonFields]

mutual

/-- The fields of a block tell the block. -/
theorem CompiledBlock.eq_of_jsonFields (b c : CompiledBlock) (same : b.jsonFields = c.jsonFields) :
    b = c := by
  cases b with
  | set t =>
    cases c with
    | set u =>
      rw [CompiledBlock.jsonFields, CompiledBlock.jsonFields, List.cons.injEq] at same
      rw [Transition.jsonFields_inj.1 same.2]
    | branches => exact (set_jsonFields_ne_branches same).elim
  | branches alternatives quantifier label reason =>
    cases c with
    | set u => exact (set_jsonFields_ne_branches same.symm).elim
    | branches alternatives' quantifier' label' reason' =>
      simp only [CompiledBlock.jsonFields, List.cons.injEq, Prod.mk.injEq, true_and, and_true,
        JsonValue.array.injEq, JsonValue.string.injEq, Quantifier.name_inj,
        JsonValue.ofString?_inj, BranchReason.name_inj] at same
      obtain ⟨inner, rfl, rfl, rfl⟩ := same
      rw [eq_of_jsonAlternatives alternatives alternatives' inner]

/-- The type of a part tells whether it is a set, a call or a block. -/
theorem CompiledElement.eq_of_json (e f : CompiledElement) (same : e.json = f.json) : e = f := by
  cases e with
  | set t =>
    cases f with
    | set u =>
      rw [CompiledElement.json, CompiledElement.json, JsonValue.object.injEq,
        List.cons.injEq] at same
      rw [Transition.jsonFields_inj.1 same.2]
    | _ => simp [CompiledElement.json] at same
  | call rule =>
    cases f with
    | call rule' =>
      simp only [CompiledElement.json, JsonValue.object.injEq, List.cons.injEq, Prod.mk.injEq,
        JsonValue.string.injEq, true_and, and_true] at same
      rw [same]
    | _ => simp [CompiledElement.json] at same
  | block b =>
    cases f with
    | block c =>
      rw [CompiledElement.json, CompiledElement.json, JsonValue.object.injEq,
        List.cons.injEq] at same
      rw [CompiledBlock.eq_of_jsonFields b c same.2]
    | _ => simp [CompiledElement.json] at same

theorem eq_of_jsonSequence (a b : List CompiledElement) (same : jsonSequence a = jsonSequence b) :
    a = b := by
  cases a with
  | nil =>
    cases b with
    | nil => rfl
    | cons f others => cases same
  | cons e rest =>
    cases b with
    | nil => cases same
    | cons f others =>
      rw [jsonSequence, jsonSequence, List.cons.injEq] at same
      rw [CompiledElement.eq_of_json e f same.1, eq_of_jsonSequence rest others same.2]

theorem eq_of_jsonAlternatives (a b : List (List CompiledElement))
    (same : jsonAlternatives a = jsonAlternatives b) : a = b := by
  cases a with
  | nil =>
    cases b with
    | nil => rfl
    | cons f others => cases same
  | cons e rest =>
    cases b with
    | nil => cases same
    | cons f others =>
      rw [jsonAlternatives, jsonAlternatives, List.cons.injEq, JsonValue.array.injEq] at same
      rw [eq_of_jsonSequence e f same.1, eq_of_jsonAlternatives rest others same.2]

end

/-! ## Rules and grammars -/

theorem CompiledRule.json_inj {r s : CompiledRule} : r.json = s.json ↔ r = s := by
  constructor
  · intro same
    obtain ⟨name, kind, isFragment, command, tokenType, body⟩ := r
    obtain ⟨name', kind', isFragment', command', tokenType', body'⟩ := s
    simp only [json, JsonValue.object.injEq, List.cons.injEq, Prod.mk.injEq, true_and, and_true,
      JsonValue.string.injEq, JsonValue.bool.injEq, RuleKind.name_inj, JsonValue.ofString?_inj,
      commandName_inj, JsonValue.ofNat?_inj] at same
    obtain ⟨rfl, rfl, rfl, rfl, rfl, fields⟩ := same
    rw [CompiledBlock.eq_of_jsonFields body body' fields]
  · rintro rfl
    rfl

/-- Two exports are the same text just when the grammars have the same name, the same
    domains and the same rules in the same order, down to every set, flag, quantifier,
    label, reason, call and block of their bodies. -/
theorem CompiledGrammar.toJson_eq_iff {g h : CompiledGrammar} :
    g.toJson = h.toJson ↔
      g.name = h.name ∧ g.lexerDomain = h.lexerDomain ∧ g.parserDomain = h.parserDomain ∧
        g.rules = h.rules := by
  rw [toJson, toJson, JsonValue.pretty_inj]
  simp only [json, JsonValue.object.injEq, List.cons.injEq, Prod.mk.injEq, true_and, and_true,
    JsonValue.string.injEq, Domain.json_inj]
  have members : Function.Injective fun r : CompiledRule => (r.name, r.json) := by
    intro r s same
    exact CompiledRule.json_inj.1 (Prod.mk.inj same).2
  rw [(List.map_injective_iff.2 members).eq_iff]

end SetGrammar
