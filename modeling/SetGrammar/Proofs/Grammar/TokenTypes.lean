import SetGrammar.Proofs.Grammar.Building
import SetGrammar.Proofs.Grammar.InlineEntries

/-!
# Token types of a grammar

Rules and names stay in agreement whatever is defined, replaced or looked up as a
literal: the name of a rule with a token type stands for just this type. Until types
run out, a new type is larger than all types in use, so that no two allocations share
one.
-/
namespace SetGrammar

theorem mem_replaceRule_self (new : Rule) (rules : List Rule) : new ∈ replaceRule new rules := by
  induction rules with
  | nil => exact List.mem_cons_self
  | cons first rest ih =>
    unfold replaceRule
    split
    · exact List.mem_cons_self
    · exact List.mem_cons_of_mem _ ih

namespace Vocabulary

variable {v : Vocabulary} {tokenType : Nat}

theorem le_largestType {names : TokenNames} (member : names ∈ v.definitions) :
    names.tokenType ≤ v.largestType := by
  obtain ⟨definitions⟩ := v
  induction definitions with
  | nil => cases member
  | cons first rest ih =>
    rcases List.mem_cons.1 member with rfl | later
    · exact le_max_left _ _
    · exact le_max_of_le_right (ih later)

theorem typeOf?_define_symbolic {literal : Option String} {name : String} :
    (v.define tokenType literal (some name)).typeOf? name = some tokenType := by
  simp [define, typeOf?]

theorem typeOf?_define_literal {symbolic : Option String} {name : String} :
    (v.define tokenType (some name) symbolic).typeOf? name = some tokenType := by
  simp [define, typeOf?]

end Vocabulary

/-- The token type that a definition gives to a rule by itself. -/
def Definition.given? : Definition → Option Nat
  | rule r => r.tokenType
  | token _ _ | literal _ | fragment _ _ | skip _ _ | parserRule _ _ => none

namespace Grammar

variable {g : Grammar} {d : Definition} {tokenType : Nat}

/-- A token type that has a definition or belongs to a rule. -/
def Uses (g : Grammar) (tokenType : Nat) : Prop :=
  (∃ names ∈ g.vocabulary.definitions, names.tokenType = tokenType) ∨
    ∃ r ∈ g.rules, r.tokenType = some tokenType

/-- The name of a rule with a token type stands for this type. -/
def Named (g : Grammar) : Prop :=
  ∀ r ∈ g.rules, ∀ tokenType, r.tokenType = some tokenType →
    g.vocabulary.typeOf? r.name = some tokenType

theorem named_empty {name : String} : Named (.empty name) := nofun

/-- Only the rule itself has the name of a rule that was added last. -/
theorem mem_add {new r : Rule} (member : r ∈ (g.add new).rules) :
    r = new ∨ r ∈ g.rules ∧ r.name ≠ new.name := by
  by_cases same : r.name = new.name
  · have own := (rule?_eq_some_iff (g := g.add new)).2 ⟨mem_replaceRule_self new g.rules, rfl⟩
    have other := (rule?_eq_some_iff (g := g.add new)).2 ⟨member, same⟩
    exact .inl (Option.some.inj (other.symm.trans own))
  · rcases mem_replaceRule member with rfl | old
    · exact .inl rfl
    · exact .inr ⟨old, same⟩

theorem Named.add (named : Named g) (new : Rule) : Named (g.add new) := by
  intro r member tokenType has
  rcases mem_add member with rfl | ⟨old, other⟩
  · simp only [Grammar.add, has]
    exact Vocabulary.typeOf?_define_symbolic
  · have kept := named r old tokenType has
    unfold Grammar.add
    cases new.tokenType with
    | none => exact kept
    | some own =>
      have symbolic : some new.name ≠ some r.name := fun same => other (Option.some.inj same).symm
      exact (Vocabulary.typeOf?_define_of_ne (by simp) symbolic).trans kept

theorem Named.withLiteral (named : Named g) {text : String}
    (unknown : g.vocabulary.typeOf? (quoted text) = none) : Named (g.withLiteral text) := by
  intro r member tokenType has
  have kept :=
    named.add (.ofLiteral g.literalRules g.vocabulary.freshType text) r member tokenType has
  by_cases same : r.name = quoted text
  · -- no rule of before can be named like the text, which names no type yet
    rcases mem_add member with rfl | ⟨old, -⟩
    · rw [same, ← has]
      exact Vocabulary.typeOf?_define_literal
    · have known := named r old tokenType has
      rw [same, unknown] at known
      cases known
  · have literal : some (quoted text) ≠ some r.name :=
      fun named => same (Option.some.inj named).symm
    exact (Vocabulary.typeOf?_define_of_ne literal (by simp)).trans kept

theorem largestType_add (g : Grammar) (r : Rule) :
    (g.add r).vocabulary.largestType = max (r.tokenType.getD 0) g.vocabulary.largestType := by
  unfold add
  cases r.tokenType with
  | none => exact (Nat.zero_max _).symm
  | some own => rfl

theorem largestType_withLiteral (g : Grammar) (text : String) :
    (g.withLiteral text).vocabulary.largestType =
      max g.vocabulary.freshType g.vocabulary.largestType := by
  show max g.vocabulary.freshType (max g.vocabulary.freshType g.vocabulary.largestType) = _
  rw [← Nat.max_assoc, Nat.max_self]

/-! ## New types -/

/-- The new type that a definition takes, if it takes one. A literal takes one if its
    quoted text names no type. -/
def allocated? (g : Grammar) : Definition → Option Nat
  | .token name body => some (g.addToken name body).1
  | .literal text =>
    if (g.vocabulary.typeOf? (quoted text)).isSome then none else some (g.tokenForLiteral text).1
  | .fragment _ _ | .skip _ _ | .parserRule _ _ | .rule _ => none

/-- The new types that definitions take, in order. -/
def allocations (g : Grammar) : List Definition → List Nat
  | [] => []
  | d :: rest => (g.allocated? d).toList ++ (g.define d).allocations rest

/-- Whether one of the definitions takes a new type after the last one is defined. -/
def runsOut (g : Grammar) : List Definition → Bool
  | [] => false
  | d :: rest =>
    (g.allocated? d).isSome && decide (Vocabulary.lastType ≤ g.vocabulary.largestType) ||
      (g.define d).runsOut rest

theorem runsOut_cons_eq_false {rest : List Definition} :
    g.runsOut (d :: rest) = false ↔
      ((g.allocated? d).isSome = true → g.vocabulary.largestType < Vocabulary.lastType) ∧
        (g.define d).runsOut rest = false := by
  simp [runsOut]

/-- All that a definition can do, with the new type that it takes. -/
inductive Changes (g : Grammar) (d : Definition) : Option Nat → Grammar → Prop where
  | stays : d.given? = none → Changes g d none g
  | adds {r : Rule} : r.tokenType = d.given? → Changes g d none (g.add r)
  | token {r : Rule} : d.given? = none → r.tokenType = some g.vocabulary.freshType →
      Changes g d (some g.vocabulary.freshType) (g.add r)
  | literal {text : String} : d.given? = none → g.vocabulary.typeOf? (quoted text) = none →
      Changes g d (some g.vocabulary.freshType) (g.withLiteral text)

theorem changes (g : Grammar) (d : Definition) : Changes g d (g.allocated? d) (g.define d) := by
  cases d with
  | fragment | skip | parserRule | rule => exact .adds rfl
  | token => exact .token rfl rfl
  | literal text =>
    simp only [allocated?, define]
    cases known : g.vocabulary.typeOf? (quoted text) with
    | some tokenType =>
      rw [tokenForLiteral_of_known known]
      exact .stays rfl
    | none =>
      rw [tokenForLiteral_of_unknown known]
      exact .literal rfl known

namespace Changes

variable {allocated : Option Nat} {g' : Grammar}

theorem named (changes : Changes g d allocated g') (named : Named g) : Named g' := by
  cases changes with
  | stays => exact named
  | adds | token => exact named.add _
  | literal _ unknown => exact named.withLiteral unknown

theorem allocated_eq (changes : Changes g d allocated g') (allocates : allocated = some tokenType)
    (more : g.vocabulary.largestType < Vocabulary.lastType) :
    tokenType = g.vocabulary.largestType + 1 := by
  rw [← Vocabulary.freshType_of_lt more]
  cases changes with
  | stays | adds => cases allocates
  | token | literal => exact (Option.some.inj allocates).symm

/-- The largest type becomes what is given or taken if that is larger. -/
theorem largestType_eq (changes : Changes g d allocated g') :
    g'.vocabulary.largestType =
      max (d.given?.getD 0) (max (allocated.getD 0) g.vocabulary.largestType) := by
  cases changes with
  | stays nothing => simp [nothing]
  | adds same => rw [largestType_add, same, Option.getD_none, Nat.zero_max]
  | token nothing typed => rw [largestType_add, typed, nothing, Option.getD_none, Nat.zero_max]
  | literal nothing =>
    rw [largestType_withLiteral, nothing, Option.getD_none, Nat.zero_max, Option.getD_some]

theorem mem_rules (changes : Changes g d allocated g') {r : Rule} (member : r ∈ g'.rules) :
    r ∈ g.rules ∨ r.tokenType = d.given? ∨
      allocated.isSome = true ∧ r.tokenType = some g.vocabulary.freshType := by
  cases changes with
  | stays => exact .inl member
  | adds same =>
    rcases mem_replaceRule member with rfl | old
    · exact .inr (.inl same)
    · exact .inl old
  | token _ typed =>
    rcases mem_replaceRule member with rfl | old
    · exact .inr (.inr ⟨rfl, typed⟩)
    · exact .inl old
  | literal =>
    rcases mem_replaceRule member with rfl | old
    · exact .inr (.inr ⟨rfl, rfl⟩)
    · exact .inl old

end Changes

/-! ## Sequences of definitions -/

variable {definitions : List Definition}

theorem Named.ofDefinitions (named : Named g) : Named (definitions.foldl define g) := by
  induction definitions generalizing g with
  | nil => exact named
  | cons d rest ih => exact ih ((g.changes d).named named)

theorem lt_of_mem_allocations (left : g.runsOut definitions = false)
    (member : tokenType ∈ g.allocations definitions) : g.vocabulary.largestType < tokenType := by
  induction definitions generalizing g with
  | nil => cases member
  | cons d rest ih =>
    obtain ⟨more, left⟩ := runsOut_cons_eq_false.1 left
    rcases List.mem_append.1 member with first | later
    · have allocates := Option.mem_toList.1 first
      rw [(g.changes d).allocated_eq allocates (more (Option.isSome_of_mem allocates))]
      exact Nat.lt_succ_self _
    · have larger := ih left later
      rw [(g.changes d).largestType_eq] at larger
      omega

theorem pairwise_allocations (left : g.runsOut definitions = false) :
    (g.allocations definitions).Pairwise (· < ·) := by
  induction definitions generalizing g with
  | nil => exact .nil
  | cons d rest ih =>
    -- later types lie above the largest one, which is at least the type taken here
    obtain ⟨-, left⟩ := runsOut_cons_eq_false.1 left
    refine List.pairwise_append.2 ⟨?_, ih left, fun tokenType first later member => ?_⟩
    · cases g.allocated? d <;> simp
    · have larger := lt_of_mem_allocations left member
      rw [(g.changes d).largestType_eq, Option.mem_toList.1 first, Option.getD_some] at larger
      omega

/-- Types stay within a bound if those that are given and taken do. -/
theorem largestType_definitions_le {last : Nat} (below : g.vocabulary.largestType ≤ last)
    (given : ∀ d ∈ definitions, ∀ tokenType, d.given? = some tokenType → tokenType ≤ last)
    (taken : ∀ tokenType ∈ g.allocations definitions, tokenType ≤ last) :
    (definitions.foldl define g).vocabulary.largestType ≤ last := by
  induction definitions generalizing g with
  | nil => exact below
  | cons d rest ih =>
    obtain ⟨own, others⟩ := List.forall_mem_cons.1 given
    refine ih ?_ others fun tokenType member => taken _ (List.mem_append_right _ member)
    have least (type? : Option Nat)
        (bound : ∀ tokenType, type? = some tokenType → tokenType ≤ last) :
        type?.getD 0 ≤ last := by
      cases type? with
      | none => exact Nat.zero_le _
      | some tokenType => exact bound tokenType rfl
    rw [(g.changes d).largestType_eq]
    refine Nat.max_le.2 ⟨least _ own, Nat.max_le.2 ⟨least _ fun tokenType allocates => ?_, below⟩⟩
    exact taken _ (List.mem_append_left _ (Option.mem_toList.2 allocates))

/-- A rule has a type that is given or one that is taken, and until types run out none of
    these is 0. -/
theorem tokenType_of_mem_rules {r : Rule} (left : g.runsOut definitions = false)
    (member : r ∈ (definitions.foldl define g).rules) :
    r ∈ g.rules ∨ (∃ d ∈ definitions, r.tokenType = d.given?) ∨
      ∃ largest, r.tokenType = some (largest + 1) := by
  induction definitions generalizing g with
  | nil => exact .inl member
  | cons d rest ih =>
    obtain ⟨more, left⟩ := runsOut_cons_eq_false.1 left
    rcases ih left member with before | ⟨d', later, same⟩ | taken
    · rcases (g.changes d).mem_rules before with old | same | ⟨allocates, taken⟩
      · exact .inl old
      · exact .inr (.inl ⟨d, List.mem_cons_self, same⟩)
      · rw [Vocabulary.freshType_of_lt (more allocates)] at taken
        exact .inr (.inr ⟨_, taken⟩)
    · exact .inr (.inl ⟨d', List.mem_cons_of_mem _ later, same⟩)
    · exact .inr (.inr taken)

theorem Built.le_largestType {given : String → Prop} (built : Built given g)
    (used : g.Uses tokenType) : tokenType ≤ g.vocabulary.largestType := by
  rcases used with ⟨names, member, rfl⟩ | ⟨r, member, has⟩
  · exact Vocabulary.le_largestType member
  · exact built.typed r member tokenType has

/-- However a grammar is made, each of its rules is found by its own name, and the name
    of a rule with a token type stands for this type, which parser rules may name. As
    long as there are types left, a new one is larger than all types in use, so that no
    two are the same. Types stay within a bound if those that are given and taken do. -/
theorem ofDefinitions_types (name : String) (definitions : List Definition) :
    let g := ofDefinitions name definitions
    (∀ name r, g.rule? name = some r ↔ r ∈ g.rules ∧ r.name = name) ∧
      (∀ r ∈ g.rules, ∀ tokenType, r.tokenType = some tokenType →
        g.vocabulary.typeOf? r.name = some tokenType ∧ tokenType ≤ (g.domain .parser).max) ∧
      (g.vocabulary.largestType < Vocabulary.lastType →
        ∀ d tokenType, g.allocated? d = some tokenType → ∀ used, g.Uses used → used < tokenType) ∧
      ((empty name).runsOut definitions = false →
        ((empty name).allocations definitions).Pairwise (· < ·)) ∧
      ∀ last, (∀ d ∈ definitions, ∀ tokenType, d.given? = some tokenType → tokenType ≤ last) →
        (∀ tokenType ∈ (empty name).allocations definitions, tokenType ≤ last) →
        ∀ used, g.Uses used → used ≤ last := by
  intro g
  have built := ofDefinitions_built name definitions
  have named : Named g := named_empty.ofDefinitions
  refine ⟨fun name r => rule?_eq_some_iff, fun r member tokenType has => ?_,
    fun more d tokenType allocates used inUse => ?_, pairwise_allocations,
    fun last given taken used inUse => ?_⟩
  · exact ⟨named r member tokenType has, built.typed r member tokenType has⟩
  · rw [(g.changes d).allocated_eq allocates more]
    exact Nat.lt_succ_of_le (built.le_largestType inUse)
  · have bound := largestType_definitions_le (Nat.zero_le last) given taken
    exact Nat.le_trans (built.le_largestType inUse) bound

/-- A rule with a given type is replaced after a literal took the next one. -/
theorem ofDefinitions_types_replaced :
    let given : Rule := { name := "A", kind := .lexer, tokenType := some 7, body := ⟨{}, []⟩ }
    let definitions := [.rule given, .literal "x", .token "A" ⟨{}, [.char 'b']⟩]
    let g := ofDefinitions "T" definitions
    (empty "T").allocations definitions = [8, 9] ∧ [8, 9].Pairwise (· < ·) ∧ g.vocabulary.typeOf? "A" = some 9 ∧
      g.Uses 7 ∧ g.allocated? (.literal "y") = some 10 ∧ 7 < 10 ∧
      ∀ used, g.Uses used → used ≤ 9 := by
  intro given definitions g
  obtain ⟨-, typed, fresh, apart, within⟩ := ofDefinitions_types "T" definitions
  have taken : (empty "T").allocations definitions = [8, 9] := by decide
  have more : g.vocabulary.largestType < Vocabulary.lastType := by decide
  have ascending := apart (by decide)
  rw [taken] at ascending
  have inUse : g.Uses 7 := .inl ⟨⟨7, none, some "A"⟩, by decide, rfl⟩
  have next : g.allocated? (.literal "y") = some 10 := by decide
  refine ⟨taken, ascending, (typed _ List.mem_cons_self 9 rfl).1, inUse, next,
    fresh more _ _ next _ inUse, ?_⟩
  refine within 9 (fun d member tokenType own => ?_) (by rw [taken]; decide)
  have only : ∀ d ∈ definitions, ∀ tokenType ∈ d.given?, tokenType ≤ 9 := by
    simp [definitions, given, Definition.given?]
  exact only d member tokenType own

/-- After a rule of the last type there are no types left, and the next rule gets 0. -/
example :
    let last : Rule :=
      { name := "A", kind := .lexer, tokenType := some Vocabulary.lastType, body := ⟨{}, []⟩ }
    let definitions := [.rule last, .token "B" ⟨{}, [.char 'b']⟩]
    (empty "T").runsOut definitions = true ∧ (empty "T").allocations definitions = [0] := by
  decide

end Grammar

end SetGrammar
