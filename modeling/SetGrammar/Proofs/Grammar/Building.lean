import Mathlib
import SetGrammar.Grammar

/-!
# Grammars as they are built

A grammar is made by definitions, one after the other. Its rules have the names
that definitions give, or the numbered names of rules for literals, and only token
types that are defined.

A literal whose quoted text names a type changes nothing. Any other literal gets a
rule of the next type under the next numbered name. All other types keep their names
and all rules stay, except for a rule that was given this very name, which is replaced.
-/
namespace SetGrammar

/-- One step in making a grammar. -/
inductive Definition where
  | token (name : String) (body : Block)
  | literal (text : String)
  | fragment (name : String) (body : Block)
  | skip (name : String) (body : Block)
  | parserRule (name : String) (body : Block)
  | rule (r : Rule)

/-- The name that a definition gives to a rule. A literal gives none. -/
def Definition.name? : Definition → Option String
  | token name _ | fragment name _ | skip name _ | parserRule name _ => some name
  | literal _ => none
  | rule r => some r.name

/-- The name of a literal in the vocabulary. -/
def quoted (text : String) : String := "'" ++ text ++ "'"

/-- The name of a rule that stands for a literal. -/
def literalRuleName (number : Nat) : String := s!"T__{number}"

/-- A numbered rule that stands for a literal. -/
def Rule.ofLiteral (number tokenType : Nat) (text : String) : Rule where
  name := literalRuleName number
  kind := .lexer
  tokenType := some tokenType
  body := ⟨{}, [.text text.toList]⟩

theorem literalRuleName_inj {a b : Nat} : literalRuleName a = literalRuleName b ↔ a = b := by
  refine ⟨fun same => Nat.repr_inj.1 ?_, congrArg literalRuleName⟩
  exact (String.append_right_inj "T__").1 (by simpa [literalRuleName] using same)

/-! ## One rule more -/

section

variable {new r : Rule} {rules : List Rule}

theorem mem_replaceRule (member : r ∈ replaceRule new rules) : r = new ∨ r ∈ rules := by
  induction rules with
  | nil => exact .inl (List.mem_singleton.1 member)
  | cons first rest ih =>
    unfold replaceRule at member
    split at member
    · rcases List.mem_cons.1 member with here | later
      · exact .inl here
      · exact .inr (List.mem_cons_of_mem _ later)
    · rcases List.mem_cons.1 member with rfl | later
      · exact .inr List.mem_cons_self
      · exact (ih later).imp_right (List.mem_cons_of_mem _)

theorem replaceRule_of_new (fresh : ∀ r ∈ rules, r.name ≠ new.name) :
    replaceRule new rules = rules ++ [new] := by
  induction rules with
  | nil => rfl
  | cons first rest ih =>
    obtain ⟨different, others⟩ := List.forall_mem_cons.1 fresh
    rw [replaceRule, if_neg different, ih others, List.cons_append]

theorem find?_replaceRule_of_ne {name : String} (other : name ≠ new.name) :
    (replaceRule new rules).find? (·.name == name) = rules.find? (·.name == name) := by
  have skipped : (new.name == name) = false := beq_eq_false_iff_ne.2 other.symm
  induction rules with
  | nil => simp [replaceRule, skipped]
  | cons first rest ih =>
    unfold replaceRule
    split
    · rename_i same
      rw [List.find?_cons, List.find?_cons, same, skipped]
    · rw [List.find?_cons, List.find?_cons, ih]

end

namespace Vocabulary

variable {v : Vocabulary} {tokenType other : Nat} {literal symbolic : Option String}

theorem literalName?_define_of_ne (different : tokenType ≠ other) :
    (v.define tokenType literal symbolic).literalName? other = v.literalName? other := by
  simp [define, literalName?, different]

theorem symbolicName?_define_of_ne (different : tokenType ≠ other) :
    (v.define tokenType literal symbolic).symbolicName? other = v.symbolicName? other := by
  simp [define, symbolicName?, different]

/-- There is a type above all others until the last one is defined. -/
theorem freshType_of_lt (more : v.largestType < lastType) : v.freshType = v.largestType + 1 :=
  Nat.mod_eq_of_lt (Nat.succ_lt_succ more)

theorem largestType_define :
    (v.define tokenType literal symbolic).largestType = max tokenType v.largestType := rfl

theorem typeOf?_define_of_ne {name : String} (noLiteral : literal ≠ some name)
    (noSymbolic : symbolic ≠ some name) :
    (v.define tokenType literal symbolic).typeOf? name = v.typeOf? name := by
  simp [define, typeOf?, noLiteral, noSymbolic]

end Vocabulary

namespace Grammar

/-- The grammar after one more definition. -/
def define (g : Grammar) : Definition → Grammar
  | .token name body => (g.addToken name body).2
  | .literal text => (g.tokenForLiteral text).2
  | .fragment name body => g.addFragment name body
  | .skip name body => g.addSkip name body
  | .parserRule name body => g.addParserRule name body
  | .rule r => g.add r

/-- The grammar that definitions make. -/
def ofDefinitions (name : String) (definitions : List Definition) : Grammar :=
  definitions.foldl define (.empty name)

variable {g : Grammar} {text : String}

theorem tokenForLiteral_of_known {tokenType : Nat}
    (known : g.vocabulary.typeOf? (quoted text) = some tokenType) :
    g.tokenForLiteral text = (tokenType, g) := by
  unfold quoted at known
  simp [tokenForLiteral, known]

/-- The grammar with a new rule for a literal. -/
def withLiteral (g : Grammar) (text : String) : Grammar :=
  let tokenType := g.vocabulary.freshType
  let added := g.add (.ofLiteral g.literalRules tokenType text)
  { added with
    vocabulary := added.vocabulary.define tokenType (some (quoted text)) none
    literalRules := g.literalRules + 1 }

theorem tokenForLiteral_of_unknown (unknown : g.vocabulary.typeOf? (quoted text) = none) :
    g.tokenForLiteral text = (g.vocabulary.freshType, g.withLiteral text) := by
  unfold quoted at unknown
  simp only [tokenForLiteral, unknown]
  rfl

/-! ## What definitions keep -/

/-- Every rule has a name that was given or that of a literal, and its token type
    is defined. -/
structure Built (given : String → Prop) (g : Grammar) : Prop where
  named : ∀ r ∈ g.rules, given r.name ∨ ∃ number < g.literalRules, r.name = literalRuleName number
  typed : ∀ r ∈ g.rules, ∀ tokenType, r.tokenType = some tokenType →
    tokenType ≤ g.vocabulary.largestType

variable {given : String → Prop}

theorem built_empty {name : String} : Built given (.empty name) := ⟨nofun, nofun⟩

theorem typed_add (built : Built given g) (new : Rule) :
    ∀ r ∈ (g.add new).rules, ∀ tokenType, r.tokenType = some tokenType →
      tokenType ≤ (g.add new).vocabulary.largestType := by
  intro r member tokenType has
  rcases mem_replaceRule member with rfl | old
  · simp only [add, has, Vocabulary.largestType_define]
    exact le_max_left _ _
  · have below := built.typed r old tokenType has
    unfold add
    cases new.tokenType with
    | none => exact below
    | some own => exact le_max_of_le_right below

theorem Built.add (built : Built given g) {new : Rule} (named : given new.name) :
    Built given (g.add new) := by
  refine ⟨fun r member => ?_, typed_add built new⟩
  rcases mem_replaceRule member with rfl | old
  · exact .inl named
  · exact built.named r old

theorem Built.withLiteral (built : Built given g) : Built given (g.withLiteral text) := by
  constructor
  · intro r member
    rcases mem_replaceRule member with rfl | old
    · exact .inr ⟨g.literalRules, Nat.lt_succ_self _, rfl⟩
    · rcases built.named r old with own | ⟨number, below, numbered⟩
      · exact .inl own
      · exact .inr ⟨number, Nat.lt_succ_of_lt below, numbered⟩
  · intro r member tokenType has
    exact le_max_of_le_right (typed_add built _ r member tokenType has)

/-- A definition keeps a grammar built if the name that it gives may be given. -/
theorem Built.define (built : Built given g) {d : Definition}
    (named : ∀ name, d.name? = some name → given name) : Built given (g.define d) := by
  cases d with
  | token name | fragment name | skip name | parserRule name => exact built.add (named name rfl)
  | rule r => exact built.add (named r.name rfl)
  | literal text =>
    show Built given (g.tokenForLiteral text).2
    cases known : g.vocabulary.typeOf? (quoted text) with
    | some tokenType => rwa [tokenForLiteral_of_known known]
    | none =>
      rw [tokenForLiteral_of_unknown known]
      exact built.withLiteral

theorem Built.definitions (built : Built given g) {definitions : List Definition}
    (named : ∀ d ∈ definitions, ∀ name, d.name? = some name → given name) :
    Built given (definitions.foldl Grammar.define g) := by
  induction definitions generalizing g with
  | nil => exact built
  | cons d rest ih =>
    obtain ⟨first, others⟩ := List.forall_mem_cons.1 named
    exact ih (built.define first) others

/-- The rules of a grammar have the names that its definitions give, or the names
    of literals. -/
theorem ofDefinitions_built (name : String) (definitions : List Definition) :
    Built (fun given => ∃ d ∈ definitions, d.name? = some given)
      (ofDefinitions name definitions) :=
  built_empty.definitions fun d member _ gives => ⟨d, member, gives⟩

/-! ## What a literal changes -/

/-- A grammar with a rule more, for a literal without a token type. -/
structure AddsLiteral (g : Grammar) (text : String) (tokenType : Nat) (added : Grammar) :
    Prop where
  /-- Unless the last type is defined already, the type is larger than every type with a
      name, and no rule has it. -/
  fresh : g.vocabulary.largestType < Vocabulary.lastType → g.vocabulary.largestType < tokenType
  unused : g.vocabulary.largestType < Vocabulary.lastType →
    ∀ r ∈ g.rules, r.tokenType ≠ some tokenType
  rules : added.rules = replaceRule (.ofLiteral g.literalRules tokenType text) g.rules
  otherRules : ∀ name, name ≠ literalRuleName g.literalRules → added.rule? name = g.rule? name
  literalNames : ∀ other, other ≠ tokenType →
    added.vocabulary.literalName? other = g.vocabulary.literalName? other
  symbolicNames : ∀ other, other ≠ tokenType →
    added.vocabulary.symbolicName? other = g.vocabulary.symbolicName? other
  known : added.vocabulary.typeOf? (quoted text) = some tokenType
  otherTypes : ∀ name, name ≠ quoted text → name ≠ literalRuleName g.literalRules →
    added.vocabulary.typeOf? name = g.vocabulary.typeOf? name

theorem Built.addsLiteral (built : Built given g) :
    AddsLiteral g text g.vocabulary.freshType (g.withLiteral text) where
  fresh more := by
    rw [Vocabulary.freshType_of_lt more]
    exact Nat.lt_succ_self _
  unused more r member has := by
    rw [Vocabulary.freshType_of_lt more] at has
    exact Nat.not_succ_le_self _ (built.typed r member _ has)
  rules := rfl
  otherRules name other := find?_replaceRule_of_ne other
  literalNames other different := by
    show ((g.vocabulary.define _ _ _).define _ _ _).literalName? other = _
    rw [Vocabulary.literalName?_define_of_ne different.symm,
      Vocabulary.literalName?_define_of_ne different.symm]
  symbolicNames other different := by
    show ((g.vocabulary.define _ _ _).define _ _ _).symbolicName? other = _
    rw [Vocabulary.symbolicName?_define_of_ne different.symm,
      Vocabulary.symbolicName?_define_of_ne different.symm]
  known := by
    show ((g.vocabulary.define _ _ _).define _ _ _).typeOf? (quoted text) = _
    simp [Vocabulary.define, Vocabulary.typeOf?]
  otherTypes name unquoted unnumbered := by
    have literal : some (quoted text) ≠ some name := fun same => unquoted (Option.some.inj same).symm
    have symbolic : some (literalRuleName g.literalRules) ≠ some name :=
      fun same => unnumbered (Option.some.inj same).symm
    show ((g.vocabulary.define _ none (some (literalRuleName g.literalRules))).define _
      (some (quoted text)) none).typeOf? name = _
    have unnamed : (none : Option String) ≠ some name := nofun
    rw [Vocabulary.typeOf?_define_of_ne literal unnamed,
      Vocabulary.typeOf?_define_of_ne unnamed symbolic]

/-- The numbered name that is next is free unless it was given. -/
theorem Built.free (built : Built given g) (reserved : ∀ number, ¬ given (literalRuleName number)) :
    ∀ r ∈ g.rules, r.name ≠ literalRuleName g.literalRules := by
  intro r member same
  rcases built.named r member with own | ⟨number, below, numbered⟩
  · rw [same] at own
    exact reserved _ own
  · rw [same, literalRuleName_inj] at numbered
    omega

/-- A literal either names a type already and changes nothing, or it adds a rule of
    the next type and leaves the names of all other types and every rule of another
    name. The type is new unless there are no types left. If no definition gives a
    numbered name, the rule comes after all others and none of them changes. -/
theorem tokenForLiteral_frame (name : String) (definitions : List Definition) (text : String) :
    let g := ofDefinitions name definitions
    let (tokenType, added) := g.tokenForLiteral text
    g.vocabulary.typeOf? (quoted text) = some tokenType ∧ added = g ∨
      g.vocabulary.typeOf? (quoted text) = none ∧ AddsLiteral g text tokenType added ∧
        ((∀ d ∈ definitions, ∀ number, d.name? ≠ some (literalRuleName number)) →
          added.rules = g.rules ++ [.ofLiteral g.literalRules tokenType text]) := by
  intro g
  have built := ofDefinitions_built name definitions
  cases known : g.vocabulary.typeOf? (quoted text) with
  | some tokenType =>
    rw [tokenForLiteral_of_known known]
    exact .inl ⟨rfl, rfl⟩
  | none =>
    rw [tokenForLiteral_of_unknown known]
    refine .inr ⟨rfl, built.addsLiteral, fun reserved => replaceRule_of_new ?_⟩
    refine built.free fun number => ?_
    rintro ⟨d, member, gives⟩
    exact reserved d member number gives

/-- The rule of a second literal is of a new type and comes after that of the first. -/
theorem tokenForLiteral_frame_twice :
    let g := ofDefinitions "T" [.literal "y"]
    (∀ r ∈ g.rules, r.tokenType ≠ some 2) ∧
      (g.tokenForLiteral "x").2.rules = g.rules ++ [.ofLiteral 1 2 "x"] := by
  intro g
  have unknown : g.vocabulary.typeOf? (quoted "x") = none := by decide
  rcases tokenForLiteral_frame "T" [.literal "y"] "x" with ⟨known, -⟩ | ⟨-, adds, last⟩
  · cases unknown.symm.trans known
  · refine ⟨adds.unused (by decide), last fun d member => ?_⟩
    rw [List.mem_singleton.1 member]
    exact nofun

/-- A token rule with the first numbered name gives way to the first literal. -/
theorem not_tokenForLiteral_keeps_rules :
    ¬ ∀ (name : String) (definitions : List Definition) (text : String),
      let g := ofDefinitions name definitions
      ∀ r ∈ g.rules, r ∈ (g.tokenForLiteral text).2.rules := by
  intro all
  have kept := all "T" [.token "T__0" ⟨{}, [.char 'a']⟩] "x" _ List.mem_cons_self
  rw [tokenForLiteral_of_unknown (by decide)] at kept
  have only := List.mem_singleton.1 kept
  cases congrArg Rule.tokenType only

end Grammar

end SetGrammar
