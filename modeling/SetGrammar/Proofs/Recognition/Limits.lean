import Mathlib
import SetGrammar.Compilation
import SetGrammar.Proofs.Recognition.Agreement
import SetGrammar.Proofs.Recognition.Misuse
import SetGrammar.Proofs.Recognition.StepBound

/-!
# Limits of runs

A run that goes well does not depend on its limits, since a limit is never taken for
a failure that another alternative could make good. Some number of steps is always
enough, also for rules that call themselves and for loops around nothing.
-/
namespace SetGrammar

/-- The tokens `A : (b* a?)+` and `C : c`, and the rules `left : left A | A` and
    `list : (A?)+ C`. -/
def circles : CompiledGrammar :=
  let (_, g) := (Grammar.empty "Circles").addToken "A" ⟨{ quantifier := .plus },
    [.sequence [.block { quantifier := .star } [.char 'b'],
      .block { quantifier := .optional } [.char 'a']]]⟩
  let (_, g) := g.addToken "C" ⟨{}, [.char 'c']⟩
  let g := g.addParserRule "left" ⟨{},
    [.sequence [.reference "left", .reference "A"], .reference "A"]⟩
  let g := g.addParserRule "list" ⟨{}, [.sequence [.block { quantifier := .plus }
    [.block { quantifier := .optional } [.reference "A"]], .reference "C"]]⟩
  (g.compile {}).value

theorem parse_eq {g : CompiledGrammar} {limits : Limits} {rule : String} {tokens : List Token}
    {o : Parse} {s : RunState}
    (run : Recognizer.outcome ⟨g, .parser, .tokens (.ofList tokens), limits⟩ rule
      (.initial limits) = .ok o s) :
    g.parse limits rule tokens = ⟨.ok o, s.events.reverse⟩ := by
  simp only [CompiledGrammar.parse, EStateM.run, run]

/-! ## Wider limits -/

/-- States and logs are the same, and the first run may end early in any way. -/
def View.lasting : View := ⟨true, fun _ => True, fun _ _ => trivial, fun _ => True⟩

theorem View.lasting_initial {limits limits' : Limits} (fuel : limits.fuel ≤ limits'.fuel) :
    View.lasting.Sim (.initial limits) (.initial limits') :=
  ⟨rfl, rfl, fuel, fun _ => rfl, fun _ => rfl, fun _ => rfl, trivial⟩

namespace CompiledGrammar

section

variable {g : CompiledGrammar} {limits limits' : Limits} (fuel : limits.fuel ≤ limits'.fuel)
  (depth : limits.depth ≤ limits'.depth)

include fuel depth

theorem tokenize_allow {text : String} {tokens : List Token}
    (made : (g.tokenize limits text).result = .ok tokens) :
    g.tokenize limits' text = g.tokenize limits text := by
  obtain ⟨s, run, -⟩ := tokenize_ok made
  have follows : View.lasting.Follows Eq
      (Recognizer.tokens ⟨g, .lexer, .ofText text, limits⟩)
      (Recognizer.tokens ⟨g, .lexer, .ofText text, limits'⟩) :=
    Recognizer.follows_tokens rfl (fun _ => trivial) depth fun _ _ => .inl fun _ => trivial
  obtain ⟨_, t, run', rfl, sim⟩ := follows.ok (View.lasting_initial fuel) run
  rw [tokenize_eq run, tokenize_eq run', sim.errors rfl, sim.events rfl]

theorem parse_allow {rule : String} {tokens : List Token} {o : Parse}
    (ran : (g.parse limits rule tokens).result = .ok o) :
    g.parse limits' rule tokens = g.parse limits rule tokens := by
  obtain ⟨s, run⟩ := parse_ok ran
  have follows : View.lasting.Follows Eq
      (Recognizer.outcome ⟨g, .parser, .tokens (.ofList tokens), limits⟩ rule)
      (Recognizer.outcome ⟨g, .parser, .tokens (.ofList tokens), limits'⟩ rule) :=
    Recognizer.follows_outcome rfl depth (fun _ _ => .inl fun _ => trivial) (.inl fun _ => trivial)
  obtain ⟨_, t, run', rfl, sim⟩ := follows.ok (View.lasting_initial fuel) run
  rw [parse_eq run, parse_eq run', sim.events rfl]

end

/-- What goes well under some limits goes the same way under wider ones: tokens,
    outcomes, errors and events are the same. -/
theorem limits_only_cut (g : CompiledGrammar) (limits limits' : Limits)
    (fuel : limits.fuel ≤ limits'.fuel) (depth : limits.depth ≤ limits'.depth) :
    (∀ text tokens, (g.tokenize limits text).result = .ok tokens →
      (g.tokenize limits' text).result = .ok tokens ∧
      (g.tokenize limits' text).errors = (g.tokenize limits text).errors ∧
      (g.tokenize limits' text).events = (g.tokenize limits text).events) ∧
    ∀ rule tokens o, (g.parse limits rule tokens).result = .ok o →
      (g.parse limits' rule tokens).result = .ok o ∧
      (g.parse limits' rule tokens).errors = (g.parse limits rule tokens).errors ∧
      (g.parse limits' rule tokens).events = (g.parse limits rule tokens).events := by
  constructor
  · intro text tokens made
    rw [tokenize_allow fuel depth made]
    exact ⟨made, rfl, rfl⟩
  · intro rule tokens o ran
    rw [parse_allow fuel depth ran]
    exact ⟨ran, rfl, rfl⟩

theorem limits_only_cut_circles :
    let tokens : List Token := [⟨1, "a", ⟨1, 0⟩, 0, 1, []⟩]
    (∃ made, (circles.tokenize ⟨30, 1⟩ "a?").result = .ok made ∧
      (circles.tokenize ⟨30, 1⟩ "a?").errors.length = 1 ∧
      (circles.tokenize {} "a?").result = .ok made ∧
      (circles.tokenize {} "a?").errors = (circles.tokenize ⟨30, 1⟩ "a?").errors ∧
      (circles.tokenize {} "a?").events = (circles.tokenize ⟨30, 1⟩ "a?").events) ∧
    ∃ o, (circles.parse ⟨9, 2⟩ "list" tokens).result = .ok o ∧ o.errors.length = 1 ∧
      (circles.parse {} "list" tokens).result = .ok o ∧
      (circles.parse {} "list" tokens).events = (circles.parse ⟨9, 2⟩ "list" tokens).events := by
  intro tokens
  have made : ∃ made, (circles.tokenize ⟨30, 1⟩ "a?").result = .ok made ∧
      (circles.tokenize ⟨30, 1⟩ "a?").errors.length = 1 := ⟨_, by cbv, by cbv⟩
  have ran : ∃ o, (circles.parse ⟨9, 2⟩ "list" tokens).result = .ok o ∧ o.errors.length = 1 :=
    ⟨_, by cbv, by cbv⟩
  obtain ⟨made, tokenized, errors⟩ := made
  obtain ⟨o, parsed, reported⟩ := ran
  obtain ⟨texts, -⟩ := circles.limits_only_cut ⟨30, 1⟩ {} (by decide) (by decide)
  obtain ⟨-, rules⟩ := circles.limits_only_cut ⟨9, 2⟩ {} (by decide) (by decide)
  obtain ⟨same, -, events⟩ := rules _ _ _ parsed
  exact ⟨⟨made, tokenized, errors, texts _ _ tokenized⟩, o, parsed, reported, same, events⟩

/-! ## Enough steps -/

/-- How many steps are enough to tokenize a text with a number of characters. -/
def lexingBound (g : CompiledGrammar) (depth characters : Nat) : Nat :=
  characters * (g.tokenRules.length * g.ruleBound characters depth)

/-- How many steps are enough to match a rule with a number of tokens. -/
def parsingBound (g : CompiledGrammar) (depth tokens : Nat) : Nat := g.ruleBound tokens depth

section

variable {g : CompiledGrammar} {fuel depth : Nat} {e : RunError}

theorem tokenize_notTired {text : String} (enough : g.lexingBound depth text.length ≤ fuel)
    (ended : (g.tokenize ⟨fuel, depth⟩ text).result = .error e) : e.NotTired := by
  obtain ⟨s, run⟩ := tokenize_error ended
  let r : Recognizer := ⟨g, .lexer, .ofText text, ⟨fuel, depth⟩⟩
  have bounded : Run.EndsWithin RunError.NotTired (g.lexingBound depth text.length) r.tokens := by
    have tokens := r.endsWithin_tokens (Input.endsBy_ofText text)
    rwa [Input.endIndex_ofText] at tokens
  exact bounded.error enough run

theorem parse_notTired {rule : String} {tokens : List Token}
    (enough : g.parsingBound depth (TokenStream.ofList tokens).tokens.size ≤ fuel)
    (ended : (g.parse ⟨fuel, depth⟩ rule tokens).result = .error e) : e.NotTired := by
  obtain ⟨s, run⟩ := parse_error ended
  let r : Recognizer := ⟨g, .parser, .tokens (.ofList tokens), ⟨fuel, depth⟩⟩
  have bounded : Run.EndsWithin RunError.NotTired
      (g.parsingBound depth (TokenStream.ofList tokens).tokens.size) (r.outcome rule) :=
    r.endsWithin_outcome (Input.endsBy_ofList tokens)
  exact bounded.error enough run

end

/-- For every input and every depth there is a number of steps from which on no run uses
    up what is allowed. It is known from the grammar, the depth and the length of the
    input. -/
theorem runs_never_tire (g : CompiledGrammar) (depth : Nat) :
    (∀ text fuel, g.lexingBound depth text.length ≤ fuel → ∀ limit,
      (g.tokenize ⟨fuel, depth⟩ text).result ≠ .error (.outOfFuel limit)) ∧
    ∀ rule tokens fuel, g.parsingBound depth (TokenStream.ofList tokens).tokens.size ≤ fuel →
      ∀ limit, (g.parse ⟨fuel, depth⟩ rule tokens).result ≠ .error (.outOfFuel limit) := by
  constructor
  · intro text fuel enough limit tired
    exact tokenize_notTired enough tired limit rfl
  · intro rule tokens fuel enough limit tired
    exact parse_notTired enough tired limit rfl

/-- The depth stops the rule that calls itself first. The loop around nothing stops by
    itself. -/
theorem runs_never_tire_circles :
    let tokens : List Token := [⟨1, "a", ⟨1, 0⟩, 0, 1, []⟩]
    (circles.lexingBound 1 2 ≤ 1000 ∧ ∀ limit,
      (circles.tokenize ⟨1000, 1⟩ "a?").result ≠ .error (.outOfFuel limit)) ∧
    (circles.parsingBound 2 1 ≤ 1000 ∧ ∀ limit,
      (circles.parse ⟨1000, 2⟩ "list" tokens).result ≠ .error (.outOfFuel limit)) ∧
    (circles.parse ⟨1000, 2⟩ "left" tokens).result = .error (.tooDeep 2) := by
  intro tokens
  have enough : circles.lexingBound 1 2 ≤ 1000 := by decide +kernel
  have enough' : circles.parsingBound 2 1 ≤ 1000 := by decide +kernel
  obtain ⟨texts, -⟩ := circles.runs_never_tire 1
  obtain ⟨-, rules⟩ := circles.runs_never_tire 2
  exact ⟨⟨enough, texts "a?" 1000 enough⟩, ⟨enough', rules "list" tokens 1000 enough'⟩, by cbv⟩

end CompiledGrammar

end SetGrammar
