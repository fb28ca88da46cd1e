import Mathlib
import SetGrammar.Compilation
import SetGrammar.Parse
import SetGrammar.Proofs.Recognition.Meaning

/-!
# Results of runs

A lexer rule matches just what ordered choice makes of its body, wherever and
after whatever it is tried. A parser rule is clean just when ordered choice
matches its body, and recovery never makes up a clean outcome.
-/
namespace SetGrammar

open Recognizer

/-- The rule `(A x=B | A)*` as a fragment `Pairs` and as a parser rule `pairs`. -/
def pairs : CompiledGrammar :=
  let body : Block := ⟨{ quantifier := .star },
    [.sequence [.reference "A", .block { label := some "x" } [.reference "B"]], .reference "A"]⟩
  let (_, g) := (Grammar.empty "Pairs").addToken "A" ⟨{}, [.char 'a']⟩
  let (_, g) := g.addToken "B" ⟨{}, [.char 'b']⟩
  (((g.addFragment "Pairs" body).addParserRule "pairs" body).compile {}).value

section Lexer

variable {g : CompiledGrammar} {input : Input} {limits : Limits} {depth : Nat} {scope : Scope}
  {called : CompiledRule} {s s' : RunState} {matched : Bool}

/-- A lexer rule reports nothing, so that every run shows the meaning. -/
theorem lexer_rule_shown
    (run : Recognizer.rule ⟨g, .lexer, input, limits⟩ depth scope called s = .ok matched s') :
    ∃ o, Yields g input called.name (.ofBlock called.body) s.index o ∧ o.Shown s matched s' := by
  obtain ⟨o, yields, shown | ⟨-, parser, -⟩⟩ := realizes_rule run
  · exact ⟨o, yields, shown⟩
  · cases parser

/-- Runs of a lexer rule have exactly one meaning at an index, and all of them
    show it, whatever their limits, their surroundings and their states are. -/
theorem lexer_rule_follows_choice
    (run : Recognizer.rule ⟨g, .lexer, input, limits⟩ depth scope called s = .ok matched s') :
    ∃ o, (∀ o', Yields g input called.name (.ofBlock called.body) s.index o' ↔ o' = o) ∧
      o.Shown s matched s' ∧
      ∀ limits' depth' scope' t matched' t', t.index = s.index →
        Recognizer.rule ⟨g, .lexer, input, limits'⟩ depth' scope' called t = .ok matched' t' →
        o.Shown t matched' t' := by
  obtain ⟨o, yields, shown⟩ := lexer_rule_shown run
  have exact (o' : Trial) :
      Yields g input called.name (.ofBlock called.body) s.index o' ↔ o' = o := by
    constructor
    · intro yields'
      exact yields'.unique yields
    · rintro rfl
      exact yields
  refine ⟨o, exact, shown, ?_⟩
  intro limits' depth' scope' t matched' t' index run'
  obtain ⟨o', yields', shown'⟩ := lexer_rule_shown run'
  rw [index] at yields'
  rwa [(exact o').1 yields'] at shown'

/-- The first iteration begins with `A x=B`, fails at its second symbol and leaves no
    trace. -/
theorem lexer_rule_follows_choice_pairs :
    ∃ called s', pairs.rule? "Pairs" = some called ∧
      Recognizer.rule ⟨pairs, .lexer, .ofText "baabab", {}⟩ 2 ⟨"", false, []⟩ called
        { RunState.initial {} with index := 1 } = .ok true s' ∧
      ∃ reach, Yields pairs (.ofText "baabab") called.name (.ofBlock called.body) 1
        (.matched 6 [⟨"Pairs", "x", .char 'b'⟩, ⟨"Pairs", "x", .char 'b'⟩] reach) := by
  have ran : ∃ called s', pairs.rule? "Pairs" = some called ∧
      Recognizer.rule ⟨pairs, .lexer, .ofText "baabab", {}⟩ 2 ⟨"", false, []⟩ called
        { RunState.initial {} with index := 1 } = .ok true s' ∧
      s'.index = 6 ∧ s'.bindings = [⟨"Pairs", "x", .char 'b'⟩, ⟨"Pairs", "x", .char 'b'⟩] :=
    ⟨_, _, by cbv, by cbv, by cbv, by cbv⟩
  obtain ⟨called, s', found, run, index, bound⟩ := ran
  obtain ⟨o, exact, shown, -⟩ := lexer_rule_follows_choice run
  cases o with
  | failed =>
    obtain ⟨failed, -⟩ := Trial.shown_of_failed shown
    cases failed
  | matched stop bindings reach =>
    obtain ⟨-, index', bound'⟩ := Trial.shown_of_matched shown
    have stops : stop = 6 := index'.symm.trans index
    have binds : bindings = [⟨"Pairs", "x", .char 'b'⟩, ⟨"Pairs", "x", .char 'b'⟩] := by
      have reversed := congrArg List.reverse (bound.symm.trans bound')
      simpa [RunState.initial] using reversed.symm
    subst stops binds
    exact ⟨called, s', found, run, reach, (exact _).2 rfl⟩

end Lexer

section Parser

variable {g : CompiledGrammar} {limits : Limits} {rule : String} {tokens : List Token} {o : Parse}

theorem outcome_ok {r : Recognizer} {s s' : RunState} (run : r.outcome rule s = .ok o s') :
    ∃ called matched, r.grammar.rule? rule = some called ∧ r.start called s = .ok matched s' ∧
      o = ⟨called.name, matched, s'.index, r.input.text 0 s'.index, s'.bindings.reverse,
        s'.errors.reverse⟩ := by
  unfold Recognizer.outcome findRule at run
  cases found : r.grammar.rule? rule with
  | none => simp only [found, Run.bind_eq_ok, Run.throw_eq_ok, false_and, exists_false] at run
  | some called =>
    simp only [found, Run.pure_bind_apply] at run
    obtain ⟨matched, s₁, started, rest⟩ := Run.bind_eq_ok.1 run
    rw [Run.get_bind_apply] at rest
    obtain ⟨rfl, rfl⟩ := Run.pure_eq_ok.1 rest
    exact ⟨called, matched, rfl, started, rfl⟩

theorem parse_ok (ran : (g.parse limits rule tokens).result = .ok o) :
    ∃ s, Recognizer.outcome ⟨g, .parser, .tokens (.ofList tokens), limits⟩ rule (.initial limits) =
      .ok o s := by
  cases run : Recognizer.outcome ⟨g, .parser, .tokens (.ofList tokens), limits⟩ rule
      (.initial limits) with
  | ok outcome s =>
    simp only [CompiledGrammar.parse, EStateM.run, run, Except.ok.injEq] at ran
    exact ⟨s, by rw [ran]⟩
  | error => simp [CompiledGrammar.parse, EStateM.run, run] at ran

/-- The outcome of a parse goes with the meaning of the rule. -/
theorem parse_shown (ran : (g.parse limits rule tokens).result = .ok o) :
    ∃ called meaning, g.rule? rule = some called ∧
      Yields g (.tokens (.ofList tokens)) called.name (.ofBlock called.body) 0 meaning ∧
      match meaning with
      | .failed _ => o.isClean = false
      | .matched stop bindings _ => o.isClean = true ∧ o.consumed = stop ∧
        o.text = (Input.tokens (.ofList tokens)).text 0 stop ∧ o.bindings = bindings := by
  obtain ⟨s, outcome⟩ := parse_ok ran
  obtain ⟨called, matched, found, started, rfl⟩ := outcome_ok outcome
  obtain ⟨meaning, yields, shown | ⟨⟨reach, rfl⟩, -, -, more⟩⟩ := realizes_rule started
  · refine ⟨called, meaning, found, yields, ?_⟩
    have errors : s.errors = [] := shown.1
    cases meaning with
    | failed =>
      obtain ⟨rfl, -⟩ := Trial.shown_of_failed shown
      rfl
    | matched stop bindings =>
      obtain ⟨rfl, rfl, bound⟩ := Trial.shown_of_matched shown
      have bound : s.bindings = bindings.reverse := bound.trans (List.append_nil _)
      exact ⟨by simp [Parse.isClean, errors], rfl, rfl, by simp [bound]⟩
  · refine ⟨called, _, found, yields, ?_⟩
    have reported : s.errors ≠ [] := List.ne_nil_of_length_pos (Nat.zero_lt_of_lt more)
    simp [Parse.isClean, reported]

/-- A parse is clean just when ordered choice matches the rule from the first
    token on, and it then uses up and binds what ordered choice does. -/
theorem parse_isClean_iff (ran : (g.parse limits rule tokens).result = .ok o) :
    ∃ called, g.rule? rule = some called ∧
      (o.isClean ↔ ∃ stop bindings reach,
        Yields g (.tokens (.ofList tokens)) called.name (.ofBlock called.body) 0
          (.matched stop bindings reach)) ∧
      ∀ stop bindings reach,
        Yields g (.tokens (.ofList tokens)) called.name (.ofBlock called.body) 0
          (.matched stop bindings reach) → o.consumed = stop ∧ o.bindings = bindings := by
  obtain ⟨called, meaning, found, yields, outcome⟩ := parse_shown ran
  refine ⟨called, found, ?_⟩
  cases meaning with
  | failed reach =>
    have fails {stop reach' : Nat} {bindings : List Binding}
        (matches' : Yields g (.tokens (.ofList tokens)) called.name (.ofBlock called.body) 0
          (.matched stop bindings reach')) : False := by
      cases yields.unique matches'
    constructor
    · rw [outcome]
      exact ⟨nofun, fun ⟨_, _, _, matches'⟩ => (fails matches').elim⟩
    · intro stop bindings reach' matches'
      exact (fails matches').elim
  | matched stop bindings reach =>
    obtain ⟨clean, consumed, -, bound⟩ := outcome
    constructor
    · exact ⟨fun _ => ⟨stop, bindings, reach, yields⟩, fun _ => clean⟩
    · intro stop' bindings' reach' matches'
      cases yields.unique matches'
      exact ⟨consumed, bound⟩

/-- An optional iteration that gets as far as its second token is no error. -/
theorem parse_isClean_iff_pairs :
    let tokens : List Token := [⟨1, "a", ⟨1, 0⟩, 0, 1, []⟩, ⟨2, "b", ⟨1, 1⟩, 1, 2, []⟩,
      ⟨1, "a", ⟨1, 2⟩, 2, 3, []⟩]
    ∃ called o, pairs.rule? "pairs" = some called ∧
      (pairs.parse {} "pairs" tokens).result = .ok o ∧ o.isClean ∧ o.consumed = 3 ∧
      ∃ bindings reach,
        Yields pairs (.tokens (.ofList tokens)) called.name (.ofBlock called.body) 0
          (.matched 3 bindings reach) := by
  intro tokens
  have ran : ∃ o, (pairs.parse {} "pairs" tokens).result = .ok o ∧ o.isClean ∧ o.consumed = 3 :=
    ⟨_, by cbv, by cbv, by cbv⟩
  obtain ⟨o, ran, clean, consumed⟩ := ran
  obtain ⟨called, found, iff, exact⟩ := parse_isClean_iff ran
  obtain ⟨stop, bindings, reach, yields⟩ := iff.1 clean
  have stops : stop = 3 := (exact stop bindings reach yields).1.symm.trans consumed
  subst stops
  exact ⟨called, o, found, ran, clean, consumed, bindings, reach, yields⟩

end Parser

end SetGrammar
