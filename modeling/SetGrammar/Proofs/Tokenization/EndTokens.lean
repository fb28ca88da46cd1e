import SetGrammar.Proofs.Compilation.Rules
import SetGrammar.Proofs.Grammar.TokenTypes
import SetGrammar.Proofs.Tokenization.Cutting

/-!
# End tokens

A tokenization ends with an end token. Every other token has the type of a rule that
makes tokens, so that parser rules may name it, unless the type of the end is given to
such a rule. New types are not the type of the end until types run out.
-/
namespace SetGrammar

namespace Grammar

variable {g : Grammar} {options : CompileOptions} {limits : Limits} {text : String}

/-- A token before the last one is a match of a rule that makes tokens. -/
theorem tokenize_makesToken {tokens : List Token}
    (made : ((g.compile options).value.tokenize limits text).result = .ok tokens) :
    ∃ before, tokens = before ++ [.endOfInput (place text text.length) text.length] ∧
      ∀ t ∈ before, ∃ r ∈ g.rules, r.makesToken = true ∧ r.tokenType = some t.type := by
  obtain ⟨pieces, cuts, decided, -⟩ := tokenize_pieces made
  refine ⟨_, Except.ok.inj (made.symm.trans cuts.result), fun t member => ?_⟩
  obtain ⟨p, cut, token⟩ := List.mem_filterMap.1 member
  have stretch := Stretch.token?_eq_some token
  rcases decided p cut with ⟨called, stop, bindings, wins, belongs⟩ | ⟨error, -⟩
  · have own := belongs.stretch
    rw [stretch] at own
    obtain ⟨typed, plain, -⟩ := own
    obtain ⟨compiled, tried⟩ := List.mem_filter.1 wins.mem
    rw [compile_rules] at compiled
    obtain ⟨r, defined, rfl⟩ := List.mem_map.1 compiled
    rw [compiledRule_tokenType] at typed
    rw [compiledRule_command] at plain
    rw [compiledRule_isTokenRule] at tried
    exact ⟨r, defined, by simpa [Rule.makesToken, Rule.isLexer, plain] using tried, typed⟩
  · rw [Piece.isError, stretch] at error
    cases error

/-- Only a rule that is given the type of the end has it, as long as types are left. -/
theorem given_of_endType {name : String} {definitions : List Definition} {r : Rule}
    (left : (empty name).runsOut definitions = false)
    (member : r ∈ (ofDefinitions name definitions).rules) (ends : r.tokenType = some endType) :
    ∃ d ∈ definitions, d.given? = some endType := by
  rcases tokenType_of_mem_rules left member with old | ⟨d, defines, same⟩ | ⟨largest, taken⟩
  · cases old
  · exact ⟨d, defines, same.symm.trans ends⟩
  · cases ends.symm.trans taken

/-- A tokenization ends with an end token. Each token before it is a match of a rule
    that makes tokens of its type, and parser rules may name the type, unless it is
    the type of the end. Then a definition gives this type, or types run out. If neither
    is the case, no other token is an end token. -/
theorem tokenize_types {name : String} {definitions : List Definition} {tokens : List Token}
    (made : (((ofDefinitions name definitions).compile options).value.tokenize limits text).result =
      .ok tokens) :
    let g := ofDefinitions name definitions
    let names := (g.compile options).value.domain .parser
    ∃ before last, tokens = before ++ [last] ∧ last.isEnd = true ∧
      (∀ t ∈ before, (∃ r ∈ g.rules, r.makesToken = true ∧ r.tokenType = some t.type) ∧
        (names.contains t.type = true ∧ t.isEnd = false ∨
          t.isEnd = true ∧ ((∃ d ∈ definitions, d.given? = some endType) ∨
            (empty name).runsOut definitions = true))) ∧
      ((∀ d ∈ definitions, d.given? ≠ some endType) → (empty name).runsOut definitions = false →
        tokens.filter Token.isEnd = [last] ∧ ∀ t ∈ before, names.contains t.type = true) := by
  intro g names
  obtain ⟨before, rfl, each⟩ := tokenize_makesToken made
  have kinds (t : Token) (member : t ∈ before) :
      names.contains t.type = true ∧ t.isEnd = false ∨
        t.isEnd = true ∧ ((∃ d ∈ definitions, d.given? = some endType) ∨
          (empty name).runsOut definitions = true) := by
    obtain ⟨r, defined, -, typed⟩ := each t member
    have most : t.type ≤ names.max :=
      (ofDefinitions_built name definitions).typed r defined t.type typed
    by_cases ends : t.type = endType
    · rw [ends] at typed
      refine .inr ⟨by simp [Token.isEnd, ends], ?_⟩
      cases left : (empty name).runsOut definitions with
      | true => exact .inr rfl
      | false => exact .inl (given_of_endType left defined typed)
    · refine .inl ⟨Domain.contains_iff.2 ⟨Nat.one_le_iff_ne_zero.2 ends, most⟩, ?_⟩
      simp [Token.isEnd, ends]
  refine ⟨before, _, rfl, rfl, fun t member => ⟨each t member, kinds t member⟩, fun free left => ?_⟩
  have inside (t : Token) (member : t ∈ before) :
      names.contains t.type = true ∧ t.isEnd = false := by
    rcases kinds t member with inside | ⟨-, ⟨d, defines, gives⟩ | out⟩
    · exact inside
    · exact (free d defines gives).elim
    · cases left.symm.trans out
  refine ⟨?_, fun t member => (inside t member).1⟩
  have none : before.filter Token.isEnd = [] :=
    List.filter_eq_nil_iff.2 fun t member => by simp [(inside t member).2]
  rw [List.filter_append, none]
  rfl

/-- The tokens `Pair : aa` and `Mark`, which is of type 7, and line feeds that are
    dropped. -/
def lines : List Definition :=
  [.token "Pair" ⟨{}, [.text ['a', 'a']]⟩,
    .rule { name := "Mark", kind := .lexer, tokenType := some 7, body := ⟨{}, [.char '!']⟩ },
    .skip "Line" ⟨{}, [.char '\n']⟩]

/-- Neither the line feed nor the letter at the end, which no rule matches, gives a
    token. -/
theorem tokenize_types_lines :
    let names := ((ofDefinitions "Lines" lines).compile {}).value.domain .parser
    ∃ pair mark last, (((ofDefinitions "Lines" lines).compile {}).value.tokenize {}
        "aa\n!a").result = .ok [pair, mark, last] ∧
      [pair, mark, last].filter Token.isEnd = [last] ∧ pair.type = 1 ∧ mark.type = 7 ∧
      names.contains 1 = true ∧ names.contains 7 = true := by
  intro names
  have ran : ∃ pair mark last, (((ofDefinitions "Lines" lines).compile {}).value.tokenize {}
        "aa\n!a").result = .ok [pair, mark, last] ∧ pair.type = 1 ∧ mark.type = 7 :=
    ⟨_, _, _, by cbv, by cbv, by cbv⟩
  have free : ∀ d ∈ lines, d.given? ≠ some endType := by
    simp [lines, Definition.given?, endType]
  obtain ⟨pair, mark, last, made, pair_type, mark_type⟩ := ran
  obtain ⟨before, last', same, -, -, once⟩ := tokenize_types made
  have same : [pair, mark] ++ [last] = before ++ [last'] := same
  obtain ⟨rfl, ends⟩ := List.append_inj' same rfl
  obtain ⟨one, inside⟩ := once free (by decide)
  rw [← ends] at one
  have pair_inside := inside pair (by simp)
  have mark_inside := inside mark (by simp)
  rw [pair_type] at pair_inside
  rw [mark_type] at mark_inside
  exact ⟨pair, mark, last, made, one, pair_type, mark_type, pair_inside, mark_inside⟩

/-- A rule that is given the type of the end makes end tokens before the end. -/
theorem not_tokenize_ends_once :
    ¬ ∀ (name : String) (definitions : List Definition) (options : CompileOptions)
      (limits : Limits) (text : String) (tokens : List Token),
      (((ofDefinitions name definitions).compile options).value.tokenize limits text).result =
        .ok tokens →
      ∃ before last, tokens = before ++ [last] ∧ last.isEnd = true ∧
        ∀ t ∈ before, t.isEnd = false ∧
          (((ofDefinitions name definitions).compile options).value.domain .parser).contains
            t.type = true := by
  intro all
  let definitions : List Definition :=
    [.rule { name := "E", kind := .lexer, tokenType := some 0, body := ⟨{}, [.char 'e']⟩ }]
  have ran : ∃ first last,
      (((ofDefinitions "Ends" definitions).compile {}).value.tokenize {} "e").result =
        .ok [first, last] ∧ first.isEnd = true :=
    ⟨_, _, by cbv, by cbv⟩
  obtain ⟨first, last, made, ends⟩ := ran
  obtain ⟨before, last', same, -, others⟩ := all _ _ _ _ _ _ made
  have same : [first] ++ [last] = before ++ [last'] := same
  obtain ⟨rfl, -⟩ := List.append_inj' same rfl
  cases ends.symm.trans (others first List.mem_cons_self).1

end Grammar

end SetGrammar
