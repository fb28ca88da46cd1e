import SetGrammar.Proofs.Recognition.Agreement
import SetGrammar.Proofs.Tokenization.Pieces

/-!
# Cutting a text

One stretch cuts off a piece that is not empty, and a whole run cuts the text into
pieces. What each of them becomes is decided by the own matches of the rules.
-/
namespace SetGrammar

/-- A run from a state to another cuts off a piece and records what it becomes. No
    binding is left behind. -/
structure Piece.CutOff (g : CompiledGrammar) (text : String) (p : Piece) (s s' : RunState) :
    Prop where
  index : s'.index = p.stop
  advances : p.start < p.stop
  within : p.stop ≤ text.length
  fits : p.Fits g text
  decided : p.Decided g text
  owns : ∀ called ∈ g.tokenRules, ∃ own, g.Finds text called p.start own
  bindings : s'.bindings = s.bindings
  errors : s'.errors = (p.error? text).toList ++ s.errors
  events : s'.events.filter Event.isCut =
    p.stretch.event?.toList ++ s.events.filter Event.isCut

namespace Recognizer

variable {g : CompiledGrammar} {text : String} {limits : Limits} {start : Nat} {s s' : RunState}

theorem stretchOf_cases (r : Recognizer) (start : Nat) (position : Position) (c : Candidate) :
    (∃ type, c.rule.tokenType = some type ∧ c.rule.command = none ∧
      r.stretchOf start position c =
        .token ⟨type, r.input.text start c.stop, position, start, c.stop, c.bindings⟩) ∨
    (c.rule.tokenType = none ∨ c.rule.command ≠ none) ∧
      r.stretchOf start position c = .skipped c.rule.name (r.input.text start c.stop) := by
  unfold stretchOf
  cases c.rule.tokenType with
  | none => exact .inr ⟨.inl rfl, rfl⟩
  | some type =>
    cases c.rule.command with
    | none => exact .inl ⟨type, rfl, rfl, rfl⟩
    | some command => exact .inr ⟨.inr nofun, rfl⟩

theorem emitStretch_bind_apply {β : Type} {found : Stretch} {f : Unit → Run β} :
    (emitStretch found >>= f) s = f () { s with events := found.event?.toList ++ s.events } := by
  cases found <;> rfl

theorem event_isCut (found : Stretch) :
    found.event?.toList.filter Event.isCut = found.event?.toList := by
  cases found <;> rfl

/-- A stretch is what the best candidate gives, or an error if there is none. -/
theorem stretch_outcome {r : Recognizer} {rules : List CompiledRule} {position : Position}
    {found : Stretch} (run : r.stretch rules start position s = .ok found s') :
    (∃ c s₁, r.bestCandidate start none rules { s with furthest := start } = .ok (some c) s₁ ∧
      found = r.stretchOf start position c ∧
      s' = { s₁ with index := c.stop, events := found.event?.toList ++ s₁.events }) ∨
    ∃ s₁, r.bestCandidate start none rules { s with furthest := start } = .ok none s₁ ∧
      let text := r.input.text start (s₁.furthest + 1)
      found = .unrecognized text ∧
        s' = { s₁ with
          index := r.input.clampIndex (s₁.furthest + 1)
          errors := ⟨.unrecognized (Text.escape text), start, position⟩ :: s₁.errors } := by
  unfold stretch at run
  rw [Run.modify_bind_apply] at run
  obtain ⟨best, s₁, tried, rest⟩ := Run.bind_eq_ok.1 run
  cases best with
  | some c =>
    simp only [emitStretch_bind_apply, Run.seek_bind_apply, Run.pure_eq_ok] at rest
    obtain ⟨rfl, rfl⟩ := rest
    exact .inl ⟨c, s₁, tried, rfl, rfl⟩
  | none =>
    simp only [Run.get_bind_apply, Run.report_bind_apply, Run.seek_bind_apply,
      Run.pure_eq_ok] at rest
    obtain ⟨rfl, rfl⟩ := rest
    exact .inr ⟨s₁, tried, rfl, rfl⟩

/-- A winner gives a piece. -/
theorem stretchOf_decided (limits : Limits) {c : Candidate} (inside : start < text.length)
    (wins : g.Wins text start g.tokenRules c.rule c.stop c.bindings) :
    let p : Piece := ⟨start, c.stop, Recognizer.stretchOf ⟨g, .lexer, .ofText text, limits⟩ start
      (place text start) c⟩
    p.stop ≤ text.length ∧ p.Fits g text ∧ p.BelongsTo c.rule c.stop c.bindings ∧
      p.error? text = none := by
  have within : c.stop ≤ text.length := wins.finds.stop_le (Nat.le_of_lt inside)
  have own : (Input.ofText text).text start c.stop = slice text start c.stop := by
    rw [Input.text_ofText, Nat.min_eq_left within]
  obtain ⟨type, typed, plain, same⟩ | ⟨untyped, same⟩ :=
    stretchOf_cases ⟨g, .lexer, .ofText text, limits⟩ start (place text start) c
  · simp only [same, own]
    exact ⟨within, ⟨rfl, rfl, rfl, rfl⟩, ⟨rfl, typed, plain, rfl⟩, rfl⟩
  · simp only [same, own]
    exact ⟨within, ⟨rfl, c.rule, wins.mem, rfl, c.bindings, wins.finds⟩, ⟨rfl, rfl, untyped⟩, rfl⟩

/-- One stretch. -/
theorem stretch_ok {found : Stretch} (unbound : s.bindings = []) (inside : start < text.length)
    (run : Recognizer.stretch ⟨g, .lexer, .ofText text, limits⟩ g.tokenRules start
      (place text start) s = .ok found s') :
    Piece.CutOff g text ⟨start, s'.index, found⟩ s s' := by
  have first : g.Leads text start [] none := CompiledGrammar.EndBefore.nil
  have empty : ({ s with furthest := start } : RunState).bindings = [] := unbound
  obtain ⟨c, s₁, tried, rfl, rfl⟩ | ⟨s₁, tried, rfl, rfl⟩ := stretch_outcome run
  · obtain ⟨tries, leads, owns⟩ := bestCandidate_ok empty first tried
    obtain ⟨within, fits, belongs, calm⟩ := stretchOf_decided limits inside leads
    exact {
      index := rfl
      advances := leads.advances
      within
      fits
      decided := .inl ⟨c.rule, c.stop, c.bindings, leads, belongs⟩
      owns
      bindings := tries.bindings
      errors := by
        rw [calm]
        exact tries.errors
      events := by
        rw [List.filter_append, event_isCut, tries.cuts] }
  · obtain ⟨tries, leads, owns⟩ := bestCandidate_ok empty first tried
    have beyond : start ≤ s₁.furthest := tries.furthest
    have stop : (Input.ofText text).clampIndex (s₁.furthest + 1) =
        min (s₁.furthest + 1) text.length := by
      rw [Input.clampIndex, Input.endIndex_ofText]
    simp only [stop, Input.text_ofText]
    exact {
      index := rfl
      advances := by
        show start < min (s₁.furthest + 1) text.length
        omega
      within := Nat.min_le_right _ _
      fits := rfl
      decided := .inr ⟨rfl, leads⟩
      owns
      bindings := tries.bindings
      errors := by
        rw [tries.errors]
        rfl
      events := tries.cuts }

/-- What the stretches from an index on make of the text. -/
structure CutsFrom (g : CompiledGrammar) (text : String) (pieces : List Piece) (s s' : RunState) :
    Prop where
  tiles : Tiles s.index pieces text.length
  fits : ∀ p ∈ pieces, p.Fits g text
  decided : ∀ p ∈ pieces, p.Decided g text
  owns : ∀ p ∈ pieces, ∀ called ∈ g.tokenRules, ∃ own, g.Finds text called p.start own
  errors : s'.errors = (pieces.filterMap (·.error? text)).reverse ++ s.errors
  events : s'.events.filter Event.isCut =
    (pieces.filterMap (·.stretch.event?)).reverse ++ s.events.filter Event.isCut

theorem CutsFrom.nil (ended : s.index = text.length) : CutsFrom g text [] s s where
  tiles := by
    rw [ended]
    exact .nil _
  fits := nofun
  decided := nofun
  owns := nofun
  errors := rfl
  events := rfl

theorem CutsFrom.cons {p : Piece} {pieces : List Piece} {s₁ : RunState} (start : p.start = s.index)
    (first : p.CutOff g text s s₁) (rest : CutsFrom g text pieces s₁ s') :
    CutsFrom g text (p :: pieces) s s' where
  tiles := by
    have tiles := rest.tiles
    rw [first.index] at tiles
    rw [← start]
    exact .cons first.advances tiles
  fits := List.forall_mem_cons.2 ⟨first.fits, rest.fits⟩
  decided := List.forall_mem_cons.2 ⟨first.decided, rest.decided⟩
  owns := List.forall_mem_cons.2 ⟨first.owns, rest.owns⟩
  errors := by
    rw [rest.errors, first.errors]
    cases error : p.error? text <;> simp [error]
  events := by
    rw [rest.events, first.events]
    cases event : p.stretch.event? <;> simp [event]

/-- A run of stretches. Every one takes a character at least, so that it comes to
    the end. -/
theorem stretches_ok {characters : Nat} {found all : List Stretch} {position : Position}
    (unbound : s.bindings = []) (enough : text.length ≤ s.index + characters) (inside : s.index ≤ text.length)
    (run : Recognizer.stretches ⟨g, .lexer, .ofText text, limits⟩ g.tokenRules characters
      (place text s.index) found s = .ok (all, position) s') :
    ∃ pieces, CutsFrom g text pieces s s' ∧ all = found.reverse ++ pieces.map Piece.stretch ∧
      position = place text text.length := by
  induction characters generalizing found s with
  | zero =>
    obtain ⟨same, rfl⟩ := Run.pure_eq_ok.1 run
    cases same
    have ended : s.index = text.length := by omega
    exact ⟨[], .nil ended, by simp, by rw [ended]⟩
  | succ characters ih =>
    simp only [stretches, Run.get_bind_apply, Input.endIndex_ofText] at run
    by_cases more : s.index < text.length
    · rw [if_pos more] at run
      obtain ⟨next, s₁, cut, rest⟩ := Run.bind_eq_ok.1 run
      have first := stretch_ok unbound more cut
      have advances : s.index < s₁.index := first.advances
      have within : s₁.index ≤ text.length := first.within
      rw [Run.get_bind_apply, Input.text_ofText, Nat.min_eq_left within,
        place_afterAll (Nat.le_of_lt advances)] at rest
      obtain ⟨pieces, cuts, rfl, position⟩ := ih (first.bindings.trans unbound) (by omega) within rest
      exact ⟨_ :: pieces, .cons rfl first cuts, by simp, position⟩
    · rw [if_neg more] at run
      obtain ⟨same, rfl⟩ := Run.pure_eq_ok.1 run
      cases same
      have ended : s.index = text.length := by omega
      exact ⟨[], .nil ended, by simp, by rw [ended]⟩

/-- A run over the whole text. -/
theorem tokens_ok {tokens : List Token}
    (run : Recognizer.tokens ⟨g, .lexer, .ofText text, limits⟩ (.initial limits) = .ok tokens s') :
    ∃ pieces s₁, CutsFrom g text pieces (.initial limits) s₁ ∧
      tokens = pieces.filterMap (·.stretch.token?) ++
        [.endOfInput (place text text.length) text.length] ∧
      s' = { s₁ with
        events := .token (.endOfInput (place text text.length) text.length) :: s₁.events } := by
  unfold Recognizer.tokens at run
  obtain ⟨⟨found, position⟩, s₁, cut, rest⟩ := Run.bind_eq_ok.1 run
  rw [Input.endIndex_ofText] at cut rest
  obtain ⟨pieces, cuts, rfl, rfl⟩ :=
    stretches_ok (s := .initial limits) rfl (by simp [RunState.initial]) (Nat.zero_le _) cut
  simp only [Run.emit_bind_apply, Run.pure_eq_ok] at rest
  obtain ⟨rfl, rfl⟩ := rest
  refine ⟨pieces, s₁, cuts, ?_, rfl⟩
  rw [List.reverse_nil, List.nil_append, List.filterMap_map]
  rfl

end Recognizer

section Tokenize

variable {g : CompiledGrammar} {limits : Limits} {text : String} {tokens : List Token}

/-- A tokenization cuts the text into pieces that are decided by own matches. -/
theorem tokenize_pieces (made : (g.tokenize limits text).result = .ok tokens) :
    ∃ pieces, (g.tokenize limits text).Cuts g text pieces ∧
      (∀ p ∈ pieces, p.Decided g text) ∧
      ∀ p ∈ pieces, ∀ called ∈ g.tokenRules, ∃ own, g.Finds text called p.start own := by
  obtain ⟨s, run, -⟩ := tokenize_ok made
  obtain ⟨pieces, s₁, cuts, rfl, rfl⟩ := Recognizer.tokens_ok run
  refine ⟨pieces, ?_, cuts.decided, cuts.owns⟩
  rw [tokenize_eq run]
  have errors : s₁.errors = (pieces.filterMap (·.error? text)).reverse :=
    cuts.errors.trans (List.append_nil _)
  have events : s₁.events.filter Event.isCut = (pieces.filterMap (·.stretch.event?)).reverse :=
    cuts.events.trans (List.append_nil _)
  exact {
    tiles := cuts.tiles
    fits := cuts.fits
    result := rfl
    errors := by simp [errors]
    events := by
      rw [List.filter_reverse, List.filter_cons_of_pos rfl, events]
      simp }

/-- A text that is tokenized is cut into pieces, each of which is a token, a dropped
    match or an error with its text and its place, and an end token follows. -/
theorem tokenize_cuts (made : (g.tokenize limits text).result = .ok tokens) :
    ∃ pieces, (g.tokenize limits text).Cuts g text pieces := by
  obtain ⟨pieces, cuts, -⟩ := tokenize_pieces made
  exact ⟨pieces, cuts⟩

/-- The tokens `Pair : aa`, `Run : x=a+` and `Dots : ...`, and line feeds that are
    dropped. -/
def runs : CompiledGrammar :=
  let (_, g) := (Grammar.empty "Runs").addToken "Pair" ⟨{}, [.text ['a', 'a']]⟩
  let (_, g) := g.addToken "Run" ⟨{ quantifier := .plus, label := some "x" }, [.char 'a']⟩
  let (_, g) := g.addToken "Dots" ⟨{}, [.text ['.', '.', '.']]⟩
  ((g.addSkip "Line" ⟨{}, [.char '\n']⟩).compile {}).value

/-- An error covers the dots and the character that stopped them, another one the dot
    at the end. -/
theorem tokenize_cuts_runs :
    ∃ tokens, (runs.tokenize {} "aaa\naa..a.").result = .ok tokens ∧ tokens.length = 3 ∧
      ∃ pieces, (runs.tokenize {} "aaa\naa..a.").Cuts runs "aaa\naa..a." pieces := by
  have ran : ∃ tokens, (runs.tokenize {} "aaa\naa..a.").result = .ok tokens ∧ tokens.length = 3 :=
    ⟨_, by cbv, by cbv⟩
  obtain ⟨tokens, made, count⟩ := ran
  exact ⟨tokens, made, count, tokenize_cuts made⟩

/-- At every piece each token rule has exactly one own match. If one of them is not
    empty, the piece is the longest of them, of the earliest rule, and what was made of
    it is that rule's own. Else, and only else, it is an error. -/
theorem tokenize_takes_longest (made : (g.tokenize limits text).result = .ok tokens) :
    ∃ pieces, (g.tokenize limits text).Cuts g text pieces ∧ ∀ p ∈ pieces,
      (∀ called ∈ g.tokenRules, ∃ own, ∀ own', g.Finds text called p.start own' ↔ own' = own) ∧
      ((∃ called ∈ g.tokenRules, ∃ stop bindings,
          g.Finds text called p.start (some (stop, bindings)) ∧ p.start < stop) →
        ∃ winner stop bindings, g.Wins text p.start g.tokenRules winner stop bindings ∧
          p.BelongsTo winner stop bindings) ∧
      (p.isError = true ↔ ∀ called ∈ g.tokenRules, ∀ stop bindings,
        g.Finds text called p.start (some (stop, bindings)) → stop ≤ p.start) := by
  obtain ⟨pieces, cuts, decided, owns⟩ := tokenize_pieces made
  refine ⟨pieces, cuts, fun p member => ⟨fun called tried => ?_, ?_, ?_⟩⟩
  · obtain ⟨own, finds⟩ := owns p member called tried
    refine ⟨own, fun own' => ⟨fun finds' => finds'.unique finds, ?_⟩⟩
    rintro rfl
    exact finds
  · rintro ⟨called, tried, stop, bindings, finds, advances⟩
    rcases decided p member with belongs | ⟨-, ends⟩
    · exact belongs
    · have := ends called tried stop bindings finds
      omega
  · constructor
    · intro error called tried stop bindings finds
      rcases decided p member with ⟨winner, stop', bindings', -, belongs⟩ | ⟨-, ends⟩
      · exact (belongs.not_isError error).elim
      · exact Nat.le_of_lt_succ (ends called tried stop bindings finds)
    · intro empty
      rcases decided p member with ⟨winner, stop, bindings, wins, -⟩ | ⟨error, -⟩
      · have := wins.advances
        have := empty winner wins.mem stop bindings wins.finds
        omega
      · exact error

/-- Two rules match `aa`, and the first of them gives the token. -/
theorem tokenize_takes_longest_runs :
    ∃ tokens pieces, (runs.tokenize {} "aaa\naa..a.").result = .ok tokens ∧
      (runs.tokenize {} "aaa\naa..a.").Cuts runs "aaa\naa..a." pieces ∧
      ∃ p ∈ pieces, p.start = 4 ∧ ∃ winner bindings,
        runs.Wins "aaa\naa..a." 4 runs.tokenRules winner 6 bindings ∧
        p.BelongsTo winner 6 bindings ∧ winner.tokenType = some 1 := by
  have ran : ∃ first pair last, (runs.tokenize {} "aaa\naa..a.").result = .ok [first, pair, last] ∧
      pair.start = 4 ∧ pair.stop = 6 ∧ pair.type = 1 := ⟨_, _, _, by cbv, by cbv, by cbv, by cbv⟩
  have own : ∃ called s, runs.rule? "Pair" = some called ∧ called.isTokenRule = true ∧
      Recognizer.start ⟨runs, .lexer, .ofText "aaa\naa..a.", {}⟩ called
        { RunState.initial {} with index := 4 } = .ok true s ∧ s.index = 6 :=
    ⟨_, _, by cbv, by cbv, by cbv, by cbv⟩
  obtain ⟨first, pair, last, made, start, stop, type⟩ := ran
  obtain ⟨called, s, found, tried, run, ended⟩ := own
  obtain ⟨pieces, cuts, each⟩ := tokenize_takes_longest made
  have second : pair ∈ [first, pair] := by simp
  obtain ⟨p, member, stretch, begins, ends⟩ := cuts.exists_piece made second
  rw [start] at begins
  rw [stop] at ends
  have own : ∃ called ∈ runs.tokenRules, ∃ stop bindings,
      runs.Finds "aaa\naa..a." called p.start (some (stop, bindings)) ∧ p.start < stop := by
    rw [begins]
    refine ⟨called, List.mem_filter.2 ⟨CompiledGrammar.mem_of_rule? found, tried⟩, s.index,
      s.bindings.reverse, ⟨{}, true, s, run, rfl⟩, ?_⟩
    omega
  obtain ⟨winner, stop', bindings, wins, belongs⟩ := (each p member).2.1 own
  have same : stop' = 6 := belongs.stop.symm.trans ends
  subst same
  have typed := belongs.stretch
  rw [stretch] at typed
  rw [begins] at wins
  exact ⟨_, pieces, made, cuts, p, member, begins, winner, bindings, wins, belongs,
    typed.1.trans (congrArg some type)⟩

end Tokenize

end SetGrammar
