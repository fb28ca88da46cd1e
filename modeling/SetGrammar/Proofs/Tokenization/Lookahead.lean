import SetGrammar.Proofs.Tokenization.Cutting
import SetGrammar.Proofs.Tokenization.Trials

/-!
# Lookahead

The furthest index that trials at a position look at covers everything that they
depend on. So where an error was reported, a text that agrees from there through the
furthest index gives no token and drops no match.
-/
namespace SetGrammar

namespace CompiledGrammar

/-- Rules that are tried on an empty log at an index of a text have given own matches,
    and the furthest index that they look at is a given one. -/
def Examines (g : CompiledGrammar) (text : String) (start : Nat) (rules : List CompiledRule)
    (owns : List Found) (last : Nat) : Prop :=
  ∃ limits s s', s.bindings = [] ∧ s.furthest = start ∧
    Recognizer.ownMatches ⟨g, .lexer, .ofText text, limits⟩ start rules s = .ok owns s' ∧
    s'.furthest = last

/-- Whatever a run cuts off at an index of a text is an error. -/
structure GivesNothing (g : CompiledGrammar) (text : String) (i : Nat) : Prop where
  stretch : ∀ limits position s found s',
    Recognizer.stretch ⟨g, .lexer, .ofText text, limits⟩ g.tokenRules i position s = .ok found s' →
      ∃ unknown, found = .unrecognized unknown
  tokens : ∀ limits tokens, (g.tokenize limits text).result = .ok tokens → ∀ t ∈ tokens, t.start ≠ i
  pieces : ∀ limits tokens, (g.tokenize limits text).result = .ok tokens →
    ∃ pieces, (g.tokenize limits text).Cuts g text pieces ∧
      ∀ p ∈ pieces, p.start = i → p.isError = true

variable {g : CompiledGrammar} {text text' : String} {start last : Nat}
  {rules : List CompiledRule} {owns : List Found}

namespace Examines

/-- What rules examine at an index does not depend on limits. -/
theorem unique {owns' : List Found} {last' : Nat}
    (examines : g.Examines text start rules owns last)
    (examines' : g.Examines text start rules owns' last') : owns' = owns ∧ last' = last := by
  obtain ⟨limits, s, s', log, began, run, rfl⟩ := examines
  obtain ⟨limits', t, t', log', began', run', rfl⟩ := examines'
  obtain ⟨-, furthest, same⟩ := Recognizer.ownMatches_unique (began'.trans began.symm) run run'
  exact ⟨same (log'.trans log.symm), furthest⟩

/-- Rules examine the same in a text that agrees with what they examined. -/
theorem transfer (examines : g.Examines text start rules owns last)
    (same : SameThrough text text' start last) : g.Examines text' start rules owns last := by
  obtain ⟨limits, s, s', log, began, run, rfl⟩ := examines
  exact ⟨limits, s, s', log, began, (Recognizer.ownMatches_reading rfl run).2 same.agree, rfl⟩

theorem start_le (examines : g.Examines text start rules owns last) : start ≤ last := by
  obtain ⟨limits, s, s', -, rfl, run, rfl⟩ := examines
  exact (Recognizer.ownMatches_reading (b := .ofText text) rfl run).1

/-- Fresh recognizers find what was examined. -/
theorem find (examines : g.Examines text start rules owns last) :
    List.Forall₂ (fun rule own => g.Finds text rule start own) rules owns := by
  obtain ⟨limits, s, s', log, -, run, -⟩ := examines
  exact Recognizer.ownMatches_find log run

theorem exists_finds (examines : g.Examines text start rules owns last) :
    ∀ called ∈ rules, ∃ own, g.Finds text called start own := by
  have finds := examines.find
  clear examines
  induction finds with
  | nil => exact nofun
  | cons found _ ih => exact List.forall_mem_cons.2 ⟨⟨_, found⟩, ih⟩

/-- How far own matches go is told by what was examined. -/
theorem endBefore_iff {stop : Nat} (examines : g.Examines text start rules owns last) :
    g.EndBefore text start rules stop ↔
      ∀ own bindings, some (own, bindings) ∈ owns → own < stop := by
  have finds := examines.find
  -- what was examined is about all of the rules and would be carried through the induction
  clear examines
  induction finds with
  | nil => exact ⟨fun _ => nofun, fun _ => .nil⟩
  | cons found _ ih =>
    constructor
    · intro ends own bindings member
      rcases List.mem_cons.1 member with rfl | member
      · exact ends _ List.mem_cons_self own bindings found
      · exact ih.1 (fun other among => ends other (List.mem_cons_of_mem _ among)) own bindings member
    · intro ends called member own bindings finds
      rcases List.mem_cons.1 member with rfl | member
      · cases finds.unique found
        exact ends own bindings List.mem_cons_self
      · refine ih.2 (fun other more among => ?_) called member own bindings finds
        exact ends other more (List.mem_cons_of_mem _ among)

end Examines

/-- Where no own match has a character, no run finds one. -/
theorem givesNothing_of_endBefore (inside : start < text.length)
    (owns : ∀ called ∈ g.tokenRules, ∃ own, g.Finds text called start own)
    (ends : g.EndBefore text start g.tokenRules (start + 1)) : g.GivesNothing text start := by
  have decided {p : Piece} (decided : p.Decided g text) (there : p.start = start) :
      p.isError = true := by
    subst there
    rcases decided with ⟨winner, stop, bindings, wins, -⟩ | ⟨error, -⟩
    · have := ends winner wins.mem stop bindings wins.finds
      have := wins.advances
      omega
    · exact error
  constructor
  · -- a run that ends early after this stretch is none of those that give pieces
    intro limits position s found s' run
    obtain ⟨c, s₁, tried, -⟩ | ⟨s₁, -, unknown, -⟩ := Recognizer.stretch_outcome run
    · cases Recognizer.bestCandidate_none owns ends tried
    · exact ⟨_, unknown⟩
  · intro limits tokens made t member there
    obtain ⟨pieces, cuts, each, -⟩ := tokenize_pieces made
    have same := Except.ok.inj (made.symm.trans cuts.result)
    subst same
    rcases List.mem_append.1 member with member | member
    · obtain ⟨p, among, stretch, start, -⟩ := cuts.exists_piece made member
      have error := decided (each p among) (start.trans there)
      simp [Piece.isError, stretch] at error
    · cases List.mem_singleton.1 member
      exact Nat.ne_of_gt inside there
  · intro limits tokens made
    obtain ⟨pieces, cuts, each, -⟩ := tokenize_pieces made
    exact ⟨pieces, cuts, fun p member => decided (each p member)⟩

end CompiledGrammar

/-! ## Errors -/

/-- An error is about an index of a text where no token rule matches a character. It
    shows the text through the furthest index that the rules looked at. -/
structure InputError.StandsFor (e : InputError) (g : CompiledGrammar) (text : String)
    (owns : List Found) (last : Nat) : Prop where
  inside : e.index < text.length
  examines : g.Examines text e.index g.tokenRules owns last
  empty : ∀ stop bindings, some (stop, bindings) ∈ owns → stop ≤ e.index
  complaint : e.complaint =
    .unrecognized (Text.escape (slice text e.index (min (last + 1) text.length)))

/-- A text that agrees with what was examined where an error was reported gives
    nothing there. -/
theorem InputError.StandsFor.givesNothing {e : InputError} {g : CompiledGrammar}
    {text text' : String} {owns : List Found} {last : Nat} (stands : e.StandsFor g text owns last)
    (same : SameThrough text text' e.index last) : g.GivesNothing text' e.index := by
  have there := same e.index (Nat.le_refl _) stands.examines.start_le
  have inside : e.index < text'.toList.length := by
    have inside : e.index < text.toList.length := stands.inside
    rw [List.getElem?_eq_getElem inside] at there
    exact (List.getElem?_eq_some_iff.1 there.symm).1
  have examines := stands.examines.transfer same
  refine CompiledGrammar.givesNothing_of_endBefore inside examines.exists_finds ?_
  exact examines.endBefore_iff.2 fun stop bindings member =>
    Nat.lt_succ_of_le (stands.empty stop bindings member)

namespace Run

variable {α β : Type} {P : InputError → Prop}

/-- What a computation adds to the errors has a property if the log is empty when it
    begins, also if it ends early. If it goes well, the log is empty again. -/
structure Adds (P : InputError → Prop) (m : Run α) : Prop where
  errors : ∀ s, s.bindings = [] → ∀ e ∈ (m.stateAfter s).errors, e ∈ s.errors ∨ P e
  bindings : ∀ ⦃s x s'⦄, s.bindings = [] → m s = .ok x s' → s'.bindings = []

theorem Silent.adds {m : Run α} (silent : m.Silent)
    (bindings : ∀ ⦃s x s'⦄, s.bindings = [] → m s = .ok x s' → s'.bindings = []) : m.Adds P := by
  refine ⟨fun s _ e member => ?_, bindings⟩
  rw [silent s] at member
  exact .inl member

theorem adds_pure {x : α} : (pure x : Run α).Adds P := by
  refine silent_pure.adds fun s y s' unbound run => ?_
  obtain ⟨-, rfl⟩ := pure_eq_ok.1 run
  exact unbound

theorem adds_get : (get : Run RunState).Adds P := by
  refine silent_get.adds fun s x s' unbound run => ?_
  obtain ⟨-, rfl⟩ := EStateM.Result.ok.inj run
  exact unbound

theorem adds_emit {e : Event} : (emit e).Adds P := by
  refine silent_emit.adds fun s x s' unbound run => ?_
  obtain ⟨-, rfl⟩ := EStateM.Result.ok.inj run
  exact unbound

theorem adds_bind {m : Run α} {f : α → Run β} (first : m.Adds P) (next : ∀ x, (f x).Adds P) :
    (m >>= f).Adds P := by
  constructor
  · intro s unbound e member
    rw [stateAfter_bind] at member
    have began := first.errors s unbound e
    cases run : m s with
    | ok x s₁ =>
      rw [stateAfter_of_ok run] at began
      rw [run] at member
      rcases (next x).errors s₁ (first.bindings unbound run) e member with member | has
      · exact began member
      · exact .inr has
    | error other s₁ =>
      rw [stateAfter_of_error run] at began
      rw [run] at member
      exact began member
  · intro s y s' unbound run
    obtain ⟨x, s₁, ran, rest⟩ := bind_eq_ok.1 run
    exact (next x).bindings (first.bindings unbound ran) rest

end Run

namespace Recognizer

open Run

variable {g : CompiledGrammar} {text : String} {limits : Limits}

theorem silent_emitStretch {found : Stretch} : (emitStretch found).Silent := by
  cases found with
  | token | skipped => exact silent_emit
  | unrecognized => exact silent_pure

/-- Where no candidate is left, the text through the furthest index is an error. -/
theorem standsFor_of_none {start : Nat} {position : Position} {s s' : RunState}
    (inside : start < text.length) (unbound : s.bindings = []) (began : s.furthest = start)
    (run : Recognizer.bestCandidate ⟨g, .lexer, .ofText text, limits⟩ start none g.tokenRules s =
      .ok none s') :
    let shown := (Input.ofText text).text start (s'.furthest + 1)
    ∃ owns last, InputError.StandsFor ⟨.unrecognized (Text.escape shown), start, position⟩ g text
      owns last := by
  obtain ⟨owns, tried, -⟩ := bestCandidate_tries run
  have first : g.Leads text start [] none := CompiledGrammar.EndBefore.nil
  obtain ⟨-, ends, -⟩ := bestCandidate_ok unbound first run
  have examines : g.Examines text start g.tokenRules owns s'.furthest :=
    ⟨limits, s, s', unbound, began, tried, rfl⟩
  refine ⟨owns, s'.furthest, inside, examines, fun stop bindings member => ?_, ?_⟩
  · exact Nat.le_of_lt_succ (examines.endBefore_iff.1 ends stop bindings member)
  · rw [Input.text_ofText]

/-- Cutting off a stretch leaves the log empty. -/
theorem stretch_bindings {start : Nat} {position : Position} {found : Stretch} {s s' : RunState}
    (unbound : s.bindings = [])
    (run : Recognizer.stretch ⟨g, .lexer, .ofText text, limits⟩ g.tokenRules start position s =
      .ok found s') : s'.bindings = [] := by
  have first : g.Leads text start [] none := CompiledGrammar.EndBefore.nil
  have empty : ({ s with furthest := start } : RunState).bindings = [] := unbound
  obtain ⟨_, s₁, tried, -, rfl⟩ | ⟨s₁, tried, -, rfl⟩ := stretch_outcome run
  · exact (bestCandidate_ok empty first tried).1.bindings.trans unbound
  · exact (bestCandidate_ok empty first tried).1.bindings.trans unbound

/-- Cutting off a stretch adds no error but one about its index. -/
theorem stretch_adds {start : Nat} {position : Position} (inside : start < text.length) :
    (Recognizer.stretch ⟨g, .lexer, .ofText text, limits⟩ g.tokenRules start position).Adds
      fun e => ∃ owns last, e.StandsFor g text owns last := by
  refine ⟨fun s unbound e member => ?_, fun _ _ _ => stretch_bindings⟩
  unfold Recognizer.stretch at member
  rw [stateAfter_bind] at member
  change e ∈ (stateAfter _ { s with furthest := start }).errors at member
  rw [stateAfter_bind] at member
  have quiet : ((Recognizer.bestCandidate ⟨g, .lexer, .ofText text, limits⟩ start none
      g.tokenRules).stateAfter { s with furthest := start }).errors = s.errors :=
    silent_bestCandidate rfl _
  cases run : Recognizer.bestCandidate ⟨g, .lexer, .ofText text, limits⟩ start none g.tokenRules
      { s with furthest := start } with
  | error other s₁ =>
    rw [run] at member
    rw [stateAfter_of_error run] at quiet
    exact .inl (quiet ▸ member)
  | ok best s₁ =>
    rw [run] at member
    rw [stateAfter_of_ok run] at quiet
    cases best with
    | some c =>
      have calm : ∀ found : Stretch, (do
          emitStretch found
          Run.seek c.stop
          return found : Run Stretch).Silent := fun found =>
        silent_bind silent_emitStretch fun _ =>
          silent_bind (silent_modify fun _ => rfl) fun _ => silent_pure
      simp only at member
      rw [calm] at member
      exact .inl (quiet ▸ member)
    | none =>
      rcases List.mem_cons.1 member with rfl | member
      · exact .inr (standsFor_of_none (s := { s with furthest := start }) inside unbound rfl run)
      · exact .inl (quiet ▸ member)

theorem stretches_adds {characters : Nat} {position : Position} {found : List Stretch} :
    (Recognizer.stretches ⟨g, .lexer, .ofText text, limits⟩ g.tokenRules characters position
      found).Adds fun e => ∃ owns last, e.StandsFor g text owns last := by
  induction characters generalizing position found with
  | zero => exact adds_pure
  | succ characters ih =>
    refine adds_bind adds_get fun s => ?_
    simp only
    by_cases more : s.index < (Input.ofText text).endIndex
    · rw [if_pos more]
      rw [Input.endIndex_ofText] at more
      exact adds_bind (stretch_adds more) fun _ => adds_bind adds_get fun _ => ih
    · rw [if_neg more]
      exact adds_pure

theorem tokenize_errors :
    (g.tokenize limits text).errors =
      ((Recognizer.tokens ⟨g, .lexer, .ofText text, limits⟩).stateAfter
        (.initial limits)).errors.reverse := by
  unfold CompiledGrammar.tokenize stateAfter
  simp only [EStateM.run]
  cases Recognizer.tokens ⟨g, .lexer, .ofText text, limits⟩ (.initial limits) with
  | ok => rfl
  | error => rfl

/-- Every error of a tokenization stands for the text that was examined where it was
    reported, also if the run ended early. -/
theorem tokenize_standsFor {e : InputError} (member : e ∈ (g.tokenize limits text).errors) :
    ∃ owns last, e.StandsFor g text owns last := by
  have adds : (Recognizer.tokens ⟨g, .lexer, .ofText text, limits⟩).Adds
      fun e => ∃ owns last, e.StandsFor g text owns last :=
    adds_bind stretches_adds fun _ => adds_bind adds_emit fun _ => adds_pure
  rw [tokenize_errors, List.mem_reverse] at member
  rcases adds.errors (.initial limits) rfl e member with member | stands
  · cases member
  · exact stands

end Recognizer

/-- Trying lexer rules at an index gives the same on every text that agrees from there
    through the furthest index that they looked at, the end included: own matches with
    their ends and bindings, the furthest index and the best candidate. Where own matches
    end and the furthest index do not depend on limits or on what was done before either,
    and bindings only on those that are in the log already. So what an error stands for
    gives no token and drops no match in any such text. -/
theorem furthest_covers_trials (g : CompiledGrammar) (text : String) :
    (∀ limits start rules s owns s',
      Recognizer.ownMatches ⟨g, .lexer, .ofText text, limits⟩ start rules s = .ok owns s' →
      ∀ text', SameThrough text text' start s'.furthest →
        Recognizer.ownMatches ⟨g, .lexer, .ofText text', limits⟩ start rules s = .ok owns s' ∧
        (∀ best,
          Recognizer.bestCandidate ⟨g, .lexer, .ofText text', limits⟩ start best rules s =
            Recognizer.bestCandidate ⟨g, .lexer, .ofText text, limits⟩ start best rules s) ∧
        ∀ limits' t owns' t', t.furthest = s.furthest →
          Recognizer.ownMatches ⟨g, .lexer, .ofText text', limits'⟩ start rules t =
            .ok owns' t' →
          owns'.map (Option.map Prod.fst) = owns.map (Option.map Prod.fst) ∧
          t'.furthest = s'.furthest ∧ (t.bindings = s.bindings → owns' = owns)) ∧
    ∀ limits, ∀ e ∈ (g.tokenize limits text).errors, ∃ owns last, e.StandsFor g text owns last ∧
      ∀ text', SameThrough text text' e.index last → g.GivesNothing text' e.index := by
  constructor
  · intro limits start rules s owns s' run text' same
    have run' : Recognizer.ownMatches ⟨g, .lexer, .ofText text', limits⟩ start rules s =
        .ok owns s' := (Recognizer.ownMatches_reading rfl run).2 same.agree
    refine ⟨run', fun best => ?_, fun limits' t owns' t' began again => ?_⟩
    · rw [Recognizer.bestCandidate_eq, Recognizer.bestCandidate_eq, Run.bind_of_ok run',
        Run.bind_of_ok run]
    · exact Recognizer.ownMatches_unique began run' again
  · intro limits e member
    obtain ⟨owns, last, stands⟩ := Recognizer.tokenize_standsFor member
    exact ⟨owns, last, stands, fun text' same => stands.givesNothing same⟩

/-- The character after two dots was looked at. What follows it was not. -/
theorem furthest_covers_trials_runs :
    ∃ e owns s', (runs.tokenize {} "..a").errors = [e] ∧ e.index = 0 ∧
      e.StandsFor runs "..a" owns 2 ∧ runs.GivesNothing "..aaa..." 0 ∧
      Recognizer.ownMatches ⟨runs, .lexer, .ofText "..aaa...", {}⟩ 0 runs.tokenRules
        (.initial {}) = .ok owns s' ∧ s'.furthest = 2 := by
  have ran : ∃ e owns s', (runs.tokenize {} "..a").errors = [e] ∧ e.index = 0 ∧
      Recognizer.ownMatches ⟨runs, .lexer, .ofText "..a", {}⟩ 0 runs.tokenRules
        (.initial {}) = .ok owns s' ∧ s'.furthest = 2 :=
    ⟨_, _, _, by cbv, by cbv, by cbv, by cbv⟩
  obtain ⟨e, owns, s', errors, index, run, last⟩ := ran
  have same : SameThrough "..a" "..aaa..." 0 2 := by
    intro i _ before
    interval_cases i <;> rfl
  obtain ⟨trials, reported⟩ := furthest_covers_trials runs "..a"
  obtain ⟨owns', last', stands, gives⟩ := reported {} e (errors ▸ List.mem_singleton.2 rfl)
  have examined : runs.Examines "..a" e.index runs.tokenRules owns 2 := by
    rw [index]
    exact ⟨{}, .initial {}, s', rfl, rfl, run, last⟩
  obtain ⟨rfl, rfl⟩ := examined.unique stands.examines
  have tried := (trials {} 0 _ _ _ s' run "..aaa..." (last ▸ same)).1
  rw [index] at gives
  exact ⟨e, owns', s', errors, index, stands, gives _ same, tried, last⟩

end SetGrammar
