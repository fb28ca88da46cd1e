import SetGrammar.Proofs.Recognition.Adequacy
import SetGrammar.Proofs.Recognition.Extent
import SetGrammar.Proofs.Recognition.Simulation

/-!
# Own matches of rules

What a recognizer that does nothing else finds for a rule at an index of a text.
A tokenizer that tries a rule there on an empty log finds the same, whatever else it
did before, and reports nothing. A match is taken out of the log and a failure leaves
nothing in it, so that the log is empty for the next rule.
-/
namespace SetGrammar

/-- What a fresh recognizer finds for a rule at an index of a text, under limits
    that it does not hit. -/
def CompiledGrammar.Finds (g : CompiledGrammar) (text : String) (called : CompiledRule)
    (start : Nat) (own : Found) : Prop :=
  ∃ limits matched s,
    Recognizer.start ⟨g, .lexer, .ofText text, limits⟩ called
      { RunState.initial limits with index := start } = .ok matched s ∧
    own = if matched then some (s.index, s.bindings.reverse) else none

namespace Trial

/-- What a trial finds if there are bindings in the log already, the latest first. -/
def foundAfter (log : List Binding) : Trial → Found
  | failed _ => none
  | matched stop bindings _ => some (stop, log.reverse ++ bindings)

theorem foundAfter_nil (o : Trial) : o.foundAfter [] = o.found := by
  cases o with
  | failed => rfl
  | matched => rfl

/-- Where a match ends has nothing to do with the log. -/
theorem foundAfter_stop (o : Trial) (log : List Binding) :
    (o.foundAfter log).map Prod.fst = o.found.map Prod.fst := by
  cases o with
  | failed => rfl
  | matched => rfl

/-- A run finds what the trial that it shows finds. -/
theorem Shown.found {o : Trial} {s s' : RunState} {matched : Bool}
    (shown : o.Shown s matched s') :
    (if matched then some (s'.index, s'.bindings.reverse) else none) = o.foundAfter s.bindings := by
  cases o with
  | failed =>
    obtain ⟨rfl, -⟩ := shown_of_failed shown
    rfl
  | matched stop bindings =>
    obtain ⟨rfl, rfl, bound⟩ := shown_of_matched shown
    simp [foundAfter, bound]

/-- A run that does not match leaves the log as it was. -/
theorem Shown.bindings_of_false {o : Trial} {s s' : RunState} (shown : o.Shown s false s') :
    s'.bindings = s.bindings := by
  cases o with
  | failed => exact (shown_of_failed shown).2.2
  | matched => cases (shown_of_matched shown).1

end Trial

namespace CompiledGrammar

variable {g : CompiledGrammar} {text : String} {called : CompiledRule} {start : Nat} {own : Found}

/-- What is found is what ordered choice makes of the rule. -/
theorem Finds.yields (finds : g.Finds text called start own) :
    ∃ o, Yields g (.ofText text) called.name (.ofBlock called.body) start o ∧ own = o.found := by
  obtain ⟨limits, matched, s, run, rfl⟩ := finds
  obtain ⟨o, yields, shown⟩ := lexer_rule_shown run
  exact ⟨o, yields, shown.found.trans o.foundAfter_nil⟩

/-- A rule has one own match at an index, whatever the limits are. -/
theorem Finds.unique {own' : Found} (finds : g.Finds text called start own)
    (finds' : g.Finds text called start own') : own = own' := by
  obtain ⟨o, yields, rfl⟩ := finds.yields
  obtain ⟨o', yields', rfl⟩ := finds'.yields
  rw [yields.unique yields']

theorem Finds.stop_le {stop : Nat} {bindings : List Binding}
    (finds : g.Finds text called start (some (stop, bindings))) (inside : start ≤ text.length) :
    stop ≤ text.length := by
  obtain ⟨o, yields, same⟩ := finds.yields
  have ends := (yields.endsWithin (Input.endsBy_characters _) stop bindings same.symm).2
  simp only [List.size_toArray, String.length_toList] at ends
  exact ends inside

end CompiledGrammar

/-- A state after rules were tried. -/
structure RunState.Tries (s s' : RunState) : Prop where
  bindings : s'.bindings = s.bindings
  errors : s'.errors = s.errors
  furthest : s.furthest ≤ s'.furthest
  cuts : s'.events.filter Event.isCut = s.events.filter Event.isCut

namespace RunState.Tries

variable {s s₁ s' : RunState}

theorem refl (s : RunState) : s.Tries s := ⟨rfl, rfl, Nat.le_refl _, rfl⟩

theorem trans (first : s.Tries s₁) (second : s₁.Tries s') : s.Tries s' where
  bindings := second.bindings.trans first.bindings
  errors := second.errors.trans first.errors
  furthest := Nat.le_trans first.furthest second.furthest
  cuts := second.cuts.trans first.cuts

end RunState.Tries

/-- Only the index and the bindings are the same, and the events about stretches
    are given ones. -/
def View.fresh (log : List Event) : View := ⟨false, fun _ => True, fun _ _ => trivial, (· = log)⟩

/-- The candidate that a rule with an own match makes. -/
def Candidate.ofOwn? (start : Nat) (called : CompiledRule) : Found → Option Candidate
  | some (stop, bindings) => if start < stop then some ⟨called, stop, bindings⟩ else none
  | none => none

namespace Recognizer

/-- Tries a rule at an index. The bindings of a match are taken out of the log. -/
def ownMatch (r : Recognizer) (start : Nat) (rule : CompiledRule) : Run Found := do
  Run.seek start
  if ← r.start rule then
    let stop := (← get).index
    return some (stop, ← Run.takeBindings)
  else return none

/-- A candidate is looked for by trying the rule. -/
theorem candidate?_eq (r : Recognizer) (start : Nat) (rule : CompiledRule) :
    r.candidate? start rule = (do
      let own ← r.ownMatch start rule
      return Candidate.ofOwn? start rule own) := by
  simp only [candidate?, ownMatch, bind_assoc]
  refine bind_congr fun _ => bind_congr fun matched => ?_
  cases matched with
  | false => rfl
  | true => rfl

variable {g : CompiledGrammar} {text : String} {limits : Limits} {start : Nat}
  {called : CompiledRule} {own : Found} {s s' : RunState}

/-- A rule is tried on the log at hand, which is empty after a match and not touched
    else. -/
theorem ownMatch_eq_ok {r : Recognizer} :
    r.ownMatch start called s = .ok own s' ↔
      ∃ matched s₁, r.start called { s with index := start } = .ok matched s₁ ∧
        own = (if matched then some (s₁.index, s₁.bindings.reverse) else none) ∧
        s' = if matched then { s₁ with bindings := [] } else s₁ := by
  unfold ownMatch
  rw [Run.seek_bind_apply, Run.bind_eq_ok]
  refine exists_congr fun matched => exists_congr fun s₁ => and_congr_right fun _ => ?_
  cases matched with
  | false => simp [eq_comm]
  | true =>
    rw [if_pos rfl, if_pos rfl, if_pos rfl, Run.get_bind_apply, Run.takeBindings_bind_apply,
      Run.pure_eq_ok]
    exact and_congr eq_comm eq_comm

/-- A rule that is tried on an empty log leaves an empty one, and a fresh recognizer
    finds the same. -/
theorem ownMatch_finds (unbound : s.bindings = [])
    (run : Recognizer.ownMatch ⟨g, .lexer, .ofText text, limits⟩ start called s = .ok own s') :
    s.Tries s' ∧ g.Finds text called start own := by
  obtain ⟨matched, s₁, started, rfl, rfl⟩ := ownMatch_eq_ok.1 run
  obtain ⟨o, yields, shown⟩ := lexer_rule_shown started
  have sim : (View.fresh (s.events.filter Event.isCut)).Sim { s with index := start }
      { RunState.initial ⟨s.fuel, limits.depth⟩ with index := start } :=
    ⟨rfl, unbound, Nat.le_refl _, nofun, nofun, nofun, rfl⟩
  have follows : (View.fresh (s.events.filter Event.isCut)).Follows Eq
      (Recognizer.start ⟨g, .lexer, .ofText text, limits⟩ called)
      (Recognizer.start ⟨g, .lexer, .ofText text, ⟨s.fuel, limits.depth⟩⟩ called) :=
    follows_start (.inr rfl) (Nat.le_refl _) (.inl fun _ => trivial)
  obtain ⟨_, t', run', rfl, sim'⟩ := follows.ok sim started
  have further : s.furthest ≤ s₁.furthest := by
    rw [shown.2.1]
    exact Nat.le_max_left _ _
  have finds : g.Finds text called start
      (if matched then some (s₁.index, s₁.bindings.reverse) else none) :=
    ⟨⟨s.fuel, limits.depth⟩, matched, t', run', by rw [sim'.index, sim'.bindings]⟩
  refine ⟨?_, finds⟩
  cases matched with
  | false => exact ⟨shown.bindings_of_false, shown.1, further, sim'.cuts⟩
  | true => exact ⟨unbound.symm, shown.1, further, sim'.cuts⟩

/-- A candidate is what the own match of the rule makes. -/
theorem candidate_ok {c : Option Candidate} (unbound : s.bindings = [])
    (run : Recognizer.candidate? ⟨g, .lexer, .ofText text, limits⟩ start called s = .ok c s') :
    s.Tries s' ∧ ∃ own, g.Finds text called start own ∧ c = Candidate.ofOwn? start called own := by
  rw [candidate?_eq] at run
  obtain ⟨own, s₁, tried, rest⟩ := Run.bind_eq_ok.1 run
  obtain ⟨rfl, rfl⟩ := Run.pure_eq_ok.1 rest
  obtain ⟨tries, finds⟩ := ownMatch_finds unbound tried
  exact ⟨tries, own, finds, rfl⟩

end Recognizer

end SetGrammar
