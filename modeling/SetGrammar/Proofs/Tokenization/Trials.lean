import SetGrammar.Proofs.Recognition.Examined
import SetGrammar.Proofs.Tokenization.LongestMatch

/-!
# Trials of rules

A tokenizer tries one rule after another at an index. What they match and bind there,
and the furthest index that they look at, depends only on the characters from that
index through that furthest one.
-/
namespace SetGrammar

/-- Two texts have the same characters from one index through another, where the end
    counts as a character. -/
def SameThrough (a b : String) (first last : Nat) : Prop :=
  ∀ i, first ≤ i → i ≤ last → a.toList[i]? = b.toList[i]?

namespace SameThrough

variable {a b : String} {first last : Nat}

theorem mono (same : SameThrough a b first last) {first' last' : Nat} (later : first ≤ first')
    (sooner : last' ≤ last) : SameThrough a b first' last' :=
  fun i after before => same i (Nat.le_trans later after) (Nat.le_trans before sooner)

theorem take_drop {stop : Nat} (same : SameThrough a b first last)
    (before : first < stop → stop ≤ last + 1) :
    (a.toList.drop first).take (stop - first) = (b.toList.drop first).take (stop - first) := by
  refine List.ext_getElem? fun i => ?_
  rw [List.getElem?_take, List.getElem?_take]
  by_cases inside : i < stop - first
  · rw [if_pos inside, if_pos inside, List.getElem?_drop, List.getElem?_drop]
    exact same _ (Nat.le_add_right _ _) (by omega)
  · rw [if_neg inside, if_neg inside]

theorem agree (same : SameThrough a b first last) :
    (Input.ofText a).Agree (.ofText b) first last where
  symbol? i after before := by
    simp only [Input.ofText, Input.symbol?, List.getElem?_toArray, same i after before]
  captured i j after forward before := by
    have between : (a.toList.drop i).take (j - i) = (b.toList.drop i).take (j - i) :=
      (same.mono after (Nat.le_refl _)).take_drop (by omega)
    by_cases one : j = i + 1
    · have value := same i after (by omega)
      simp only [Input.captured, if_pos one, Input.ofText, Input.value, List.getElem?_toArray,
        value]
    · simp only [Input.captured, if_neg one, Input.ofText, Input.text, List.extract_toArray,
        List.extract_eq_take_drop, between]

end SameThrough

namespace Recognizer

variable {r : Recognizer} {b : Input} {start : Nat} {s s' : RunState}

/-- Tries rules at an index, one after another. -/
def ownMatches (r : Recognizer) (start : Nat) : List CompiledRule → Run (List Found)
  | [] => return []
  | rule :: rest => do
    let own ← r.ownMatch start rule
    let others ← r.ownMatches start rest
    return own :: others

/-! ## Candidates -/

/-- The best candidate among a given one and those of rules with their own matches. -/
def bestOf (start : Nat) : Option Candidate → List CompiledRule → List Found → Option Candidate
  | best, rule :: rest, own :: others =>
    bestOf start (longer best (Candidate.ofOwn? start rule own)) rest others
  | best, _, _ => best

/-- The best candidate is chosen among the own matches of all the rules. -/
theorem bestCandidate_eq (r : Recognizer) (start : Nat) (best : Option Candidate)
    (rules : List CompiledRule) :
    r.bestCandidate start best rules = (do
      let owns ← r.ownMatches start rules
      return bestOf start best rules owns) := by
  induction rules generalizing best with
  | nil =>
    simp only [bestCandidate, ownMatches, pure_bind]
    rfl
  | cons rule rest ih =>
    simp only [bestCandidate, ownMatches, candidate?_eq, ih, bind_assoc, pure_bind]
    rfl

theorem bestCandidate_tries {rules : List CompiledRule} {best c : Option Candidate}
    (run : r.bestCandidate start best rules s = .ok c s') :
    ∃ owns, r.ownMatches start rules s = .ok owns s' ∧ c = bestOf start best rules owns := by
  rw [bestCandidate_eq] at run
  obtain ⟨owns, s₁, tried, rest⟩ := Run.bind_eq_ok.1 run
  obtain ⟨rfl, rfl⟩ := Run.pure_eq_ok.1 rest
  exact ⟨owns, tried, rfl⟩

/-! ## What trials look at -/

/-- A lexer rule that is tried is the same on an input that agrees from the index
    where it is tried through the furthest one that it looked at. -/
theorem ownMatch_reading (lexer : r.kind = .lexer) {rule : CompiledRule} {own : Found}
    (run : r.ownMatch start rule s = .ok own s') :
    s.furthest ≤ s'.furthest ∧
      (r.input.Agree b start s'.furthest → (r.reading b).ownMatch start rule s = .ok own s') := by
  obtain ⟨matched, s₁, tried, found, last⟩ := ownMatch_eq_ok.1 run
  obtain ⟨reads, same⟩ := (examines_rule (b := b) lexer).same tried
  have further : s'.furthest = s₁.furthest := by
    rw [last]
    cases matched <;> rfl
  rw [further]
  exact ⟨reads.furthest, fun agree => ownMatch_eq_ok.2 ⟨matched, s₁, same agree, found, last⟩⟩

/-- Rules that are tried are the same on an input that agrees from the index where they
    are tried through the furthest one that any of them looked at. -/
theorem ownMatches_reading (lexer : r.kind = .lexer) {rules : List CompiledRule}
    {owns : List Found} (run : r.ownMatches start rules s = .ok owns s') :
    s.furthest ≤ s'.furthest ∧
      (r.input.Agree b start s'.furthest →
        (r.reading b).ownMatches start rules s = .ok owns s') := by
  induction rules generalizing s owns with
  | nil =>
    obtain ⟨-, rfl⟩ := Run.pure_eq_ok.1 run
    exact ⟨Nat.le_refl _, fun _ => run⟩
  | cons rule rest ih =>
    unfold ownMatches at run ⊢
    obtain ⟨own, s₁, tried, run⟩ := Run.bind_eq_ok.1 run
    obtain ⟨others, s₂, tries, run⟩ := Run.bind_eq_ok.1 run
    have reached : s₂ = s' := (Run.pure_eq_ok.1 run).2
    subst reached
    obtain ⟨further, same⟩ := ownMatch_reading (b := b) lexer tried
    obtain ⟨further', same'⟩ := ih tries
    refine ⟨Nat.le_trans further further', fun agree => Run.bind_eq_ok.2 ⟨own, s₁, ?_, ?_⟩⟩
    · exact same (agree.mono (Nat.le_refl _) further')
    · exact Run.bind_eq_ok.2 ⟨others, s₂, same' agree, run⟩

theorem silent_ownMatch (lexer : r.kind = .lexer) {rule : CompiledRule} :
    (r.ownMatch start rule).Silent := by
  refine Run.silent_bind (Run.silent_modify fun _ => rfl) fun _ => ?_
  refine Run.silent_bind (examines_rule (b := r.input) lexer).silent fun matched => ?_
  refine Run.silent_ite (fun _ => ?_) fun _ => Run.silent_pure
  exact Run.silent_bind Run.silent_get fun _ =>
    Run.silent_bind Run.silent_takeBindings fun _ => Run.silent_pure

theorem silent_ownMatches (lexer : r.kind = .lexer) {rules : List CompiledRule} :
    (r.ownMatches start rules).Silent := by
  induction rules with
  | nil => exact Run.silent_pure
  | cons rule rest ih =>
    exact Run.silent_bind (silent_ownMatch lexer) fun _ =>
      Run.silent_bind ih fun _ => Run.silent_pure

theorem silent_bestCandidate (lexer : r.kind = .lexer) {best : Option Candidate}
    {rules : List CompiledRule} : (r.bestCandidate start best rules).Silent := by
  rw [bestCandidate_eq]
  exact Run.silent_bind (silent_ownMatches lexer) fun _ => Run.silent_pure

/-! ## What trials come to -/

variable {g : CompiledGrammar} {input : Input} {text : String} {limits : Limits}

/-- A trial shows what ordered choice makes of the rule, after the bindings of the log.
    A match empties the log. -/
theorem ownMatch_ok {rule : CompiledRule} {own : Found}
    (run : Recognizer.ownMatch ⟨g, .lexer, input, limits⟩ start rule s = .ok own s') :
    ∃ o, Yields g input rule.name (.ofBlock rule.body) start o ∧ own = o.foundAfter s.bindings ∧
      s'.bindings = (if own.isSome then [] else s.bindings) ∧
      s'.furthest = max s.furthest o.reach := by
  obtain ⟨matched, s₁, tried, rfl, rfl⟩ := ownMatch_eq_ok.1 run
  obtain ⟨o, yields, shown⟩ := lexer_rule_shown tried
  refine ⟨o, yields, shown.found, ?_⟩
  cases matched with
  | true => exact ⟨rfl, shown.2.1⟩
  | false => exact ⟨shown.bindings_of_false, shown.2.1⟩

/-- Where the matches of rules at an index end and how far the rules look depends on
    nothing else. What they bind depends on the log that they are tried on. -/
theorem ownMatches_unique {rules : List CompiledRule} {limits' : Limits} {owns owns' : List Found}
    {t t' : RunState} (furthest : t.furthest = s.furthest)
    (run : Recognizer.ownMatches ⟨g, .lexer, input, limits⟩ start rules s = .ok owns s')
    (run' : Recognizer.ownMatches ⟨g, .lexer, input, limits'⟩ start rules t = .ok owns' t') :
    owns'.map (Option.map Prod.fst) = owns.map (Option.map Prod.fst) ∧
      t'.furthest = s'.furthest ∧ (t.bindings = s.bindings → owns' = owns) := by
  induction rules generalizing s t owns owns' with
  | nil =>
    obtain ⟨rfl, rfl⟩ := Run.pure_eq_ok.1 run
    obtain ⟨rfl, rfl⟩ := Run.pure_eq_ok.1 run'
    exact ⟨rfl, furthest, fun _ => rfl⟩
  | cons rule rest ih =>
    unfold ownMatches at run run'
    obtain ⟨own, s₁, tried, run⟩ := Run.bind_eq_ok.1 run
    obtain ⟨others, s₂, tries, run⟩ := Run.bind_eq_ok.1 run
    obtain ⟨own', t₁, tried', run'⟩ := Run.bind_eq_ok.1 run'
    obtain ⟨others', t₂, tries', run'⟩ := Run.bind_eq_ok.1 run'
    obtain ⟨rfl, rfl⟩ := Run.pure_eq_ok.1 run
    obtain ⟨rfl, rfl⟩ := Run.pure_eq_ok.1 run'
    obtain ⟨o, yields, found, log, reached⟩ := ownMatch_ok tried
    obtain ⟨o', yields', found', log', reached'⟩ := ownMatch_ok tried'
    cases yields'.unique yields
    have further : t₁.furthest = s₁.furthest := by rw [reached, reached', furthest]
    obtain ⟨stops, last, same⟩ := ih further tries tries'
    refine ⟨?_, last, fun logs => ?_⟩
    · rw [List.map_cons, List.map_cons, stops, found, found', o.foundAfter_stop, o.foundAfter_stop]
    · have owns : own' = own := by rw [found, found', logs]
      rw [owns, same (by rw [log, log', owns, logs])]

/-- A fresh recognizer finds what trials on an empty log find. -/
theorem ownMatches_find {rules : List CompiledRule} {owns : List Found} (unbound : s.bindings = [])
    (run : Recognizer.ownMatches ⟨g, .lexer, .ofText text, limits⟩ start rules s = .ok owns s') :
    List.Forall₂ (fun rule own => g.Finds text rule start own) rules owns := by
  induction rules generalizing s owns with
  | nil =>
    obtain ⟨rfl, rfl⟩ := Run.pure_eq_ok.1 run
    exact .nil
  | cons rule rest ih =>
    unfold ownMatches at run
    obtain ⟨own, s₁, tried, run⟩ := Run.bind_eq_ok.1 run
    obtain ⟨others, s₂, tries, run⟩ := Run.bind_eq_ok.1 run
    obtain ⟨rfl, rfl⟩ := Run.pure_eq_ok.1 run
    obtain ⟨kept, finds⟩ := ownMatch_finds unbound tried
    exact .cons finds (ih (kept.bindings.trans unbound) tries)

/-- A rule whose own match has no characters makes no candidate, whatever is in the
    log. -/
theorem candidate_none {rule : CompiledRule} {own : Found} {c : Option Candidate}
    (finds : g.Finds text rule start own)
    (ends : ∀ stop bindings, own = some (stop, bindings) → stop ≤ start)
    (run : Recognizer.candidate? ⟨g, .lexer, .ofText text, limits⟩ start rule s = .ok c s') :
    c = none := by
  rw [candidate?_eq] at run
  obtain ⟨found, s₁, tried, rest⟩ := Run.bind_eq_ok.1 run
  obtain ⟨rfl, -⟩ := Run.pure_eq_ok.1 rest
  obtain ⟨o, yields, rfl, -⟩ := ownMatch_ok tried
  obtain ⟨o', yields', rfl⟩ := finds.yields
  cases yields'.unique yields
  cases o with
  | failed => rfl
  | matched stop bindings => exact if_neg (Nat.not_lt.2 (ends stop bindings rfl))

/-- Where no own match has a character, no run finds a candidate. -/
theorem bestCandidate_none {rules : List CompiledRule} {c : Option Candidate}
    (owns : ∀ called ∈ rules, ∃ own, g.Finds text called start own)
    (ends : g.EndBefore text start rules (start + 1))
    (run : Recognizer.bestCandidate ⟨g, .lexer, .ofText text, limits⟩ start none rules s =
      .ok c s') : c = none := by
  induction rules generalizing s with
  | nil => exact (Run.pure_eq_ok.1 run).1.symm
  | cons rule rest ih =>
    unfold bestCandidate at run
    obtain ⟨next, s₁, trying, others⟩ := Run.bind_eq_ok.1 run
    obtain ⟨own, finds⟩ := owns rule List.mem_cons_self
    have absent : next = none := by
      refine candidate_none finds (fun stop bindings same => ?_) trying
      exact Nat.le_of_lt_succ (ends rule List.mem_cons_self stop bindings (same ▸ finds))
    subst absent
    exact ih (fun called member => owns called (List.mem_cons_of_mem _ member))
      (fun called member => ends called (List.mem_cons_of_mem _ member)) others

end Recognizer

end SetGrammar
