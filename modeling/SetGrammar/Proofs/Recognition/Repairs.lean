import SetGrammar.Proofs.Leaves
import SetGrammar.Proofs.Recognition.Extent
import SetGrammar.Proofs.Recognition.Meaning

/-!
# Repairs and failures

Where a run needs a symbol and finds another, it repairs the input and goes on, or it
reports a failure that ends all that is open. A repair that takes a symbol as present
counts on the symbol at hand to come next. What is left of the open sequences uses
that symbol up before anything else is reported.
-/
namespace SetGrammar

namespace Complaint

/-- The run goes on as if the input were right. -/
def isRepair : Complaint → Bool
  | missing .. | extraneous .. => true
  | unrecognized _ | mismatched .. | noViableAlternative _ => false

/-- The rule fails. -/
def isFailure : Complaint → Bool
  | mismatched .. | noViableAlternative _ => true
  | unrecognized _ | missing .. | extraneous .. => false

end Complaint

namespace InputError

variable {input : Input} {e e' : InputError}

/-- Where a run may report the next error. The symbol that this one is about is used
    up before, and so is the symbol that was skipped to. -/
def resume (e : InputError) : Nat :=
  match e.complaint with
  | .extraneous .. => e.index + 2
  | .unrecognized _ | .missing .. | .mismatched .. | .noViableAlternative _ => e.index + 1

/-- The run is at an index when it reports an error. For a decision this is where it
    began, and the error shows the symbols from there on. -/
def ReportedAt (input : Input) (e : InputError) (first : Nat) : Prop :=
  match e.complaint with
  | .noViableAlternative found => first ≤ e.index ∧ found = input.shownThrough first e.index
  | .unrecognized _ | .missing .. | .extraneous .. | .mismatched .. => first = e.index

/-- The next error is reported only after the run got over the one before. -/
def Precedes (input : Input) (e e' : InputError) : Prop :=
  ∃ first, e'.ReportedAt input first ∧ e.resume ≤ first

theorem lt_resume (e : InputError) : e.index < e.resume := by
  unfold resume
  split <;> omega

theorem ReportedAt.le {first : Nat} (reported : e.ReportedAt input first) : first ≤ e.index := by
  unfold ReportedAt at reported
  split at reported
  · exact reported.1
  all_goals exact Nat.le_of_eq reported

theorem Precedes.index_lt (precedes : e.Precedes input e') : e.index < e'.index := by
  obtain ⟨first, reported, resumed⟩ := precedes
  have := reported.le
  have := e.lt_resume
  omega

end InputError

/-- Only repairs were reported, one after the other and none behind an index. The
    latest comes first. -/
structure Repaired (input : Input) (last : Nat) (errors : List InputError) : Prop where
  repairs : ∀ e ∈ errors, e.complaint.isRepair = true
  ordered : errors.Pairwise fun e' e => e.Precedes input e'
  inside : ∀ e ∈ errors, e.index ≤ last

/-- A failure was reported after repairs. -/
inductive GivenUp (input : Input) (last : Nat) : List InputError → Prop where
  | failure {e : InputError} {errors : List InputError} :
      e.complaint.isFailure = true → e.index ≤ last → (∀ e' ∈ errors, e'.Precedes input e) →
      Repaired input last errors → GivenUp input last (e :: errors)

theorem Repaired.cons {input : Input} {last : Nat} {errors : List InputError} {e : InputError}
    (repaired : Repaired input last errors) (repair : e.complaint.isRepair = true)
    (inside : e.index ≤ last) (later : ∀ e' ∈ errors, e'.Precedes input e) :
    Repaired input last (e :: errors) where
  repairs := List.forall_mem_cons.2 ⟨repair, repaired.repairs⟩
  ordered := List.pairwise_cons.2 ⟨later, repaired.ordered⟩
  inside := List.forall_mem_cons.2 ⟨inside, repaired.inside⟩

/-- Nothing is reported from one state to another, and the index does not go back or
    behind the end. -/
structure RunState.Onward (last : Nat) (s s' : RunState) : Prop where
  errors : s'.errors = s.errors
  forward : s.index ≤ s'.index
  within : s'.index ≤ max s.index last

theorem RunState.Onward.of_index {last : Nat} {s s' : RunState} (index : s'.index = s.index)
    (errors : s'.errors = s.errors) : s.Onward last s' where
  errors := errors
  forward := Nat.le_of_eq index.symm
  within := index ▸ Nat.le_max_left s'.index last

theorem Trial.Shown.onward {g : CompiledGrammar} {input : Input} {rule : String} {part : Part}
    {last : Nat} {o : Trial} {s s' : RunState} (ends : input.EndsBy last)
    (yields : Yields g input rule part s.index o) (shown : o.Shown s true s') :
    s.Onward last s' := by
  cases o with
  | failed => cases shown.2.2.1
  | matched stop =>
    obtain ⟨-, index, -⟩ := shown_of_matched shown
    obtain ⟨forward, within⟩ := yields.stop_le ends
    rw [← index] at forward within
    exact ⟨shown.1, forward, within⟩

namespace Recognizer

variable {r : Recognizer} {last : Nat} {scope : Scope} {s s' : RunState} {matched : Bool}
  {follow : List CompiledSequence}

/-! ## What can follow -/

section

variable {symbol : Option Nat}

theorem canFollow_done : r.canFollow symbol ([] :: follow) = r.canFollow symbol follow := rfl

/-- The elements of a sequence follow each other as open sequences do. -/
theorem canFollow_cons {e : CompiledElement} {rest : CompiledSequence} :
    r.canFollow symbol ((e :: rest) :: follow) = r.canFollow symbol ([e] :: rest :: follow) := by
  simp only [canFollow, canBegin]
  cases r.transition? e with
  | none => rfl
  | some t =>
    by_cases admits : t.admits symbol
    · simp [admits]
    · by_cases none : t.quantifier.allowsNone <;> simp [admits, none]

theorem canFollow_set {t : Transition} : r.canFollow symbol ([.set t] :: follow) =
    (t.admits symbol || t.quantifier.allowsNone && r.canFollow symbol follow) := by
  simp only [canFollow, canBegin, transition?]
  by_cases admits : t.admits symbol
  · simp [admits]
  · by_cases none : t.quantifier.allowsNone <;> simp [admits, none]

theorem canFollow_call {name : String} {called : CompiledRule}
    (found : r.grammar.rule? name = some called) : r.canFollow symbol ([.call name] :: follow) =
      r.canFollow symbol ([.block called.body] :: follow) := by
  simp only [canFollow, canBegin, transition?, found, Option.bind_some]

end

/-! ## States between repairs -/

/-- A run is over its repairs, or one of them counts on the symbol at hand, and what
    is left can begin with that. -/
structure Ready (r : Recognizer) (last : Nat) (follow : List CompiledSequence) (s : RunState) :
    Prop where
  repaired : Repaired r.input last s.errors
  inside : s.index ≤ last
  resumed : ∀ e ∈ s.errors, e.resume ≤ s.index ∨
    e.resume ≤ s.index + 1 ∧ r.canFollow (r.input.symbol? s.index) follow = true

/-- A match leaves a run ready for what is left, a failure was reported. -/
def Ended (r : Recognizer) (last : Nat) (scope : Scope) (s : RunState) : Bool → Prop
  | true => r.Ready last scope.follow s
  | false => GivenUp r.input last s.errors

/-- Outside of speculation a computation takes runs that are ready for it to an end. -/
def Steady (r : Recognizer) (last : Nat) (scope : Scope) (pending : CompiledSequence)
    (m : Run Bool) : Prop :=
  scope.speculative = false → ∀ ⦃s matched s'⦄, m s = .ok matched s' →
    r.Ready last (pending :: scope.follow) s → r.Ended last scope s' matched

namespace Ready

theorem initial {limits : Limits} : r.Ready last follow (.initial limits) where
  repaired := ⟨nofun, .nil, nofun⟩
  inside := Nat.zero_le last
  resumed := nofun

/-- Nothing counts on a symbol that cannot come next. -/
theorem settled (ready : r.Ready last follow s)
    (unexpected : r.canFollow (r.input.symbol? s.index) follow = false) :
    ∀ e ∈ s.errors, e.resume ≤ s.index := by
  intro e member
  rcases ready.resumed e member with resumed | ⟨-, expected⟩
  · exact resumed
  · cases unexpected.symm.trans expected

theorem of_settled (repaired : Repaired r.input last s.errors) (inside : s.index ≤ last)
    (settled : ∀ e ∈ s.errors, e.resume ≤ s.index) : r.Ready last follow s :=
  ⟨repaired, inside, fun e member => .inl (settled e member)⟩

theorem mono {follow' : List CompiledSequence} (ready : r.Ready last follow s)
    (weaker : r.canFollow (r.input.symbol? s.index) follow = true →
      r.canFollow (r.input.symbol? s.index) follow' = true) : r.Ready last follow' s :=
  ⟨ready.repaired, ready.inside, fun e member => (ready.resumed e member).imp_right
    fun ⟨resumed, expected⟩ => ⟨resumed, weaker expected⟩⟩

theorem onward (ready : r.Ready last follow s) (onward : s.Onward last s') :
    r.Ready last follow s' := by
  obtain ⟨errors, forward, within⟩ := onward
  have inside := ready.inside
  refine ⟨errors ▸ ready.repaired, by omega, ?_⟩
  rw [errors]
  intro e member
  by_cases stays : s'.index = s.index
  · rw [stays]
    exact ready.resumed e member
  · rcases ready.resumed e member with resumed | ⟨resumed, -⟩ <;> exact .inl (by omega)

end Ready

theorem Ended.onward (ended : r.Ended last scope s matched) (onward : s.Onward last s') :
    r.Ended last scope s' matched := by
  cases matched with
  | true => exact Ready.onward ended onward
  | false =>
    have given : GivenUp r.input last s.errors := ended
    show GivenUp r.input last s'.errors
    rwa [onward.errors]

theorem Steady.attempt {pending : CompiledSequence} {m : Run Bool}
    (steady : r.Steady last scope pending m) : r.Steady last scope pending (Run.attempt m) := by
  intro calm s matched s' run ready
  obtain ⟨s₁, tried, rfl⟩ := Run.attempt_eq_ok.1 run
  have ended := steady calm tried ready
  cases matched <;> exact ended

/-! ## Sets -/

theorem ofQuantifier_start {q : Quantifier} :
    (Repetition.ofQuantifier q).state = .start ↔ q.allowsNone = false := by
  cases q <;> decide

/-- After the first round of a set test that fails, the set may be absent or this was
    reported. -/
theorem Round.ended {t : Transition} {success : Bool} (parser : r.kind = .parser)
    (ends : r.input.EndsBy last) (calm : scope.speculative = false)
    (domain : t.domain.kind = .parser)
    (round : r.Round scope t (.ofQuantifier t.quantifier) s s' success)
    (ready : r.Ready last ([.set t] :: scope.follow) s) :
    r.Ended last scope s' (success || t.quantifier.allowsNone) := by
  -- No repair counts on a symbol that a required set refuses.
  have settled (refuses : t.admits (r.input.symbol? s.index) = false)
      (required : t.quantifier.allowsNone = false) : ∀ e ∈ s.errors, e.resume ≤ s.index :=
    ready.settled (by simp [canFollow_set, refuses, required])
  cases round with
  | admitted admits index errors =>
    have inside := ends.lt_of_admits admits
    refine .of_settled (errors ▸ ready.repaired) (by omega) ?_
    rw [errors, index]
    intro e member
    rcases ready.resumed e member with resumed | ⟨resumed, -⟩ <;> omega
  | refused refuses quiet index errors =>
    -- Only a set that may be absent is refused quietly.
    cases optional : t.quantifier.allowsNone with
    | false => cases calm.symm.trans (quiet (ofQuantifier_start.2 optional) parser)
    | true =>
      have ready' : r.Ready last scope.follow s :=
        ready.mono fun expected => by simpa [canFollow_set, refuses, optional] using expected
      exact ready'.onward (.of_index index errors)
  | skipped refuses start admits index errors =>
    have settled := settled refuses (ofQuantifier_start.1 start)
    have inside := ends.lt_of_admits admits
    rw [Bool.true_or]
    refine .of_settled ?_ (by omega) ?_
    · rw [errors]
      exact ready.repaired.cons rfl ready.inside fun e member => ⟨s.index, rfl, settled e member⟩
    · rw [errors, index]
      refine List.forall_mem_cons.2 ⟨Nat.le_refl _, fun e member => ?_⟩
      have := settled e member
      omega
  | conjured refuses start follows index errors =>
    -- The new repair counts on the symbol at hand, which is what the others do not.
    have settled := settled refuses (ofQuantifier_start.1 start)
    rw [Bool.true_or]
    refine ⟨?_, by rw [index]; exact ready.inside, ?_⟩
    · rw [errors]
      exact ready.repaired.cons rfl ready.inside fun e member => ⟨s.index, rfl, settled e member⟩
    · rw [errors, index]
      have counts : s.index + 1 ≤ s.index + 1 ∧
          r.canFollow (r.input.symbol? s.index) scope.follow = true := ⟨Nat.le_refl _, follows⟩
      exact List.forall_mem_cons.2 ⟨.inr counts, fun e member => .inl (settled e member)⟩
  | lost refuses start index errors =>
    have required := ofQuantifier_start.1 start
    have settled := settled refuses required
    rw [required]
    show GivenUp r.input last s'.errors
    rw [errors, Transition.failure, domain]
    exact .failure rfl ready.inside (fun e member => ⟨s.index, rfl, settled e member⟩) ready.repaired

theorem steady_set {t : Transition} (parser : r.kind = .parser) (ends : r.input.EndsBy last)
    (domain : t.domain.kind = .parser) : r.Steady last scope [.set t] (r.set scope t) := by
  intro calm s matched s' run ready
  simp only [set, Run.get_bind_apply] at run
  obtain ⟨left, outcome, s₁, s₂, -, tested, accepted, rest⟩ := repeatSet_succ_ok run
  have testing := Repetition.Testing.ofQuantifier t.quantifier
  -- Only the first round may be required, so that nothing is reported after it.
  have ended := (round_ok tested accepted).ended parser ends calm domain
    ⟨ready.repaired, ready.inside, ready.resumed⟩
  cases succeeds : outcome.succeeds with
  | true =>
    rw [succeeds] at rest ended
    have later (repeats : t.quantifier.repeats = true) : r.Realizes scope
        (r.repeatSet scope t s.fuel ((Repetition.ofQuantifier t.quantifier).step true))
        (.loop (.test t.toSetTest) t.quantifier t.label 1) := by
      have goes := @realizes_repeatSet r scope t s.fuel _ (testing.next repeats)
      rwa [testing.matched_succ] at goes
    obtain ⟨o, yields, shown, rfl⟩ := continues_match testing later rest
    exact Ready.onward ended (shown.onward ends yields)
  | false =>
    rw [succeeds] at rest ended
    obtain ⟨rfl, events, rfl⟩ := continues_failure testing rest
    have least : decide (t.quantifier.least ≤ 0) = t.quantifier.allowsNone := by
      cases t.quantifier <;> rfl
    rw [Bool.false_or, ← least] at ended
    exact ended.onward (.of_index rfl rfl)

/-! ## Branches -/

section Branches

variable {alternatives : List CompiledSequence} {q : Quantifier} {label : Option String}
  {reason : BranchReason}

/-- Recovery does not look into branches, so that a run is over its repairs there. -/
theorem Ready.of_branches {follow' : List CompiledSequence}
    (ready : r.Ready last ([.block (.branches alternatives q label reason)] :: follow) s) :
    r.Ready last follow' s :=
  .of_settled ready.repaired ready.inside (ready.settled rfl)

theorem Steady.of_pending {pending : CompiledSequence} {m : Run Bool}
    (steady : r.Steady last scope pending m) :
    r.Steady last scope [.block (.branches alternatives q label reason)] m := by
  intro calm s matched s' run ready
  exact steady calm run ready.of_branches

theorem steady_decision {choice : Run Bool} (parser : r.kind = .parser)
    (ends : r.input.EndsBy last)
    (realizes : r.Realizes { scope with speculative := true } choice (.choice alternatives)) :
    r.Steady last scope [.block (.branches alternatives q label reason)]
      (r.decision scope true choice) := by
  intro calm s matched s' run ready
  obtain ⟨s₁, chosen, outcome⟩ := decision_ok run
  obtain ⟨o, yields, shown⟩ := realizes.shown_of_speculative rfl chosen
  rcases outcome with ⟨rfl, quiet⟩ | ⟨rfl, -, -, -, rfl⟩
  · obtain rfl := quiet rfl parser calm
    obtain ⟨errors, forward, within⟩ := shown.onward ends yields
    exact ready.of_branches.onward ⟨errors, forward, within⟩
  · -- The failure is about the furthest symbol, which may be later than the decision.
    have settled := ready.settled rfl
    have errors : s₁.errors = s.errors := shown.1
    have furthest : s₁.furthest = max s.index o.reach := shown.2.1
    have reach := yields.reach_le ends ready.inside
    have inside := ready.inside
    show GivenUp r.input last (_ :: s₁.errors)
    rw [errors]
    refine .failure rfl ?_ (fun e member => ⟨s.index, ⟨?_, rfl⟩, settled e member⟩) ready.repaired
    · show s₁.furthest ≤ last
      omega
    · show s.index ≤ s₁.furthest
      omega

/-- The first iteration of a repetition is required, and nothing is reported after
    it. -/
theorem steady_first {pending : CompiledSequence} {m : Run Bool} {next : Iteration → Run Bool}
    (required : r.Steady last scope pending m) (failed : next .failed = pure false)
    (stalled : next .stalled = pure true)
    (advanced : ∀ ⦃s matched s'⦄, next .advanced s = .ok matched s' →
      matched = true ∧ s.Onward last s') :
    r.Steady last scope pending (r.iterate scope label m >>= next) := by
  intro calm s matched s' run ready
  obtain ⟨outcome, s₁, iterated, rest⟩ := Run.bind_eq_ok.1 run
  obtain ⟨found, s₂, tried, ended⟩ := iterate_ok iterated
  have tried := required calm tried ready
  rcases ended with ⟨rfl, rfl, rfl⟩ | ⟨rfl, rfl, events, rfl⟩
  · rw [failed] at rest
    obtain ⟨rfl, rfl⟩ := Run.pure_eq_ok.1 rest
    exact tried
  · split at rest
    · rw [stalled] at rest
      obtain ⟨rfl, rfl⟩ := Run.pure_eq_ok.1 rest
      exact tried.onward (.of_index rfl rfl)
    · obtain ⟨rfl, errors, forward, within⟩ := advanced rest
      exact tried.onward ⟨errors, forward, within⟩

/-- A repetition that may be absent reports nothing. -/
theorem steady_of_absent {m : Run Bool} {body : Body} (ends : r.input.EndsBy last)
    (absent : q.least = 0) (realizes : r.Realizes scope m (.loop body q label 0)) :
    r.Steady last scope [.block (.branches alternatives q label reason)] m := by
  intro calm s matched s' run ready
  obtain ⟨o, yields, outcome⟩ := realizes run
  obtain ⟨stop, bindings, reach, rfl⟩ := yields.loop_matches (Nat.le_of_eq absent)
  rcases outcome with shown | ⟨⟨_, failed⟩, -⟩
  · obtain ⟨rfl, -⟩ := Trial.shown_of_matched shown
    exact ready.of_branches.onward (shown.onward ends yields)
  · cases failed

theorem steady_repeated {body : Body} {mandatory optional : Run Bool}
    (ends : r.input.EndsBy last)
    (required : r.Steady last scope [.block (.branches alternatives q label reason)] mandatory)
    (further : r.Realizes { scope with speculative := true } optional (.body body false))
    (realizes : r.Realizes scope
      (r.repeated q (r.iterate scope label mandatory) (r.iterate scope label optional))
      (.loop body q label 0)) :
    r.Steady last scope [.block (.branches alternatives q label reason)]
      (r.repeated q (r.iterate scope label mandatory) (r.iterate scope label optional)) := by
  cases q with
  | optional | star => exact steady_of_absent ends rfl realizes
  | once =>
    refine steady_first required rfl rfl fun s matched s' run => ?_
    obtain ⟨rfl, rfl⟩ := Run.pure_eq_ok.1 run
    exact ⟨rfl, .of_index rfl rfl⟩
  | plus =>
    refine steady_first required rfl rfl fun s matched s' run => ?_
    simp only [Run.get_bind_apply] at run
    obtain ⟨⟨⟩, s₁, repeated, rest⟩ := Run.bind_eq_ok.1 run
    obtain ⟨rfl, rfl⟩ := Run.pure_eq_ok.1 rest
    obtain ⟨o, yields, shown⟩ :=
      repeatWhile_shown (q := .plus) rfl (Nat.le_refl 1) further repeated
    exact ⟨rfl, shown.onward ends yields⟩

end Branches

/-! ## Sequences -/

variable {call : Scope → String → Run Bool}

theorem steady_sequence_nil : r.Steady last scope [] (r.sequence call scope []) := by
  intro calm s matched s' run ready
  simp only [sequence] at run
  obtain ⟨rfl, rfl⟩ := Run.pure_eq_ok.1 run
  exact ready.mono fun expected => by rwa [canFollow_done] at expected

theorem steady_sequence_cons {e : CompiledElement} {rest : CompiledSequence}
    (first : r.Steady last { scope with follow := rest :: scope.follow } [e]
      (r.element call { scope with follow := rest :: scope.follow } e))
    (others : r.Steady last scope rest (r.sequence call scope rest)) :
    r.Steady last scope (e :: rest) (r.sequence call scope (e :: rest)) := by
  intro calm s matched s' run ready
  obtain ⟨found, s₁, began, next⟩ := sequence_cons_ok run
  have tried := first calm began (ready.mono fun expected => by rwa [canFollow_cons] at expected)
  rcases next with ⟨rfl, continued⟩ | ⟨rfl, rfl, rfl⟩
  · exact others calm continued tried
  · exact tried

/-! ## Bodies of rules -/

/-- What a body of a parser rule relies on. -/
structure SteadyCalls (r : Recognizer) (last : Nat) (call : Scope → String → Run Bool) : Prop where
  parser : r.kind = .parser
  ends : r.input.EndsBy last
  meaning : ∀ scope name, r.Realizes scope (call scope name) (.call name)
  steady : ∀ scope name, r.Steady last scope [.call name] (call scope name)

mutual

/-- If calls are steady, then so is every part of a rule. -/
theorem steady_block (calls : r.SteadyCalls last call) (scope : Scope) : (b : CompiledBlock) →
    (∀ t, .set t ∈ b.leaves → t.domain.kind = .parser) →
    r.Steady last scope [.block b] (r.block call scope b)
  | .set t, tests => by
    intro calm s matched s' run ready
    have domain := tests t (List.mem_singleton_self _)
    exact steady_set calls.parser calls.ends domain calm run (ready.mono id)
  | .branches alternatives q label reason, tests => by
    have tried :=
      realizes_choice calls.meaning { scope with speculative := true } rfl 0 alternatives
    have realizes := realizes_block calls.meaning scope (.branches alternatives q label reason)
    have further := realizes_optional tried
    match alternatives with
    | [only] =>
      have steady := steady_sequence calls scope only fun t member =>
        tests t (List.mem_append_left _ member)
      exact steady_repeated calls.ends steady.attempt.of_pending further realizes
    | [] =>
      exact steady_repeated calls.ends (steady_decision calls.parser calls.ends tried) further
        realizes
    | first :: second :: rest =>
      exact steady_repeated calls.ends (steady_decision calls.parser calls.ends tried) further
        realizes

theorem steady_element (calls : r.SteadyCalls last call) (scope : Scope) :
    (e : CompiledElement) → (∀ t, .set t ∈ e.leaves → t.domain.kind = .parser) →
    r.Steady last scope [e] (r.element call scope e)
  | .set t, tests => steady_set calls.parser calls.ends (tests t (List.mem_singleton_self _))
  | .call name, _ => calls.steady scope name
  | .block b, tests => steady_block calls scope b tests

theorem steady_sequence (calls : r.SteadyCalls last call) (scope : Scope) :
    (elements : List CompiledElement) →
    (∀ t, .set t ∈ leavesOfSequence elements → t.domain.kind = .parser) →
    r.Steady last scope elements (r.sequence call scope elements)
  | [], _ => steady_sequence_nil
  | e :: rest, tests =>
    steady_sequence_cons
      (steady_element calls { scope with follow := rest :: scope.follow } e fun t member =>
        tests t (List.mem_append_left _ member))
      (steady_sequence calls scope rest fun t member => tests t (List.mem_append_right _ member))

end

/-! ## Rules -/

/-- A call is steady if the rules that it may lead to are. -/
theorem steady_call {depth : Nat} {name : String}
    (rules : ∀ called ∈ r.grammar.rules,
      r.Steady last scope [.block called.body] (r.rule depth scope called)) :
    r.Steady last scope [.call name] (r.callAt depth scope name) := by
  intro calm s matched s' run ready
  obtain ⟨called, found, ran⟩ := callAt_ok run
  refine rules called (CompiledGrammar.mem_of_rule? found) calm ran (ready.mono fun expected => ?_)
  rwa [canFollow_call found] at expected

/-- A parser rule is steady, however deep the calls in it are nested. -/
theorem steady_rule {depth : Nat} {called : CompiledRule} (parser : r.kind = .parser)
    (ends : r.input.EndsBy last)
    (tests : ∀ rule ∈ r.grammar.rules, rule.kind = r.kind →
      ∀ t, .set t ∈ rule.body.leaves → t.domain.kind = .parser)
    (member : called ∈ r.grammar.rules) :
    r.Steady last scope [.block called.body] (r.rule depth scope called) := by
  induction depth generalizing scope called with
  | zero => exact fun calm s matched s' run => (rule_zero_ok run).elim
  | succ depth ih =>
    intro calm s matched s' run ready
    obtain ⟨kind, left, s₁, -, tried, rfl⟩ := rule_succ_ok run
    -- Called rules are one level further down, in whatever scope the call is made.
    have calls : r.SteadyCalls last (r.callAt depth) :=
      ⟨parser, ends, fun _ _ => realizes_callAt, fun _ _ => steady_call fun _ => ih⟩
    have body := steady_block calls { scope with rule := called.name } called.body
      (tests called member kind)
    have ended := body.attempt calm tried ⟨ready.repaired, ready.inside, ready.resumed⟩
    exact Ended.onward ended (.of_index rfl rfl)

end Recognizer

end SetGrammar
