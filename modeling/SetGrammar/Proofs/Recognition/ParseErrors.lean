import Mathlib
import SetGrammar.Proofs.Compilation.Links
import SetGrammar.Proofs.Recognition.Adequacy
import SetGrammar.Proofs.Recognition.Repairs

/-!
# Errors of a parse

A parse reports repairs, and a failure after them just if the rule fails. Each error
is about a later token than the one before, since a run uses up what a repair counts
on before it reports anything else.
-/
namespace SetGrammar

theorem Input.text_self (input : Input) (i : Nat) : input.text i i = "" := by
  cases input <;> simp [text, String.join]

namespace GivenUp

variable {input : Input} {last : Nat} {errors : List InputError}

theorem ordered (given : GivenUp input last errors) :
    errors.Pairwise fun e' e => e.Precedes input e' := by
  obtain ⟨-, -, later, repaired⟩ := given
  exact List.pairwise_cons.2 ⟨later, repaired.ordered⟩

theorem inside (given : GivenUp input last errors) : ∀ e ∈ errors, e.index ≤ last := by
  obtain ⟨-, inside, -, repaired⟩ := given
  exact List.forall_mem_cons.2 ⟨inside, repaired.inside⟩

/-- The failure is the last one in the order of the reports. -/
theorem reverse_eq (given : GivenUp input last errors) : ∃ repairs e,
    errors.reverse = repairs ++ [e] ∧ (∀ e ∈ repairs, e.complaint.isRepair = true) ∧
      e.complaint.isFailure = true := by
  cases given with
  | @failure e repairs failure _ _ repaired =>
    refine ⟨repairs.reverse, e, List.reverse_cons, fun e' member => ?_, failure⟩
    exact repaired.repairs e' (List.mem_reverse.1 member)

end GivenUp

namespace Complaint

variable {c : Complaint}

theorem not_isFailure_of_isRepair (repair : c.isRepair = true) : c.isFailure = false := by
  cases c <;> first | rfl | cases repair

theorem recognized (known : c.isRepair = true ∨ c.isFailure = true) (text : String) :
    c ≠ .unrecognized text := by
  rintro rfl
  rcases known with known | known <;> cases known

end Complaint

namespace Grammar

variable {g : Grammar} {options : CompileOptions} {limits : Limits} {rule : String}
  {tokens : List Token} {o : Parse}

/-- A rule that matches leaves repairs behind, a rule that fails nothing but errors. -/
theorem parse_ended (ran : ((g.compile options).value.parse limits rule tokens).result = .ok o) :
    let input := Input.tokens (.ofList tokens)
    let last := (TokenStream.ofList tokens).tokens.size
    match o.matched with
    | true => Repaired input last o.errors.reverse
    | false => GivenUp input last o.errors.reverse ∧
      o.consumed = 0 ∧ o.text = "" ∧ o.bindings = [] := by
  intro input last
  obtain ⟨s, outcome⟩ := parse_ok ran
  obtain ⟨called, matched, found, started, rfl⟩ := outcome_ok outcome
  have tests : ∀ r ∈ (g.compile options).value.rules, r.kind = .parser →
      ∀ t, .set t ∈ r.body.leaves → t.domain.kind = .parser :=
    fun r member kind t leaf => (compile_leaf_kind member leaf).trans kind
  have ended := Recognizer.steady_rule rfl (Input.endsBy_ofList tokens) tests
    (CompiledGrammar.mem_of_rule? found) rfl started .initial
  rw [List.reverse_reverse]
  cases matched with
  | true => exact ended.repaired
  | false =>
    obtain ⟨index, bindings⟩ := Recognizer.rule_failed started
    have index : s.index = 0 := index
    have bindings : s.bindings = [] := bindings
    refine ⟨ended, index, ?_, ?_⟩
    · rw [index, Input.text_self]
    · rw [bindings, List.reverse_nil]

/-- What is reported are repairs and, just if the rule fails, the failure as the last
    error. A rule that fails uses up and binds nothing. -/
theorem compile_tells_failure (g : Grammar) (options : CompileOptions) (limits : Limits)
    (rule : String) (tokens : List Token) (o : Parse)
    (ran : ((g.compile options).value.parse limits rule tokens).result = .ok o) :
    (o.matched = false ↔ ∃ e ∈ o.errors, e.complaint.isFailure = true) ∧
      (∃ repairs, (∀ e ∈ repairs, e.complaint.isRepair = true) ∧
        (o.errors = repairs ∨ ∃ e, e.complaint.isFailure = true ∧ o.errors = repairs ++ [e])) ∧
      (∀ e ∈ o.errors, ∀ text, e.complaint ≠ .unrecognized text) ∧
      (o.matched = false →
        o.errors ≠ [] ∧ o.consumed = 0 ∧ o.text = "" ∧ o.bindings = []) := by
  have ended := parse_ended ran
  cases matched : o.matched with
  | true =>
    simp only [matched] at ended
    have repairs : ∀ e ∈ o.errors, e.complaint.isRepair = true :=
      fun e member => ended.repairs e (List.mem_reverse.2 member)
    refine ⟨⟨nofun, ?_⟩, ⟨o.errors, repairs, .inl rfl⟩, ?_, nofun⟩
    · rintro ⟨e, member, failure⟩
      cases (Complaint.not_isFailure_of_isRepair (repairs e member)).symm.trans failure
    · exact fun e member => Complaint.recognized (.inl (repairs e member))
  | false =>
    simp only [matched] at ended
    obtain ⟨given, nothing⟩ := ended
    obtain ⟨errors, e, same, repairs, failure⟩ := given.reverse_eq
    rw [List.reverse_reverse] at same
    rw [same]
    refine ⟨⟨fun _ => ⟨e, by simp, failure⟩, fun _ => rfl⟩,
      ⟨errors, repairs, .inr ⟨e, failure, rfl⟩⟩, ?_, fun _ => ⟨by simp, nothing⟩⟩
    intro e' member
    rcases List.mem_append.1 member with member | member
    · exact Complaint.recognized (.inl (repairs e' member))
    · rw [List.mem_singleton.1 member]
      exact Complaint.recognized (.inr failure)

/-- The rules `row : A B` and `table : row+ C D`. -/
def table : Grammar :=
  let (_, g) := (Grammar.empty "Table").addToken "A" ⟨{}, [.char 'a']⟩
  let (_, g) := g.addToken "B" ⟨{}, [.char 'b']⟩
  let (_, g) := g.addToken "C" ⟨{}, [.char 'c']⟩
  let (_, g) := g.addToken "D" ⟨{}, [.char 'd']⟩
  let g := g.addParserRule "row" ⟨{}, [.sequence [.reference "A", .reference "B"]]⟩
  g.addParserRule "table" ⟨{}, [.sequence [.block { quantifier := .plus } [.reference "row"],
    .reference "C", .reference "D"]]⟩

/-- The first row lacks `B`, and what comes after `C` cannot be repaired. -/
theorem compile_tells_failure_table :
    let tokens : List Token := [⟨1, "a", ⟨1, 0⟩, 0, 1, []⟩, ⟨3, "c", ⟨1, 1⟩, 1, 2, []⟩,
      ⟨1, "a", ⟨1, 2⟩, 2, 3, []⟩]
    ∃ o, ((table.compile {}).value.parse {} "table" tokens).result = .ok o ∧
      o.errors.map (·.complaint) = [.missing "B" "c", .mismatched "a" "D"] ∧
      o.matched = false ∧ o.consumed = 0 ∧ o.text = "" ∧ o.bindings = [] := by
  intro tokens
  have ran : ∃ o, ((table.compile {}).value.parse {} "table" tokens).result = .ok o ∧
      o.errors.map (·.complaint) = [.missing "B" "c", .mismatched "a" "D"] :=
    ⟨_, by cbv, by cbv⟩
  obtain ⟨o, ran, errors⟩ := ran
  obtain ⟨iff, -, -, nothing⟩ := compile_tells_failure table {} {} "table" tokens o ran
  have given : Complaint.mismatched "a" "D" ∈ o.errors.map (·.complaint) := by simp [errors]
  obtain ⟨e, member, same⟩ := List.mem_map.1 given
  have failed : o.matched = false := iff.2 ⟨e, member, by rw [same]; rfl⟩
  exact ⟨o, ran, errors, failed, (nothing failed).2⟩

/-- Each error is about a later token than the one before, the end included. The run
    used up what the one before counted on when it reports the next. -/
theorem compile_errors_advance (g : Grammar) (options : CompileOptions) (limits : Limits)
    (rule : String) (tokens : List Token) (o : Parse)
    (ran : ((g.compile options).value.parse limits rule tokens).result = .ok o) :
    o.errors.Pairwise (fun e e' => e.index < e'.index) ∧
      o.errors.Pairwise (InputError.Precedes (.tokens (.ofList tokens))) ∧
      ∀ e ∈ o.errors, e.index ≤ (TokenStream.ofList tokens).tokens.size := by
  have ended := parse_ended ran
  have told : o.errors.reverse.Pairwise (fun e' e => e.Precedes (.tokens (.ofList tokens)) e') ∧
      ∀ e ∈ o.errors.reverse, e.index ≤ (TokenStream.ofList tokens).tokens.size := by
    cases matched : o.matched <;> simp only [matched] at ended
    · exact ⟨ended.1.ordered, ended.1.inside⟩
    · exact ⟨ended.ordered, ended.inside⟩
  obtain ⟨ordered, inside⟩ := told
  rw [List.pairwise_reverse] at ordered
  refine ⟨ordered.imp fun precedes => precedes.index_lt, ordered, fun e member => ?_⟩
  exact inside e (List.mem_reverse.2 member)

/-- The first row lacks `B`, and there is one `a` too many after `C`. -/
theorem compile_errors_advance_table :
    let tokens : List Token := [⟨1, "a", ⟨1, 0⟩, 0, 1, []⟩, ⟨3, "c", ⟨1, 1⟩, 1, 2, []⟩,
      ⟨1, "a", ⟨1, 2⟩, 2, 3, []⟩, ⟨4, "d", ⟨1, 3⟩, 3, 4, []⟩]
    ∃ o e e', ((table.compile {}).value.parse {} "table" tokens).result = .ok o ∧
      o.errors = [e, e'] ∧ e.complaint = .missing "B" "c" ∧ e'.complaint = .extraneous "a" "D" ∧
      e.index < e'.index ∧ e.Precedes (.tokens (.ofList tokens)) e' ∧ e'.index ≤ 4 := by
  intro tokens
  have ran : ∃ o e e', ((table.compile {}).value.parse {} "table" tokens).result = .ok o ∧
      o.errors = [e, e'] ∧ e.complaint = .missing "B" "c" ∧ e'.complaint = .extraneous "a" "D" :=
    ⟨_, _, _, by cbv, by cbv, by cbv, by cbv⟩
  obtain ⟨o, e, e', ran, errors, missing, extraneous⟩ := ran
  obtain ⟨advance, ordered, inside⟩ := compile_errors_advance table {} {} "table" tokens o ran
  rw [errors] at advance ordered inside
  have later : e.index < e'.index := by simpa using advance
  have precedes : e.Precedes (.tokens (.ofList tokens)) e' := by simpa using ordered
  exact ⟨o, e, e', ran, errors, missing, extraneous, later, precedes, inside e' (by simp)⟩

end Grammar

end SetGrammar
